import Mathlib.Data.List.Nodup
import Mathlib.Data.List.Perm.Basic
import Mathlib.Data.List.Sort

/-!
# Tables with a primary key

A table is a list of rows whose keys differ: the constraint is a field, so a table that breaks it cannot be
built. `insert` fails on a taken key, as the database does; `update` takes a row function that keeps the key;
`upsert` is `INSERT … ON CONFLICT DO UPDATE`.

Two relations say how a table may move along an order `le` of its rows: `Persists`, no row is lost, and
`Continues`, no row appears under a key in use. Each statement has one lemma for each of them.
-/

namespace Lib

/-- Rows with pairwise different keys. -/
structure Table (α : Type) {κ : Type} (key : α → κ) where
  rows : List α
  nodup : (rows.map key).Nodup

namespace Table

variable {α κ : Type} {key : α → κ}

instance : Membership α (Table α key) := ⟨fun t a => a ∈ t.rows⟩

variable {a : α}

variable {t : Table α key} {cond : α → Bool} {f : α → α} {hf : ∀ a, key (f a) = key a} {b : α}

theorem mem_def : a ∈ t ↔ a ∈ t.rows := Iff.rfl

def empty : Table α key := ⟨[], List.nodup_nil⟩

instance : EmptyCollection (Table α key) := ⟨empty⟩

@[simp] theorem not_mem_empty (a : α) : a ∉ (∅ : Table α key) := List.not_mem_nil

/-- `UPDATE … SET … WHERE …`; the columns set never include the key. -/
def update (t : Table α key) (cond : α → Bool) (f : α → α) (hf : ∀ a, key (f a) = key a) : Table α key where
  rows := t.rows.map fun a => if cond a then f a else a
  nodup := by
    have hmap : (t.rows.map fun a => if cond a then f a else a).map key = t.rows.map key := by
      rw [List.map_map]
      refine List.map_congr_left ?_
      intro a _
      show key (if cond a then f a else a) = key a
      split
      · exact hf a
      · rfl
    rw [hmap]
    exact t.nodup

/-- `DELETE … WHERE …`. -/
def delete (t : Table α key) (cond : α → Bool) : Table α key where
  rows := t.rows.filter fun a => !cond a
  nodup := t.nodup.sublist (List.filter_sublist.map key)

/-- `SELECT COUNT(*) … WHERE …`. -/
def count (t : Table α key) (cond : α → Bool) : Nat := t.rows.countP cond

theorem eq_of_key (ha : a ∈ t) (hb : b ∈ t) (h : key a = key b) : a = b :=
  List.inj_on_of_nodup_map t.nodup ha hb h

theorem mem_update : b ∈ t.update cond f hf ↔ ∃ a ∈ t, (if cond a then f a else a) = b :=
  List.mem_map

theorem mem_update_of_mem (hf : ∀ a, key (f a) = key a) (ha : a ∈ t) (hc : cond a = true) : f a ∈ t.update cond f hf :=
  mem_update.mpr ⟨a, ha, if_pos hc⟩

theorem mem_update_of_not (hf : ∀ a, key (f a) = key a) (ha : a ∈ t) (hc : cond a = false) : a ∈ t.update cond f hf :=
  mem_update.mpr ⟨a, ha, by simp [hc]⟩

/-- A row after an update is one that it does not touch, or one that it changed. -/
theorem mem_update_cases (h : b ∈ t.update cond f hf) : (b ∈ t ∧ cond b = false) ∨ ∃ a ∈ t, cond a = true ∧ b = f a := by
  obtain ⟨a, ha, hab⟩ := mem_update.mp h
  cases hc : cond a with
  | false =>
    obtain rfl : a = b := by simpa [hc] using hab
    exact .inl ⟨ha, hc⟩
  | true => exact .inr ⟨a, ha, hc, by simpa [hc] using hab.symm⟩

theorem mem_delete : b ∈ t.delete cond ↔ b ∈ t ∧ cond b = false := by
  simp [mem_def, delete]

/-! ## How tables move -/

variable {le : α → α → Prop} {used used' : κ → Prop} {t' t'' : Table α key}

/-- Every row of `t` is still there, moved along `le`. -/
def Persists (le : α → α → Prop) (t t' : Table α key) : Prop := ∀ a ∈ t, ∃ b ∈ t', le a b

/-- Every row of `t'` continues a row of `t`, or its key is not in use. -/
def Continues (le : α → α → Prop) (used : κ → Prop) (t t' : Table α key) : Prop :=
  ∀ b ∈ t', (∃ a ∈ t, le a b) ∨ ¬ used (key b)

theorem Persists.refl (hle : ∀ a, le a a) (t : Table α key) : Persists le t t := by
  intro a ha
  exact ⟨a, ha, hle a⟩

theorem Persists.trans (hle : ∀ a b c, le a b → le b c → le a c) (h : Persists le t t') (h' : Persists le t' t'') :
    Persists le t t'' := by
  intro a ha
  obtain ⟨b, hb, hab⟩ := h a ha
  obtain ⟨c, hc, hbc⟩ := h' b hb
  exact ⟨c, hc, hle a b c hab hbc⟩

theorem Persists.update (hf : ∀ a, key (f a) = key a) (hle : ∀ a, le a a) (h : ∀ a ∈ t, cond a = true → le a (f a)) :
    Persists le t (t.update cond f hf) := by
  intro a ha
  refine ⟨_, mem_update.mpr ⟨a, ha, rfl⟩, ?_⟩
  split
  · exact h a ha ‹_›
  · exact hle a

theorem Continues.refl (hle : ∀ a, le a a) (t : Table α key) : Continues le used t t := by
  intro a ha
  exact .inl ⟨a, ha, hle a⟩

theorem Continues.trans (hle : ∀ a b c, le a b → le b c → le a c) (hkey : ∀ a b, le a b → key b = key a)
    (hused : ∀ k, used k → used' k) (h : Continues le used t t') (h' : Continues le used' t' t'') :
    Continues le used t t'' := by
  intro c hc
  rcases h' c hc with ⟨b, hb, hbc⟩ | hnew
  · rcases h b hb with ⟨a, ha, hab⟩ | hnew
    · exact .inl ⟨a, ha, hle a b c hab hbc⟩
    · exact .inr (hkey b c hbc ▸ hnew)
  · exact .inr fun hu => hnew (hused _ hu)

theorem Continues.update (hf : ∀ a, key (f a) = key a) (hle : ∀ a, le a a) (h : ∀ a ∈ t, cond a = true → le a (f a)) :
    Continues le used t (t.update cond f hf) := by
  intro b hb
  obtain ⟨a, ha, rfl⟩ := mem_update.mp hb
  refine .inl ⟨a, ha, ?_⟩
  split
  · exact h a ha ‹_›
  · exact hle a

theorem Continues.delete (hle : ∀ a, le a a) : Continues le used t (t.delete cond) := by
  intro b hb
  exact .inl ⟨b, (mem_delete.mp hb).1, hle b⟩

/-! ## Rows with a revision -/

variable {rev : α → Nat}

/-- A row that is the same, or has a higher revision. -/
def Rises (key : α → κ) (rev : α → Nat) (a b : α) : Prop := key b = key a ∧ (b = a ∨ rev a < rev b)

theorem Rises.refl (a : α) : Rises key rev a a := ⟨rfl, .inl rfl⟩

theorem Rises.trans (a b c : α) (h : Rises key rev a b) (h' : Rises key rev b c) : Rises key rev a c := by
  refine ⟨h'.1.trans h.1, ?_⟩
  rcases h'.2 with rfl | hlt
  · exact h.2
  · rcases h.2 with rfl | hlt'
    · exact .inr hlt
    · exact .inr (Nat.lt_trans hlt' hlt)

/-- An update that raises the revision of what it touches. -/
theorem Continues.raise (hf : ∀ a, key (f a) = key a) (h : ∀ a, rev a < rev (f a)) :
    Continues (Rises key rev) used t (t.update cond f hf) :=
  .update hf Rises.refl fun a _ _ => ⟨hf a, .inr (h a)⟩

/-! ## Statements that name a key -/

variable [DecidableEq κ]

/-- `SELECT … WHERE key = ?`. -/
def find (t : Table α key) (k : κ) : Option α := t.rows.find? fun a => key a = k

/-- `INSERT`; `none` is the violated primary key. -/
def insert (t : Table α key) (a : α) : Option (Table α key) :=
  if h : key a ∈ t.rows.map key then none
  else some ⟨t.rows ++ [a], by
    rw [List.map_append, List.map_singleton, List.nodup_append]
    refine ⟨t.nodup, List.nodup_singleton _, ?_⟩
    intro x hx y hy
    rw [List.mem_singleton] at hy
    subst hy
    intro heq
    exact h (heq ▸ hx)⟩

/-- `INSERT … ON CONFLICT(key) DO UPDATE SET …`. -/
def upsert (t : Table α key) (a : α) (f : α → α) (hf : ∀ a, key (f a) = key a) : Table α key :=
  match t.insert a with
  | some t' => t'
  | none => t.update (fun b => key b = key a) f hf

theorem find_eq_some {k : κ} : t.find k = some a ↔ a ∈ t ∧ key a = k := by
  constructor
  · intro h
    exact ⟨List.mem_of_find?_eq_some h, by simpa using List.find?_some h⟩
  rintro ⟨ha, rfl⟩
  obtain ⟨b, hb⟩ := Option.isSome_iff_exists.mp
    (List.find?_isSome.mpr ⟨a, ha, by simp⟩ : (t.rows.find? fun b => key b = key a).isSome)
  have hkey : key b = key a := by simpa using List.find?_some hb
  rw [find, hb, eq_of_key (List.mem_of_find?_eq_some hb) ha hkey]

theorem find_eq_none {k : κ} : t.find k = none ↔ ∀ a ∈ t, key a ≠ k := by
  simp [find, List.find?_eq_none, mem_def]

theorem insert_eq_some {t t' : Table α key} (h : t.insert a = some t') : t'.rows = t.rows ++ [a] ∧ ∀ b ∈ t, key b ≠ key a := by
  unfold insert at h
  split at h
  · cases h
  rename_i hfresh
  injection h with h
  subst h
  refine ⟨rfl, ?_⟩
  intro b hb heq
  exact hfresh (List.mem_map.mpr ⟨b, hb, heq⟩)

theorem mem_insert {t t' : Table α key} (h : t.insert a = some t') : b ∈ t' ↔ b ∈ t ∨ b = a := by
  simp [mem_def, (insert_eq_some h).1]

theorem insert_isSome (h : ∀ b ∈ t, key b ≠ key a) : ∃ t', t.insert a = some t' := by
  have hnot : key a ∉ t.rows.map key := by
    intro hmem
    obtain ⟨b, hb, hkey⟩ := List.mem_map.mp hmem
    exact h b hb hkey
  exact ⟨_, dif_neg hnot⟩

/-- An upserted table holds the new row, or the old row changed, and every other row. -/
theorem mem_upsert (h : b ∈ t.upsert a f hf) :
    (b ∈ t ∧ key b ≠ key a) ∨ (b = a ∧ ∀ c ∈ t, key c ≠ key a) ∨ ∃ c ∈ t, key c = key a ∧ b = f c := by
  unfold upsert at h
  split at h
  · rename_i t' hins
    rcases (mem_insert hins).mp h with hb | rfl
    · exact .inl ⟨hb, (insert_eq_some hins).2 b hb⟩
    · exact .inr (.inl ⟨rfl, (insert_eq_some hins).2⟩)
  obtain ⟨c, hc, hcb⟩ := mem_update.mp h
  by_cases hkey : key c = key a
  · exact .inr (.inr ⟨c, hc, hkey, by simpa [hkey] using hcb.symm⟩)
  · have hcb' : c = b := by simpa [hkey] using hcb
    exact .inl (hcb' ▸ ⟨hc, hkey⟩)

theorem mem_upsert_other (hb : b ∈ t)
    (hne : key b ≠ key a) : b ∈ t.upsert a f hf := by
  unfold upsert
  split
  · rename_i t' hins
    exact (mem_insert hins).mpr (.inl hb)
  · exact mem_update.mpr ⟨b, hb, by simp [hne]⟩

theorem mem_upsert_key (hb : b ∈ t)
    (hkey : key b = key a) : f b ∈ t.upsert a f hf := by
  unfold upsert
  split
  · rename_i t' hins
    exact absurd hkey ((insert_eq_some hins).2 b hb)
  · exact mem_update.mpr ⟨b, hb, by simp [hkey]⟩

theorem mem_upsert_new (h : ∀ b ∈ t, key b ≠ key a) : a ∈ t.upsert a f hf := by
  obtain ⟨t', hins⟩ := insert_isSome h
  unfold upsert
  rw [hins]
  exact (mem_insert hins).mpr (.inr rfl)

/-! ### What is found after a statement -/

@[simp] theorem find_empty (k : κ) : (∅ : Table α key).find k = none := rfl

theorem find_update (t : Table α key) (k : κ) :
    (t.update cond f hf).find k = (t.find k).map fun a => if cond a then f a else a := by
  have hkey : ∀ a, key (if cond a then f a else a) = key a := by
    intro a
    split
    · exact hf a
    · rfl
  simp only [find, update, List.find?_map, Function.comp_def, hkey]

/-- An update of one key is seen there and nowhere else. -/
theorem find_update_key (t : Table α key) (k k' : κ) :
    (t.update (fun a => key a = k) f hf).find k' = if k' = k then (t.find k').map f else t.find k' := by
  rw [find_update]
  cases hfind : t.find k' with
  | none => simp
  | some a =>
    obtain ⟨-, rfl⟩ := find_eq_some.mp hfind
    by_cases h : key a = k
    · simp [h]
    · simp [h]

theorem find_insert (h : t.insert a = some t') (k : κ) : t'.find k = if k = key a then some a else t.find k := by
  split
  · rename_i hk
    exact find_eq_some.mpr ⟨(mem_insert h).mpr (.inr rfl), hk.symm⟩
  rename_i hk
  cases hfind : t.find k with
  | some b =>
    obtain ⟨hb, hbk⟩ := find_eq_some.mp hfind
    exact find_eq_some.mpr ⟨(mem_insert h).mpr (.inl hb), hbk⟩
  | none =>
    refine find_eq_none.mpr ?_
    intro b hb
    rcases (mem_insert h).mp hb with hb | rfl
    · exact find_eq_none.mp hfind b hb
    · exact Ne.symm hk

theorem find_delete (t : Table α key) (k k' : κ) : (t.delete fun a => key a = k).find k' = if k' = k then none else t.find k' := by
  split
  · rename_i hk
    refine find_eq_none.mpr ?_
    intro b hb
    obtain ⟨-, hne⟩ := mem_delete.mp hb
    rw [hk]
    simpa using hne
  rename_i hk
  cases hfind : t.find k' with
  | some b =>
    obtain ⟨hb, hbk⟩ := find_eq_some.mp hfind
    exact find_eq_some.mpr ⟨mem_delete.mpr ⟨hb, by simpa [hbk] using hk⟩, hbk⟩
  | none =>
    refine find_eq_none.mpr ?_
    intro b hb
    exact find_eq_none.mp hfind b (mem_delete.mp hb).1

theorem insert_isNone (h : t.insert a = none) : (t.find (key a)).isSome = true := by
  unfold insert at h
  split at h
  · rename_i hmem
    obtain ⟨b, hb, hkey⟩ := List.mem_map.mp hmem
    rw [find_eq_some.mpr ⟨hb, hkey⟩]
    rfl
  · cases h

theorem find_upsert (t : Table α key) (k : κ) :
    (t.upsert a f hf).find k = if k = key a then some ((t.find (key a)).elim a f) else t.find k := by
  unfold upsert
  cases hins : t.insert a with
  | some t' =>
    have hnone : t.find (key a) = none := find_eq_none.mpr (insert_eq_some hins).2
    show t'.find k = _
    rw [find_insert hins, hnone]
    rfl
  | none =>
    show (t.update (fun b => key b = key a) f hf).find k = _
    rw [find_update_key]
    split
    · rename_i hk
      obtain ⟨b, hb⟩ := Option.isSome_iff_exists.mp (insert_isNone hins)
      rw [hk, hb]
      rfl
    · rfl

theorem Persists.insert (hle : ∀ a, le a a) (h : t.insert a = some t') : Persists le t t' := by
  intro b hb
  exact ⟨b, (mem_insert h).mpr (.inl hb), hle b⟩

theorem Continues.insert (hle : ∀ a, le a a) (h : t.insert a = some t') (hnew : ¬ used (key a)) : Continues le used t t' := by
  intro b hb
  rcases (mem_insert h).mp hb with hb | rfl
  · exact .inl ⟨b, hb, hle b⟩
  · exact .inr hnew

end Table

/-! ## Scanning in the order of the keys -/

namespace Table

variable {α κ : Type} {key : α → κ} [LinearOrder κ] {t : Table α key} {a : α}

/-- `ORDER BY key`. -/
def sorted (t : Table α key) : List α := t.rows.insertionSort fun a b => key a ≤ key b

theorem mem_sorted : a ∈ t.sorted ↔ a ∈ t := List.mem_insertionSort _

theorem sorted_pairwise (t : Table α key) : t.sorted.Pairwise fun a b => key a ≤ key b :=
  haveI : Std.Total fun a b : α => key a ≤ key b := ⟨fun a b => le_total (key a) (key b)⟩
  haveI : IsTrans α fun a b => key a ≤ key b := ⟨fun _ _ _ => le_trans⟩
  List.pairwise_insertionSort _ t.rows

/-- The first row that meets a condition is the one with the least key. -/
theorem find?_sorted {p : α → Bool} :
    t.sorted.find? p = some a ↔ a ∈ t ∧ p a = true ∧ ∀ b ∈ t, p b = true → key a ≤ key b := by
  have hleast : ∀ a, t.sorted.find? p = some a → a ∈ t ∧ p a = true ∧ ∀ b ∈ t, p b = true → key a ≤ key b := by
    intro a h
    refine ⟨mem_sorted.mp (List.mem_of_find?_eq_some h), List.find?_some h, ?_⟩
    intro b hb hpb
    obtain ⟨-, before, after, hsplit, hbefore⟩ := List.find?_eq_some_iff_append.mp h
    have hb' : b ∈ before ++ a :: after := hsplit ▸ mem_sorted.mpr hb
    rcases List.mem_append.mp hb' with hb' | hb'
    · simpa [hpb] using hbefore b hb'
    · rcases List.mem_cons.mp hb' with rfl | hb'
      · exact le_refl _
      · have hpairwise := hsplit ▸ t.sorted_pairwise
        exact List.rel_of_pairwise_cons (List.pairwise_append.mp hpairwise).2.1 hb'
  constructor
  · exact hleast a
  · rintro ⟨ha, hpa, hmin⟩
    obtain ⟨b, hb⟩ := Option.isSome_iff_exists.mp (List.find?_isSome.mpr ⟨a, mem_sorted.mpr ha, hpa⟩ : (t.sorted.find? p).isSome)
    obtain ⟨hbt, hpb, hbmin⟩ := hleast b hb
    rw [hb, eq_of_key hbt ha (le_antisymm (hbmin a ha hpa) (hmin b hbt hpb))]

end Table

end Lib

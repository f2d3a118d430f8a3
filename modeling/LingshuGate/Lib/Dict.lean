import Mathlib.Algebra.GroupWithZero.Nat
import LingshuGate.Lib.Table

/-!
# Dictionaries

A dictionary is a table of pairs, in the order in which its keys came in. `get_set`, `get_pop` and the other equations say what
is found after each operation; proofs about dictionaries use nothing else.
-/

namespace Lib

abbrev Dict (κ ν : Type) := Table (κ × ν) fun kv => kv.1

namespace Dict

variable {κ ν : Type} [DecidableEq κ] {d d' : Dict κ ν} {k k' : κ} {x : ν}

/-- `d.get(k)`. -/
def get (d : Dict κ ν) (k : κ) : Option ν := (d.find k).map (·.2)

/-- `k in d`. -/
def has (d : Dict κ ν) (k : κ) : Bool := (get d k).isSome

def keys (d : Dict κ ν) : List κ := d.rows.map (·.1)

def values (d : Dict κ ν) : List ν := d.rows.map (·.2)

/-- `d[k] = x`. -/
def set (d : Dict κ ν) (k : κ) (x : ν) : Dict κ ν := d.upsert (k, x) (fun kv => (kv.1, x)) fun _ => rfl

/-- `d.pop(k, None)`. -/
def pop (d : Dict κ ν) (k : κ) : Dict κ ν := d.delete fun kv => kv.1 = k

/-- `d.update(d')`, also `{**d, **d'}`. -/
def update (d d' : Dict κ ν) : Dict κ ν := d'.rows.foldl (fun d kv => set d kv.1 kv.2) d

/-- `dict.fromkeys(ks, x)`. -/
def fromKeys (ks : List κ) (x : ν) : Dict κ ν := ks.foldl (fun d k => set d k x) ∅

/-- `{key: f(x) for key, x in d.items()}`. -/
def mapValues (f : ν → ν) (d : Dict κ ν) : Dict κ ν := Table.update d (fun _ => true) (fun kv => (kv.1, f kv.2)) fun _ => rfl

@[simp] theorem get_empty (k : κ) : get (∅ : Dict κ ν) k = none := rfl

theorem get_eq_some : get d k = some x ↔ (k, x) ∈ d.rows := by
  unfold get
  rw [Option.map_eq_some_iff]
  constructor
  · rintro ⟨kv, hfind, rfl⟩
    obtain ⟨hmem, rfl⟩ := Table.find_eq_some.mp hfind
    exact hmem
  · intro hmem
    exact ⟨(k, x), Table.find_eq_some.mpr ⟨hmem, rfl⟩, rfl⟩

theorem mem_keys : k ∈ keys d ↔ (get d k).isSome = true := by
  simp only [keys, List.mem_map, Option.isSome_iff_exists, get_eq_some]
  constructor
  · rintro ⟨⟨k', x⟩, hmem, rfl⟩
    exact ⟨x, hmem⟩
  · rintro ⟨x, hmem⟩
    exact ⟨(k, x), hmem, rfl⟩

theorem has_eq_false : has d k = false ↔ get d k = none := by
  simp [has]

theorem get_set (d : Dict κ ν) (k : κ) (x : ν) (k' : κ) : get (set d k x) k' = if k' = k then some x else get d k' := by
  unfold get set Table.upsert
  cases hinsert : d.insert (k, x) with
  | some t =>
    simp only [Table.find_insert hinsert]
    split
    · rfl
    · rfl
  | none =>
    have htaken := Table.insert_isNone hinsert
    obtain ⟨kv, hfind⟩ := Option.isSome_iff_exists.mp htaken
    simp only [Table.find_update_key]
    split
    · rename_i hk
      subst hk
      simp only [hfind, Option.map_some]
    · rfl

theorem get_pop (d : Dict κ ν) (k k' : κ) : get (pop d k) k' = if k' = k then none else get d k' := by
  unfold get pop
  rw [Table.find_delete]
  split
  · rfl
  · rfl

/-- What is found after some pairs are dropped. -/
theorem get_delete (d : Dict κ ν) (p : κ × ν → Bool) (k : κ) : get (d.delete p) k = (get d k).filter fun x => !p (k, x) := by
  cases hget : get d k with
  | none =>
    rw [Option.filter_none, Option.eq_none_iff_forall_ne_some]
    intro x hx
    rw [get_eq_some] at hx
    rw [get_eq_some.mpr (List.mem_of_mem_filter hx)] at hget
    cases hget
  | some x =>
    rw [get_eq_some] at hget
    cases hp : p (k, x) with
    | true =>
      rw [Option.filter_some, if_neg (by simp [hp]), Option.eq_none_iff_forall_ne_some]
      intro y hy
      rw [get_eq_some] at hy
      obtain ⟨hmem, hkeep⟩ := List.mem_filter.mp hy
      obtain ⟨-, rfl⟩ := Prod.mk.inj (Table.eq_of_key (t := d) hmem hget rfl)
      simp [hp] at hkeep
    | false =>
      rw [Option.filter_some, if_pos (by simp [hp]), get_eq_some]
      exact List.mem_filter.mpr ⟨hget, by simp [hp]⟩

theorem get_foldl_set (l : List (κ × ν)) (hl : (l.map Prod.fst).Nodup) (d : Dict κ ν) (k : κ) :
    get (l.foldl (fun d kv => set d kv.1 kv.2) d) k = ((l.find? (·.1 = k)).map (·.2)).or (get d k) := by
  induction l generalizing d with
  | nil => rfl
  | cons kv l ih =>
    rw [List.map_cons, List.nodup_cons] at hl
    rw [List.foldl_cons, ih hl.2, get_set]
    by_cases hk : kv.1 = k
    · subst hk
      have hnone : l.find? (fun kv' => decide (kv'.1 = kv.1)) = none := by
        refine List.find?_eq_none.mpr fun kv' hkv' hsame => hl.1 ?_
        exact List.mem_map.mpr ⟨kv', hkv', of_decide_eq_true hsame⟩
      rw [hnone, if_pos rfl, List.find?_cons_of_pos (by simp)]
      rfl
    · rw [if_neg (Ne.symm hk), List.find?_cons_of_neg (by simpa using hk)]

theorem get_update (d d' : Dict κ ν) (k : κ) : get (update d d') k = (get d' k).or (get d k) :=
  get_foldl_set d'.rows d'.nodup d k

theorem get_fromKeys (ks : List κ) (x : ν) (k : κ) : get (fromKeys ks x) k = if k ∈ ks then some x else none := by
  suffices hall : ∀ d : Dict κ ν, get (ks.foldl (fun d k => set d k x) d) k = if k ∈ ks then some x else get d k from hall ∅
  induction ks with
  | nil => simp
  | cons a ks ih =>
    intro d
    rw [List.foldl_cons, ih, get_set]
    by_cases hmem : k ∈ ks
    · simp [hmem]
    · by_cases hk : k = a
      · simp [hk]
      · simp [hmem, hk]

theorem get_foldl_pop (ks : List κ) (d : Dict κ ν) (k : κ) : get (ks.foldl pop d) k = if k ∈ ks then none else get d k := by
  induction ks generalizing d with
  | nil => simp
  | cons a ks ih =>
    rw [List.foldl_cons, ih, get_pop]
    by_cases hmem : k ∈ ks
    · simp [hmem]
    · by_cases hk : k = a
      · simp [hk]
      · simp [hmem, hk]

/-- A dictionary with a key is not empty. -/
theorem rows_ne_nil (h : get d k = some x) : d.rows ≠ [] := List.ne_nil_of_mem (get_eq_some.mp h)

theorem get_eq_none_of_nil (h : d.rows = []) (k : κ) : get d k = none := by
  rw [Option.eq_none_iff_forall_ne_some]
  intro x hx
  exact rows_ne_nil hx h

theorem get_mapValues (f : ν → ν) (d : Dict κ ν) (k : κ) : get (mapValues f d) k = (get d k).map f := by
  simp only [get, mapValues, Table.find_update, if_true, Option.map_map]
  rfl

/-! ## The pairs themselves -/

theorem set_rows_of_none (h : get d k = none) : (set d k x).rows = d.rows ++ [(k, x)] := by
  have hfree : ∀ kv ∈ d, kv.1 ≠ k := Table.find_eq_none.mp (Option.map_eq_none_iff.mp h)
  obtain ⟨t, ht⟩ := Table.insert_isSome (a := (k, x)) hfree
  rw [set, Table.upsert, ht, (Table.insert_eq_some ht).1]

theorem pop_rows_of_none (h : get d k = none) : (pop d k).rows = d.rows := by
  have hfree : ∀ kv ∈ d, kv.1 ≠ k := Table.find_eq_none.mp (Option.map_eq_none_iff.mp h)
  refine List.filter_eq_self.mpr ?_
  intro kv hkv
  simpa using hfree kv hkv

/-- The pair of a key stands between pairs of other keys, and `set` and `pop` leave those as they are. -/
theorem split_of_get {y : ν} (h : get d k = some y) : ∃ before after, d.rows = before ++ (k, y) :: after ∧
    (∀ kv ∈ before ++ after, kv.1 ≠ k) ∧ (∀ x, (set d k x).rows = before ++ (k, x) :: after) ∧
    (pop d k).rows = before ++ after := by
  obtain ⟨before, after, hsplit⟩ := List.append_of_mem (get_eq_some.mp h)
  have hnodup := d.nodup
  simp only [hsplit, List.map_append, List.map_cons] at hnodup
  obtain ⟨hfree, -⟩ := List.nodup_cons.mp (List.nodup_middle.mp hnodup)
  have hother : ∀ kv ∈ before ++ after, kv.1 ≠ k := by
    intro kv hkv hk
    refine hfree ?_
    rw [← List.map_append, ← hk]
    exact List.mem_map_of_mem hkv
  have hbefore (kv : κ × ν) (hkv : kv ∈ before) : kv.1 ≠ k := hother kv (List.mem_append_left _ hkv)
  have hafter (kv : κ × ν) (hkv : kv ∈ after) : kv.1 ≠ k := hother kv (List.mem_append_right _ hkv)
  refine ⟨before, after, hsplit, hother, ?_, ?_⟩
  · intro x
    have hnone : d.insert (k, x) = none := by
      cases hinsert : d.insert (k, x) with
      | none => rfl
      | some t => exact absurd rfl ((Table.insert_eq_some hinsert).2 (k, y) (get_eq_some.mp h))
    have hkeep (l : List (κ × ν)) (hl : ∀ kv ∈ l, kv.1 ≠ k) :
        (l.map fun kv => if decide (kv.1 = k) = true then (kv.1, x) else kv) = l := by
      conv_rhs => rw [← List.map_id l]
      refine List.map_congr_left fun kv hkv => ?_
      rw [if_neg (by simpa using hl kv hkv)]
      rfl
    rw [set, Table.upsert, hnone]
    simp only [Table.update, hsplit, List.map_append, List.map_cons, hkeep before hbefore, hkeep after hafter]
    simp
  · have hkeep (l : List (κ × ν)) (hl : ∀ kv ∈ l, kv.1 ≠ k) : l.filter (fun kv => !decide (kv.1 = k)) = l := by
      refine List.filter_eq_self.mpr fun kv hkv => ?_
      simpa using hl kv hkv
    simp only [pop, Table.delete, hsplit, List.filter_append, hkeep before hbefore, List.filter_cons, decide_true, Bool.not_true, Bool.false_eq_true,
      if_false, hkeep after hafter]

/-- `sum(d.values())` -/
def sum (d : Dict κ Nat) : Nat := (d.rows.map (·.2)).sum

theorem sum_set (d : Dict κ Nat) (k : κ) (n : Nat) : sum (set d k n) + (get d k).getD 0 = sum d + n := by
  cases hget : get d k with
  | none => simp [sum, set_rows_of_none hget]
  | some m =>
    obtain ⟨before, after, hrows, -, hset, -⟩ := split_of_get hget
    simp only [sum, hset, hrows, List.map_append, List.map_cons, List.sum_append, List.sum_cons, Option.getD_some]
    omega

theorem sum_pop (d : Dict κ Nat) (k : κ) : sum (pop d k) + (get d k).getD 0 = sum d := by
  cases hget : get d k with
  | none => simp [sum, pop_rows_of_none hget]
  | some m =>
    obtain ⟨before, after, hrows, -, -, hpop⟩ := split_of_get hget
    simp only [sum, hpop, hrows, List.map_append, List.map_cons, List.sum_append, List.sum_cons, Option.getD_some]
    omega

theorem countP_set_le (p : κ × ν → Bool) (d : Dict κ ν) (k : κ) (x : ν) :
    (set d k x).rows.countP p ≤ d.rows.countP p + if p (k, x) then 1 else 0 := by
  cases hget : get d k with
  | none =>
    rw [set_rows_of_none hget, List.countP_append, List.countP_singleton]
  | some y =>
    obtain ⟨before, after, hrows, -, hset, -⟩ := split_of_get hget
    rw [hset, hrows]
    simp only [List.countP_append, List.countP_cons]
    omega

/-! ## How many pairs -/

omit [DecidableEq κ] in
@[simp] theorem length_mapValues (f : ν → ν) (d : Dict κ ν) : (mapValues f d).rows.length = d.rows.length := List.length_map _

theorem length_set_le (d : Dict κ ν) (k : κ) (x : ν) : (set d k x).rows.length ≤ d.rows.length + 1 := by
  unfold set Table.upsert
  cases hinsert : d.insert (k, x) with
  | some t =>
    obtain ⟨hrows, -⟩ := Table.insert_eq_some hinsert
    simp [hrows]
  | none => simp [Table.update]

theorem length_set_of_get {y : ν} (h : get d k = some y) : (set d k x).rows.length = d.rows.length := by
  obtain ⟨before, after, hrows, -, hset, -⟩ := split_of_get h
  rw [hset, hrows]
  simp

theorem length_pop_le (d : Dict κ ν) (k : κ) : (pop d k).rows.length ≤ d.rows.length := List.length_filter_le _ _

end Dict

end Lib

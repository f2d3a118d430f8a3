import Mathlib.Data.List.Basic
import Mathlib.Data.List.Induction

/-!
# Python text and dictionaries

The few `str` and `dict` operations the modelled code relies on, over lists so that they compute
in proofs: `strip`, `startswith`, `endswith`, `split(" ")`, `dict(pairs).get`,
`{**pairs, key: value}` and `{f(key): value for key, value in pairs}`.
-/

namespace Lib.Py

/-- `str.isspace` of one character: the code points `str.strip()` removes. -/
def isSpace (c : Char) : Bool :=
  let n := c.toNat
  (9 ≤ n && n ≤ 13) || (28 ≤ n && n ≤ 32) || n == 0x85 || n == 0xA0 || n == 0x1680 ||
    (0x2000 ≤ n && n ≤ 0x200A) || n == 0x2028 || n == 0x2029 || n == 0x202F || n == 0x205F || n == 0x3000

/-- `s.strip()`. -/
def strip (s : String) : String :=
  String.ofList (((s.toList.dropWhile isSpace).reverse.dropWhile isSpace).reverse)

theorem dropWhile_isSpace {cs : List Char} (h : ∀ c ∈ cs, isSpace c = false) : cs.dropWhile isSpace = cs := by
  cases cs with
  | nil => rfl
  | cons c cs => simp [h c List.mem_cons_self]

/-- A text with no space in it is not stripped. -/
theorem strip_eq_self {s : String} (h : ∀ c ∈ s.toList, isSpace c = false) : strip s = s := by
  rw [strip, dropWhile_isSpace h, dropWhile_isSpace fun c hc => h c (List.mem_reverse.mp hc), List.reverse_reverse,
    String.ofList_toList]

/-- `[A-Za-z0-9_.-]` -/
def idChar (c : Char) : Bool := c.isAlphanum || c = '_' || c = '.' || c = '-'

/-- `re.fullmatch(r"[A-Za-z0-9_.-]+", s)` of at most `limit` characters. -/
def idText (limit : Nat) (s : String) : Bool := s ≠ "" && s.length ≤ limit && s.toList.all idChar

/-- `s.startswith(t)`. -/
def startsWith (s t : String) : Bool := t.toList.isPrefixOf s.toList

/-- `s.endswith(t)`. -/
def endsWith (s t : String) : Bool := t.toList.isSuffixOf s.toList

/-- `s.split(sep)` for a one-character separator, over the characters. -/
def splitChars (sep : Char) : List Char → List (List Char)
  | [] => [[]]
  | c :: cs =>
    if c = sep then [] :: splitChars sep cs
    else match splitChars sep cs with
      | w :: ws => (c :: w) :: ws
      | [] => [[c]]

/-- `s.split(" ")`. -/
def splitSpace (s : String) : List String := (splitChars ' ' s.toList).map String.ofList

/-- `dict(pairs).get(key)`: a later pair replaces an earlier one. -/
def dictGet {α β : Type} [DecidableEq α] (pairs : List (α × β)) (key : α) : Option β :=
  (pairs.reverse.find? fun kv => kv.1 = key).map (·.2)

/-- `{**pairs, key: value}`. -/
def dictSet {α β : Type} [DecidableEq α] (pairs : List (α × β)) (key : α) (value : β) : List (α × β) :=
  if pairs.any (·.1 = key) then pairs.map fun kv => if kv.1 = key then (key, value) else kv else pairs ++ [(key, value)]

variable {α β : Type}

theorem dictGet_dictSet [DecidableEq α] (pairs : List (α × β)) (key : α) (value : β) :
    dictGet (dictSet pairs key value) key = some value := by
  have hmem : (key, value) ∈ dictSet pairs key value := by
    unfold dictSet
    split
    · next hany =>
      obtain ⟨kv, hkv, hkey⟩ := List.any_eq_true.mp hany
      exact List.mem_map.mpr ⟨kv, hkv, if_pos (by simpa using hkey)⟩
    · simp
  have honly : ∀ kv ∈ dictSet pairs key value, kv.1 = key → kv.2 = value := by
    intro kv hkv hkey
    unfold dictSet at hkv
    split at hkv
    · obtain ⟨kv', -, rfl⟩ := List.mem_map.mp hkv
      split at hkey
      · next heq => simp [heq]
      · next hne => exact absurd hkey hne
    · next hnone =>
      rcases List.mem_append.mp hkv with hkv | hkv
      · exact absurd (List.any_eq_true.mpr ⟨kv, hkv, by simpa using hkey⟩) hnone
      · rw [List.mem_singleton.mp hkv]
  unfold dictGet
  cases hfind : (dictSet pairs key value).reverse.find? fun kv => kv.1 = key with
  | none =>
    have := List.find?_eq_none.mp hfind (key, value) (List.mem_reverse.mpr hmem)
    simp at this
  | some kv =>
    have hkv := List.mem_reverse.mp (List.mem_of_find?_eq_some hfind)
    rw [Option.map_some, honly kv hkv (by simpa using List.find?_some hfind)]

theorem mem_dictSet [DecidableEq α] {pairs : List (α × β)} {key : α} {value : β} {pair : α × β} :
    pair ∈ dictSet pairs key value ↔ pair ∈ pairs ∧ pair.1 ≠ key ∨ pair = (key, value) := by
  unfold dictSet
  split
  · rename_i hany
    obtain ⟨old, hold, hkey⟩ := List.any_eq_true.mp hany
    rw [List.mem_map]
    constructor
    · rintro ⟨kv, hkv, rfl⟩
      by_cases h : kv.1 = key
      · rw [if_pos h]
        exact .inr rfl
      · rw [if_neg h]
        exact .inl ⟨hkv, h⟩
    · rintro (⟨hpair, hne⟩ | rfl)
      · exact ⟨pair, hpair, if_neg hne⟩
      · exact ⟨old, hold, if_pos (by simpa using hkey)⟩
  rename_i hnone
  have hother : ∀ kv ∈ pairs, kv.1 ≠ key :=
    fun kv hkv heq => hnone (List.any_eq_true.mpr ⟨kv, hkv, by simpa using heq⟩)
  rw [List.mem_append, List.mem_singleton]
  exact ⟨fun h => h.imp_left fun hpair => ⟨hpair, hother pair hpair⟩, fun h => h.imp_left And.left⟩

/-- What a search by key finds does not change where another key is set. -/
theorem find_dictSet [DecidableEq α] {q : α → Bool} (pairs : List (α × β)) {key : α} (value : β) (h : q key = false) :
    ((dictSet pairs key value).reverse.find? fun kv => q kv.1).map (·.2) = (pairs.reverse.find? fun kv => q kv.1).map (·.2) := by
  unfold dictSet
  split
  · have hkey : ((fun kv : α × β => q kv.1) ∘ fun kv => if kv.1 = key then (key, value) else kv) = fun kv => q kv.1 := by
      funext kv
      by_cases hkv : kv.1 = key
      · simp [hkv]
      · simp [hkv]
    rw [← List.map_reverse, List.find?_map, hkey, Option.map_map]
    cases hfind : pairs.reverse.find? fun kv => q kv.1 with
    | none => rfl
    | some found =>
      have hfound : q found.1 = true := by simpa using List.find?_some hfind
      have hother : ¬ found.1 = key := by
        rintro rfl
        rw [h] at hfound
        cases hfound
      simp [hother]
  · simp [h]

theorem dictGet_dictSet_of_ne [DecidableEq α] (pairs : List (α × β)) {key key' : α} (value : β) (h : key' ≠ key) :
    dictGet (dictSet pairs key value) key' = dictGet pairs key' :=
  find_dictSet (q := fun k => decide (k = key')) pairs value (by simpa using Ne.symm h)

variable {sep : Char}

/-- A text without the separator is one word. -/
theorem splitChars_append {a b : List Char} (ha : sep ∉ a) : splitChars sep (a ++ sep :: b) = a :: splitChars sep b := by
  induction a with
  | nil => simp [splitChars]
  | cons c a ih =>
    rw [List.mem_cons, not_or] at ha
    rw [List.cons_append, splitChars, if_neg (Ne.symm ha.1), ih ha.2]

theorem not_mem_of_mem_splitChars {cs w : List Char} (h : w ∈ splitChars sep cs) : sep ∉ w := by
  induction cs generalizing w with
  | nil =>
    obtain rfl := List.mem_singleton.mp h
    exact List.not_mem_nil
  | cons c cs ih =>
    simp only [splitChars] at h
    split at h
    · rcases List.mem_cons.mp h with rfl | h
      · exact List.not_mem_nil
      · exact ih h
    rename_i hc
    split at h
    · rename_i v vs hsplit
      rcases List.mem_cons.mp h with rfl | h
      · rw [List.mem_cons, not_or]
        exact ⟨Ne.symm hc, ih (hsplit ▸ List.mem_cons_self)⟩
      · exact ih (hsplit ▸ List.mem_cons_of_mem _ h)
    · obtain rfl := List.mem_singleton.mp h
      simpa using Ne.symm hc

theorem splitChars_ne_nil (sep : Char) (cs : List Char) : splitChars sep cs ≠ [] := by
  cases cs with
  | nil => simp [splitChars]
  | cons c cs =>
    simp only [splitChars]
    split
    · simp
    · split <;> simp

/-- One word is the whole text. -/
theorem splitChars_eq_singleton {cs w : List Char} : splitChars sep cs = [w] ↔ w = cs ∧ sep ∉ cs := by
  induction cs generalizing w with
  | nil => simp [splitChars, eq_comm]
  | cons c cs ih =>
    simp only [splitChars, List.mem_cons, not_or]
    split
    · rename_i hc
      constructor
      · intro h
        exact absurd (List.cons.inj h).2 (splitChars_ne_nil sep cs)
      · rintro ⟨-, hne, -⟩
        exact absurd hc.symm hne
    rename_i hc
    cases hs : splitChars sep cs with
    | nil => exact absurd hs (splitChars_ne_nil sep cs)
    | cons v vs =>
      simp only [List.cons.injEq]
      constructor
      · rintro ⟨rfl, rfl⟩
        obtain ⟨rfl, hnot⟩ := ih.mp hs
        exact ⟨rfl, Ne.symm hc, hnot⟩
      rintro ⟨rfl, -, hnot⟩
      have := ih.mpr ⟨rfl, hnot⟩
      rw [hs] at this
      obtain ⟨rfl, rfl⟩ := List.cons.inj this
      exact ⟨rfl, rfl⟩

/-! ## Dictionaries -/

section Dict

variable {α β κ : Type} [DecidableEq κ]

theorem dictGet_append (pairs : List (κ × β)) (k key : κ) (b : β) :
    dictGet (pairs ++ [(k, b)]) key = if k = key then some b else dictGet pairs key := by
  by_cases h : k = key <;> simp [dictGet, h]

theorem mem_of_dictGet {pairs : List (κ × β)} {key : κ} {b : β} (h : dictGet pairs key = some b) : (key, b) ∈ pairs := by
  obtain ⟨⟨k, b'⟩, hfind, rfl⟩ := Option.map_eq_some_iff.mp h
  have hk : k = key := by simpa using List.find?_some hfind
  subst hk
  simpa using List.mem_of_find?_eq_some hfind

/-- `dict.fromkeys(keys)` has each key once. -/
theorem nodup_eraseDups (keys : List κ) : keys.eraseDups.Nodup := by
  induction hn : keys.length using Nat.strongRecOn generalizing keys with
  | _ n ih =>
    cases keys with
    | nil => simp
    | cons key keys =>
      have hlt : (keys.filter fun b => !b == key).length < n := by
        rw [← hn, List.length_cons]
        exact Nat.lt_succ_of_le (List.length_filter_le _ _)
      rw [List.eraseDups_cons, List.nodup_cons]
      exact ⟨by simp, ih _ hlt _ rfl⟩

/-- Pairs under other keys do not matter. -/
theorem dictGet_filter {pairs : List (κ × β)} {key : κ} {f : κ × β → Bool} (hf : ∀ b, f (key, b) = true) :
    dictGet (pairs.filter f) key = dictGet pairs key := by
  have hfun : (fun kv : κ × β => decide (f kv = true ∧ decide (kv.1 = key) = true)) = fun kv => decide (kv.1 = key) := by
    funext ⟨k, b⟩
    by_cases hk : k = key
    · subst hk
      simp [hf]
    · simp [hk]
  rw [dictGet, dictGet, ← List.filter_reverse, List.find?_filter, hfun]

/-- Setting a key under another name leaves the pairs of a kind as they are. -/
theorem filter_dictSet (q : κ → Bool) (pairs : List (κ × β)) (key : κ) (value : β) : (dictSet pairs key value).filter (q ·.1) =
      if q key then dictSet (pairs.filter (q ·.1)) key value else pairs.filter (q ·.1) := by
  have hmap : ((fun kv : κ × β => q kv.1) ∘ fun kv => if kv.1 = key then (key, value) else kv) = fun kv => q kv.1 := by
    funext kv
    by_cases hkv : kv.1 = key
    · simp [hkv]
    · simp [hkv]
  unfold dictSet
  by_cases hkey : q key = true
  · have hany : (pairs.filter (q ·.1)).any (·.1 = key) = pairs.any (·.1 = key) := by
      rw [List.any_filter]
      congr 1
      funext kv
      by_cases hkv : kv.1 = key
      · simp [hkv, hkey]
      · simp [hkv]
    rw [if_pos hkey, hany]
    split
    · rw [List.filter_map, hmap]
    · rw [List.filter_append]
      simp [hkey]
  rw [if_neg hkey]
  split
  · rw [List.filter_map, hmap]
    refine (List.map_congr_left ?_).trans (List.map_id _)
    intro kv hkv
    rw [if_neg]
    · rfl
    · rintro rfl
      exact hkey (List.mem_filter.mp hkv).2
  · rw [List.filter_append]
    simp [hkey]

theorem keys_dictSet (pairs : List (κ × β)) (key : κ) (value : β) :
    (dictSet pairs key value).map Prod.fst = if key ∈ pairs.map Prod.fst then pairs.map Prod.fst else pairs.map Prod.fst ++ [key] := by
  have hany : pairs.any (·.1 = key) = true ↔ key ∈ pairs.map Prod.fst := by
    simp
  unfold dictSet
  by_cases h : key ∈ pairs.map Prod.fst
  · rw [if_pos (hany.mpr h), if_pos h, List.map_map]
    refine List.map_congr_left ?_
    intro kv _
    by_cases hkv : kv.1 = key
    · simp [hkv]
    · simp [hkv]
  · rw [if_neg fun htrue => h (hany.mp htrue), if_neg h, List.map_append, List.map_singleton]

/-- `{f(key): value for key, value in pairs}`. -/
def rekey (f : α → κ) (pairs : List (α × β)) : List (κ × β) := pairs.foldl (fun table kv => dictSet table (f kv.1) kv.2) []

theorem rekey_append (f : α → κ) (pairs : List (α × β)) (kv : α × β) :
    rekey f (pairs ++ [kv]) = dictSet (rekey f pairs) (f kv.1) kv.2 := by
  rw [rekey, List.foldl_append]
  rfl

theorem filter_rekey (q : κ → Bool) (f : α → κ) (pairs : List (α × β)) :
    (rekey f pairs).filter (q ·.1) = rekey f (pairs.filter fun kv => q (f kv.1)) := by
  induction pairs using List.reverseRecOn with
  | nil => rfl
  | append_singleton pairs kv ih =>
    rw [rekey_append, filter_dictSet, ih, List.filter_append]
    split
    · rename_i hq
      rw [List.filter_singleton, hq, cond_true, rekey_append]
    · rename_i hq
      rw [List.filter_singleton, eq_false_of_ne_true hq, cond_false, List.append_nil]

/-- The keys stand in the order in which they first came. -/
theorem keys_rekey (f : α → κ) (pairs : List (α × β)) : (rekey f pairs).map Prod.fst = (pairs.map fun kv => f kv.1).eraseDups := by
  induction pairs using List.reverseRecOn with
  | nil => rfl
  | append_singleton pairs kv ih =>
    rw [rekey_append, keys_dictSet, ih, List.map_append, List.map_singleton, List.eraseDups_append]
    by_cases hmem : f kv.1 ∈ pairs.map fun kv => f kv.1
    · rw [if_pos (List.mem_eraseDups.mpr hmem)]
      simp [List.removeAll, hmem]
    rw [if_neg fun h => hmem (List.mem_eraseDups.mp h)]
    have hall : ([f kv.1].removeAll (pairs.map fun kv => f kv.1)) = [f kv.1] := by
      simpa [List.removeAll] using hmem
    rw [hall]
    rfl

/-- Of the pairs with one key the last one counts. -/
theorem dictGet_rekey (f : α → κ) (pairs : List (α × β)) (key : κ) :
    dictGet (rekey f pairs) key = (pairs.reverse.find? fun kv => f kv.1 = key).map (·.2) := by
  induction pairs using List.reverseRecOn with
  | nil => rfl
  | append_singleton pairs kv ih =>
    rw [rekey_append, List.reverse_append, List.reverse_singleton, List.singleton_append, List.find?_cons]
    by_cases h : f kv.1 = key
    · rw [h, dictGet_dictSet]
      simp
    · rw [dictGet_dictSet_of_ne _ _ (Ne.symm h), ih]
      simp [h]

/-- The last pair of a dictionary: its key came in last, and of the pairs with that key it is the last. -/
theorem getLast?_rekey (f : α → κ) (pairs : List (α × β)) : (rekey f pairs).getLast?.map (·.2) =
      ((pairs.map fun kv => f kv.1).eraseDups.getLast?.bind fun key => pairs.reverse.find? fun kv => f kv.1 = key).map (·.2) := by
  rw [← keys_rekey, List.getLast?_map, Option.map_bind]
  cases hlast : (rekey f pairs).getLast? with
  | none => rfl
  | some last =>
    rw [Option.map_some, Option.map_some, Option.bind_some, Function.comp_apply, ← dictGet_rekey, dictGet,
      List.getLast?_eq_head?_reverse] at *
    cases hreverse : (rekey f pairs).reverse with
    | nil => simp [hreverse] at hlast
    | cons kv kvs =>
      rw [hreverse, List.head?_cons] at hlast
      cases hlast
      simp

/-- A function that keeps its answers in a dictionary: `if k in table: return table[k]`, else compute and store. -/
def memoCall (key : α → κ) (f : α → β) (table : List (κ × β)) (a : α) : β × List (κ × β) :=
  match dictGet table (key a) with
  | some b => (b, table)
  | none => (f a, table ++ [(key a, f a)])

/-- Every stored answer is the answer of every argument with that key. -/
def MemoSound (key : α → κ) (f : α → β) (table : List (κ × β)) : Prop :=
  ∀ a b, dictGet table (key a) = some b → f a = b

theorem memoSound_nil (key : α → κ) (f : α → β) : MemoSound key f [] := by
  intro a b h
  simp [dictGet] at h

/-- When the key decides the answer, a call answers as the function does and stores soundly. -/
theorem memoCall_spec {key : α → κ} {f : α → β} (hkey : ∀ a a', key a = key a' → f a = f a')
    {table : List (κ × β)} (hs : MemoSound key f table) (a : α) :
    (memoCall key f table a).1 = f a ∧ MemoSound key f (memoCall key f table a).2 := by
  unfold memoCall
  cases hget : dictGet table (key a) with
  | some b => exact ⟨(hs a b hget).symm, hs⟩
  | none =>
    refine ⟨rfl, ?_⟩
    intro a' b hb
    rw [dictGet_append] at hb
    by_cases hk : key a = key a'
    · rw [if_pos hk] at hb
      exact (hkey a a' hk).symm.trans (Option.some.inj hb)
    · rw [if_neg hk] at hb
      exact hs a' b hb

end Dict

end Lib.Py

import Mathlib.Data.List.Basic
import Mathlib.Data.List.Infix
import Mathlib.Tactic.Common

/-!
# Replacing a word in a text (`str.replace`)

`rewrite here width new` reads a text from left to right; where `here` finds a word of `width` characters it writes `new`
and goes on after the word. `replace` is the one for a fixed word.

A text can carry marks: `rewrite` over pairs does the same to the characters (`map_rewrite`), and `onlyMarked` says that
every word it finds begins at a mark.
-/

namespace Lib.Text

variable {α β : Type*}

/-- The counter is the number of characters of the last word that are still to be passed over. -/
def rewrite (here : List α → Bool) (width : Nat) (new : List α) : Nat → List α → List α
  | _, [] => []
  | skip + 1, _ :: text => rewrite here width new skip text
  | 0, c :: text =>
    if here (c :: text) then new ++ rewrite here width new (width - 1) text else c :: rewrite here width new 0 text

/-- Every word found begins at a mark. -/
def onlyMarked (here : List (α × Bool) → Bool) (width : Nat) : Nat → List (α × Bool) → Bool
  | _, [] => true
  | skip + 1, _ :: text => onlyMarked here width skip text
  | 0, c :: text =>
    if here (c :: text) then c.2 && onlyMarked here width (width - 1) text else onlyMarked here width 0 text

/-- A text rewritten through a projection is the projection rewritten. -/
theorem map_rewrite (f : α → β) (here : List β → Bool) (width : Nat) (new : List α) (skip : Nat) (text : List α) :
    (rewrite (fun l => here (l.map f)) width new skip text).map f = rewrite here width (new.map f) skip (text.map f) := by
  induction text generalizing skip with
  | nil => simp [rewrite]
  | cons c text ih =>
    cases skip with
    | succ skip => exact ih skip
    | zero =>
      simp only [rewrite, List.map_cons]
      split
      · rw [List.map_append, ih]
      · rw [List.map_cons, ih]

theorem rewrite_skip (here : List α → Bool) (width : Nat) (new skipped text : List α) :
    rewrite here width new skipped.length (skipped ++ text) = rewrite here width new 0 text := by
  induction skipped with
  | nil => rfl
  | cons c skipped ih => exact ih

theorem onlyMarked_skip (here : List (α × Bool) → Bool) (width : Nat) (skipped text : List (α × Bool)) :
    onlyMarked here width skipped.length (skipped ++ text) = onlyMarked here width 0 text := by
  induction skipped with
  | nil => rfl
  | cons c skipped ih => exact ih

/-- Characters without a mark stay where only marked words are replaced. -/
theorem rewrite_unmarked {here : List (α × Bool) → Bool} {width : Nat} {new : List (α × Bool)} {run text : List (α × Bool)}
    (hrun : ∀ c ∈ run, c.2 = false) (h : onlyMarked here width 0 (run ++ text) = true) :
    rewrite here width new 0 (run ++ text) = run ++ rewrite here width new 0 text ∧ onlyMarked here width 0 text = true := by
  induction run with
  | nil => exact ⟨rfl, h⟩
  | cons c run ih =>
    have hc : c.2 = false := hrun c List.mem_cons_self
    rw [List.cons_append] at h ⊢
    rw [onlyMarked] at h
    split at h
    · rw [hc] at h
      cases h
    · rename_i hfalse
      obtain ⟨hrest, hmarked⟩ := ih (fun d hd => hrun d (List.mem_cons_of_mem _ hd)) h
      rw [rewrite, if_neg hfalse, hrest]
      exact ⟨rfl, hmarked⟩

section Words

variable [DecidableEq α]

/-- `text.replace(old, new)` for an `old` that is not empty. -/
def replace (old new text : List α) : List α := rewrite old.isPrefixOf old.length new 0 text

variable {old : List α}

theorem replace_here (new text : List α) (h : old ≠ []) : replace old new (old ++ text) = new ++ replace old new text := by
  obtain ⟨c, rest, rfl⟩ := List.exists_cons_of_ne_nil h
  have hhere : (c :: rest).isPrefixOf (c :: (rest ++ text)) = true := List.isPrefixOf_iff_prefix.mpr (List.prefix_append _ _)
  show rewrite _ (rest.length + 1) new 0 (c :: (rest ++ text)) = _
  rw [rewrite, if_pos hhere, Nat.add_sub_cancel, rewrite_skip]
  rfl

theorem replace_pass (new : List α) {c : α} {text : List α} (h : ¬ old <+: c :: text) :
    replace old new (c :: text) = c :: replace old new text := by
  unfold replace
  rw [rewrite, if_neg fun hhere => h (List.isPrefixOf_iff_prefix.mp hhere)]

/-- The words that `replace` would find, with the counter of `rewrite`. -/
def countFrom (word : List α) : Nat → List α → Nat
  | _, [] => 0
  | skip + 1, _ :: text => countFrom word skip text
  | 0, c :: text => if word.isPrefixOf (c :: text) then countFrom word (word.length - 1) text + 1 else countFrom word 0 text

/-- `text.count(word)` for a `word` that is not empty. -/
def count (word text : List α) : Nat := countFrom word 0 text

/-- Where a marked text has the word `old`. -/
def wordHere (old : List α) (text : List (α × Bool)) : Bool := old.isPrefixOf (text.map Prod.fst)

/-- Where the word occurs, the new one is written. -/
theorem infix_replace {old new text : List α} (h : old <:+: text) (hne : old ≠ []) : new <:+: replace old new text := by
  induction text with
  | nil => exact absurd (List.eq_nil_of_infix_nil h) hne
  | cons c text ih =>
    unfold replace at ih ⊢
    rw [rewrite]
    split
    · exact (List.prefix_append _ _).isInfix
    rename_i hnot
    have hrest : old <:+: text := by
      rcases List.infix_cons_iff.mp h with hpre | hinfix
      · exact absurd (List.isPrefixOf_iff_prefix.mpr hpre) hnot
      · exact hinfix
    exact List.infix_cons (ih hrest)

omit [DecidableEq α] in
/-- A word that shares no character with one that the text goes on with ends before it. -/
theorem prefix_before {old before word after : List α} (hdisjoint : ∀ c ∈ word, c ∉ old) (hne : word ≠ [])
    (h : old <+: before ++ word ++ after) : old.length ≤ before.length := by
  by_contra hlt
  obtain ⟨c, rest, rfl⟩ := List.exists_cons_of_ne_nil hne
  obtain ⟨tail, htail⟩ := h
  have hget : (old ++ tail)[before.length]? = some c := by
    rw [htail]
    simp
  rw [List.getElem?_append_left (by omega)] at hget
  exact hdisjoint c List.mem_cons_self (List.mem_of_getElem? hget)

/-- Characters that are not in the word are passed by. -/
theorem rewrite_apart {old new run text : List α} (hold : old ≠ []) (hrun : ∀ c ∈ run, c ∉ old) :
    rewrite old.isPrefixOf old.length new 0 (run ++ text) = run ++ rewrite old.isPrefixOf old.length new 0 text := by
  induction run with
  | nil => rfl
  | cons c run ih =>
    have hnot : ¬ old.isPrefixOf (c :: (run ++ text)) = true := by
      obtain ⟨d, rest, rfl⟩ := List.exists_cons_of_ne_nil hold
      rw [List.isPrefixOf_iff_prefix, List.cons_prefix_cons]
      rintro ⟨rfl, -⟩
      exact hrun d List.mem_cons_self List.mem_cons_self
    rw [List.cons_append, rewrite, if_neg hnot, ih fun d hd => hrun d (List.mem_cons_of_mem _ hd)]
    rfl

/-- A part of the text that shares no character with the word stays in it. -/
theorem infix_kept {old new word text : List α} (hold : old ≠ []) (hdisjoint : ∀ c ∈ word, c ∉ old) (hne : word ≠ [])
    (h : word <:+: text) :
    word <:+: replace old new text := by
  obtain ⟨before, after, rfl⟩ := h
  suffices hskip : ∀ skip ≤ before.length, word <:+: rewrite old.isPrefixOf old.length new skip (before ++ word ++ after) from
    hskip 0 (Nat.zero_le _)
  -- the scan comes to the part with nothing left to pass over
  have hreach : word <:+: rewrite old.isPrefixOf old.length new 0 (word ++ after) := by
    rw [rewrite_apart hold hdisjoint]
    exact (List.prefix_append _ _).isInfix
  intro skip hle
  induction before generalizing skip with
  | nil =>
    obtain rfl := Nat.le_zero.mp hle
    simpa using hreach
  | cons c before ih =>
    cases skip with
    | succ skip => exact ih skip (by simpa using hle)
    | zero =>
      simp only [List.cons_append, rewrite]
      split
      · rename_i hhere
        have hlen := prefix_before hdisjoint hne (List.isPrefixOf_iff_prefix.mp hhere : old <+: (c :: before) ++ word ++ after)
        rw [List.length_cons] at hlen
        exact (ih (old.length - 1) (by omega)).trans (List.suffix_append _ _).isInfix
      · exact List.infix_cons (ih 0 (Nat.zero_le _))

theorem map_fst_rewrite (old : List α) (new text : List (α × Bool)) :
    (rewrite (wordHere old) old.length new 0 text).map Prod.fst = replace old (new.map Prod.fst) (text.map Prod.fst) :=
  map_rewrite Prod.fst old.isPrefixOf old.length new 0 text

/-- Every occurrence of `old` in the text begins at a mark. -/
def Marked (old : List α) (text : List (α × Bool)) : Prop :=
  ∀ before after, text.map Prod.fst = before ++ old ++ after → (text[before.length]?).any (·.2) = true

variable {text : List (α × Bool)}

omit [DecidableEq α] in
theorem marked_cons {c : α × Bool} :
    Marked old (c :: text) ↔ (old <+: (c :: text).map Prod.fst → c.2 = true) ∧ Marked old text := by
  constructor
  · intro h
    constructor
    · rintro ⟨after, hafter⟩
      simpa using h [] after hafter.symm
    · intro before after heq
      have := h (c.1 :: before) after (by rw [List.map_cons, heq]; rfl)
      simpa using this
  rintro ⟨hfirst, hrest⟩ before after heq
  cases before with
  | nil => simpa using hfirst ⟨after, heq.symm⟩
  | cons d before =>
    rw [List.map_cons] at heq
    simpa using hrest before after (List.cons.inj heq).2

theorem onlyMarked_of_skip {head : α} {rest : List α} (hrest : head ∉ rest) {skip : Nat}
    (hskip : ∀ c ∈ text.take skip, c.1 ≠ head) :
    onlyMarked (wordHere (head :: rest)) (rest.length + 1) skip text = true ↔ Marked (head :: rest) text := by
  induction text generalizing skip with
  | nil =>
    refine iff_of_true rfl ?_
    intro before after heq
    simp at heq
  | cons c text ih =>
    rw [marked_cons]
    cases skip with
    | succ skip =>
      rw [List.take_succ_cons] at hskip
      have hc : ¬ head :: rest <+: (c :: text).map Prod.fst := by
        rw [List.map_cons, List.cons_prefix_cons]
        exact fun h => hskip c List.mem_cons_self h.1.symm
      rw [onlyMarked, ih fun d hd => hskip d (List.mem_cons_of_mem _ hd)]
      exact ⟨fun h => ⟨fun hp => absurd hp hc, h⟩, fun h => h.2⟩
    | zero =>
      rw [onlyMarked]
      by_cases hp : head :: rest <+: (c :: text).map Prod.fst
      · -- the rest of the word is passed over, and no other word begins in it
        have hnext : ∀ d ∈ text.take rest.length, d.1 ≠ head := by
          rw [List.map_cons, List.cons_prefix_cons] at hp
          obtain ⟨after, hafter⟩ := hp.2
          intro d hd heq
          have hmem : d.1 ∈ (text.map Prod.fst).take rest.length := by
            rw [← List.map_take]
            exact List.mem_map_of_mem hd
          rw [← hafter, List.take_left] at hmem
          exact hrest (heq ▸ hmem)
        have hhere : wordHere (head :: rest) (c :: text) = true := List.isPrefixOf_iff_prefix.mpr hp
        rw [if_pos hhere, Bool.and_eq_true, Nat.add_sub_cancel, ih hnext]
        exact ⟨fun h => ⟨fun _ => h.1, h.2⟩, fun h => ⟨h.1 hp, h.2⟩⟩
      · have hnone : ¬ wordHere (head :: rest) (c :: text) = true := fun h => hp (List.isPrefixOf_iff_prefix.mp h)
        have hstart : ∀ d ∈ text.take 0, d.1 ≠ head := by simp
        rw [if_neg hnone, ih hstart]
        exact ⟨fun h => ⟨fun h' => absurd h' hp, h⟩, fun h => h.2⟩

/-- For a word whose first character is nowhere else in it, `onlyMarked` finds out whether it occurs at marks only. -/
theorem onlyMarked_iff {head : α} {rest : List α} (hrest : head ∉ rest) :
    onlyMarked (wordHere (head :: rest)) (rest.length + 1) 0 text = true ↔ Marked (head :: rest) text :=
  onlyMarked_of_skip hrest (by simp)

end Words

end Lib.Text

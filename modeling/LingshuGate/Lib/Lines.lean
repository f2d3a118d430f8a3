import Mathlib.Data.List.Basic

/-!
# Lines of a byte stream

CRLF, LF and CR end a line. `split` reads a whole text, with the line it is in; what stands after the last end is no line. A
reader that gets the text in pieces keeps the bytes since the last end and whether that end was a CR, whose LF may be still to
come: `after` says which lines such a reader has before it, and `after_end`, `after_no_end` what one search for an end does.
-/

namespace Lib.Lines

abbrev Bytes := List UInt8

def isEnd (b : UInt8) : Bool := b = 10 || b = 13

/-- The lines that end in `bytes`, the first of which begins with `line`. -/
def split : Bytes → Bytes → List Bytes
  | _, [] => []
  | line, [b] => if isEnd b then [line] else []
  | line, b :: c :: rest =>
    if b = 13 ∧ c = 10 then line :: split [] rest
    else if isEnd b then line :: split [] (c :: rest)
    else split (line ++ [b]) (c :: rest)

/-- Without the LF of a CR that has been read. -/
def dropLf (skip : Bool) (bytes : Bytes) : Bytes :=
  match bytes with
  | [] => []
  | b :: rest => if skip && b = 10 then rest else b :: rest

/-- The lines that end in `bytes`, after an end that was a CR or not. -/
def after (skip : Bool) (bytes : Bytes) : List Bytes := split [] (dropLf skip bytes)

/-- `re.search(b"[\r\n]", bytes, offset)`. -/
def search (bytes : Bytes) (offset : Nat) : Option Nat := ((bytes.drop offset).findIdx? isEnd).map (offset + ·)

variable {line bytes rest : Bytes} {b : UInt8} {skip : Bool}

@[simp] theorem dropLf_nil (skip : Bool) : dropLf skip [] = [] := rfl

@[simp] theorem dropLf_false (bytes : Bytes) : dropLf false bytes = bytes := by
  cases bytes with
  | nil => rfl
  | cons b rest => simp [dropLf]

theorem dropLf_append (hne : bytes ≠ []) : dropLf skip (bytes ++ rest) = dropLf skip bytes ++ rest := by
  cases bytes with
  | nil => exact absurd rfl hne
  | cons b bytes =>
    simp only [List.cons_append, dropLf]
    split
    · rfl
    · rfl

theorem split_cons_end (h : isEnd b = true) : split line (b :: rest) = line :: split [] (dropLf (b = 13) rest) := by
  cases rest with
  | nil => simp [split, h]
  | cons c rest =>
    by_cases hcr : b = 13 ∧ c = 10
    · simp [split, dropLf, hcr]
    · rw [split, if_neg hcr, if_pos h]
      have hkeep : dropLf (b = 13) (c :: rest) = c :: rest := by
        simp only [dropLf, Bool.and_eq_true, decide_eq_true_eq]
        rw [if_neg hcr]
      rw [hkeep]

theorem split_cons_other (h : isEnd b = false) : split line (b :: rest) = split (line ++ [b]) rest := by
  cases rest with
  | nil => simp [split, h]
  | cons c rest =>
    have hcr : ¬(b = 13 ∧ c = 10) := by
      rintro ⟨rfl, -⟩
      simp [isEnd] at h
    rw [split, if_neg hcr, if_neg (by simp [h])]

/-- Bytes without an end belong to the line. -/
theorem split_append (h : ∀ b ∈ bytes, isEnd b = false) : split line (bytes ++ rest) = split (line ++ bytes) rest := by
  induction bytes generalizing line with
  | nil => simp
  | cons b bytes ih =>
    rw [List.cons_append, split_cons_other (h b List.mem_cons_self), ih fun b' hb' => h b' (List.mem_cons_of_mem _ hb')]
    simp

theorem split_eq_nil (h : ∀ b ∈ bytes, isEnd b = false) : split line bytes = [] := by
  have happ := @split_append line bytes [] h
  rw [List.append_nil] at happ
  rw [happ, split]

/-- A search that finds an end, after bytes that have none: it takes the first line. -/
theorem after_end {offset i : Nat} (hsearch : search bytes offset = some i) (hnone : ∀ b ∈ bytes.take offset, isEnd b = false)
    (future : Bytes) :
    i < bytes.length ∧ after false (bytes ++ future) =
      bytes.take i :: after (bytes[i]? = some 13) (bytes.drop (i + 1) ++ future) := by
  obtain ⟨j, hj, rfl⟩ := Option.map_eq_some_iff.mp hsearch
  obtain ⟨hlt, hend, hbefore⟩ := List.findIdx?_eq_some_iff_getElem.mp hj
  rw [List.length_drop] at hlt
  have hi : offset + j < bytes.length := by omega
  refine ⟨hi, ?_⟩
  -- no end before the one found
  have hclean : ∀ b ∈ bytes.take (offset + j), isEnd b = false := by
    intro b hb
    rw [List.take_add] at hb
    rcases List.mem_append.mp hb with hb | hb
    · exact hnone b hb
    · obtain ⟨k, hk, rfl⟩ := List.mem_iff_getElem.mp hb
      rw [List.length_take] at hk
      rw [List.getElem_take]
      simpa using hbefore k (by omega)
  have hb : bytes = bytes.take (offset + j) ++ bytes[offset + j] :: bytes.drop (offset + j + 1) := by
    rw [List.getElem_cons_drop, List.take_append_drop]
  have hisEnd : isEnd bytes[offset + j] = true := by
    rw [List.getElem_drop] at hend
    exact hend
  have hget : bytes[offset + j]? = some bytes[offset + j] := List.getElem?_eq_getElem hi
  unfold after
  rw [dropLf_false]
  conv_lhs => rw [hb, List.append_assoc, List.cons_append]
  rw [split_append hclean, split_cons_end hisEnd, List.nil_append, hget]
  simp only [Option.some.injEq]

/-- A search that finds none: no line ends in these bytes, and those to come are read with them. -/
theorem after_no_end {offset : Nat} (hsearch : search bytes offset = none) (hnone : ∀ b ∈ bytes.take offset, isEnd b = false) :
    ∀ b ∈ bytes, isEnd b = false := by
  intro b hb
  rw [← List.take_append_drop offset bytes] at hb
  rcases List.mem_append.mp hb with hb | hb
  · exact hnone b hb
  · have hfind : (bytes.drop offset).findIdx? isEnd = none := Option.map_eq_none_iff.mp hsearch
    simpa using List.findIdx?_eq_none_iff.mp hfind b hb

end Lib.Lines

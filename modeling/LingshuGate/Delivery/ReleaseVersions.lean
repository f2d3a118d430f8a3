import LingshuGate.Lib.SemVer
import LingshuGate.Lib.UrlParts

/-!
# Which release is newer (`release_updates.py`)

| here | there |
| --- | --- |
| `versionMatch`  | `_VERSION_RE.fullmatch` (release_updates.py:20) |
| `versionParts`  | `_version_parts` (22); `none` is its `ValueError` |
| `isNewer`       | `_is_newer` (38) |

No group but the fourth matches a `-` and none a `+`, so the text is cut at the first of each. `int` takes no more than 4300 digits.
-/

namespace LingshuGate.Releases

open Lib Lib.SemVer

/-- `[0-9A-Za-z.-]` -/
def metadataChar (c : Char) : Bool := c.isAlphanum || c = '.' || c = '-'

structure Groups where
  major : List Char
  minor : List Char
  patch : List Char
  prerelease : Option (List Char)

/-- An optional part: a sign and one or more characters. -/
def optionalPart (part : List Char) : Bool := part = [] || (part.tail ≠ [] && part.tail.all metadataChar)

def versionMatch (value : List Char) : Option Groups :=
  let main := value.takeWhile (· ≠ '+')
  let prerelease := main.dropWhile (· ≠ '-')
  if optionalPart (value.dropWhile (· ≠ '+')) && optionalPart prerelease then
    match Py.splitChars '.' (main.takeWhile (· ≠ '-')) with
    | [major, minor, patch] =>
      if Decimal.isNumeral major && Decimal.isNumeral minor && Decimal.isNumeral patch then
        some ⟨major, minor, patch, if prerelease = [] then none else some prerelease.tail⟩
      else none
    | _ => none
  else none

/-- `int(digits)`, which raises `ValueError` beyond `sys.get_int_max_str_digits()`. -/
def int (digits : List Char) : Option ℕ := if digits.length ≤ 4300 then some (Decimal.value digits) else none

/-- One turn of the loop over `prerelease.split(".")`. -/
def identifier (item : List Char) : Option Identifier :=
  if item = [] then none
  else if item.all Char.isDigit then
    if 1 < item.length && item.head? = some '0' then none else (int item).map .numeric
  else some (.alphanumeric (String.ofList item))

structure Parts where
  core : ℕ × ℕ × ℕ
  prerelease : Option (List Identifier)

def versionParts (value : List Char) : Option Parts := do
  let m ← versionMatch value
  let major ← int m.major
  let minor ← int m.minor
  let patch ← int m.patch
  match m.prerelease with
  | none => return ⟨(major, minor, patch), none⟩
  | some prerelease => return ⟨(major, minor, patch), some (← (Py.splitChars '.' prerelease).mapM identifier)⟩

/-- `left > right`, of the pairs `(0, number)` and `(1, text)`. -/
def greater : Identifier → Identifier → Bool
  | .numeric m, .numeric n => n < m
  | .numeric _, .alphanumeric _ => false
  | .alphanumeric _, .numeric _ => true
  | .alphanumeric s, .alphanumeric t => t < s

def coreGreater (left right : ℕ × ℕ × ℕ) : Bool :=
  if left.1 ≠ right.1 then right.1 < left.1
  else if left.2.1 ≠ right.2.1 then right.2.1 < left.2.1
  else right.2.2 < left.2.2

/-- The loop over `zip(candidate_pre, current_pre)`, and what follows it. -/
def prereleaseGreater (candidate current : List Identifier) : Bool :=
  match (candidate.zip current).find? fun (left, right) => left ≠ right with
  | some (left, right) => greater left right
  | none => current.length < candidate.length

def partsNewer (candidate current : Parts) : Bool :=
  if candidate.core ≠ current.core then coreGreater candidate.core current.core
  else match candidate.prerelease, current.prerelease with
    | none, prerelease => prerelease.isSome
    | some _, none => false
    | some left, some right => prereleaseGreater left right

def isNewer (candidate current : List Char) : Option Bool := do
  return partsNewer (← versionParts candidate) (← versionParts current)

example : isNewer "1.0.0-rc.10".toList "1.0.0-rc.9+build".toList = some true := by decide +kernel

/-! ## Reading a version back -/

def partsOf (v : Version) : Parts := ⟨(v.major, v.minor, v.patch), if v.prerelease = [] then none else some v.prerelease⟩

theorem dotted_splitChars (text : List Char) : dotted (Py.splitChars '.' text) = text := by
  induction text with
  | nil => rfl
  | cons c text ih =>
    rw [Py.splitChars]
    have hne := Py.splitChars_ne_nil '.' text
    cases hsplit : Py.splitChars '.' text with
    | nil => exact absurd hsplit hne
    | cons w ws =>
      rw [hsplit] at ih
      by_cases hc : c = '.'
      · subst hc
        rw [if_pos rfl, dotted, List.intercalate_cons_cons]
        exact congrArg ('.' :: ·) ih
      rw [if_neg hc]
      cases ws with
      | nil => simpa [dotted] using ih
      | cons w' ws =>
        simp only [dotted, List.intercalate_cons_cons] at ih ⊢
        exact congrArg (c :: ·) ih

variable {parts : List (List Char)}

theorem splitChars_dotted (hne : parts ≠ []) (h : ∀ p ∈ parts, '.' ∉ p) :
    Py.splitChars '.' (dotted parts) = parts := Url.splitChars_intercalate hne h

variable {c : Char}

theorem mem_dotted (h : c ∈ dotted parts) : c = '.' ∨ ∃ p ∈ parts, c ∈ p := by
  induction parts with
  | nil => cases h
  | cons p parts ih =>
    cases parts with
    | nil => exact .inr ⟨p, List.mem_singleton.mpr rfl, by simpa [dotted] using h⟩
    | cons q parts =>
      rw [dotted, List.intercalate_cons_cons, List.append_assoc, List.mem_append, List.singleton_append, List.mem_cons] at h
      rcases h with h | h | h
      · exact .inr ⟨p, List.mem_cons_self, h⟩
      · exact .inl h
      · rcases ih h with h | ⟨r, hr, hc⟩
        · exact .inl h
        · exact .inr ⟨r, List.mem_cons_of_mem _ hr, hc⟩

variable {p : List Char}

theorem mem_dotted_of (hp : p ∈ parts) (hc : c ∈ p) : c ∈ dotted parts := by
  induction parts with
  | nil => cases hp
  | cons q parts ih =>
    cases parts with
    | nil =>
      obtain rfl := List.mem_singleton.mp hp
      simpa [dotted] using hc
    | cons r parts =>
      rw [dotted, List.intercalate_cons_cons]
      rcases List.mem_cons.mp hp with rfl | hp
      · exact List.mem_append_left _ (List.mem_append_left _ hc)
      · exact List.mem_append_right _ (ih hp)

theorem dotted_ne_nil (h : p ≠ []) : dotted (p :: parts) ≠ [] := by
  cases parts with
  | nil => simpa [dotted] using h
  | cons q parts => simp [dotted, List.intercalate_cons_cons]

theorem identifierChar_of_digit (h : c.isDigit = true) : identifierChar c = true := by
  simp [identifierChar, Char.isAlphanum, h]

theorem metadataChar_iff : metadataChar c = true ↔ identifierChar c = true ∨ c = '.' := by
  simp only [metadataChar, identifierChar, Bool.or_eq_true, decide_eq_true_eq]
  tauto

theorem identifierChar_ne (h : identifierChar c = true) : c ≠ '.' ∧ c ≠ '+' := by
  constructor <;> rintro rfl <;> revert h <;> decide

variable {i : Identifier}

theorem text_chars (h : i.WellFormed) : i.text ≠ [] ∧ ∀ c ∈ i.text, identifierChar c = true := by
  cases i with
  | numeric n => exact ⟨Nat.toDigits_ne_nil, fun c hc => identifierChar_of_digit (JsonRead.isDigit_toDigits hc)⟩
  | alphanumeric t =>
    obtain ⟨hall, c, hc, -⟩ := h
    exact ⟨List.ne_nil_of_mem hc, hall⟩

/-- An identifier is read back from its text, but for a number of too many digits. -/
theorem identifier_text (h : i.WellFormed) : identifier i.text = some i ∨ identifier i.text = none ∧ 4300 < i.text.length := by
  have hne := (text_chars h).1
  cases i with
  | numeric n =>
    show identifier (Nat.toDigits 10 n) = _ ∨ identifier (Nat.toDigits 10 n) = none ∧ 4300 < (Nat.toDigits 10 n).length
    have hzero : ¬(decide (1 < (Nat.toDigits 10 n).length) && decide ((Nat.toDigits 10 n).head? = some '0')) = true := by
      rw [Bool.and_eq_true, decide_eq_true_eq, decide_eq_true_eq]
      rintro ⟨hlength, hhead⟩
      rw [JsonRead.toDigits_head hhead] at hlength
      exact absurd hlength (by decide)
    rw [identifier, if_neg Nat.toDigits_ne_nil, if_pos (Decimal.all_isDigit_toDigits n), if_neg hzero, int]
    by_cases hlength : (Nat.toDigits 10 n).length ≤ 4300
    · simp [hlength]
    · exact .inr ⟨by simp [hlength], by omega⟩
  | alphanumeric t =>
    obtain ⟨-, c, hc, hdigit⟩ := h
    have hall : t.toList.all Char.isDigit = false := List.all_eq_false.mpr ⟨c, hc, by simp [hdigit]⟩
    show identifier t.toList = _ ∨ _
    rw [identifier, if_neg (show t.toList ≠ [] from hne), if_neg (Bool.eq_false_iff.mp hall)]
    exact .inl (congrArg some (congrArg _ String.ofList_toList))

theorem identifier_read {item : List Char} (hread : identifier item = some i) (h : ∀ c ∈ item, identifierChar c = true) :
    i.WellFormed ∧ i.text = item := by
  unfold identifier at hread
  split at hread
  · cases hread
  rename_i hne
  split at hread
  · rename_i hall
    split at hread
    · cases hread
    rename_i hzero
    obtain ⟨n, hn, rfl⟩ := Option.map_eq_some_iff.mp hread
    have hnumeral : Decimal.isNumeral item = true := by
      by_cases hhead : item.head? = some '0'
      · obtain ⟨rest, rfl⟩ : ∃ rest, item = '0' :: rest := by
          cases item with
          | nil => cases hhead
          | cons c rest => exact ⟨rest, by rw [Option.some.inj hhead]⟩
        have hrest : rest = [] := by
          by_contra hrest
          exact hzero (by simpa using List.length_pos_iff.mpr hrest)
        rw [hrest]
        rfl
      · simp [Decimal.isNumeral, hne, hhead, hall, -List.all_eq_true]
    unfold int at hn
    split at hn
    · obtain rfl := Option.some.inj hn
      exact ⟨trivial, Decimal.toDigits_value hnumeral⟩
    · cases hn
  rename_i hall
  obtain rfl := Option.some.inj hread
  obtain ⟨c, hc, hdigit⟩ := List.all_eq_false.mp (Bool.eq_false_iff.mpr hall)
  refine ⟨⟨by simpa using h, c, by simpa using hc, Bool.eq_false_iff.mpr hdigit⟩, ?_⟩
  simp [Identifier.text]

theorem mapM_text {ids : List Identifier} (h : ∀ i ∈ ids, i.WellFormed) : (ids.map Identifier.text).mapM identifier = some ids ∨
      (ids.map Identifier.text).mapM identifier = none ∧ ∃ i ∈ ids, 4300 < i.text.length := by
  induction ids with
  | nil => exact .inl rfl
  | cons i ids ih =>
    rw [List.map_cons, List.mapM_cons]
    rcases identifier_text (h i List.mem_cons_self) with hi | ⟨hi, hlong⟩
    · rw [hi]
      rcases ih fun j hj => h j (List.mem_cons_of_mem _ hj) with hrest | ⟨hrest, j, hj, hlong⟩
      · exact .inl (by rw [hrest]; rfl)
      · exact .inr ⟨by rw [hrest]; rfl, j, List.mem_cons_of_mem _ hj, hlong⟩
    · exact .inr ⟨by rw [hi]; rfl, i, List.mem_cons_self, hlong⟩

theorem mapM_read {items : List (List Char)} {ids : List Identifier} (hread : items.mapM identifier = some ids)
    (h : ∀ item ∈ items, ∀ c ∈ item, identifierChar c = true) : (∀ i ∈ ids, i.WellFormed) ∧ ids.map Identifier.text = items := by
  induction items generalizing ids with
  | nil =>
    obtain rfl := Option.some.inj hread
    exact ⟨fun i hi => absurd hi List.not_mem_nil, rfl⟩
  | cons item items ih =>
    simp only [List.mapM_cons, Option.bind_eq_bind, Option.bind_eq_some_iff, Option.pure_def, Option.some.injEq] at hread
    obtain ⟨i, hi, rest, hrest, rfl⟩ := hread
    obtain ⟨hwell, htext⟩ := identifier_read hi (h item List.mem_cons_self)
    obtain ⟨hwells, htexts⟩ := ih hrest fun item hitem => h item (List.mem_cons_of_mem _ hitem)
    refine ⟨?_, by rw [List.map_cons, htext, htexts]⟩
    intro j hj
    rcases List.mem_cons.mp hj with rfl | hj
    · exact hwell
    · exact hwells j hj

/-! ## The groups of a version's text -/

section Groups

variable {v : Version}

theorem coreText_chars {c : Char} (h : c ∈ v.coreText) : c ≠ '+' ∧ c ≠ '-' := by
  rcases mem_dotted h with rfl | ⟨p, hp, hc⟩
  · decide
  · have hdigit : c.isDigit = true := by
      simp only [List.mem_cons, List.not_mem_nil, or_false] at hp
      rcases hp with rfl | rfl | rfl <;> exact JsonRead.isDigit_toDigits hc
    constructor <;> rintro rfl <;> revert hdigit <;> decide

theorem prereleaseText_shape (h : v.WellFormed) : v.prereleaseText = [] ∧ v.prerelease = [] ∨
    v.prerelease ≠ [] ∧ v.prereleaseText = '-' :: dotted (v.prerelease.map Identifier.text) ∧
      dotted (v.prerelease.map Identifier.text) ≠ [] ∧ ∀ c ∈ dotted (v.prerelease.map Identifier.text), metadataChar c = true := by
  unfold Version.prereleaseText
  by_cases hpre : v.prerelease = []
  · rw [if_pos hpre]
    exact .inl ⟨rfl, hpre⟩
  rw [if_neg hpre]
  refine .inr ⟨hpre, rfl, ?_, ?_⟩
  · cases hids : v.prerelease with
    | nil => exact absurd hids hpre
    | cons i ids => exact dotted_ne_nil (text_chars (h i (hids ▸ List.mem_cons_self))).1
  intro c hc
  rcases mem_dotted hc with rfl | ⟨p, hp, hc⟩
  · rfl
  · obtain ⟨i, hi, rfl⟩ := List.mem_map.mp hp
    exact metadataChar_iff.mpr (.inl ((text_chars (h i hi)).2 c hc))

theorem text_chars_ne_plus (h : v.WellFormed) {c : Char} (hc : c ∈ v.text) : c ≠ '+' := by
  rcases List.mem_append.mp hc with hc | hc
  · exact (coreText_chars hc).1
  rcases prereleaseText_shape h with ⟨hnil, -⟩ | ⟨-, htext, -, hall⟩
  · rw [hnil] at hc
    cases hc
  rw [htext, List.mem_cons] at hc
  rcases hc with rfl | hc
  · decide
  · rcases metadataChar_iff.mp (hall c hc) with hid | rfl
    · exact (identifierChar_ne hid).2
    · decide

/-- A text of the class up to a sign, and the sign with what follows it. -/
theorem cut_at {sign : Char} {front back : List Char} (hfront : ∀ c ∈ front, c ≠ sign) (hback : back = [] ∨ ∃ rest, back = sign :: rest) :
    (front ++ back).takeWhile (· ≠ sign) = front ∧ (front ++ back).dropWhile (· ≠ sign) = back := by
  have hall : ∀ c ∈ front, decide (c ≠ sign) = true := fun c hc => decide_eq_true (hfront c hc)
  rw [List.takeWhile_append_of_pos hall, List.dropWhile_append_of_pos hall]
  rcases hback with rfl | ⟨rest, rfl⟩
  · exact ⟨List.append_nil _, rfl⟩
  · simp

def groupsOf (v : Version) : Groups :=
  ⟨Nat.toDigits 10 v.major, Nat.toDigits 10 v.minor, Nat.toDigits 10 v.patch,
    if v.prerelease = [] then none else some (dotted (v.prerelease.map Identifier.text))⟩

theorem versionMatch_text (h : v.WellFormed) {build : List Char} (hbuild : build = [] ∨ ∃ rest, build = '+' :: rest) :
    versionMatch (v.text ++ build) = if optionalPart build then some (groupsOf v) else none := by
  obtain ⟨hmain, hdrop⟩ := cut_at (fun c hc => text_chars_ne_plus h hc) hbuild
  have hshape := prereleaseText_shape h
  have hback : v.prereleaseText = [] ∨ ∃ rest, v.prereleaseText = '-' :: rest := by
    rcases hshape with ⟨hnil, -⟩ | ⟨-, htext, -, -⟩
    · exact .inl hnil
    · exact .inr ⟨_, htext⟩
  obtain ⟨hcore, hpre⟩ := cut_at (fun c hc => (coreText_chars (v := v) hc).2) hback
  have hsplit : Py.splitChars '.' v.coreText = [Nat.toDigits 10 v.major, Nat.toDigits 10 v.minor, Nat.toDigits 10 v.patch] := by
    refine splitChars_dotted (List.cons_ne_nil _ _) fun p hp hdot => ?_
    have hdigit : '.'.isDigit = true := by
      simp only [List.mem_cons, List.not_mem_nil, or_false] at hp
      rcases hp with rfl | rfl | rfl <;> exact JsonRead.isDigit_toDigits hdot
    cases hdigit
  have hoptional : optionalPart v.prereleaseText = true := by
    rcases hshape with ⟨hnil, -⟩ | ⟨-, htext, hne, hall⟩
    · rw [hnil]
      rfl
    · rw [htext]
      simpa [optionalPart, hne] using hall
  have hgroup : (if v.prereleaseText = [] then none else some v.prereleaseText.tail) = (groupsOf v).prerelease := by
    rcases hshape with ⟨hnil, hpre⟩ | ⟨hpre, htext, -, -⟩
    · rw [if_pos hnil, groupsOf, if_pos hpre]
    · rw [htext, if_neg (List.cons_ne_nil _ _), groupsOf, if_neg hpre]
      rfl
  simp only [versionMatch, hmain, hdrop]
  rw [Version.text] at hmain ⊢
  simp only [hcore, hpre, hsplit, hoptional, hgroup, Decimal.isNumeral_toDigits, Bool.and_true, if_true]
  rfl

end Groups

/-! ## Accepted texts are texts of versions -/

theorem length_le_dotted (h : p ∈ parts) : p.length ≤ (dotted parts).length := by
  induction parts with
  | nil => cases h
  | cons q parts ih =>
    cases parts with
    | nil =>
      obtain rfl := List.mem_singleton.mp h
      simp [dotted]
    | cons r parts =>
      rw [dotted, List.intercalate_cons_cons, List.length_append, List.length_append]
      rcases List.mem_cons.mp h with rfl | h
      · omega
      · have := ih h
        rw [dotted] at this
        omega

theorem int_toDigits (n : ℕ) : int (Nat.toDigits 10 n) = some n ∨ int (Nat.toDigits 10 n) = none ∧ 4300 < (Nat.toDigits 10 n).length := by
  unfold int
  by_cases hlength : (Nat.toDigits 10 n).length ≤ 4300
  · exact .inl (by rw [if_pos hlength, Decimal.value_toDigits])
  · exact .inr ⟨if_neg hlength, by omega⟩

theorem int_numeral {digits : List Char} {n : ℕ} (hnumeral : Decimal.isNumeral digits = true) (h : int digits = some n) :
    digits = Nat.toDigits 10 n := by
  unfold int at h
  split at h
  · obtain rfl := Option.some.inj h
    exact (Decimal.toDigits_value hnumeral).symm
  · cases h

variable {v : Version}

/-- The text of a version, whatever follows a `+`, is read as that version, or a number of it has too many digits. -/
theorem versionParts_text (h : v.WellFormed) {build : List Char} (hbuild : build = [] ∨ ∃ rest, build = '+' :: rest) :
    versionParts (v.text ++ build) = (if optionalPart build then some (partsOf v) else none) ∨
      versionParts (v.text ++ build) = none ∧ 4300 < v.text.length := by
  unfold versionParts
  rw [versionMatch_text h hbuild]
  have hcore : ∀ n ∈ [v.major, v.minor, v.patch], (Nat.toDigits 10 n).length ≤ v.text.length := by
    intro n hn
    have hle := length_le_dotted (List.mem_map_of_mem (f := Nat.toDigits 10) hn)
    have : v.text.length = v.coreText.length + v.prereleaseText.length := List.length_append
    rw [Version.coreText] at this
    exact hle.trans (by rw [this]; exact Nat.le_add_right _ _)
  by_cases hok : optionalPart build = true
  · rw [if_pos hok, if_pos hok]
    simp only [Option.bind_eq_bind, Option.bind_some, groupsOf]
    rcases int_toDigits v.major with hmajor | ⟨hnone, hlong⟩
    · rcases int_toDigits v.minor with hminor | ⟨hnone, hlong⟩
      · rcases int_toDigits v.patch with hpatch | ⟨hnone, hlong⟩
        · simp only [hmajor, hminor, hpatch, Option.bind_some, partsOf]
          by_cases hpre : v.prerelease = []
          · simp [hpre]
          simp only [if_neg hpre]
          rw [splitChars_dotted (by simpa using hpre) (by
            intro p hp hdot
            obtain ⟨i, hi, rfl⟩ := List.mem_map.mp hp
            exact (identifierChar_ne ((text_chars (h i hi)).2 _ hdot)).1 rfl)]
          rcases mapM_text h with hids | ⟨hnone, i, hi, hlong⟩
          · exact .inl (by rw [hids]; rfl)
          · refine .inr ⟨by rw [hnone]; rfl, ?_⟩
            have hle := length_le_dotted (List.mem_map_of_mem (f := Identifier.text) hi)
            rw [Version.text, List.length_append, Version.prereleaseText, if_neg hpre, List.length_cons]
            omega
        · have := hcore v.patch (by simp)
          exact .inr ⟨by simp [hmajor, hminor, hnone], by omega⟩
      · have := hcore v.minor (by simp)
        exact .inr ⟨by simp [hmajor, hnone], by omega⟩
    · have := hcore v.major (by simp)
      exact .inr ⟨by simp [hnone], by omega⟩
  · rw [if_neg hok, if_neg hok]
    exact .inl rfl

theorem optionalPart_read {sign : Char} {text : List Char} (h : optionalPart (text.dropWhile (· ≠ sign)) = true) :
    text.dropWhile (· ≠ sign) = [] ∨ ∃ rest, text.dropWhile (· ≠ sign) = sign :: rest ∧ rest ≠ [] ∧ ∀ c ∈ rest, metadataChar c = true := by
  cases hdrop : text.dropWhile (· ≠ sign) with
  | nil => exact .inl rfl
  | cons c rest =>
    have hc : c = sign := by
      have := List.head?_dropWhile_not (fun c => decide (c ≠ sign)) text
      rw [hdrop] at this
      simpa using this
    rw [hdrop] at h
    simp only [optionalPart, reduceCtorEq, decide_false, Bool.false_or, List.tail_cons, Bool.and_eq_true, List.all_eq_true] at h
    exact .inr ⟨rest, by rw [hc], of_decide_eq_true h.1, h.2⟩

variable {s : List Char}

theorem versionMatch_read {g : Groups} (h : versionMatch s = some g) :
    ∃ prerelease build, s = dotted [g.major, g.minor, g.patch] ++ prerelease ++ build ∧ (build = [] ∨ ∃ rest, build = '+' :: rest) ∧
      (Decimal.isNumeral g.major = true ∧ Decimal.isNumeral g.minor = true ∧ Decimal.isNumeral g.patch = true) ∧
      (prerelease = [] ∧ g.prerelease = none ∨
        ∃ rest, prerelease = '-' :: rest ∧ g.prerelease = some rest ∧ rest ≠ [] ∧ ∀ c ∈ rest, metadataChar c = true) := by
  unfold versionMatch at h
  simp only at h
  split at h
  · rename_i hoptional
    rw [Bool.and_eq_true] at hoptional
    split at h
    · rename_i major minor patch hsplit
      split at h
      · rename_i hnumerals
        obtain rfl := Option.some.inj h
        rw [Bool.and_eq_true, Bool.and_eq_true] at hnumerals
        have hcore := dotted_splitChars ((s.takeWhile (· ≠ '+')).takeWhile (· ≠ '-'))
        rw [hsplit] at hcore
        refine ⟨(s.takeWhile (· ≠ '+')).dropWhile (· ≠ '-'), s.dropWhile (· ≠ '+'), ?_, ?_, ⟨hnumerals.1.1, hnumerals.1.2, hnumerals.2⟩, ?_⟩
        · rw [hcore, List.takeWhile_append_dropWhile, List.takeWhile_append_dropWhile]
        · rcases optionalPart_read hoptional.1 with hnil | ⟨rest, hrest, -⟩
          · exact .inl hnil
          · exact .inr ⟨rest, hrest⟩
        rcases optionalPart_read hoptional.2 with hnil | ⟨rest, hrest, hne, hall⟩
        · exact .inl ⟨hnil, if_pos hnil⟩
        · refine .inr ⟨rest, hrest, ?_, hne, hall⟩
          rw [hrest, if_neg (List.cons_ne_nil _ _)]
          rfl
      · cases h
    · cases h
  · cases h

/-- What is accepted is the text of a version, up to its build metadata. -/
theorem versionParts_read {p : Parts} (h : versionParts s = some p) : ∃ v, Denotes s v ∧ p = partsOf v := by
  simp only [versionParts, Option.bind_eq_bind, Option.bind_eq_some_iff] at h
  obtain ⟨g, hg, major, hmajor, minor, hminor, patch, hpatch, h⟩ := h
  obtain ⟨prerelease, build, hs, hbuild, ⟨hn₁, hn₂, hn₃⟩, hpre⟩ := versionMatch_read hg
  rw [int_numeral hn₁ hmajor, int_numeral hn₂ hminor, int_numeral hn₃ hpatch] at hs
  rcases hpre with ⟨rfl, hnone⟩ | ⟨rest, rfl, hsome, hne, hall⟩
  · rw [hnone] at h
    obtain rfl := Option.some.inj h
    refine ⟨⟨major, minor, patch, []⟩, ⟨fun i hi => absurd hi List.not_mem_nil, build, ?_, hbuild⟩, rfl⟩
    rw [hs]
    rfl
  rw [hsome] at h
  simp only [Option.bind_eq_some_iff, Option.pure_def, Option.some.injEq] at h
  obtain ⟨ids, hids, rfl⟩ := h
  obtain ⟨hwell, htexts⟩ := mapM_read hids (by
    intro item hitem c hc
    have hmem : c ∈ rest := by
      rw [← dotted_splitChars rest]
      exact mem_dotted_of hitem hc
    rcases metadataChar_iff.mp (hall c hmem) with hid | rfl
    · exact hid
    · exact absurd hc (Py.not_mem_of_mem_splitChars hitem))
  have hpre : ids ≠ [] := by
    rintro rfl
    exact Py.splitChars_ne_nil '.' rest htexts.symm
  refine ⟨⟨major, minor, patch, ids⟩, ⟨hwell, build, ?_, hbuild⟩, ?_⟩
  · rw [hs, Version.text, Version.prereleaseText, if_neg hpre, htexts, dotted_splitChars]
    rfl
  · rw [partsOf, if_neg hpre]

/-! ## The comparison -/

theorem greater_iff {i j : Identifier} : greater i j = true ↔ j.Below i := by
  constructor
  · intro h
    cases i with
    | numeric m =>
      cases j with
      | numeric n => exact .numeric (of_decide_eq_true h)
      | alphanumeric t => cases h
    | alphanumeric s =>
      cases j with
      | numeric n => exact .kinds n s
      | alphanumeric t => exact .alphanumeric (of_decide_eq_true h)
  · rintro (h | _ | h)
    · exact decide_eq_true h
    · rfl
    · exact decide_eq_true h

theorem Below.irrefl (i : Identifier) : ¬i.Below i := fun h => lt_irrefl _ (Identifier.below_iff.mp h)

/-- The loop decides at the first difference, and else by the lengths. -/
theorem prereleaseGreater_iff {is js : List Identifier} : prereleaseGreater is js = true ↔ List.Lex Identifier.Below js is := by
  induction is generalizing js with
  | nil =>
    cases js with
    | nil | cons j js => simp [prereleaseGreater]
  | cons i is ih =>
    cases js with
    | nil => simp [prereleaseGreater]
    | cons j js =>
      by_cases hij : i = j
      · subst hij
        have hloop : prereleaseGreater (i :: is) (i :: js) = prereleaseGreater is js := by
          simp [prereleaseGreater]
        rw [hloop, ih]
        constructor
        · exact .cons
        · rintro (_ | h | h)
          · exact absurd h (Below.irrefl i)
          · exact h
      have hloop : prereleaseGreater (i :: is) (j :: js) = greater i j := by
        simp [prereleaseGreater, hij]
      rw [hloop, greater_iff]
      constructor
      · exact .rel
      · rintro (_ | h | h)
        · exact h
        · exact absurd rfl hij

theorem partsNewer_iff (v w : Version) : partsNewer (partsOf v) (partsOf w) = true ↔ Precedes w v := by
  obtain ⟨a, b, c, is⟩ := v
  obtain ⟨a', b', c', js⟩ := w
  constructor
  · intro h
    by_cases ha : a = a'
    · subst ha
      by_cases hb : b = b'
      · subst hb
        by_cases hc : c = c'
        · subst hc
          by_cases his : is = []
          · by_cases hjs : js = []
            · simp [partsNewer, partsOf, his, hjs] at h
            · exact .release rfl rfl rfl hjs his
          · by_cases hjs : js = []
            · simp [partsNewer, partsOf, his, hjs] at h
            · refine .prerelease rfl rfl rfl hjs his (prereleaseGreater_iff.mp ?_)
              simpa [partsNewer, partsOf, his, hjs] using h
        · exact .patch rfl rfl (by simpa [partsNewer, partsOf, coreGreater, hc] using h)
      · exact .minor rfl (by simpa [partsNewer, partsOf, coreGreater, hb] using h)
    · exact .major (by simpa [partsNewer, partsOf, coreGreater, ha] using h)
  intro h
  cases h with
  | major h =>
    have hne : a ≠ a' := ne_of_gt h
    simpa [partsNewer, partsOf, coreGreater, hne] using h
  | minor ha h =>
    have hne : b ≠ b' := ne_of_gt h
    obtain rfl : a' = a := ha
    simpa [partsNewer, partsOf, coreGreater, hne] using h
  | patch ha hb h =>
    have hne : c ≠ c' := ne_of_gt h
    obtain rfl : a' = a := ha
    obtain rfl : b' = b := hb
    simpa [partsNewer, partsOf, coreGreater, hne] using h
  | release ha hb hc hjs his =>
    obtain rfl : a' = a := ha
    obtain rfl : b' = b := hb
    obtain rfl : c' = c := hc
    have his : is = [] := his
    have hjs : js ≠ [] := hjs
    simp [partsNewer, partsOf, his, hjs]
  | prerelease ha hb hc hjs his h =>
    obtain rfl : a' = a := ha
    obtain rfl : b' = b := hb
    obtain rfl : c' = c := hc
    have his : is ≠ [] := his
    have hjs : js ≠ [] := hjs
    simpa [partsNewer, partsOf, his, hjs] using prereleaseGreater_iff.mpr h

/-- `_version_parts` accepts the text. -/
def Accepted (s : List Char) : Prop := (versionParts s).isSome = true

/-- The text without its build metadata. -/
def withoutBuild (s : List Char) : List Char := s.takeWhile (· ≠ '+')

theorem withoutBuild_of_denotes (h : Denotes s v) : withoutBuild s = v.text := by
  obtain ⟨hwell, build, rfl, hbuild⟩ := h
  exact (cut_at (fun c hc => text_chars_ne_plus hwell hc) hbuild).1

theorem versionParts_of_denotes (hs : Accepted s) (h : Denotes s v) : versionParts s = some (partsOf v) := by
  obtain ⟨hwell, build, rfl, hbuild⟩ := h
  obtain ⟨p, hp⟩ := Option.isSome_iff_exists.mp hs
  rcases versionParts_text hwell hbuild with htext | ⟨hnone, -⟩
  · rw [htext] at hp ⊢
    split at hp
    · rename_i hok
      exact if_pos hok
    · cases hp
  · rw [hnone] at hp
    cases hp

theorem partsOf_injective : Function.Injective partsOf := by
  rintro ⟨a, b, c, is⟩ ⟨a', b', c', js⟩ h
  simp only [partsOf, Parts.mk.injEq, Prod.mk.injEq] at h
  obtain ⟨⟨rfl, rfl, rfl⟩, h⟩ := h
  by_cases his : is = []
  · by_cases hjs : js = []
    · rw [his, hjs]
    · simp [his, hjs] at h
  · by_cases hjs : js = []
    · simp [his, hjs] at h
    · simp only [his, hjs, if_false, Option.some.injEq] at h
      rw [h]

theorem accepted_denotes (hs : Accepted s) : ∃! v, Denotes s v := by
  obtain ⟨p, hp⟩ := Option.isSome_iff_exists.mp hs
  obtain ⟨v, hv, -⟩ := versionParts_read hp
  refine ⟨v, hv, fun w hw => partsOf_injective (Option.some.inj ?_)⟩
  rw [← versionParts_of_denotes hs hw, versionParts_of_denotes hs hv]

theorem isNewer_iff {a b : List Char} {v w : Version} (ha : Accepted a) (hb : Accepted b) (hv : Denotes a v) (hw : Denotes b w) :
    isNewer a b = some (decide (Precedes w v)) := by
  rw [isNewer, versionParts_of_denotes ha hv, versionParts_of_denotes hb hw]
  exact congrArg some (Bool.eq_iff_iff.mpr (by rw [partsNewer_iff, decide_eq_true_iff]))

theorem accepted_of_isNewer {a b : List Char} {result : Bool} (h : isNewer a b = some result) : Accepted a ∧ Accepted b := by
  simp only [isNewer, Option.bind_eq_bind, Option.bind_eq_some_iff] at h
  obtain ⟨p, hp, q, hq, -⟩ := h
  exact ⟨Option.isSome_iff_exists.mpr ⟨p, hp⟩, Option.isSome_iff_exists.mpr ⟨q, hq⟩⟩

/-- A semantic version whose numbers are not too long is accepted. -/
theorem accepted_of_isSemVer (h : IsSemVer s) (hlength : s.length ≤ 4300) : Accepted s := by
  obtain ⟨v, ids, hwell, hids, rfl⟩ := h
  have hbuild : buildText ids = [] ∨ ∃ rest, buildText ids = '+' :: rest := by
    unfold buildText
    split
    · exact .inl rfl
    · exact .inr ⟨_, rfl⟩
  have hoptional : optionalPart (buildText ids) = true := by
    unfold buildText
    cases ids with
    | nil => rfl
    | cons i ids =>
      have hall : ∀ c ∈ dotted (i :: ids), metadataChar c = true := by
        intro c hc
        rcases mem_dotted hc with rfl | ⟨p, hp, hc⟩
        · rfl
        · exact metadataChar_iff.mpr (.inl ((hids p hp).2 c hc))
      have hne : dotted (i :: ids) ≠ [] := dotted_ne_nil (hids i List.mem_cons_self).1
      rw [if_neg (List.cons_ne_nil _ _)]
      simpa [optionalPart, hne] using hall
  rcases versionParts_text hwell hbuild with htext | ⟨-, hlong⟩
  · rw [Accepted, htext, if_pos hoptional]
    rfl
  · rw [List.length_append] at hlength
    omega

/-- **Release comparison is SemVer precedence.** What is accepted denotes one version, and a text is newer where the other's version
precedes its own; no text is newer than itself, newer is transitive, and of two accepted texts that differ before their build metadata
one is newer and the other is not. -/
theorem release_comparison : (∀ a b, Accepted a → Accepted b → ∃ v w, (∀ u, Denotes a u ↔ u = v) ∧ (∀ u, Denotes b u ↔ u = w) ∧
      isNewer a b = some (decide (Precedes w v))) ∧
    (∀ a, isNewer a a ≠ some true) ∧
    (∀ a b c, isNewer a b = some true → isNewer b c = some true → isNewer a c = some true) ∧
    (∀ a b, Accepted a → Accepted b → withoutBuild a ≠ withoutBuild b →
      isNewer a b = some true ∧ isNewer b a = some false ∨ isNewer a b = some false ∧ isNewer b a = some true) ∧
    ∀ s, IsSemVer s → s.length ≤ 96 → Accepted s := by
  refine ⟨?_, ?_, ?_, ?_, ?_⟩
  · intro a b ha hb
    obtain ⟨v, hv, hunique⟩ := accepted_denotes ha
    obtain ⟨w, hw, hunique'⟩ := accepted_denotes hb
    refine ⟨v, w, fun u => ⟨hunique u, ?_⟩, fun u => ⟨hunique' u, ?_⟩, isNewer_iff ha hb hv hw⟩
    · rintro rfl
      exact hv
    · rintro rfl
      exact hw
  · intro a h
    obtain ⟨ha, -⟩ := accepted_of_isNewer h
    obtain ⟨v, hv, -⟩ := accepted_denotes ha
    rw [isNewer_iff ha ha hv hv, Option.some.injEq, decide_eq_true_iff] at h
    exact Precedes.irrefl v h
  · intro a b c h h'
    obtain ⟨ha, hb⟩ := accepted_of_isNewer h
    obtain ⟨-, hc⟩ := accepted_of_isNewer h'
    obtain ⟨u, hu, -⟩ := accepted_denotes ha
    obtain ⟨v, hv, -⟩ := accepted_denotes hb
    obtain ⟨w, hw, -⟩ := accepted_denotes hc
    rw [isNewer_iff ha hb hu hv, Option.some.injEq, decide_eq_true_iff] at h
    rw [isNewer_iff hb hc hv hw, Option.some.injEq, decide_eq_true_iff] at h'
    rw [isNewer_iff ha hc hu hw, Option.some.injEq, decide_eq_true_iff]
    exact h'.trans h
  · intro a b ha hb hne
    obtain ⟨v, hv, -⟩ := accepted_denotes ha
    obtain ⟨w, hw, -⟩ := accepted_denotes hb
    have hversions : v ≠ w := by
      rintro rfl
      exact hne ((withoutBuild_of_denotes hv).trans (withoutBuild_of_denotes hw).symm)
    rw [isNewer_iff ha hb hv hw, isNewer_iff hb ha hw hv]
    rcases precedes_or hversions with ⟨h, h'⟩ | ⟨h, h'⟩
    · exact .inr ⟨by simp [h'], by simp [h]⟩
    · exact .inl ⟨by simp [h], by simp [h']⟩
  · intro s hs hlength
    exact accepted_of_isSemVer hs (by omega)

end LingshuGate.Releases

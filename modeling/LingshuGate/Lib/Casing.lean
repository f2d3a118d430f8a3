import Mathlib

/-!
# Capital and small letters (`str.lower`, `str.capitalize`, `str.title`)

What these do to ASCII text is given by three functions. To other letters they do what the tables of Unicode say: a
`Casing` is any three functions that are these on ASCII text.
-/

namespace Lib

/-- `s.isascii()`. -/
def Ascii (s : String) : Prop := ∀ c ∈ s.toList, c.toNat < 128

theorem Ascii.all_iff {s : String} : (s.toList.all fun c => c.toNat < 128) = true ↔ Ascii s := by
  simp [Ascii]

instance Ascii.decidable (s : String) : Decidable (Ascii s) := decidable_of_iff _ Ascii.all_iff

namespace Casing

/-- `s.capitalize()` of ASCII text. -/
def capitalizeAscii (s : String) : String :=
  match s.toList with
  | [] => ""
  | c :: cs => String.ofList (c.toUpper :: cs.map Char.toLower)

/-- A letter that follows a letter is a small one, any other a capital. -/
def titleChars : Bool → List Char → List Char
  | _, [] => []
  | true, c :: cs => c.toLower :: titleChars c.isAlpha cs
  | false, c :: cs => c.toUpper :: titleChars c.isAlpha cs

/-- `s.title()` of ASCII text. -/
def titleAscii (s : String) : String := String.ofList (titleChars false s.toList)

theorem toList_toLower (s : String) : s.toLower.toList = s.toList.map Char.toLower := String.toList_map ..

theorem toLower_capitalizeAscii (s : String) : (capitalizeAscii s).toLower = s.toLower := by
  apply String.toList_inj.mp
  rw [toList_toLower, toList_toLower, capitalizeAscii]
  cases s.toList with
  | nil => rfl
  | cons c cs => simp

theorem toLower_titleAscii (s : String) : (titleAscii s).toLower = s.toLower := by
  have h : ∀ (inside : Bool) (cs : List Char), (titleChars inside cs).map Char.toLower = cs.map Char.toLower := by
    intro inside cs
    induction cs generalizing inside with
    | nil =>
      cases inside
      · rfl
      · rfl
    | cons c cs ih =>
      cases inside
      · simp [titleChars, ih]
      · simp [titleChars, ih]
  apply String.toList_inj.mp
  rw [toList_toLower, toList_toLower, titleAscii, String.toList_ofList, h]

/-- How a text is capitalized does not depend on the case of its letters. -/
theorem capitalizeAscii_toLower (s : String) : capitalizeAscii s.toLower = capitalizeAscii s := by
  rw [capitalizeAscii, capitalizeAscii, toList_toLower]
  cases s.toList with
  | nil => rfl
  | cons c cs => simp [Function.comp_def]

theorem toNat_toLower_lt {c : Char} (h : c.toNat < 128) : c.toLower.toNat < 128 := by
  by_cases hupper : c.isUpper
  · have hbound : c.toNat ≤ 90 := by
      simp only [Char.isUpper, Bool.decide_and, Bool.and_eq_true, decide_eq_true_eq] at hupper
      exact hupper.2
    have hvalid : (c.toNat + 32).isValidChar := by
      left
      omega
    rw [Char.toLower_eq_of_isUpper hupper, Char.toNat_ofNat, if_pos hvalid]
    omega
  · rw [Char.toLower_eq_of_not_isUpper hupper]
    exact h

theorem toNat_toUpper_lt {c : Char} (h : c.toNat < 128) : c.toUpper.toNat < 128 := by
  by_cases hlower : c.isLower
  · have hvalid : (c.toNat - 32).isValidChar := by
      left
      omega
    rw [Char.toUpper_eq_of_isLower hlower, Char.toNat_ofNat, if_pos hvalid]
    omega
  · rw [Char.toUpper_eq_of_not_isLower hlower]
    exact h

theorem ascii_capitalizeAscii {s : String} (h : Ascii s) : Ascii (capitalizeAscii s) := by
  unfold Ascii capitalizeAscii at *
  generalize s.toList = cs at h
  cases cs with
  | nil => exact fun c hc => absurd hc List.not_mem_nil
  | cons c cs =>
    rw [List.forall_mem_cons] at h
    rw [String.toList_ofList, List.forall_mem_cons]
    refine ⟨toNat_toUpper_lt h.1, ?_⟩
    intro d hd
    obtain ⟨e, he, rfl⟩ := List.mem_map.mp hd
    exact toNat_toLower_lt (h.2 e he)

end Casing

/-- Three functions of text that are on ASCII text what they are in every language. -/
structure Casing where
  lower : String → String
  capitalize : String → String
  title : String → String
  lower_ascii : ∀ s, Ascii s → lower s = s.toLower
  capitalize_ascii : ∀ s, Ascii s → capitalize s = Casing.capitalizeAscii s
  title_ascii : ∀ s, Ascii s → title s = Casing.titleAscii s

namespace Casing

variable (py : Casing) {s t : String}

/-- `s.capitalize().title()`. -/
def headline (s : String) : String := py.title (py.capitalize s)

theorem headline_ascii (h : Ascii s) : py.headline s = titleAscii (capitalizeAscii s) := by
  rw [headline, py.capitalize_ascii s h, py.title_ascii _ (ascii_capitalizeAscii h)]

/-- ASCII texts that differ in the case of their letters only are capitalized alike. -/
theorem capitalize_eq (hs : Ascii s) (ht : Ascii t) (h : s.toLower = t.toLower) : py.capitalize s = py.capitalize t := by
  rw [py.capitalize_ascii s hs, py.capitalize_ascii t ht, ← capitalizeAscii_toLower s, h, capitalizeAscii_toLower]

theorem headline_eq_iff (hs : Ascii s) (ht : Ascii t) : py.headline s = py.headline t ↔ s.toLower = t.toLower := by
  constructor
  · intro h
    rw [py.headline_ascii hs, py.headline_ascii ht] at h
    rw [← toLower_capitalizeAscii s, ← toLower_titleAscii, h, toLower_titleAscii, toLower_capitalizeAscii]
  · intro h
    rw [headline, headline, py.capitalize_eq hs ht h]

/-- Every letter outside ASCII stays as it is. -/
def ascii : Casing where
  lower := String.toLower
  capitalize := capitalizeAscii
  title := titleAscii
  lower_ascii := fun _ _ => rfl
  capitalize_ascii := fun _ _ => rfl
  title_ascii := fun _ _ => rfl

theorem ascii_toLower_iff : Ascii s.toLower ↔ Ascii s := by
  rw [Ascii, toList_toLower]
  constructor
  · intro h c hc
    by_cases hupper : c.isUpper
    · simp only [Char.isUpper, Bool.decide_and, Bool.and_eq_true, decide_eq_true_eq] at hupper
      exact Nat.lt_of_le_of_lt hupper.2 (by decide)
    · have hlower := h c.toLower (List.mem_map_of_mem hc)
      rwa [Char.toLower_eq_of_not_isUpper hupper] at hlower
  · intro h c hc
    obtain ⟨d, hd, rfl⟩ := List.mem_map.mp hc
    exact toNat_toLower_lt (h d hd)

theorem ascii_of_capitalize (ht : Ascii t) (h : ascii.capitalize s = ascii.capitalize t) : Ascii s := by
  have hlower : s.toLower = t.toLower := by
    rw [← toLower_capitalizeAscii s, ← toLower_capitalizeAscii t]
    exact congrArg String.toLower h
  rw [← ascii_toLower_iff, hlower, ascii_toLower_iff]
  exact ht

theorem ascii_of_headline (ht : Ascii t) (h : ascii.headline s = ascii.headline t) : Ascii s := by
  have hlower : (ascii.capitalize s).toLower = (ascii.capitalize t).toLower := by
    rw [← toLower_titleAscii, ← toLower_titleAscii (ascii.capitalize t)]
    exact congrArg String.toLower h
  rw [← ascii_toLower_iff, ← toLower_capitalizeAscii s]
  exact (congrArg Ascii hlower).mpr (ascii_toLower_iff.mpr (ascii_capitalizeAscii ht))

end Casing

end Lib

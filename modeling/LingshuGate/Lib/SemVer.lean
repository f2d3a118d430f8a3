import Mathlib.Data.List.Lex
import Mathlib.Data.Prod.Lex
import Mathlib.Data.String.Basic
import Mathlib.Data.Sum.Order
import Mathlib.Order.WithBot
import LingshuGate.Lib.Decimal

/-!
# Semantic versions (SemVer 2.0.0)

`Version.text` writes a version without its build metadata, and `IsSemVer` is the grammar. `Precedes` is the precedence of clause 11.
It is the order of `Version.key`, a linear one, and a version is determined by its key: so of two different versions exactly one
precedes the other.
-/

namespace Lib.SemVer

/-! ## The grammar -/

inductive Identifier where
  | numeric (n : ℕ)
  | alphanumeric (text : String)
  deriving DecidableEq

structure Version where
  major : ℕ
  minor : ℕ
  patch : ℕ
  /-- Empty for a release. -/
  prerelease : List Identifier

/-- `[0-9A-Za-z-]` -/
def identifierChar (c : Char) : Bool := c.isAlphanum || c = '-'

def dotted (parts : List (List Char)) : List Char := List.intercalate ['.'] parts

namespace Identifier

def WellFormed : Identifier → Prop
  | numeric _ => True
  | alphanumeric text => (∀ c ∈ text.toList, identifierChar c = true) ∧ ∃ c ∈ text.toList, c.isDigit = false

def text : Identifier → List Char
  | numeric n => Nat.toDigits 10 n
  | alphanumeric text => text.toList

end Identifier

namespace Version

def WellFormed (v : Version) : Prop := ∀ i ∈ v.prerelease, i.WellFormed

def coreText (v : Version) : List Char := dotted [Nat.toDigits 10 v.major, Nat.toDigits 10 v.minor, Nat.toDigits 10 v.patch]

def prereleaseText (v : Version) : List Char :=
  if v.prerelease = [] then [] else '-' :: dotted (v.prerelease.map Identifier.text)

/-- The version without build metadata. -/
def text (v : Version) : List Char := v.coreText ++ v.prereleaseText

end Version

def buildText (ids : List (List Char)) : List Char := if ids = [] then [] else '+' :: dotted ids

/-- The text is a semantic version. -/
def IsSemVer (s : List Char) : Prop :=
  ∃ (v : Version) (ids : List (List Char)), v.WellFormed ∧ (∀ i ∈ ids, i ≠ [] ∧ ∀ c ∈ i, identifierChar c = true) ∧ s = v.text ++ buildText ids

/-- The version a text is of, whatever its build metadata. -/
def Denotes (s : List Char) (v : Version) : Prop :=
  v.WellFormed ∧ ∃ build, s = v.text ++ build ∧ (build = [] ∨ ∃ rest, build = '+' :: rest)

/-! ## Precedence -/

/-- Numbers are compared as numbers, other identifiers in ASCII order; a number is below any other identifier. -/
inductive Identifier.Below : Identifier → Identifier → Prop
  | numeric {m n : ℕ} (h : m < n) : Below (.numeric m) (.numeric n)
  | kinds (m : ℕ) (t : String) : Below (.numeric m) (.alphanumeric t)
  | alphanumeric {s t : String} (h : s < t) : Below (.alphanumeric s) (.alphanumeric t)

/-- Major, minor and patch first; then a pre-release is below its release, and of two pre-releases the first difference of their
identifiers decides, or else the number of them. -/
inductive Precedes (v w : Version) : Prop
  | major (h : v.major < w.major)
  | minor (hmajor : v.major = w.major) (h : v.minor < w.minor)
  | patch (hmajor : v.major = w.major) (hminor : v.minor = w.minor) (h : v.patch < w.patch)
  | release (hmajor : v.major = w.major) (hminor : v.minor = w.minor) (hpatch : v.patch = w.patch) (hpre : v.prerelease ≠ [])
    (hrelease : w.prerelease = [])
  | prerelease (hmajor : v.major = w.major) (hminor : v.minor = w.minor) (hpatch : v.patch = w.patch) (hpre : v.prerelease ≠ [])
    (hpre' : w.prerelease ≠ []) (h : List.Lex Identifier.Below v.prerelease w.prerelease)

/-! ## The order of the keys -/

def Identifier.key : Identifier → ℕ ⊕ₗ String
  | .numeric n => toLex (.inl n)
  | .alphanumeric t => toLex (.inr t)

theorem Identifier.key_injective : Function.Injective Identifier.key := by
  rintro (m | s) (n | t) h <;> simp_all [Identifier.key]

theorem Identifier.below_iff {i j : Identifier} : i.Below j ↔ i.key < j.key := by
  constructor
  · rintro (h | _ | h)
    · exact Sum.Lex.inl_lt_inl_iff.mpr h
    · exact Sum.Lex.inl_lt_inr _ _
    · exact Sum.Lex.inr_lt_inr_iff.mpr h
  intro h
  cases i with
  | numeric m =>
    cases j with
    | numeric n => exact .numeric (Sum.Lex.inl_lt_inl_iff.mp h)
    | alphanumeric t => exact .kinds m t
  | alphanumeric s =>
    cases j with
    | numeric n => exact absurd h Sum.Lex.not_inr_lt_inl
    | alphanumeric t => exact .alphanumeric (Sum.Lex.inr_lt_inr_iff.mp h)

theorem lex_iff {is js : List Identifier} : List.Lex Identifier.Below is js ↔ is.map Identifier.key < js.map Identifier.key := by
  induction is generalizing js with
  | nil =>
    cases js with
    | nil | cons j js => simp
  | cons i is ih =>
    cases js with
    | nil => simp
    | cons j js =>
      rw [List.map_cons, List.map_cons, List.cons_lt_cons_iff, ← ih, ← Identifier.below_iff, Identifier.key_injective.eq_iff]
      constructor
      · rintro (_ | h | h)
        · exact .inl h
        · exact .inr ⟨rfl, h⟩
      · rintro (h | ⟨rfl, h⟩)
        · exact .rel h
        · exact .cons h

namespace Version

def prereleaseKey (v : Version) : WithTop (List (ℕ ⊕ₗ String)) :=
  if v.prerelease = [] then ⊤ else ↑(v.prerelease.map Identifier.key)

def key (v : Version) : ℕ ×ₗ ℕ ×ₗ ℕ ×ₗ WithTop (List (ℕ ⊕ₗ String)) :=
  toLex (v.major, toLex (v.minor, toLex (v.patch, v.prereleaseKey)))

theorem key_injective : Function.Injective key := by
  rintro ⟨a, b, c, is⟩ ⟨a', b', c', is'⟩ h
  simp only [key, toLex_inj, Prod.mk.injEq, prereleaseKey] at h
  obtain ⟨rfl, rfl, rfl, h⟩ := h
  congr 1
  by_cases his : is = []
  · by_cases his' : is' = []
    · rw [his, his']
    · rw [if_pos his, if_neg his'] at h
      exact absurd h.symm (WithTop.coe_ne_top)
  · by_cases his' : is' = []
    · rw [if_neg his, if_pos his'] at h
      exact absurd h (WithTop.coe_ne_top)
    · rw [if_neg his, if_neg his'] at h
      exact List.map_injective_iff.mpr Identifier.key_injective (WithTop.coe_injective h)

theorem prereleaseKey_lt {v w : Version} : v.prereleaseKey < w.prereleaseKey ↔ v.prerelease ≠ [] ∧
    (w.prerelease = [] ∨ w.prerelease ≠ [] ∧ List.Lex Identifier.Below v.prerelease w.prerelease) := by
  unfold prereleaseKey
  by_cases hv : v.prerelease = []
  · simp [hv]
  · by_cases hw : w.prerelease = []
    · simp [hv, hw]
    · rw [if_neg hv, if_neg hw, WithTop.coe_lt_coe, lex_iff]
      simp [hv, hw]

end Version

theorem precedes_iff {v w : Version} : Precedes v w ↔ v.key < w.key := by
  simp only [Version.key, Prod.Lex.toLex_lt_toLex, Version.prereleaseKey_lt]
  constructor
  · rintro (h | ⟨h₁, h⟩ | ⟨h₁, h₂, h⟩ | ⟨h₁, h₂, h₃, hpre, hrel⟩ | ⟨h₁, h₂, h₃, hpre, hpre', h⟩)
    · exact .inl h
    · exact .inr ⟨h₁, .inl h⟩
    · exact .inr ⟨h₁, .inr ⟨h₂, .inl h⟩⟩
    · exact .inr ⟨h₁, .inr ⟨h₂, .inr ⟨h₃, hpre, .inl hrel⟩⟩⟩
    · exact .inr ⟨h₁, .inr ⟨h₂, .inr ⟨h₃, hpre, .inr ⟨hpre', h⟩⟩⟩⟩
  rintro (h | ⟨h₁, h | ⟨h₂, h | ⟨h₃, hpre, hrel | ⟨hpre', h⟩⟩⟩⟩)
  · exact .major h
  · exact .minor h₁ h
  · exact .patch h₁ h₂ h
  · exact .release h₁ h₂ h₃ hpre hrel
  · exact .prerelease h₁ h₂ h₃ hpre hpre' h

instance (v w : Version) : Decidable (Precedes v w) := decidable_of_iff (v.key < w.key) precedes_iff.symm

theorem Precedes.irrefl (v : Version) : ¬Precedes v v := fun h => lt_irrefl _ (precedes_iff.mp h)

theorem Precedes.trans {u v w : Version} (h : Precedes u v) (h' : Precedes v w) : Precedes u w :=
  precedes_iff.mpr ((precedes_iff.mp h).trans (precedes_iff.mp h'))

/-- Of two different versions exactly one precedes the other. -/
theorem precedes_or {v w : Version} (h : v ≠ w) : Precedes v w ∧ ¬Precedes w v ∨ Precedes w v ∧ ¬Precedes v w := by
  simp only [precedes_iff]
  rcases lt_or_gt_of_ne (Version.key_injective.ne h) with hlt | hlt
  · exact .inl ⟨hlt, hlt.asymm⟩
  · exact .inr ⟨hlt, hlt.asymm⟩

end Lib.SemVer

import Mathlib.Data.List.Induction
import LingshuGate.Lib.JsonRead

/-!
# Decimal numerals

A numeral has no zero in front of other digits, so it is the one way to write its value: `toDigits_value`.
-/

namespace Lib.Decimal

/-- `0|[1-9][0-9]*` -/
def isNumeral (text : List Char) : Bool := text = ['0'] || (text ≠ [] && text.all Char.isDigit && text.head? ≠ some '0')

/-- `int(text)` -/
def value (text : List Char) : Nat := Nat.ofDigitChars 10 text 0

@[simp] theorem value_toDigits (n : Nat) : value (Nat.toDigits 10 n) = n := Nat.ofDigitChars_ten_toDigits

theorem all_isDigit_toDigits (n : Nat) : (Nat.toDigits 10 n).all Char.isDigit = true :=
  List.all_eq_true.mpr fun _ hc => JsonRead.isDigit_toDigits hc

theorem isNumeral_toDigits (n : Nat) : isNumeral (Nat.toDigits 10 n) = true := by
  by_cases hzero : (Nat.toDigits 10 n).head? = some '0'
  · rw [JsonRead.toDigits_head hzero]
    rfl
  · simp [isNumeral, hzero, Nat.toDigits_ne_nil, -List.all_eq_true, all_isDigit_toDigits]

variable {text : List Char}

theorem all_isDigit (h : isNumeral text = true) : text.all Char.isDigit = true := by
  simp only [isNumeral, Bool.or_eq_true, Bool.and_eq_true, decide_eq_true_eq] at h
  rcases h with rfl | h
  · rfl
  · exact h.1.2

theorem ne_nil (h : isNumeral text = true) : text ≠ [] := by
  rintro rfl
  cases h

theorem value_append (front : List Char) (c : Char) : value (front ++ [c]) = 10 * value front + (c.toNat - 48) := by
  rw [value, Nat.ofDigitChars_append]
  rfl

theorem digitChar_digit {c : Char} (h : c.isDigit = true) : Nat.digitChar (c.toNat - 48) = c ∧ c.toNat - 48 < 10 := by
  have hvalue : ∀ d < 10, (Nat.digitChar d).toNat = 48 + d := by decide
  have hrange : 48 ≤ c.toNat ∧ c.toNat ≤ 57 := by
    rw [Char.isDigit, Bool.and_eq_true, decide_eq_true_eq, decide_eq_true_eq] at h
    exact h
  have hlt : c.toNat - 48 < 10 := by omega
  refine ⟨Char.toNat_inj.mp ?_, hlt⟩
  rw [hvalue _ hlt]
  omega

theorem toDigits_value (h : isNumeral text = true) : Nat.toDigits 10 (value text) = text := by
  induction text using List.reverseRecOn with
  | nil => exact absurd rfl (ne_nil h)
  | append_singleton front c ih =>
    have hdigits := all_isDigit h
    rw [List.all_append, Bool.and_eq_true] at hdigits
    obtain ⟨hchar, hlt⟩ := digitChar_digit (List.all_eq_true.mp hdigits.2 c (List.mem_singleton.mpr rfl))
    have hsingle : Nat.toDigits 10 (c.toNat - 48) = [c] := by
      rw [Nat.toDigits_of_lt_base hlt, hchar]
    rw [value_append]
    by_cases hfront : front = []
    · subst hfront
      show Nat.toDigits 10 (10 * 0 + (c.toNat - 48)) = _
      rw [Nat.mul_zero, Nat.zero_add, hsingle, List.nil_append]
    have hhead : front.head? ≠ some '0' := by
      simp only [isNumeral, Bool.or_eq_true, Bool.and_eq_true, decide_eq_true_eq] at h
      rcases h with h | h
      · have hlength := congrArg List.length h
        have hpos := List.length_pos_iff.mpr hfront
        simp only [List.length_append, List.length_cons, List.length_nil] at hlength
        omega
      · rw [List.head?_append_of_ne_nil _ hfront] at h
        exact h.2
    have hbefore := ih (by simp [isNumeral, hfront, hhead, -List.all_eq_true, hdigits.1])
    -- no zero in front, so the number before the last digit is not zero
    have hpos : 0 < value front := by
      refine Nat.pos_of_ne_zero fun hz => hhead ?_
      rw [← hbefore, hz]
      rfl
    rw [← Nat.toDigits_append_toDigits (by omega) hpos hlt, hbefore, hsingle]

end Lib.Decimal

import Mathlib.Tactic.IntervalCases

/-!
# Base64

`encode` is `base64.b64encode`, `decode` is `base64.b64decode(text, validate=True)`: no character outside the alphabet, padding at
the end only, and the bits that padding leaves over are not looked at. Padding that fills nothing (`QUJD=`), which
`b64decode` takes, is refused here.
-/

namespace Lib.Base64

/-- The character of six bits. -/
def digit (n : Nat) : Char :=
  if n < 26 then Char.ofNat (65 + n)
  else if n < 52 then Char.ofNat (71 + n)
  else if n < 62 then Char.ofNat (n - 4)
  else if n = 62 then '+'
  else '/'

def sextet (c : Char) : Option Nat :=
  if 'A' ≤ c ∧ c ≤ 'Z' then some (c.toNat - 65)
  else if 'a' ≤ c ∧ c ≤ 'z' then some (c.toNat - 71)
  else if '0' ≤ c ∧ c ≤ '9' then some (c.toNat + 4)
  else if c = '+' then some 62
  else if c = '/' then some 63
  else none

def encode : List UInt8 → List Char
  | [] => []
  | [a] => [digit (a.toNat / 4), digit (a.toNat % 4 * 16), '=', '=']
  | [a, b] => [digit (a.toNat / 4), digit (a.toNat % 4 * 16 + b.toNat / 16), digit (b.toNat % 16 * 4), '=']
  | a :: b :: c :: rest =>
    digit (a.toNat / 4) :: digit (a.toNat % 4 * 16 + b.toNat / 16) :: digit (b.toNat % 16 * 4 + c.toNat / 64) ::
      digit (c.toNat % 64) :: encode rest

def decode : List Char → Option (List UInt8)
  | [] => some []
  | [w, x, '=', '='] => do
    let w ← sextet w
    let x ← sextet x
    return [UInt8.ofNat (w * 4 + x / 16)]
  | [w, x, y, '='] => do
    let w ← sextet w
    let x ← sextet x
    let y ← sextet y
    return [UInt8.ofNat (w * 4 + x / 16), UInt8.ofNat (x % 16 * 16 + y / 4)]
  | w :: x :: y :: z :: rest => do
    let w ← sextet w
    let x ← sextet x
    let y ← sextet y
    let z ← sextet z
    let rest ← decode rest
    return UInt8.ofNat (w * 4 + x / 16) :: UInt8.ofNat (x % 16 * 16 + y / 4) :: UInt8.ofNat (y % 4 * 64 + z) :: rest
  | _ => none

theorem sextet_digit {n : Nat} (h : n < 64) : sextet (digit n) = some n := by
  interval_cases n <;> rfl

theorem digit_ne_pad {n : Nat} (h : n < 64) : digit n ≠ '=' := by
  interval_cases n <;> decide

theorem length_encode (bytes : List UInt8) : (encode bytes).length = (bytes.length + 2) / 3 * 4 := by
  fun_induction encode bytes with
  | case1 => rfl
  | case2 a | case3 a b => simp
  | case4 a b c rest ih =>
    simp only [List.length_cons, ih]
    omega

/-- **What was encoded is read back.** -/
theorem decode_encode (bytes : List UInt8) : decode (encode bytes) = some bytes := by
  fun_induction encode bytes with
  | case1 => rfl
  | case2 a =>
    have ha := a.toNat_lt
    rw [decode, sextet_digit (by omega), sextet_digit (by omega)]
    have : a.toNat / 4 * 4 + a.toNat % 4 * 16 / 16 = a.toNat := by omega
    simp only [Option.bind_eq_bind, Option.bind_some, this, UInt8.ofNat_toNat]
    rfl
  | case3 a b =>
    have ha := a.toNat_lt
    have hb := b.toNat_lt
    have hpad := digit_ne_pad (n := b.toNat % 16 * 4) (by omega)
    rw [decode.eq_3 _ _ _ (by simpa using hpad), sextet_digit (by omega), sextet_digit (by omega), sextet_digit (by omega)]
    have h₁ : a.toNat / 4 * 4 + (a.toNat % 4 * 16 + b.toNat / 16) / 16 = a.toNat := by omega
    have h₂ : (a.toNat % 4 * 16 + b.toNat / 16) % 16 * 16 + b.toNat % 16 * 4 / 4 = b.toNat := by omega
    simp only [Option.bind_eq_bind, Option.bind_some, h₁, h₂, UInt8.ofNat_toNat]
    rfl
  | case4 a b c rest ih =>
    have ha := a.toNat_lt
    have hb := b.toNat_lt
    have hc := c.toNat_lt
    have hpad := digit_ne_pad (n := c.toNat % 64) (by omega)
    rw [decode.eq_4 _ _ _ _ _ (by simp [hpad]) (by simp [hpad]), sextet_digit (by omega), sextet_digit (by omega),
      sextet_digit (by omega), sextet_digit (by omega), ih]
    have h₁ : a.toNat / 4 * 4 + (a.toNat % 4 * 16 + b.toNat / 16) / 16 = a.toNat := by omega
    have h₂ : (a.toNat % 4 * 16 + b.toNat / 16) % 16 * 16 + (b.toNat % 16 * 4 + c.toNat / 64) / 4 = b.toNat := by omega
    have h₃ : (b.toNat % 16 * 4 + c.toNat / 64) % 4 * 64 + c.toNat % 64 = c.toNat := by omega
    simp only [Option.bind_eq_bind, Option.bind_some, h₁, h₂, h₃, UInt8.ofNat_toNat]
    rfl

/-! ## Without padding, in the URL-safe alphabet -/

/-- An encoding is digits and then the padding. -/
theorem encode_shape (bytes : List UInt8) : ∃ (ds : List Nat) (k : Nat), encode bytes = ds.map digit ++ List.replicate k '=' ∧ (∀ d ∈ ds, d < 64) ∧
    (ds.length + k) % 4 = 0 ∧ k < 3 := by
  fun_induction encode bytes with
  | case1 => exact ⟨[], 0, rfl, by simp, rfl, by omega⟩
  | case2 a =>
    have ha := a.toNat_lt
    refine ⟨[a.toNat / 4, a.toNat % 4 * 16], 2, rfl, ?_, by simp, by omega⟩
    simp only [List.mem_cons, List.not_mem_nil, or_false]
    omega
  | case3 a b =>
    have ha := a.toNat_lt
    have hb := b.toNat_lt
    refine ⟨[a.toNat / 4, a.toNat % 4 * 16 + b.toNat / 16, b.toNat % 16 * 4], 1, rfl, ?_, by simp, by omega⟩
    simp only [List.mem_cons, List.not_mem_nil, or_false]
    omega
  | case4 a b c rest ih =>
    have ha := a.toNat_lt
    have hb := b.toNat_lt
    have hc := c.toNat_lt
    obtain ⟨ds, k, hshape, hsmall, hlength, hk⟩ := ih
    refine ⟨a.toNat / 4 :: (a.toNat % 4 * 16 + b.toNat / 16) :: (b.toNat % 16 * 4 + c.toNat / 64) :: c.toNat % 64 :: ds, k, ?_, ?_, ?_,
      hk⟩
    · rw [hshape]
      rfl
    · simp only [List.mem_cons]
      rintro d (rfl | rfl | rfl | rfl | hd)
      · omega
      · omega
      · omega
      · omega
      · exact hsmall d hd
    · simp only [List.length_cons]
      omega

end Lib.Base64

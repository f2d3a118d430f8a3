import Mathlib.Data.List.SplitBy
import Mathlib.Tactic.Common

/-!
# Percent-encoding (`urllib.parse.quote`, `quote_plus`, `unquote`)

Texts are lists of characters, their bytes the UTF-8 encoding. `unquote` decodes each run of ASCII characters by itself,
and what is not UTF-8 becomes U+FFFD, one for each maximal part of a character (`errors="replace"`).

`unquote_quoted` is the round trip: a quoted text decodes to itself, with `+` for a space or without.
-/

namespace Lib.Percent

/-- `text.encode()`. -/
def encode (text : List Char) : List UInt8 := text.flatMap String.utf8EncodeChar

/-! ## `bytes.decode("utf-8", "replace")` -/

/-- How many bytes one U+FFFD stands for: the longest part of a character that the bytes begin with, or one byte. -/
def subpart : List UInt8 → Nat
  | a :: b :: rest =>
    let tail (x : UInt8) := 0x80 ≤ x && x ≤ 0xBF
    let three := (a = 0xE0 && 0xA0 ≤ b && b ≤ 0xBF) || (0xE1 ≤ a && a ≤ 0xEC && tail b) || (a = 0xED && 0x80 ≤ b && b ≤ 0x9F) ||
      (0xEE ≤ a && a ≤ 0xEF && tail b)
    let four := (a = 0xF0 && 0x90 ≤ b && b ≤ 0xBF) || (0xF1 ≤ a && a ≤ 0xF3 && tail b) || (a = 0xF4 && 0x80 ≤ b && b ≤ 0x8F)
    if four && rest.head?.any tail then 3 else if three || four then 2 else 1
  | _ => 1

def decodeLoop : Nat → List UInt8 → List Char
  | 0, _ => []
  | _ + 1, [] => []
  | fuel + 1, byte :: bytes =>
    match ByteArray.utf8DecodeChar? (byte :: bytes).toByteArray 0 with
    | some c => c :: decodeLoop fuel ((byte :: bytes).drop c.utf8Size)
    | none => '\uFFFD' :: decodeLoop fuel ((byte :: bytes).drop (subpart (byte :: bytes)))

/-- `bytes.decode("utf-8", "replace")`; each character takes a byte at least. -/
def decode (bytes : List UInt8) : List Char := decodeLoop bytes.length bytes

variable {text : List Char}

theorem decodeLoop_encode {fuel : Nat} (h : (encode text).length ≤ fuel) : decodeLoop fuel (encode text) = text := by
  induction text generalizing fuel with
  | nil =>
    cases fuel with
    | zero | succ fuel => rfl
  | cons c text ih =>
    have hlength : (String.utf8EncodeChar c).length = c.utf8Size := String.length_utf8EncodeChar c
    have hpos := Char.utf8Size_pos c
    have hsplit : encode (c :: text) = String.utf8EncodeChar c ++ encode text := rfl
    have hfirst : ByteArray.utf8DecodeChar? (encode (c :: text)).toByteArray 0 = some c := List.utf8DecodeChar?_utf8Encode_cons
    have hdrop : (encode (c :: text)).drop c.utf8Size = encode text := by rw [hsplit, ← hlength, List.drop_left]
    have htotal : (encode (c :: text)).length = c.utf8Size + (encode text).length := by rw [hsplit, List.length_append, hlength]
    obtain ⟨fuel, rfl⟩ : ∃ n, fuel = n + 1 := ⟨fuel - 1, by omega⟩
    obtain ⟨byte, bytes, hcons⟩ : ∃ byte bytes, encode (c :: text) = byte :: bytes :=
      List.exists_cons_of_length_pos (by omega)
    rw [hcons] at hfirst hdrop ⊢
    simp only [decodeLoop, hfirst, hdrop, ih (show (encode text).length ≤ fuel by omega)]

theorem decode_encode (text : List Char) : decode (encode text) = text := decodeLoop_encode (le_refl _)

/-! ## Quoting -/

/-- The hexadecimal digit of `n < 16`, in capitals. -/
def hexDigit (n : Nat) : Char := if n < 10 then Char.ofNat (48 + n) else Char.ofNat (55 + n)

/-- The value of a hexadecimal digit, of either case. -/
def hexValue (c : Char) : Option Nat :=
  let n := c.toNat
  if 48 ≤ n && n ≤ 57 then some (n - 48) else if 65 ≤ n && n ≤ 70 then some (n - 55)
  else if 97 ≤ n && n ≤ 102 then some (n - 87) else none

/-- `_ALWAYS_SAFE`: letters, digits and `_.-~`. -/
def alwaysSafe (n : Nat) : Bool :=
  (48 ≤ n && n ≤ 57) || (65 ≤ n && n ≤ 90) || (97 ≤ n && n ≤ 122) || n = 95 || n = 46 || n = 45 || n = 126

/-- One byte of `quote(…, safe="")`. -/
def quoteByte (byte : UInt8) : List Char :=
  if alwaysSafe byte.toNat then [Char.ofNat byte.toNat]
  else ['%', hexDigit (byte.toNat / 16), hexDigit (byte.toNat % 16)]

/-- One byte of `quote_plus`. -/
def quotePlusByte (byte : UInt8) : List Char := if byte = 32 then ['+'] else quoteByte byte

/-- `quote_plus(text)`. -/
def quotePlus (text : List Char) : List Char := (encode text).flatMap quotePlusByte

/-! ## Unquoting -/

def ascii (c : Char) : Bool := c.toNat < 128

/-- `_unquote_impl` over ASCII text: `%` and two digits are a byte, anything else its own. -/
def unquoteBytes : List Char → List UInt8
  | '%' :: a :: b :: rest =>
    match hexValue a, hexValue b with
    | some high, some low => UInt8.ofNat (16 * high + low) :: unquoteBytes rest
    | _, _ => 37 :: unquoteBytes (a :: b :: rest)
  | c :: rest => UInt8.ofNat c.toNat :: unquoteBytes rest
  | [] => []

/-- A run of ASCII characters is unquoted and decoded, any other kept. -/
def unquoteRun (run : List Char) : List Char := if run.all ascii then decode (unquoteBytes run) else run

/-- `unquote(text, errors="replace")`. -/
def unquote (text : List Char) : List Char :=
  if '%' ∈ text then (text.splitBy fun a b => ascii a == ascii b).flatMap unquoteRun else text

theorem encode_ascii (h : ∀ c ∈ text, ascii c = true) : encode text = text.map fun c => UInt8.ofNat c.toNat := by
  induction text with
  | nil => rfl
  | cons c text ih =>
    have hc : c.toNat ≤ 127 := by
      have := h c List.mem_cons_self
      simp only [ascii, decide_eq_true_eq] at this
      omega
    have hbyte : String.utf8EncodeChar c = [UInt8.ofNat c.toNat] := by
      unfold String.utf8EncodeChar
      exact if_pos hc
    show String.utf8EncodeChar c ++ encode text = _
    rw [hbyte, ih fun c hc => h c (List.mem_cons_of_mem _ hc)]
    rfl

theorem unquoteBytes_plain (h : '%' ∉ text) : unquoteBytes text = text.map fun c => UInt8.ofNat c.toNat := by
  induction text with
  | nil => rfl
  | cons c text ih =>
    have hc : c ≠ '%' := fun heq => h (heq ▸ List.mem_cons_self)
    have hrest := ih fun hmem => h (List.mem_cons_of_mem _ hmem)
    rw [unquoteBytes.eq_2 _ _ (fun _ _ _ heq _ => hc heq), hrest]
    rfl

/-- Over ASCII text `unquote` is one decoding. -/
theorem unquote_ascii (h : ∀ c ∈ text, ascii c = true) : unquote text = decode (unquoteBytes text) := by
  unfold unquote
  split
  · rename_i hmem
    have hne : text ≠ [] := List.ne_nil_of_mem hmem
    have hchain : text.IsChain fun a b => (ascii a == ascii b) = true := by
      refine List.Pairwise.isChain (List.Pairwise.imp_of_mem ?_ (List.pairwise_of_forall (R := fun _ _ => True) fun _ _ => trivial))
      intro a b ha hb _
      simp [h a ha, h b hb]
    rw [List.splitBy_of_isChain hne hchain, List.flatMap_singleton, unquoteRun, if_pos (List.all_eq_true.mpr h)]
  · rename_i hmem
    rw [unquoteBytes_plain hmem, ← encode_ascii h, decode_encode]

/-! ## The round trip -/

theorem hexValue_hexDigit : ∀ n < 16, hexValue (hexDigit n) = some n := by decide

theorem forall_byte {p : UInt8 → Prop} [DecidablePred p] (h : ((List.range 256).all fun n => p (UInt8.ofNat n)) = true)
    (byte : UInt8) : p byte := by
  have hbyte := List.all_eq_true.mp h byte.toNat (List.mem_range.mpr byte.toNat_lt)
  rwa [decide_eq_true_iff, UInt8.ofNat_toNat] at hbyte

theorem quoteByte_ascii (byte : UInt8) : ∀ c ∈ quoteByte byte, ascii c = true ∧ c ≠ '+' := by
  have hall : ((quoteByte byte).all fun c => ascii c && (c != '+')) = true := by
    revert byte
    refine forall_byte ?_
    decide +kernel
  intro c hc
  simpa only [Bool.and_eq_true, bne_iff_ne] using List.all_eq_true.mp hall c hc

theorem unquoteBytes_quoteByte (byte : UInt8) (rest : List Char) :
    unquoteBytes (quoteByte byte ++ rest) = byte :: unquoteBytes rest := by
  have hlt := byte.toNat_lt
  unfold quoteByte
  split
  · rename_i hsafe
    have hfacts : Char.ofNat byte.toNat ≠ '%' ∧ UInt8.ofNat (Char.ofNat byte.toNat).toNat = byte := by
      clear hlt
      revert byte
      refine forall_byte ?_
      decide +kernel
    rw [List.singleton_append, unquoteBytes.eq_2 _ _ (fun _ _ _ heq _ => hfacts.1 heq), hfacts.2]
  have hhigh : byte.toNat / 16 < 16 := by omega
  have hlow : byte.toNat % 16 < 16 := Nat.mod_lt _ (by decide)
  have hbyte : UInt8.ofNat (16 * (byte.toNat / 16) + byte.toNat % 16) = byte := by
    rw [Nat.div_add_mod]
    exact UInt8.ofNat_toNat
  show unquoteBytes ('%' :: hexDigit (byte.toNat / 16) :: hexDigit (byte.toNat % 16) :: rest) = _
  rw [unquoteBytes, hexValue_hexDigit _ hhigh, hexValue_hexDigit _ hlow]
  exact congrArg (· :: unquoteBytes rest) hbyte

/-- Bytes quoted one by one are unquoted one by one. -/
theorem unquoteBytes_flatMap {f : UInt8 → List Char} (hf : ∀ byte rest, unquoteBytes (f byte ++ rest) = byte :: unquoteBytes rest)
    (bytes : List UInt8) : unquoteBytes (bytes.flatMap f) = bytes := by
  induction bytes with
  | nil => rfl
  | cons byte bytes ih => rw [List.flatMap_cons, hf, ih]

/-- `text.replace("+", " ")`. -/
def plusToSpace (text : List Char) : List Char := text.map fun c => if c = '+' then ' ' else c

theorem quotePlusByte_ascii (byte : UInt8) : ∀ c ∈ quotePlusByte byte, ascii c = true ∧ 32 < c.toNat ∧ c ≠ '&' ∧ c ≠ '=' ∧ c ≠ '#' := by
  have hall : ((quotePlusByte byte).all fun c => ascii c && (decide (32 < c.toNat) && ((c != '&') && ((c != '=') && (c != '#'))))) =
      true := by
    revert byte
    refine forall_byte ?_
    decide +kernel
  intro c hc
  simpa only [Bool.and_eq_true, bne_iff_ne, decide_eq_true_iff] using List.all_eq_true.mp hall c hc

theorem mem_quotePlus {c : Char} (h : c ∈ quotePlus text) : ascii c = true ∧ 32 < c.toNat ∧ c ≠ '&' ∧ c ≠ '=' ∧ c ≠ '#' := by
  obtain ⟨byte, -, hmem⟩ := List.mem_flatMap.mp h
  exact quotePlusByte_ascii byte c hmem

theorem plusToSpace_quotePlusByte (byte : UInt8) :
    plusToSpace (quotePlusByte byte) = if byte = 32 then [' '] else quoteByte byte := by
  unfold quotePlusByte
  split
  · rfl
  · refine List.map_congr_left (g := id) ?_ |>.trans (List.map_id _)
    intro c hc
    exact if_neg (quoteByte_ascii byte c hc).2

/-- A text quoted with `+` for a space decodes to itself once the `+` are spaces again. -/
theorem unquote_quotePlus (text : List Char) : unquote (plusToSpace (quotePlus text)) = text := by
  have heq : plusToSpace (quotePlus text) = (encode text).flatMap fun byte => if byte = 32 then [' '] else quoteByte byte := by
    rw [plusToSpace, quotePlus, List.map_flatMap]
    exact congrArg (List.flatMap · (encode text)) (funext plusToSpace_quotePlusByte)
  have hascii : ∀ c ∈ plusToSpace (quotePlus text), ascii c = true := by
    intro c hc
    obtain ⟨d, hd, rfl⟩ := List.mem_map.mp hc
    split
    · rfl
    · exact (mem_quotePlus hd).1
  rw [unquote_ascii hascii, heq, unquoteBytes_flatMap ?_, decode_encode]
  intro byte rest
  split
  · rename_i hspace
    subst hspace
    rfl
  · exact unquoteBytes_quoteByte byte rest

end Lib.Percent

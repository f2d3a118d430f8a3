import Mathlib.Algebra.GroupWithZero.Nat
import Mathlib.Tactic.Common
import LingshuGate.Lib.Framing
import LingshuGate.Lib.Json

/-!
# The compact text of a JSON value, and its measures

`compact` is `json.dumps(value, ensure_ascii=False, separators=(",", ":"))`, the keys in the order of the object. `weight` is the
length of its UTF-8 encoding; the lemmas give it for each kind of value from the weights of the parts. `nodes` counts the values
and the keys of objects, `depth` the nesting.
-/

namespace Lib.Json

open Lib.Framing (utf8)

mutual

def compactChars : Json → List Char
  | .null => "null".toList
  | .bool true => "true".toList
  | .bool false => "false".toList
  | .int n => (toString n).toList
  | .float literal => literal.toList
  | .str s => quote s
  | .arr items => '[' :: commas (compactItems items) ++ [']']
  | .obj fields => '\x7b' :: commas (compactFields fields) ++ ['\x7d']

def compactItems : List Json → List (List Char)
  | [] => []
  | item :: items => compactChars item :: compactItems items

def compactFields : List (String × Json) → List (List Char)
  | [] => []
  | (key, value) :: fields => (quote key ++ ':' :: compactChars value) :: compactFields fields

end

def compact (value : Json) : String := String.ofList value.compactChars

mutual

def nodes : Json → Nat
  | .arr items => 1 + nodesItems items
  | .obj fields => 1 + nodesFields fields
  | _ => 1

def nodesItems : List Json → Nat
  | [] => 0
  | item :: items => nodes item + nodesItems items

/-- Each key is a node of its own. -/
def nodesFields : List (String × Json) → Nat
  | [] => 0
  | (_, value) :: fields => 1 + nodes value + nodesFields fields

end

mutual

def depth : Json → Nat
  | .arr items => depthItems items
  | .obj fields => depthFields fields
  | _ => 0

/-- The depth of an array with these items. -/
def depthItems : List Json → Nat
  | [] => 0
  | item :: items => max (depth item + 1) (depthItems items)

/-- The depth of an object with these fields. -/
def depthFields : List (String × Json) → Nat
  | [] => 0
  | (_, value) :: fields => max (depth value + 1) (depthFields fields)

end

/-! ## The length of the encoding -/

/-- `len(text.encode())` of a text given by its characters. -/
def width (cs : List Char) : Nat := (cs.map Char.utf8Size).sum

def weight (value : Json) : Nat := (utf8 value.compact).length

def quoteWeight (s : String) : Nat := (utf8 (String.ofList (quote s))).length

variable {cs ds : List Char} {c : Char}

@[simp] theorem width_nil : width [] = 0 := rfl

@[simp] theorem width_cons (c : Char) (cs : List Char) : width (c :: cs) = c.utf8Size + width cs := rfl

@[simp] theorem width_append (cs ds : List Char) : width (cs ++ ds) = width cs + width ds := by
  simp [width]

theorem length_le_width (cs : List Char) : cs.length ≤ width cs := by
  induction cs with
  | nil => exact le_refl 0
  | cons c cs ih =>
    have hpos := Char.utf8Size_pos c
    rw [width_cons, List.length_cons]
    omega

theorem length_escape_pos (c : Char) : 1 ≤ (escape c).length := by
  unfold escape
  split_ifs
  all_goals simp

theorem length_utf8 (cs : List Char) : (utf8 (String.ofList cs)).length = width cs := by
  have hsize : ∀ cs : List Char, cs.utf8Encode.size = width cs := by
    intro cs
    induction cs with
    | nil => simp
    | cons c cs ih =>
      rw [List.utf8Encode_cons, ByteArray.size_append, ih, List.utf8Encode_singleton]
      simp
  rw [utf8, String.toByteArray_ofList, Array.length_toList]
  exact hsize cs

/-- A text of ASCII takes a byte for each character. -/
theorem width_ascii (h : ∀ c ∈ cs, c.toNat < 128) : width cs = cs.length := by
  induction cs with
  | nil => rfl
  | cons c cs ih =>
    have hc : c.utf8Size = 1 := by
      rw [Char.utf8Size_eq_one_iff, UInt32.le_iff_toNat_le]
      exact Nat.le_of_lt_succ (h c List.mem_cons_self)
    rw [width_cons, ih fun d hd => h d (List.mem_cons_of_mem c hd), hc, List.length_cons]
    omega

theorem width_commas (parts : List (List Char)) : width (commas parts) = (parts.map width).sum + (parts.length - 1) := by
  have hcomma : Char.utf8Size ',' = 1 := by decide
  induction parts with
  | nil => rfl
  | cons part parts ih =>
    cases parts with
    | nil => simp [commas]
    | cons next parts =>
      simp only [commas, List.intersperse_cons_cons, List.flatten_cons, width_append, width_cons, width_nil, hcomma] at ih ⊢
      rw [ih]
      simp only [List.map_cons, List.sum_cons, List.length_cons]
      omega

theorem weight_eq (value : Json) : value.weight = width value.compactChars := length_utf8 _

theorem quoteWeight_eq (s : String) : quoteWeight s = 2 + width (s.toList.flatMap escape) := by
  have hquote : Char.utf8Size '"' = 1 := by decide
  rw [quoteWeight, length_utf8, quote]
  simp only [List.cons_append, width_cons, width_append, width_nil, hquote]
  omega

theorem weight_null : weight .null = 4 := by
  rw [weight_eq]
  rfl

theorem weight_bool (b : Bool) : weight (.bool b) = if b then 4 else 5 := by
  rw [weight_eq]
  cases b with
  | true | false => rfl

theorem weight_str (s : String) : weight (.str s) = quoteWeight s := by
  rw [weight_eq, quoteWeight, length_utf8, compactChars]

theorem digit_ascii (h : c.isDigit = true) : c.toNat < 128 := by
  simp only [Char.isDigit, Bool.and_eq_true, decide_eq_true_eq, UInt32.le_iff_toNat_le] at h
  exact Nat.lt_of_le_of_lt h.2 (by decide)

/-- The digits of the absolute value, after a sign. -/
theorem toString_toList (n : Int) : (toString n).toList = (if 0 ≤ n then [] else ['-']) ++ Nat.toDigits 10 n.natAbs := by
  rw [Int.toString_eq_repr, Int.repr_eq_if]
  split
  · have habs : n.toNat = n.natAbs := by omega
    rw [habs, Nat.toList_repr, List.nil_append]
  · have habs : (-n).toNat = n.natAbs := by omega
    rw [String.toList_append, habs, Nat.toList_repr]
    rfl

theorem weight_int (n : Int) : weight (.int n) = (toString n).length := by
  rw [weight_eq, compactChars, width_ascii, String.length_toList]
  intro c hc
  rw [toString_toList] at hc
  rcases List.mem_append.mp hc with hc | hc
  · split at hc
    · cases hc
    · obtain rfl := List.mem_singleton.mp hc
      decide
  · exact digit_ascii (Nat.isDigit_of_mem_toDigits (by omega) (le_refl 10) hc)

section
attribute [local simp] compactItems compactFields

theorem compactItems_eq (items : List Json) : compactItems items = items.map compactChars := by
  induction items with
  | nil => rfl
  | cons item items ih => simp [ih]

theorem compactFields_eq (fields : List (String × Json)) :
    compactFields fields = fields.map fun kv => quote kv.1 ++ ':' :: compactChars kv.2 := by
  induction fields with
  | nil => rfl
  | cons field fields ih => simp [ih]

end

theorem weight_arr (items : List Json) : weight (.arr items) = 2 + (items.length - 1) + (items.map weight).sum := by
  have hopen : Char.utf8Size '[' = 1 := by decide
  have hclose : Char.utf8Size ']' = 1 := by decide
  have hitems : items.map (width ∘ compactChars) = items.map weight := List.map_congr_left fun item _ => (weight_eq item).symm
  rw [weight_eq, compactChars, compactItems_eq]
  simp only [List.cons_append, width_cons, width_append, width_nil, width_commas, List.map_map, List.length_map, hopen, hclose,
    hitems]
  omega

theorem weight_obj (fields : List (String × Json)) : weight (.obj fields) =
    2 + fields.length + (fields.length - 1) + (fields.map fun kv => quoteWeight kv.1 + weight kv.2).sum := by
  have hopen : Char.utf8Size '\x7b' = 1 := by decide
  have hclose : Char.utf8Size '\x7d' = 1 := by decide
  have hcolon : Char.utf8Size ':' = 1 := by decide
  have hfields : (fields.map (width ∘ fun kv => quote kv.1 ++ ':' :: compactChars kv.2)).sum =
      fields.length + (fields.map fun kv => quoteWeight kv.1 + weight kv.2).sum := by
    induction fields with
    | nil => rfl
    | cons field fields ih =>
      simp only [List.map_cons, List.sum_cons, ih, Function.comp, width_append, width_cons, hcolon, List.length_cons, weight_eq,
        quoteWeight, length_utf8]
      omega
  rw [weight_eq, compactChars, compactFields_eq]
  simp only [List.cons_append, width_cons, width_append, width_nil, width_commas, List.map_map, List.length_map, hopen, hclose,
    hfields]
  omega

end Lib.Json

import Mathlib.Data.List.Sort

/-!
# JSON values

What `json.loads` gives: an object has each key once, an integer is kept apart from a number with a fraction or an
exponent, and `True` is no integer. The literal of a `float` is what `repr` prints, `NaN` and the infinities included.

`dumps` is `json.dumps(value, sort_keys=True, ensure_ascii=False, separators=(",", ":"))`.
-/

namespace Lib

inductive Json
  | null
  | bool (b : Bool)
  | int (n : Int)
  | float (literal : String)
  | str (s : String)
  | arr (items : List Json)
  | obj (fields : List (String × Json))

namespace Json

/-- `value[key]` of an object that has the key. -/
def get? : Json → String → Option Json
  | .obj fields, key => (fields.find? fun kv => kv.1 = key).map (·.2)
  | _, _ => none

def isObject : Json → Bool
  | .obj _ => true
  | _ => false

/-- `bool(value)` -/
def truthy : Json → Bool
  | .null => false
  | .bool b => b
  | .int n => n ≠ 0
  | .float literal => literal ≠ "0.0" && literal ≠ "-0.0"
  | .str s => s ≠ ""
  | .arr items => !items.isEmpty
  | .obj fields => !fields.isEmpty

/-! ## Text -/

def hexDigit (n : Nat) : Char := if n < 10 then Char.ofNat (48 + n) else Char.ofNat (87 + n)

/-- One character inside a string literal; characters past ASCII stay as they are. -/
def escape (c : Char) : List Char :=
  if c = '"' then ['\\', '"']
  else if c = '\\' then ['\\', '\\']
  else if c = '\n' then ['\\', 'n']
  else if c = '\r' then ['\\', 'r']
  else if c = '\t' then ['\\', 't']
  else if c.toNat = 8 then ['\\', 'b']
  else if c.toNat = 12 then ['\\', 'f']
  else if c.toNat < 32 then ['\\', 'u', '0', '0', hexDigit (c.toNat / 16), hexDigit (c.toNat % 16)]
  else [c]

def quote (s : String) : List Char := '"' :: s.toList.flatMap escape ++ ['"']

/-- `",".join(parts)`. -/
def commas (parts : List (List Char)) : List Char := (parts.intersperse [',']).flatten

mutual

def chars : Json → List Char
  | .null => "null".toList
  | .bool true => "true".toList
  | .bool false => "false".toList
  | .int n => (toString n).toList
  | .float literal => literal.toList
  | .str s => quote s
  | .arr items => '[' :: commas (charsAll items) ++ [']']
  | .obj fields =>
    '\x7b' :: commas (((charsFields fields).insertionSort fun a b => a.1 ≤ b.1).map fun kv => quote kv.1 ++ ':' :: kv.2) ++ ['\x7d']

def charsAll : List Json → List (List Char)
  | [] => []
  | item :: items => chars item :: charsAll items

/-- The keys with the texts of their values. -/
def charsFields : List (String × Json) → List (String × List Char)
  | [] => []
  | (key, value) :: fields => (key, chars value) :: charsFields fields

end

def dumps (value : Json) : String := String.ofList value.chars

example : dumps (.obj [("b", .arr [.int (-1), .null]), ("a", .str "x\"y")]) = "\x7b\"a\":\"x\\\"y\",\"b\":[-1,null]\x7d" := by
  decide

end Json

end Lib

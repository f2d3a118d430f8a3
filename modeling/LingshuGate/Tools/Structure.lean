import Mathlib.Data.Nat.Size
import LingshuGate.Lib.Check
import LingshuGate.Lib.JsonText

/-!
# Bounded JSON (`domain/tool_structure.py`)

| here | there |
| --- | --- |
| `Limits`, `Walk`        | the keyword arguments of `_walk_json` (tool_structure.py:31) |
| `characterSize`, `addText` | the loop over a string (50-61) |
| `Walk.add`, `Walk.weigh` | what is counted before the children (39-73) |
| `visit`, `visitItems`, `visitFields` | `visit` and its two loops (37, 76, 86) |
| `walkJson`, `checkedJsonSize` | `_walk_json` (31), `checked_json_size` (19) |
| `freezeJson`, `copyJson`, `copyBoundedJson` | `_freeze_json` (112), `_copy_json` (117), `copy_bounded_json` (25) |

A Python string is a list of code points, surrogates included. A float is what `repr` prints of it. `json` is the JSON value that
a Python value is, if it is one, and `frozen` what the freezing walk makes of it. A dict has each key once, so the entries of a
copy are in the order they were assigned. A value that contains itself is no tree: no depth limit lets the walk through it.
-/

namespace LingshuGate.Structure

open Lib

/-! ## Values -/

abbrev CodePoint := Fin 0x110000

instance codePoints_ne_zero : NeZero 0x110000 := ⟨by decide⟩

/-- `repr` of a float. -/
structure FloatRepr where
  text : String
  ascii : ∀ c ∈ text.toList, c.toNat < 128
  nonempty : text ≠ ""

/-- `math.isfinite` -/
def FloatRepr.isFinite (x : FloatRepr) : Bool := x.text ∉ ["inf", "-inf", "nan"]

inductive Value
  | none
  | bool (b : Bool)
  | int (n : Int)
  | float (x : FloatRepr)
  | str (s : List CodePoint)
  | list (items : List Value)
  | tuple (items : List Value)
  | dict (fields : List (Value × Value))
  /-- `MappingProxyType` of a dict. -/
  | proxy (fields : List (Value × Value))
  /-- An object of any other type. -/
  | other

/-! ## The walk -/

structure Limits where
  maxBytes : Int
  maxNodes : Int
  maxDepth : Int

structure Walk extends Limits where
  freeze : Bool
  immutable : Bool := false

/-- The `nonlocal` counters. -/
@[ext]
structure Count where
  nodes : Nat := 0
  size : Nat := 0

def complexityLimit : String := "tool_structure_complexity_limit"
def sizeLimit : String := "tool_structure_size_limit"
def nonJson : String := "tool_structure_non_json"

def characterSize (code : CodePoint) : Except String Nat :=
  if code.val ∈ [34, 92, 8, 9, 10, 12, 13] then .ok 2
  else if code.val < 32 then .ok 6
  else if 0xD800 ≤ code.val ∧ code.val ≤ 0xDFFF then .error nonJson
  else .ok (if code.val < 128 then 1 else if code.val < 2048 then 2 else if code.val < 65536 then 3 else 4)

def addText (maxBytes : Int) : List CodePoint → Nat → Except String Nat
  | [], size => .ok size
  | code :: s, size => do
    let n ← characterSize code
    require ((size + n : Nat) ≤ maxBytes) sizeLimit
    addText maxBytes s (size + n)

/-- `int.bit_length` -/
def bitLength (n : Int) : Nat := n.natAbs.size

/-- The size after what an item takes without its children. -/
def Walk.add (w : Walk) (size : Nat) : Value → Except String Nat
  | .dict fields => .ok (size + (2 + fields.length + (fields.length - 1)))
  | .proxy fields =>
    if w.immutable then .ok (size + (2 + fields.length + (fields.length - 1))) else .error nonJson
  | .list items => if w.immutable then .error nonJson else .ok (size + (2 + (items.length - 1)))
  | .tuple items => if w.immutable then .ok (size + (2 + (items.length - 1))) else .error nonJson
  | .str s => do
    require (s.length ≤ w.maxBytes) sizeLimit
    addText w.maxBytes s (size + 2)
  | .none => .ok (size + 4)
  | .bool b => .ok (size + if b then 4 else 5)
  | .int n => do
    require (bitLength n ≤ w.maxBytes * 4) sizeLimit
    return size + (toString n).length
  | .float x => if x.isFinite then .ok (size + x.text.length) else .error nonJson
  | .other => .error nonJson

def Walk.weigh (w : Walk) (item : Value) (depth : Nat) (c : Count) : Except String Count := do
  require ((c.nodes + 1 : Nat) ≤ w.maxNodes && depth ≤ w.maxDepth) complexityLimit
  let size ← w.add c.size item
  require (size ≤ w.maxBytes) sizeLimit
  return ⟨c.nodes + 1, size⟩

/-- `return item if freeze else None` -/
def Walk.result (w : Walk) (item : Value) : Value := if w.freeze then item else .none

def isStr : Value → Bool
  | .str _ => true
  | _ => false

mutual

def visit (w : Walk) : Value → Nat → Count → Except String (Count × Value)
  | .dict fields, depth, c => do
    let c ← w.weigh (.dict fields) depth c
    let (c, children) ← visitFields w fields (depth + 1) c
    return (c, w.result (.proxy children))
  | .proxy fields, depth, c => do
    let c ← w.weigh (.proxy fields) depth c
    let (c, children) ← visitFields w fields (depth + 1) c
    return (c, w.result (.proxy children))
  | .list items, depth, c => do
    let c ← w.weigh (.list items) depth c
    let (c, children) ← visitItems w items (depth + 1) c
    return (c, w.result (.tuple children))
  | .tuple items, depth, c => do
    let c ← w.weigh (.tuple items) depth c
    let (c, children) ← visitItems w items (depth + 1) c
    return (c, w.result (.tuple children))
  | item, depth, c => do
    let c ← w.weigh item depth c
    return (c, w.result item)

def visitItems (w : Walk) : List Value → Nat → Count → Except String (Count × List Value)
  | [], _, c => .ok (c, [])
  | child :: items, depth, c => do
    let (c, result) ← visit w child depth c
    let (c, results) ← visitItems w items depth c
    return (c, result :: results)

def visitFields (w : Walk) : List (Value × Value) → Nat → Count → Except String (Count × List (Value × Value))
  | [], _, c => .ok (c, [])
  | (key, child) :: fields, depth, c => do
    require (isStr key) nonJson
    let (c, _) ← visit w key depth c
    let (c, result) ← visit w child depth c
    let (c, results) ← visitFields w fields depth c
    return (c, (key, result) :: results)

end

def walkJson (w : Walk) (value : Value) : Except String (Nat × Value) := do
  let (c, result) ← visit w value 0 {}
  return (c.size, result)

def maxSchemaBytes : Nat := 128 * 1024
def maxSchemaNodes : Nat := 10000
def maxSchemaDepth : Nat := 64

/-- The limits that hold where none are given. -/
def schemaLimits : Limits := ⟨maxSchemaBytes, maxSchemaNodes, maxSchemaDepth⟩

def checkedJsonSize (value : Value) (l : Limits) : Except String Nat :=
  (walkJson { l with freeze := false } value).map (·.1)

def freezeJson (value : Value) (l : Limits) : Except String (Nat × Value) := walkJson { l with freeze := true } value

mutual

def copyJson : Value → Value
  | .dict fields => .dict (copyFields fields)
  | .proxy fields => .dict (copyFields fields)
  | .tuple items => .list (copyItems items)
  | value => value

def copyItems : List Value → List Value
  | [] => []
  | child :: items => copyJson child :: copyItems items

def copyFields : List (Value × Value) → List (Value × Value)
  | [] => []
  | (key, child) :: fields => (key, copyJson child) :: copyFields fields

end

def copyBoundedJson (value : Value) (l : Limits) : Except String Value := do
  let (_, frozen) ← freezeJson value l
  return copyJson frozen

/-! ## What the values are -/

/-- The character of a code point; a surrogate is none. -/
def character (code : CodePoint) : Option Char :=
  if code.val.isValidChar then some (Char.ofNat code.val) else none

def text (s : List CodePoint) : Option String := (s.mapM character).map String.ofList

mutual

/-- The JSON value that a Python value is; `immutable` says which types the containers have. -/
def json (immutable : Bool) : Value → Option Json
  | .none => some .null
  | .bool b => some (.bool b)
  | .int n => some (.int n)
  | .float x => if x.isFinite then some (.float x.text) else none
  | .str s => (text s).map .str
  | .list items => if immutable then none else (jsonItems immutable items).map .arr
  | .tuple items => if immutable then (jsonItems immutable items).map .arr else none
  | .dict fields => (jsonFields immutable fields).map .obj
  | .proxy fields => if immutable then (jsonFields immutable fields).map .obj else none
  | .other => none

def jsonItems (immutable : Bool) : List Value → Option (List Json)
  | [] => some []
  | child :: items => do
    let value ← json immutable child
    let values ← jsonItems immutable items
    return value :: values

def jsonFields (immutable : Bool) : List (Value × Value) → Option (List (String × Json))
  | [] => some []
  | (.str key, child) :: fields => do
    let key ← text key
    let value ← json immutable child
    let values ← jsonFields immutable fields
    return (key, value) :: values
  | _ :: _ => none

end

mutual

/-- Dicts become mapping proxies, lists tuples. -/
def frozen : Value → Value
  | .dict fields => .proxy (frozenFields fields)
  | .proxy fields => .proxy (frozenFields fields)
  | .list items => .tuple (frozenItems items)
  | .tuple items => .tuple (frozenItems items)
  | value => value

def frozenItems : List Value → List Value
  | [] => []
  | child :: items => frozen child :: frozenItems items

def frozenFields : List (Value × Value) → List (Value × Value)
  | [] => []
  | (key, child) :: fields => (key, frozen child) :: frozenFields fields

end

end LingshuGate.Structure

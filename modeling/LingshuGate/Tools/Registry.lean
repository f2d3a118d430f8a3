import Mathlib.Data.String.Basic
import LingshuGate.Lib.Acts
import LingshuGate.Lib.Dict
import LingshuGate.Groups.Catalog

/-!
# The tool registry (`registry.py`)

| here | there |
| --- | --- |
| `ToolRecord`, `ToolSnapshot`, `Snapshot` | `ToolRecord` (134), `RegistryToolSnapshot` (72), `McpRegistrySnapshot` (82) |
| `ToolRegistry`             | the state of `ToolRegistry` (161) |
| `notifyCatalog`            | `_notify_catalog` (194) |
| `unindex`, `index`         | the two turns of `_index_change` (201) |
| `register`                 | `register` (220) |
| `updateDefinition`         | `update_definition` (257) |
| `unregisterByMetadata`     | `unregister_by_metadata` (275) |
| `replaceByMetadata`        | `replace_by_metadata` (326) |
| `mcpSnapshot`, `mcpSnapshotCurrent` | `mcp_snapshot` (411), `mcp_snapshot_current` (421) |

An operation is an action that leaves the state it has reached when it raises; it runs under the lock of the registry, so it is one
step. `freeze` is `freeze_tool_definition`: the bounded structure, which is what `copy_definition` gives back. A handler, its
context flag and its preparer are one `η`. The listeners only enqueue what they are told, so `heard` is their state.

`same` is `==` of two metadata values. A selector compares `metadata.get(key)` with a value; the lists of a frozen structure are
tuples, hence the second comparison.
-/

namespace LingshuGate.Tools

open Lib Groups

structure ToolRecord (η : Type) where
  definition : Tool
  handler : η

structure ToolSnapshot where
  structure' : Tool
  revision : Nat

structure Snapshot where
  revisions : List (String × Nat)
  tools : List ToolSnapshot

/-- What the listeners are told. -/
structure Notice where
  changes : Dict String (Option Tool)
  retired : List String

structure ToolRegistry (η Λ : Type) where
  tools : Dict String (ToolRecord η) := ∅
  revision : Nat := 0
  structures : Dict String Tool := ∅
  unavailable : Dict String Tool := ∅
  mcpIndex : Dict String (Dict String ToolSnapshot) := ∅
  mcpRevisions : Dict String Nat := ∅
  heard : Λ

inductive Failure
  | structure' (reason : String)
  | alreadyRegistered (id : String)
  | notFound (id : String)
  | identityChange
  | metadataMismatch (id key : String)
  | sourceMismatch (id : String)
  | duplicate (id : String)
  | conflicts (ids : List String)
  /-- `KeyError` of a dictionary. -/
  | missing (id : String)

structure Selector where
  key : String
  /-- `metadata.get(key) == value` of a definition. -/
  equals : Option Json → Bool
  /-- The same of a frozen structure. -/
  equalsFrozen : Option Json → Bool
  source : Option String := none

def Selector.ofSource (sel : Selector) (t : Tool) : Bool :=
  match sel.source with
  | none => true
  | some source => t.source = source

def Selector.selects (sel : Selector) (t : Tool) : Bool := sel.equals (t.meta? sel.key) && sel.ofSource t

def Selector.selectsFrozen (sel : Selector) (t : Tool) : Bool := sel.equalsFrozen (t.meta? sel.key) && sel.ofSource t

/-- The instance whose bucket holds the tool. -/
def instanceOf (t : Tool) : Option String := if t.source = "mcp" then t.serverId else none

namespace ToolRegistry

variable {η Λ : Type}

/-! ## The index -/

def bucket (reg : ToolRegistry η Λ) (instance' : String) : Dict String ToolSnapshot := (reg.mcpIndex.get instance').getD ∅

/-- The bucket of an instance changes, at this revision; one that is empty is dropped. -/
def touch (reg : ToolRegistry η Λ) (instance' : String) (f : Dict String ToolSnapshot → Dict String ToolSnapshot) :
    ToolRegistry η Λ :=
  let entries := f (reg.bucket instance')
  { reg with
    mcpRevisions := reg.mcpRevisions.set instance' reg.revision
    mcpIndex := if entries.rows.isEmpty then reg.mcpIndex.pop instance' else reg.mcpIndex.set instance' entries }

def unindex (reg : ToolRegistry η Λ) (t : Tool) : ToolRegistry η Λ :=
  match instanceOf t with
  | none => reg
  | some instance' => reg.touch instance' (·.pop t.id)

def index (reg : ToolRegistry η Λ) (t : Tool) : ToolRegistry η Λ :=
  match instanceOf t with
  | none => reg
  | some instance' => reg.touch instance' (·.set t.id ⟨t, reg.revision⟩)

/-- `_index_change(previous, current)`. -/
def indexChange (reg : ToolRegistry η Λ) (previous current : Option Tool) : ToolRegistry η Λ :=
  let reg := previous.elim reg reg.unindex
  current.elim reg reg.index

def bump (reg : ToolRegistry η Λ) : ToolRegistry η Λ := { reg with revision := reg.revision + 1 }

/-- The definition of a registered tool. -/
def definition (reg : ToolRegistry η Λ) (id : String) : Option Tool := (reg.tools.get id).map (·.definition)

/-! ## The operations -/

section

variable (listener : Λ → Notice → Λ) (freeze : Tool → Except Failure Tool) (same : Option Json → Option Json → Bool)

abbrev Op (η Λ : Type) := Act Failure (ToolRegistry η Λ)

def notifyCatalog (notice : Notice) : Op η Λ Unit := modify fun reg => { reg with heard := listener reg.heard notice }

/-- The record takes the place of the one with its id. -/
def publish (record : ToolRecord η) : Op η Λ Unit := modify fun reg =>
  let id := record.definition.id
  let reg := reg.bump.indexChange (reg.definition id) (some record.definition)
  { reg with structures := reg.structures.set id record.definition, tools := reg.tools.set id record }

def register (definition : Tool) (handler : η) (replace : Bool) : Op η Λ Unit := do
  let owned ← Act.ofExcept (freeze definition)
  let reg ← get
  Act.require (!reg.tools.has owned.id || replace) (.alreadyRegistered owned.id)
  publish ⟨owned, handler⟩
  modify fun reg => { reg with unavailable := reg.unavailable.pop owned.id }
  notifyCatalog listener ⟨Dict.fromKeys [owned.id] (some owned), []⟩

def sameIdentity (t previous : Tool) : Bool :=
  t.source = previous.source && ["server_id", "original_tool_name"].all fun key => same (t.meta? key) (previous.meta? key)

def updateDefinition (definition : Tool) : Op η Λ Unit := do
  let owned ← Act.ofExcept (freeze definition)
  let reg ← get
  let previous ← Act.ofExcept (expect (reg.tools.get owned.id) (.notFound owned.id))
  Act.require (sameIdentity same owned previous.definition) .identityChange
  publish ⟨owned, previous.handler⟩
  notifyCatalog listener ⟨Dict.fromKeys [owned.id] (some owned), []⟩

/-- `self._structures[id]`. -/
def structureOf (id : String) : Op η Λ Tool := do
  let reg ← get
  Act.ofExcept (expect (reg.structures.get id) (.missing id))

/-- A tool that goes offline for a while keeps its definition. -/
def keepDefinition (retire : Bool) (id : String) : Op η Λ Unit :=
  if retire then pure () else do
    let structure' ← structureOf id
    modify fun reg => { reg with unavailable := reg.unavailable.set id structure' }

/-- One turn of the loop over the tools that are removed. -/
def withdraw (retire : Bool) (id : String) : Op η Λ Unit := do
  keepDefinition retire id
  let reg ← get
  let record ← Act.ofExcept (expect (reg.tools.get id) (.missing id))
  modify fun reg => { reg with tools := reg.tools.pop id }
  modify fun reg => reg.indexChange (some record.definition) none
  let _ ← structureOf id
  modify fun reg => { reg with structures := reg.structures.pop id }

def selected (reg : ToolRegistry η Λ) (sel : Selector) : List String :=
  (reg.tools.rows.filter fun kv => sel.selects kv.2.definition).map (·.1)

def selectedUnavailable (reg : ToolRegistry η Λ) (sel : Selector) : List String :=
  (reg.unavailable.rows.filter fun kv => sel.selectsFrozen kv.2).map (·.1)

/-- What is told of tools that are gone: their ids, retired or not. -/
def Notice.gone (retire : Bool) (ids : List String) : Notice := ⟨Dict.fromKeys ids none, if retire then ids else []⟩

def unregisterByMetadata (sel : Selector) (retire : Bool) : Op η Λ Nat := do
  let reg ← get
  let removed := reg.selected sel
  let changed := (removed ++ if retire then reg.selectedUnavailable sel else []).dedup
  if changed = [] then return 0
  else do
    modify bump
    removed.forM (withdraw retire)
    modify fun reg => { reg with unavailable := if retire then changed.foldl Dict.pop reg.unavailable else reg.unavailable }
    notifyCatalog listener (Notice.gone retire changed)
    return changed.length

/-- One turn of the loop over the replacements. -/
def admitReplacement (sel : Selector) (replacement : Dict String (ToolRecord η)) (record : ToolRecord η) :
    Except Failure (Dict String (ToolRecord η)) := do
  let owned ← freeze record.definition
  Lib.require (sel.equals (owned.meta? sel.key)) (.metadataMismatch owned.id sel.key)
  Lib.require (sel.ofSource owned) (.sourceMismatch owned.id)
  Lib.require (!replacement.has owned.id) (.duplicate owned.id)
  return replacement.set owned.id ⟨owned, record.handler⟩

/-- `sorted((set(retained) | (unavailable - selected)) & set(replacement))`. -/
def conflictsWith (reg : ToolRegistry η Λ) (sel : Selector) (replacement : Dict String (ToolRecord η)) : List String :=
  (replacement.keys.filter fun id =>
    (reg.tools.has id && !(reg.selected sel).contains id) ||
      (reg.unavailable.has id && !(reg.selectedUnavailable sel).contains id)).insertionSort (· ≤ ·)

/-- One turn of the loop over the tools that are replaced. -/
def displace (id : String) : Op η Λ Unit := do
  let reg ← get
  let record ← Act.ofExcept (expect (reg.tools.get id) (.missing id))
  modify fun reg => reg.indexChange (some record.definition) none
  let _ ← structureOf id
  modify fun reg => { reg with structures := reg.structures.pop id }

/-- The definitions of some records. -/
def definitionsOf (records : Dict String (ToolRecord η)) : List (String × Tool) := records.rows.map fun kv => (kv.1, kv.2.definition)

def replaceByMetadata (sel : Selector) (records : List (ToolRecord η)) : Op η Λ (Nat × Nat) := do
  let replacement ← Act.ofExcept (records.foldlM (admitReplacement freeze sel) ∅)
  let reg ← get
  let removed := reg.selected sel
  let unavailable := reg.selectedUnavailable sel
  Act.require (reg.conflictsWith sel replacement).isEmpty (.conflicts (reg.conflictsWith sel replacement))
  let retired := (removed ++ unavailable).dedup.filter fun id => !replacement.has id
  modify bump
  removed.forM displace
  modify fun reg => (definitionsOf replacement).foldl (fun reg kv => reg.indexChange none (some kv.2)) reg
  modify fun reg => { reg with
    structures := (definitionsOf replacement).foldl (fun d kv => d.set kv.1 kv.2) reg.structures
    unavailable := unavailable.foldl Dict.pop reg.unavailable
    tools := Dict.update (reg.tools.delete fun kv => removed.contains kv.1) replacement }
  notifyCatalog listener
    ⟨(definitionsOf replacement).foldl (fun d kv => d.set kv.1 (some kv.2)) (Dict.fromKeys retired none), retired⟩
  return (removed.length, replacement.rows.length)

end

/-! ## Snapshots -/

/-- `sorted(set(instance_ids))`. -/
def sortedSet (ids : List String) : List String := ids.dedup.insertionSort (· ≤ ·)

/-- `none` is `RegistrySnapshotCapacityError`. -/
def mcpSnapshot (reg : ToolRegistry η Λ) (instanceIds : List String) (maxTools : Nat) : Option Snapshot :=
  let instances := sortedSet instanceIds
  if maxTools < (instances.map fun i => (reg.bucket i).rows.length).sum then none
  else some ⟨instances.map fun i => (i, (reg.mcpRevisions.get i).getD 0), instances.flatMap fun i => (reg.bucket i).values⟩

def mcpSnapshotCurrent (reg : ToolRegistry η Λ) (revisions : List (String × Nat)) : Bool :=
  revisions.all fun iv => (reg.mcpRevisions.get iv.1).getD 0 = iv.2

end ToolRegistry

end LingshuGate.Tools

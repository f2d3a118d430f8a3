import LingshuGate.Access.Classification
import LingshuGate.Runtime.ToolRecords
import LingshuGate.Tools.RegistryRuns

/-!
# The catalog index (`tool_catalog.py:139-191`)

| here | there |
| --- | --- |
| `publicToolName`, `reservedTool` | `public_tool_name` (tool_namespace.py:84), the test in `_enqueue` (tool_catalog.py:147) |
| `CatalogRow`, `rowOf`       | a row of `gate_tool_catalog`, the values of the `INSERT` (185) |
| `Queue`, `enqueue`          | `_pending`, `_retired`, `_reserved`, `_generation`, `_enqueue` (139) |
| `subscribe`                 | `subscribe_catalog` (registry.py:188) |
| `applyChanges`              | the loop over the changes (168) |
| `Event.skip`, `Event.drain` | the first section of `synchronize` (150) with and without its early return |
| `Event.commit`              | the session commits, and the generation is returned |
| `Event.fail`                | the session raises, and what was drained is queued again (188) |

The registry tells the queue of its changes under its own lock, so that they are one step. A `synchronize` holds `_sync_lock`, so at
most one is between its two sections. The classifications belong to other transactions as well: `Event.others`.

`retirements` holds the ids that were ever told retired; no operation reads it. `str` is `str` of a value that is no text. The
digest of a definition determines its row (`Determines`).
-/

namespace LingshuGate.Tools

open Lib Groups Classifications

/-! ## Reserved names -/

def systemDebugToolId : String := "gate_system_debug"

def maxToolNameLength : Nat := 128

def catalogToolNames : List String :=
  ["gate_catalog_search", "gate_tool_describe", "gate_tool_invoke", "gate_instance_list", "gate_instance_session_open",
    "gate_instance_session_close", "gate_request_status"]

/-- `[A-Za-z0-9_-]`. -/
def nameChar (c : Char) : Bool :=
  ('A' ≤ c && c ≤ 'Z') || ('a' ≤ c && c ≤ 'z') || ('0' ≤ c && c ≤ '9') || c = '_' || c = '-'

/-- `text.strip("_")`. -/
def stripUnderscores (text : List Char) : List Char :=
  ((text.dropWhile (· = '_')).reverse.dropWhile (· = '_')).reverse

def candidateName (id : String) : String :=
  let stripped := stripUnderscores (id.toList.flatMap fun c => if c = '.' then ['_', '_'] else if nameChar c then [c] else ['_'])
  if stripped = [] then "gate_tool" else String.ofList stripped

def publicToolName (H : Hashes) (id : String) : String :=
  if id = systemDebugToolId then "gate_system_debug"
  else
    let candidate := candidateName id
    if candidate.length ≤ maxToolNameLength then candidate
    else
      let digest := (H.sha256 id.toUTF8.toList).toList.take 12
      String.ofList (candidate.toList.take (maxToolNameLength - digest.length - 2)) ++ "__" ++ String.ofList digest

def reservedPreferenceName (name : String) : Bool := name = "gate_result_read" || "gate_pinned_".toList.isPrefixOf name.toList

def reservedTool (H : Hashes) (t : Tool) : Bool :=
  catalogToolNames.contains (publicToolName H t.id) || reservedPreferenceName (publicToolName H t.id)

/-! ## Rows -/

structure CatalogRow where
  instanceId : String
  name : String
  description : String
  source : String
  permission : String
  policyJson : String
  schemaRevision : String
  deriving DecidableEq

/-- `instance_for`. -/
def instanceFor (str : Json → String) (t : Tool) : String :=
  let fallback := if t.source = "" then "builtin" else t.source
  match t.meta? "server_id" with
  | none => fallback
  | some (.str s) => if s = "" then fallback else s
  | some value => if Json.truthy value then str value else fallback

def policyKeys : List String := ["required_control_permission", "classification_control_plane", "group_management_control_plane"]

def policyOf (t : Tool) : Json := .obj (policyKeys.filterMap fun key => (t.meta? key).map fun value => (key, value))

def rowOf (H : Hashes) (str : Json → String) (t : Tool) : CatalogRow where
  instanceId := instanceFor str t
  name := String.ofList (t.name.toList.take 128)
  description := String.ofList (t.description.toList.take 320)
  source := t.source
  permission := t.permission
  policyJson := (policyOf t).dumps
  schemaRevision := H.definitionRevision t

/-- Definitions of one digest have one row. -/
def Determines (H : Hashes) (str : Json → String) : Prop :=
  ∀ t t', H.definitionRevision t = H.definitionRevision t' → rowOf H str t = rowOf H str t'

/-! ## The queue -/

structure Queue where
  pending : Dict String (Option Tool) := ∅
  retired : List String := []
  reserved : List String := []
  generation : Nat := 0
  /-- Oldest first. -/
  retirements : List String := []

/-- One turn of the loop of `_enqueue`. -/
def reserve (H : Hashes) (reserved : List String) (key : String) (definition : Option Tool) : List String :=
  let reserved := reserved.filter (· ≠ key)
  match definition with
  | some t => if reservedTool H t then key :: reserved else reserved
  | none => reserved

def enqueue (H : Hashes) (q : Queue) (notice : Notice) : Queue where
  pending := Dict.update q.pending notice.changes
  retired := q.retired ∪ notice.retired
  reserved := notice.changes.rows.foldl (fun reserved kv => reserve H reserved kv.1 kv.2) q.reserved
  generation := q.generation + 1
  retirements := q.retirements ++ notice.retired

/-- Every tool that is registered, none of them retired. -/
def seedNotice {η Λ : Type} (reg : ToolRegistry η Λ) : Notice where
  changes := reg.tools.rows.foldl (fun d kv => d.set kv.1 (some kv.2.definition)) ∅
  retired := []

def subscribe {η : Type} (H : Hashes) (reg : ToolRegistry η Unit) : ToolRegistry η Queue where
  tools := reg.tools
  revision := reg.revision
  structures := reg.structures
  unavailable := reg.unavailable
  mcpIndex := reg.mcpIndex
  mcpRevisions := reg.mcpRevisions
  heard := enqueue H {} (seedNotice reg)

/-! ## Synchronizing -/

/-- What a `synchronize` took from the queue. -/
structure Drained where
  changes : Dict String (Option Tool)
  retired : List String
  generation : Nat

structure World (η : Type) where
  registry : ToolRegistry η Queue
  initial : Bool := true
  draining : Option Drained := none
  rows : Dict String CatalogRow
  classifications : Store

inductive Event (η : Type)
  | call (call : ToolRegistry.Call η)
  | skip
  | drain
  /-- `versionOf` is what the session computes of a definition, and the ids it draws. -/
  | commit (versionOf : Tool → Version)
  /-- The session is rolled back, or raises once it has committed. -/
  | fail (committed : Option (Tool → Version))
  | others (classifications : Store)

section

variable {η : Type} (H : Hashes) (str : Json → String) (freeze : Tool → Except Failure Tool)
  (same : Option Json → Option Json → Bool)

/-- `INSERT … ON CONFLICT DO UPDATE … WHERE schema_revision != excluded.schema_revision`, or the `DELETE`. -/
def applyChange (rows : Dict String CatalogRow) (key : String) (definition : Option Tool) : Dict String CatalogRow :=
  match definition with
  | none => rows.pop key
  | some t => match rows.get key with
    | some row => if row.schemaRevision = H.definitionRevision t then rows else rows.set key (rowOf H str t)
    | none => rows.set key (rowOf H str t)

def applyChanges (rows : Dict String CatalogRow) (changes : Dict String (Option Tool)) : Dict String CatalogRow :=
  changes.rows.foldl (fun rows kv => applyChange H str rows kv.1 kv.2) rows

/-- The definitions that are synchronized. -/
def Drained.definitions (d : Drained) : List Tool := d.changes.rows.filterMap (·.2)

/-- What the session writes; `none` is an `IntegrityError`. -/
def session (w : World η) (d : Drained) (versionOf : Tool → Version) : Option (Dict String CatalogRow × Store) :=
  (catalogSynchronize w.classifications d.retired (d.definitions.map versionOf)).map fun store =>
    (applyChanges H str (if w.initial then ∅ else w.rows) d.changes, store)

def taken (q : Queue) : Queue := { q with pending := ∅, retired := [] }

/-- `{**changes, **self._pending}`, and the retired ids come back. -/
def requeue (q : Queue) (d : Drained) : Queue := { q with pending := Dict.update d.changes q.pending, retired := q.retired ∪ d.retired }

def withQueue (w : World η) (q : Queue) : World η := { w with registry := { w.registry with heard := q } }

/-- What an event makes of the world; `none` where it cannot happen. -/
def act (w : World η) : Event η → Option (World η)
  | .call call => some { w with registry := ToolRegistry.next (enqueue H) freeze same w.registry call }
  | .skip =>
    if w.draining.isNone && w.registry.heard.pending.rows.isEmpty && !w.initial then some (withQueue w (taken w.registry.heard))
    else none
  | .drain =>
    if w.draining.isNone && !(w.registry.heard.pending.rows.isEmpty && !w.initial) then
      some { withQueue w (taken w.registry.heard) with
        draining := some ⟨w.registry.heard.pending, w.registry.heard.retired, w.registry.heard.generation⟩ }
    else none
  | .commit versionOf => do
    let d ← w.draining
    let written ← session H str w d versionOf
    return { w with rows := written.1, classifications := written.2, initial := false, draining := none }
  | .fail none => do
    let d ← w.draining
    return { withQueue w (requeue w.registry.heard d) with draining := none }
  | .fail (some versionOf) => do
    let d ← w.draining
    let written ← session H str w d versionOf
    return { withQueue w (requeue w.registry.heard d) with rows := written.1, classifications := written.2, draining := none }
  | .others classifications => some { w with classifications := classifications }

def CatalogStep (w : World η) (e : Event η) (w' : World η) : Prop := act H str freeze same w e = some w'

/-- The generation that a `synchronize` returns with this event. -/
def returned (w : World η) : Event η → Option Nat
  | .skip => some w.registry.heard.generation
  | .commit _ => w.draining.map (·.generation)
  | _ => none

end

end LingshuGate.Tools

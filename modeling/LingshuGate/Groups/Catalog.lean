import LingshuGate.Access.Evaluate
import LingshuGate.Lib.Check
import LingshuGate.Lib.Framing
import LingshuGate.Lib.Json

/-!
# Tools and groups (`domain/tool_structure.py`, `application/mcp_group_routing.py`)

| here | there |
| --- | --- |
| `Tool`      | `FrozenToolDefinition` (tool_structure.py:125) |
| `GroupType` | the type of a group (domain/mcp_groups.py:17) |
| `Target`    | what `resolve` answers (mcp_group_routing.py:211) |

`Hashes` are the functions of the boundary: SHA-256 in hexadecimal, the hashes of definitions, case folding.
-/

namespace LingshuGate.Groups

open Lib AccessControl

/-! ## Tools -/

/-- A published definition; `metadata` is a JSON object. -/
structure Tool where
  id : String
  name : String := ""
  description : String := ""
  permission : String := "read"
  source : String := "mcp"
  inputSchema : Json
  metadata : List (String × Json)
  byteCount : Nat := 0

/-- `metadata.get(key)`. -/
def Tool.meta? (t : Tool) (key : String) : Option Json := (Json.obj t.metadata).get? key

/-- `metadata.get(key)` when it is a text. -/
def Tool.text? (t : Tool) (key : String) : Option String :=
  match t.meta? key with
  | some (.str s) => some s
  | _ => none

def Tool.serverId (t : Tool) : Option String := t.text? "server_id"

def Tool.originalToolName (t : Tool) : Option String := t.text? "original_tool_name"

structure Hashes where
  /-- `sha256(…).hexdigest()` -/
  sha256 : List UInt8 → String
  /-- `_tool_fingerprint` (access_control.py:2371) -/
  toolFingerprint : Tool → String
  /-- `tool_definition_revision` (registry.py:33) -/
  definitionRevision : Tool → String
  /-- `str.casefold` of one character -/
  foldChar : Char → List Char

/-! ## Targets -/

inductive GroupType where
  | execution | dataSource | unspecified
  deriving DecidableEq

structure Target where
  serviceId : String
  groupId : String
  groupRevision : Nat
  toolRef : String
  instanceId : String
  serverId : String
  toolId : String
  /-- `schema_revision` is the variant id -/
  schemaRevision : String
  definitionFingerprint : String
  groupType : GroupType
  groupName : String
  instanceName : String
  deriving DecidableEq

end LingshuGate.Groups

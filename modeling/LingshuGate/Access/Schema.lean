import LingshuGate.Lib.PyText
import LingshuGate.Principal

/-!
# Tables and values of access control (`database.py`, `mcp_authorization_policy.py`)

| here | there |
| --- | --- |
| `AccessDb`         | the tables of database.py:165-305 that authorization reads |
| `ToolDefinition`   | models.py:38; `Metadata` holds the keys of `metadata` that policy reads |
| `Classification`   | a row of `mcp_tool_classifications`, or the projection a catalog row carries |
| `serverIdOf`       | `_server_id` (access_control.py:2343) |
| `serverBinding`    | `server_binding` (mcp_authorization_policy.py:31) |
| `Env`              | the boundary: file markers, the SHA-256 snapshots, `urlsplit` |

SQLite keeps the constraints of the schema, so `AccessDb` carries them: one grant for each subject and
resource, `base_level` never `unknown`.
-/

namespace LingshuGate.AccessControl

open Lib.Py

/-- A JSON value of `metadata`, as far as policy tells values apart. -/
inductive MetaValue where
  | text (s : String)
  | flag (b : Bool)
  | other (json : String)
  deriving DecidableEq

/-- The keys of `metadata` that the catalog keeps as `policy_json` (tool_catalog.py:166). -/
structure Policy where
  requiredControlPermission : Option MetaValue := none
  classificationControlPlane : Option MetaValue := none
  groupManagementControlPlane : Option MetaValue := none
  deriving DecidableEq

/-- The keys of `ToolDefinition.metadata` that authorization reads; Gate writes `server_id` as a text. -/
structure Metadata where
  serverId : Option String := none
  policy : Policy := {}
  deriving DecidableEq

structure ToolDefinition where
  id : String
  name : String := ""
  description : String := ""
  permission : String := "read"
  source : String := "builtin"
  metadata : Metadata := {}
  deriving DecidableEq

/-- `mcp_tool_classifications.status`. -/
inductive Status where
  | pending | published | stale
  deriving DecidableEq

def Status.text : Status → String
  | .pending => "pending"
  | .published => "published"
  | .stale => "stale"

/-- What `_evaluate` is given about a tool. `reviewed` is `(fingerprint, reviewed_at)`, which a full
row has and the projection of a catalog row has not (reading it raises `KeyError`). -/
structure Classification where
  effectiveAccess : Access
  status : Status
  reviewed : Option (String × Option String) := none
  deriving DecidableEq

/-- `classification["status"] == "published"` and a usable access. -/
def Classification.isPublished (c : Classification) : Bool :=
  c.status == .published && c.effectiveAccess.usable

structure ClassificationRow where
  serverId : String
  toolId : String
  classification : Classification
  deriving DecidableEq

inductive SubjectType where
  | user | role
  deriving DecidableEq

structure Role where
  id : String
  code : String
  isSystem : Bool
  enabled : Bool
  deriving DecidableEq

structure PermissionType where
  id : String
  baseLevel : Access
  enabled : Bool
  deriving DecidableEq

structure ResourceGrant where
  subjectType : SubjectType
  subjectId : String
  serverId : String
  toolId : String
  permissionTypeId : String
  expiresAt : Stamp
  deriving DecidableEq

/-- `UNIQUE(subject_type, subject_id, server_id, tool_id)`. -/
def ResourceGrant.key (g : ResourceGrant) : SubjectType × String × String × String :=
  (g.subjectType, g.subjectId, g.serverId, g.toolId)

/-- A row of `gate_mcp_authorization_identities`. -/
structure Identity where
  serverId : String
  binding : String
  filePath : String := ""
  fileMarker : String := ""
  deriving DecidableEq

structure OAuthPayload where
  enabled : Bool
  issuer : String
  resource : String
  deriving DecidableEq

theorem no_grants_unique : (([] : List ResourceGrant).map ResourceGrant.key).Nodup := List.nodup_nil

theorem no_base_level : ∀ t ∈ ([] : List PermissionType), t.baseLevel ≠ .unknown := List.forall_mem_nil _

/-- The tables authorization reads, with the constraints SQLite enforces on them. -/
structure AccessDb where
  roles : List Role := []
  /-- `(user_id, role_id)` -/
  userRoles : List (String × String) := []
  permissionTypes : List PermissionType := []
  resourceGrants : List ResourceGrant := []
  classifications : List ClassificationRow := []
  identities : List Identity := []
  oauthConfig : Option OAuthPayload := none
  oauthManagementEnabled : Option Bool := none
  grants_unique : (resourceGrants.map ResourceGrant.key).Nodup := by first | exact LingshuGate.AccessControl.no_grants_unique | decide
  base_level : ∀ t ∈ permissionTypes, t.baseLevel ≠ .unknown := by first | exact LingshuGate.AccessControl.no_base_level | decide

/-- What the code reads outside the database. -/
structure Env where
  /-- `_file_marker` (mcp_authorization_policy.py:16); `none` is `OSError` -/
  fileMarker : String → Option String
  /-- `tool_snapshot` of `[fingerprint, effective_access, reviewed_at]` -/
  toolSnapshot : String → Access → Option String → String
  managementToolSnapshot : ToolDefinition → String
  /-- `management_resource` (oauth_management.py:53) -/
  managementResource : String → String

/-- `_server_id`. -/
def serverIdOf (d : ToolDefinition) : String :=
  match d.metadata.serverId with
  | some s => if strip s = "" then (if d.source = "" then "builtin" else d.source) else strip s
  | none => if d.source = "" then "builtin" else d.source

/-- `server_binding`; the error is the text of the `ValueError`. -/
def serverBinding (env : Env) (db : AccessDb) (serverId : String) : Except String String :=
  match db.identities.find? (·.serverId = serverId) with
  | none => .error "server_scope_unavailable"
  | some row =>
    if row.filePath = "" then .ok row.binding
    else match env.fileMarker row.filePath with
      | none => .error "server_scope_unavailable"
      | some marker => if marker = row.fileMarker then .ok row.binding else .error "server_scope_changed"

/-! ## The closed tool lists (`domain/oauth_management.py`, `mcp_group_mcp.py`) -/

def legacyManagementToolIds : List String :=
  ["gate_mcp_config_plan", "gate_mcp_config_apply", "gate_mcp_config_status", "gate_mcp_config_cancel"]

def httpManagementToolIds : List String :=
  ["gate_http_mcp_test", "gate_http_mcp_plan", "gate_http_mcp_apply", "gate_http_mcp_status", "gate_http_mcp_cancel"]

def credentialManagementToolIds : List String :=
  ["gate_credential_list", "gate_credential_get", "gate_credential_create", "gate_credential_update", "gate_credential_delete"]

def managementToolIds : List String :=
  legacyManagementToolIds ++ httpManagementToolIds ++ credentialManagementToolIds

def managementReadTools : List String :=
  ["gate_mcp_config_plan", "gate_mcp_config_status", "gate_http_mcp_plan", "gate_http_mcp_status",
    "gate_credential_list", "gate_credential_get"]

/-- `GROUP_MANAGEMENT_TOOL_IDS` (mcp_group_mcp.py:15). -/
def groupManagementToolIds : List String :=
  ["gate_mcp_group_list", "gate_mcp_group_get", "gate_mcp_group_save", "gate_mcp_group_delete"]

def managementToolServer (toolId : String) : String :=
  if toolId ∈ credentialManagementToolIds then "gate_credentials" else "gate_mcp_configuration"

def managementToolPermissions (toolId : String) : List String :=
  if toolId ∈ credentialManagementToolIds then ["operations.manage", "credentials.manage.system"]
  else ["operations.manage"]

end LingshuGate.AccessControl

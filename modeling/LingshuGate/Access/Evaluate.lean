import Mathlib.Data.List.Dedup
import LingshuGate.Access.Schema

/-!
# The policy evaluator (`access_control.py`)

| here | there |
| --- | --- |
| `hasControlPermission`    | `has_control_permission` (access_control.py:300) |
| `tokenScopeAllows`        | `_token_scope_allows` (access_control.py:2483) |
| `principalControlAllows`  | `_principal_control_allows` (access_control.py:2495) |
| `tokenMcpPolicyAllows`    | `_token_mcp_policy_allows` (access_control.py:1396) |
| `effectiveAccess`         | `_effective_access_map` (access_control.py:1650) read at one of its keys |
| `evaluateWith`            | `_evaluate` (access_control.py:1421); its early returns are the `…Decision` functions |
| `evaluate`                | `evaluate` (access_control.py:1319) |

`_evaluate` is given the classification and the grant of the tool by its callers; `grant_lookup` is a
closure over a finished read, so it is a value here.
-/

namespace LingshuGate.AccessControl

open Lib.Py

/-! ## Scope limits and control permissions -/

/-- The `scope_limits` that two functions build: the token's scopes, then the delegated ones. -/
def scopeLimits (p : AuthPrincipal) : List (List String) :=
  (if p.authType = .token ∨ p.authType = .oauth then [p.scopes] else []) ++ p.delegatedScopes.toList

/-- `has_control_permission`. -/
def hasControlPermission (p : AuthPrincipal) (code : String) : Bool :=
  (p.isAdmin || p.permissions.contains code) && (scopeLimits p).all fun scopes => scopes.contains "*" || scopes.contains code

/-- `accepted` of `_token_scope_allows`. -/
def acceptedScopes (required : Access) : List String :=
  if required = .read then ["tools.read", "mcp.read", "mcp.write"] else ["tools.invoke", "mcp.write"]

/-- `_token_scope_allows`. -/
def tokenScopeAllows (p : AuthPrincipal) (required : Access) : Bool :=
  (scopeLimits p).all fun scopes =>
    scopes.contains "*" || scopes.any fun s => (acceptedScopes required).contains s

/-- `_principal_control_allows`. -/
def principalControlAllows (p : AuthPrincipal) (code : String) : Bool :=
  p.isAdmin || p.permissions.contains "*" || p.permissions.contains code

/-! ## Grants -/

/-- `SELECT user_roles.role_id … WHERE user_roles.user_id = ? AND roles.enabled = 1`. -/
def enabledRoleIds (db : AccessDb) (userId : String) : List String :=
  (db.userRoles.filter fun ur =>
    ur.1 = userId && db.roles.any fun r => r.id = ur.2 && r.enabled).map (·.2)

/-- The level of an enabled permission type (`JOIN permission_types … WHERE enabled = 1`). -/
def permissionLevel (db : AccessDb) (permissionTypeId : String) : Option Access :=
  (db.permissionTypes.find? fun t => t.id = permissionTypeId && t.enabled).map (·.baseLevel)

/-- A grant of the user, or of one of its enabled roles. -/
def ResourceGrant.appliesTo (db : AccessDb) (userId : String) (g : ResourceGrant) : Bool :=
  (g.subjectType = .user && g.subjectId = userId) || (g.subjectType = .role && (enabledRoleIds db userId).contains g.subjectId)

/-- The `grants` dictionary before it is keyed: the joined rows that have not expired. -/
def liveGrants (db : AccessDb) (now : Int) (userId : String) : List ((SubjectType × String × String × String) × Access) :=
  db.resourceGrants.filterMap fun g =>
    if g.appliesTo db userId && !g.expiresAt.isExpired now then
      (permissionLevel db g.permissionTypeId).map fun level => (g.key, level)
    else none

/-- `{key[1] for key in grants if key[0] == "role"}`. -/
def grantRoleIds (grants : List ((SubjectType × String × String × String) × Access)) : List String :=
  ((grants.filter fun g => g.1.1 = .role).map fun g => g.1.2.1).dedup

/-- `max(levels, key=ACCESS_RANK) if levels else "none"`: the first of the highest levels. -/
def maxLevel : List Access → Access
  | [] => .none
  | l :: ls => ls.foldl (fun best level => if best.rank < level.rank then level else best) l

/-- The user's own grant: the tool's, else the server's. -/
def directGrant (grants : List ((SubjectType × String × String × String) × Access))
    (userId serverId toolId : String) : Option Access :=
  (dictGet grants (.user, userId, serverId, toolId)).or (dictGet grants (.user, userId, serverId, ""))

/-- One role's grant: the tool's, else the server's. -/
def roleGrant (grants : List ((SubjectType × String × String × String) × Access))
    (serverId toolId roleId : String) : Option Access :=
  (dictGet grants (.role, roleId, serverId, toolId)).or (dictGet grants (.role, roleId, serverId, ""))

/-- `_effective_access_map(connection, principal, [key])[key]`: an administrator has `write`; else the
user's grant, else the highest of its roles. The query keeps the rows of the key's server only. -/
def effectiveAccess (db : AccessDb) (now : Int) (p : AuthPrincipal) (serverId toolId : String) : Access :=
  if p.isAdmin then .write
  else
    let grants := (liveGrants db now p.id).filter fun g => g.1.2.2.1 = serverId
    match directGrant grants p.id serverId toolId with
    | some level => level
    | none => maxLevel ((grantRoleIds grants).filterMap (roleGrant grants serverId toolId))

/-! ## The independent policy of an API token -/

/-- The loop over `api_token_server_policies`: the first policy of the server decides. -/
def serverPolicyAllows (env : Env) (db : AccessDb) (serverId : String) (required : Access) :
    List (String × String × Access) → Option Bool
  | [] => none
  | (candidate, binding, access) :: rest =>
    if candidate ≠ serverId then serverPolicyAllows env db serverId required rest
    else match serverBinding env db serverId with
      | .error _ => some false
      | .ok current => some (current == binding && required.rank ≤ access.rank)

/-- The tail of `_token_mcp_policy_allows`: the recorded snapshot and binding of the tool. -/
def snapshotAllows (env : Env) (db : AccessDb) (p : AuthPrincipal) (d : ToolDefinition) (c : Classification) : Bool :=
  match dictGet p.apiTokenToolSnapshots d.id, dictGet p.apiTokenToolBindings d.id with
  | some expected, some expectedBinding =>
    if expectedBinding = "" then false
    else match serverBinding env db (serverIdOf d), c.reviewed with
      | .ok current, some (fingerprint, reviewedAt) =>
        current == expectedBinding && env.toolSnapshot fingerprint c.effectiveAccess reviewedAt == expected
      | _, _ => false
  | _, _ => false

/-- `_token_mcp_policy_allows`. -/
def tokenMcpPolicyAllows (env : Env) (db : AccessDb) (p : AuthPrincipal) (d : ToolDefinition) : Option Classification → Bool
  | none => false
  | some c =>
    if !c.isPublished then false
    else match serverPolicyAllows env db (serverIdOf d) c.effectiveAccess p.apiTokenServerPolicies with
      | some allowed => allowed
      | none => snapshotAllows env db p d c

/-! ## The decision -/

/-- The dictionary `_evaluate` returns. -/
structure Decision where
  allowed : Bool
  reason : String
  serverId : String
  requiredAccess : Access
  grantedAccess : Access
  classificationStatus : String
  deriving DecidableEq

/-- `bool(text)` of an optional text. -/
def truthy : Option String → Bool
  | none => false
  | some s => s ≠ ""

def statusText : Option Classification → String
  | none => "missing"
  | some c => c.status.text

def requiredText : Option Classification → Access
  | none => .unknown
  | some c => c.effectiveAccess

/-- The classification is there, published and usable. -/
def isPublished : Option Classification → Bool
  | none => false
  | some c => c.isPublished

/-- `auth_type == "token" and api_token_authorization_mode == "independent"`. -/
def isIndependent (p : AuthPrincipal) : Bool :=
  p.authType = .token && p.apiTokenAuthorizationMode = .independent

/-- `oauth_builtin and oauth_resource and oauth_resource.endswith("/mcp/manage")`. -/
def isManagementResource (p : AuthPrincipal) : Bool :=
  p.oauthBuiltin && match p.oauthResource with
    | some r => endsWith r "/mcp/manage"
    | none => false

/-- `metadata["required_control_permission"]`, stripped; blank counts as absent. -/
def requiredControlPermission (d : ToolDefinition) : Option String :=
  match d.metadata.policy.requiredControlPermission with
  | some (.text s) => if strip s = "" then none else some (strip s)
  | _ => none

def managementRequired (toolId : String) : Access :=
  if managementReadTools.contains toolId then .read else .write

def requiredPermission (required : Access) : String :=
  if required = .read then "tools.read" else "tools.invoke"

/-- The configuration half of the management check: both switches on, resource and issuer current. -/
def managementConfigured (env : Env) (db : AccessDb) (p : AuthPrincipal) : Bool :=
  match db.oauthConfig with
  | none => false
  | some config => config.enabled && db.oauthManagementEnabled = some true &&
      p.oauthResource = some (env.managementResource config.resource) && p.oauthIssuer = some config.issuer

/-- The principal half: an administrator with a live external grant that names the tool. -/
def managementGrantAllows (env : Env) (now : Int) (p : AuthPrincipal) (d : ToolDefinition) : Bool :=
  p.roles.contains "admin" && p.permissions.contains "operations.manage" &&
    truthy p.externalGrantId && truthy p.oauthFamilyId && truthy p.oauthClientId &&
    p.externalExpiresAt.isSet && !p.externalExpiresAt.isExpired now &&
    d.source = "builtin" && serverIdOf d = managementToolServer d.id &&
    managementToolIds.contains d.id && p.externalToolIds.contains d.id &&
    dictGet p.oauthToolSnapshots d.id = some (env.managementToolSnapshot d)

/-- The scope third: each required permission is in the scopes, the delegation and the permissions. -/
def managementScopesAllow (p : AuthPrincipal) (d : ToolDefinition) : Bool :=
  match p.delegatedScopes with
  | none => false
  | some delegated =>
    let holds := fun code => p.scopes.contains code && delegated.contains code && p.permissions.contains code
    p.scopes.contains "operations.manage" && delegated.contains "operations.manage" && (managementToolPermissions d.id).all holds &&
      (managementRequired d.id = .read || holds "tools.invoke")

/-- The management OAuth resource (access_control.py:1445-1470). -/
def managementDecision (env : Env) (db : AccessDb) (now : Int) (p : AuthPrincipal) (d : ToolDefinition) : Decision :=
  let allowed := managementConfigured env db p && managementGrantAllows env now p d && managementScopesAllow p d
  let required := managementRequired d.id
  ⟨allowed, if allowed then "management grant matched" else "management grant does not allow this tool",
    serverIdOf d, required, if allowed then required else .none, "management_resource"⟩

/-- The negation of the external check (access_control.py:1472-1476). -/
def externalAllows (now : Int) (p : AuthPrincipal) (d : ToolDefinition) (c : Option Classification) : Bool :=
  truthy p.externalGrantId && d.source = "mcp" && p.externalServerIds.contains (serverIdOf d) &&
    p.externalToolIds.contains d.id && p.externalAccess.contains (requiredText c) &&
    p.externalExpiresAt.isSet && !p.externalExpiresAt.isExpired now

/-- The condition of the HTTP and credential management branch. -/
def isHttpManagement (d : ToolDefinition) : Bool :=
  d.source = "builtin" && (httpManagementToolIds ++ credentialManagementToolIds).contains d.id &&
    serverIdOf d = managementToolServer d.id

/-- HTTP and credential management tools (access_control.py:1486-1505). -/
def httpManagementDecision (p : AuthPrincipal) (d : ToolDefinition) : Decision :=
  let required := managementRequired d.id
  let own := if credentialManagementToolIds.contains d.id then "credentials.manage.system" else "operations.manage"
  let permissions := if required = .write then [own, "tools.invoke"] else [own]
  let allowed := p.authType = .token && p.roleSet.contains "admin" && permissions.all fun code =>
      (p.permissions.contains code || p.permissions.contains "*") && hasControlPermission p code
  ⟨allowed, if allowed then "management control permission matched" else "management control permission denied",
    serverIdOf d, required, if allowed then required else .none, "control_plane"⟩

def isGroupManagement (d : ToolDefinition) : Bool :=
  d.source = "builtin" && serverIdOf d = "gate_mcp_groups" && d.metadata.policy.groupManagementControlPlane = some (.flag true)

/-- Group administration (access_control.py:1506-1520). -/
def groupDecision (p : AuthPrincipal) (d : ToolDefinition) : Decision :=
  let required := if d.permission = "read" then Access.read else .write
  let allowed := groupManagementToolIds.contains d.id && (p.authType = .session || p.authType = .token) &&
    p.roleSet.contains "admin" && hasControlPermission p "operations.manage" &&
    tokenScopeAllows p required && (required = .read || hasControlPermission p "tools.invoke")
  ⟨allowed, if allowed then "group administration matched" else "group administration denied",
    serverIdOf d, required, if allowed then required else .none, "control_plane"⟩

def isClassificationControl (d : ToolDefinition) : Bool :=
  d.metadata.policy.classificationControlPlane = some (.flag true) && requiredControlPermission d = some "classifications.manage"

/-- The classification control plane (access_control.py:1521-1543). -/
def classificationControlDecision (p : AuthPrincipal) (d : ToolDefinition) : Decision :=
  let required := if startsWith d.permission "read" then Access.read else .write
  let allowed := hasControlPermission p "classifications.manage" && tokenScopeAllows p required
  ⟨allowed, if allowed then "classification control-plane permission matched"
    else "missing control permission: classifications.manage",
    serverIdOf d, required, if allowed then .write else .none, "control_plane"⟩

/-- `auth_type == "oauth" or delegated_scopes is not None`. -/
def isDelegated (p : AuthPrincipal) : Bool := p.authType = .oauth || p.delegatedScopes.isSome

/-- The extra permission a tool asks for, when it asks for one. -/
def extraControlAllowed (p : AuthPrincipal) (d : ToolDefinition) : Bool :=
  match requiredControlPermission d with
  | none => true
  | some code => hasControlPermission p code

def unpublishedDecision (d : ToolDefinition) (c : Option Classification) (granted : Access) : Decision :=
  ⟨false, "tool classification is not published", serverIdOf d, .unknown, granted, statusText c⟩

/-- The level an administrator needs: the classified one when usable, else `write`. -/
def adminRequired : Option Classification → Access
  | some c => if c.effectiveAccess.usable then c.effectiveAccess else .write
  | none => .write

/-- The administrator bypass (access_control.py:1557-1585). -/
def adminDecision (p : AuthPrincipal) (d : ToolDefinition) (c : Option Classification) : Decision :=
  let required := adminRequired c
  let controlAllowed := principalControlAllows p (requiredPermission required)
  let tokenAllowed := tokenScopeAllows p required
  let extraAllowed := extraControlAllowed p d
  let reason :=
    if !controlAllowed then "missing control permission: " ++ requiredPermission required
    else if !tokenAllowed then "API token scope does not allow this operation"
    else if !extraAllowed then "missing control permission: " ++ (requiredControlPermission d).getD ""
    else "admin bypass"
  ⟨controlAllowed && tokenAllowed && extraAllowed, reason, serverIdOf d, required, .write, statusText c⟩

/-- A published tool: permission, scope, the tool's own permission, grant (access_control.py:1599-1628). -/
def grantDecision (p : AuthPrincipal) (d : ToolDefinition) (c : Classification) (granted : Access) : Decision :=
  let required := c.effectiveAccess
  if !principalControlAllows p (requiredPermission required) then
    ⟨false, "missing control permission: " ++ requiredPermission required, serverIdOf d, required, granted, c.status.text⟩
  else if !tokenScopeAllows p required then
    ⟨false, "API token scope does not allow this operation", serverIdOf d, required, granted, c.status.text⟩
  else if !extraControlAllowed p d then
    ⟨false, "missing control permission: " ++ (requiredControlPermission d).getD "", serverIdOf d, required, granted, c.status.text⟩
  else
    let allowed := required.rank ≤ granted.rank
    let text := if required = .read then "read" else "write"
    ⟨allowed, if allowed then "grant matched" else text ++ " access is required", serverIdOf d, required, granted, c.status.text⟩

/-- A principal that is no administrator (access_control.py:1586-1628). -/
def memberDecision (p : AuthPrincipal) (d : ToolDefinition) (c : Option Classification) (granted : Access) : Decision :=
  match c with
  | none => unpublishedDecision d none granted
  | some c => if !c.isPublished then unpublishedDecision d (some c) granted else grantDecision p d c granted

/-- `_evaluate` after the two credential gates (access_control.py:1480-1628). -/
def commonDecision (p : AuthPrincipal) (d : ToolDefinition) (c : Option Classification) (granted : Access) : Decision :=
  if isHttpManagement d then httpManagementDecision p d
  else if isGroupManagement d then groupDecision p d
  else if isClassificationControl d then classificationControlDecision p d
  else if isDelegated p && !isPublished c then unpublishedDecision d c granted
  else if p.isAdmin then adminDecision p d c
  else memberDecision p d c granted

/-- `_evaluate`: the independent policy, the OAuth grant, then the common policy. -/
def evaluateWith (env : Env) (db : AccessDb) (now : Int) (p : AuthPrincipal) (d : ToolDefinition)
    (c : Option Classification) (granted : Access) : Decision :=
  if isIndependent p && d.source = "mcp" && !tokenMcpPolicyAllows env db p d c then
    ⟨false, "API token MCP authorization does not allow this tool", serverIdOf d, requiredText c, .none, statusText c⟩
  else if p.authType = .oauth then
    if isManagementResource p then managementDecision env db now p d
    else if !externalAllows now p d c then
      ⟨false, "external authorization does not allow this tool", serverIdOf d, requiredText c, .none, statusText c⟩
    else commonDecision p d c granted
  else commonDecision p d c granted

/-- The answer of `_evaluate` without its texts. -/
theorem evaluateWith_allowed (env : Env) (db : AccessDb) (now : Int) (p : AuthPrincipal) (d : ToolDefinition)
    (c : Option Classification) (granted : Access) :
    (evaluateWith env db now p d c granted).allowed =
      ((!(isIndependent p && d.source = "mcp") || tokenMcpPolicyAllows env db p d c) && if p.authType = .oauth then
          if isManagementResource p then (managementDecision env db now p d).allowed
          else externalAllows now p d c && (commonDecision p d c granted).allowed
        else (commonDecision p d c granted).allowed) := by
  unfold evaluateWith
  by_cases hdeny : (isIndependent p && d.source = "mcp" && !tokenMcpPolicyAllows env db p d c) = true
  · rw [if_pos hdeny]
    simp only [Bool.and_eq_true, Bool.not_eq_true'] at hdeny
    simp [hdeny.1.1, hdeny.1.2, hdeny.2]
  rw [if_neg hdeny]
  have hpass : (!(isIndependent p && d.source = "mcp") || tokenMcpPolicyAllows env db p d c) = true := by
    cases h1 : (isIndependent p && d.source = "mcp") <;> cases h2 : tokenMcpPolicyAllows env db p d c <;>
      simp [h1, h2] at hdeny ⊢
  rw [hpass, Bool.true_and]
  cases hx : externalAllows now p d c <;> split <;> try split
  all_goals simp

/-- `_load_classifications(connection, [key]).get(key)`. -/
def loadClassification (db : AccessDb) (serverId toolId : String) : Option Classification :=
  (db.classifications.find? fun r => r.serverId = serverId && r.toolId = toolId).map (·.classification)

/-- `evaluate`: one read transaction at the instant `now`. -/
def evaluate (env : Env) (db : AccessDb) (now : Int) (p : AuthPrincipal) (d : ToolDefinition) : Decision :=
  evaluateWith env db now p d (loadClassification db (serverIdOf d) d.id)
    (effectiveAccess db now p (serverIdOf d) d.id)

end LingshuGate.AccessControl

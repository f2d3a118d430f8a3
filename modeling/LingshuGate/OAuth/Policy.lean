import LingshuGate.OAuth.Schema

/-!
# Who may do what, at one reading (`oauth_server.py`)

| here | there |
| --- | --- |
| `readyConfig`, `resourcePolicy` | `ready_config`, `resource_policy` (oauth_server.py:125, 131) |
| `managementOwner`, `sessionPrincipal` | oauth_server.py:441, 432 |
| `liveConsoleSession`       | console_session_security.py:27 |
| `freshOwner`, `consoleOwner` | `_fresh_owner`, `_console_owner` (oauth_server.py:569, 578) |
| `catalog`, `grantTools`    | `catalog`, `_grant_tools` (oauth_server.py:454, 496) |
| `selected`, `resolve`      | oauth_candidate_catalog.py:131, 141 |
| `policyCandidates`         | oauth_server.py:513-526; the registry keeps one bucket for each `server_id` (registry.py:202) |
| `activeGrant`, `liveGrant`, `authenticateClient` | oauth_server.py:1228, 584, 1220 |

Each function reads one `Snapshot`. A tool dictionary is a list of tools with different ids, in the order of
the dictionary.
-/

namespace LingshuGate.OAuth

open Lib AccessControl AuthStore

variable {D : Type} (P : Params D) (s : Snapshot)

/-! ## Configuration -/

/-- `ready_config`. -/
def readyConfig : Except Error Config := do
  require (s.out.authEnabled && s.db.config.enabled && validIssuer P s.db.config.issuer) (.oauth "oauth_disabled" 404)
  return s.db.config

structure ResourcePolicy where
  config : Config
  resource : String
  kind : Kind
  managementRevision : Option Nat
  deriving DecidableEq

/-- `resource_policy`. -/
def resourcePolicy (resource : String) : Except Error ResourcePolicy := do
  let config ← readyConfig P s
  if resource = config.resource then return ⟨config, resource, .business, none⟩
  else if resource = P.managementResource config.resource then
    require (s.db.management.enabled && config.enabled) (.oauth "oauth_management_disabled" 404)
    return ⟨config, resource, .management, some s.db.management.revision⟩
  else .error (bad "invalid_target")

/-! ## Owners -/

def liftHttp {α : Type} : Except HttpError α → Except Error α
  | .ok a => .ok a
  | .error e => .error (.http e)

/-- `management_owner`. -/
def managementOwner (userId : String) : Except Error AuthPrincipal := do
  let user ← expect (s.out.auth.users.find? (·.id = userId)) (.oauth "management_admin_required" 403)
  require (user.status = .active && !user.mustChangePassword) (.oauth "management_admin_required" 403)
  require ((rolesForUser s.out.auth userId).contains "admin") (.oauth "management_admin_required" 403)
  let current ← liftHttp (buildPrincipal s.out.auth user .session none [])
  require (current.roles.contains "admin" && current.permissions.contains "operations.manage")
    (.oauth "management_admin_required" 403)
  return current

/-- The last lines of `session_principal`, for a business resource or none. -/
def businessPrincipal : Option AuthPrincipal → Except Error (Option AuthPrincipal)
  | none => .ok none
  | some p => do
    require (!p.mustChangePassword && hasControlPermission p "credentials.manage.self")
      (.oauth "user_authorization_unavailable" 403)
    return some p

/-- `_principal_from_session(session, purpose="oauth_consent") if session else None`. -/
def consentPrincipal : Option String → Except Error (Option AuthPrincipal)
  | none => .ok none
  | some text =>
    if text = "" then .ok none
    else liftHttp (principalFromSession P.hash s.out.auth s.out.now text .oauthConsent)

/-- `session_principal`. -/
def sessionPrincipal (session : Option String) (resource : String) : Except Error (Option AuthPrincipal) := do
  let principal ← consentPrincipal P s session
  match (← resourcePolicy P s resource).kind with
  | .management => principal.mapM fun p => managementOwner s p.id
  | .business => businessPrincipal principal

/-- `live_console_session`. -/
def liveConsoleSession (p : AuthPrincipal) (session : String) : Except Error (Option AuthPrincipal) := do
  let current ← liftHttp (principalFromSession P.hash s.out.auth s.out.now session .console)
  return current.filter fun current => p.authType = .session && current.id = p.id && !current.mustChangePassword &&
    (p.sessionId = none || p.sessionId = current.sessionId)

/-- `_fresh_owner`. -/
def freshOwner (p : AuthPrincipal) : Except Error AuthPrincipal := do
  let user ← expect (s.out.auth.users.find? (·.id = p.id)) (.oauth "user_authorization_unavailable" 403)
  require (user.status = .active && !user.mustChangePassword && p.authType = .session)
    (.oauth "user_authorization_unavailable" 403)
  let current ← liftHttp (buildPrincipal s.out.auth user .session none [])
  require (hasControlPermission current "credentials.manage.self") (.oauth "permission_denied" 403)
  return current

/-- `_console_owner`. -/
def consoleOwner (p : AuthPrincipal) (session : String) : Except Error AuthPrincipal := do
  let current ← expect (← liveConsoleSession P s p session) (.oauth "session_required" 403)
  freshOwner s current

/-- `_management_console_owner`. -/
def managementConsoleOwner (p : AuthPrincipal) (session : String) : Except Error AuthPrincipal := do
  let current ← expect (← liveConsoleSession P s p session) (.oauth "session_required" 403)
  let current ← managementOwner s current.id
  require (current.permissions.contains "tools.invoke") (.oauth "management_scope_insufficient" 403)
  return current

/-! ## The tool catalog -/

/-- `tools.get(id)` of a tool dictionary. -/
def toolGet (tools : List Tool) (id : String) : Option Tool := tools.find? (·.id = id)

/-- `tool_scope_matches`: the display name may change. -/
def toolScopeMatches (saved current : Tool) : Bool :=
  saved.id = current.id && saved.serverId = current.serverId && saved.access = current.access && saved.snapshot = current.snapshot

/-- `server_binding(connection, server_id) == binding`, no `ValueError`. -/
def bindingIs (serverId binding : String) : Bool :=
  match serverBinding s.out.env s.out.auth.access serverId with
  | .ok current => current = binding
  | .error _ => false

/-- `registry.list_definitions()` or `registry.get_definitions(tool_ids)`. -/
def definitions : Option (List String) → List ToolDefinition
  | none => s.out.registry
  | some ids => ids.eraseDups.filterMap fun id => s.out.registry.find? (·.id = id)

/-- The entry of one definition in the management catalog. -/
def managementTool (scopes : Finset Scope) (current : AuthPrincipal) (d : ToolDefinition) : Option Tool :=
  let read := managementReadTools.contains d.id
  if d.source = "builtin" && managementToolIds.contains d.id && d.metadata.serverId = some (managementToolServer d.id) &&
      ((managementToolPermissions d.id).all fun code =>
        (scopeTexts scopes).contains code && current.permissions.contains code) &&
      (read || (Scope.toolsInvoke ∈ scopes && current.permissions.contains "tools.invoke")) then
    some ⟨d.id, d.name, managementToolServer d.id, if read then .read else .write, s.out.env.managementToolSnapshot d, none⟩
  else none

/-- The entry of one definition in the business catalog; a missing classification row is a `KeyError`. -/
def businessTool (principal : AuthPrincipal) (scopes : Finset Scope) (d : ToolDefinition) : Except Error (Option Tool) :=
  let decision := evaluate s.out.env s.out.auth.access s.out.now principal d
  let serverId := d.metadata.serverId.getD ""
  if !decision.allowed then .ok none
  else if d.source ≠ "mcp" || decision.classificationStatus ≠ "published" || !decision.requiredAccess.usable ||
      accessScope decision.requiredAccess ∉ scopes || serverId = "" then .ok none
  else match loadClassification s.out.auth.access serverId d.id with
    | none => .error .internal
    | some c =>
      if c.status ≠ .published || c.effectiveAccess ≠ decision.requiredAccess then .ok none
      else match c.reviewed with
        | none => .error .internal
        | some (fingerprint, reviewedAt) =>
          .ok (some ⟨d.id, d.name, serverId, decision.requiredAccess,
            s.out.env.toolSnapshot fingerprint c.effectiveAccess reviewedAt, none⟩)

/-- The business half of `catalog`. -/
def businessCatalog (principal : AuthPrincipal) (scopes : Finset Scope) (ids : Option (List String)) :
    Except Error (List Tool) := do
  let entries ← (definitions s ids).mapM (businessTool s principal scopes)
  let result := entries.filterMap id
  require (result.length ≤ 5000) (.oauth "tool_catalog_limit" 409)
  return result

/-- The management half of `catalog`. -/
def managementCatalog (principal : AuthPrincipal) (scopes : Finset Scope) (ids : Option (List String)) :
    Except Error (List Tool) := do
  let current ← managementOwner s principal.id
  if Scope.operationsManage ∉ scopes then return []
  else return (definitions s (some (ids.getD managementToolIds))).filterMap (managementTool s scopes current)

/-- `catalog(principal, scopes, resource=…, tool_ids=…)`. -/
def catalog (principal : AuthPrincipal) (scopes : Finset Scope) (resource : String) (ids : Option (List String)) :
    Except Error (List Tool) := do
  match (← resourcePolicy P s resource).kind with
  | .management => managementCatalog s principal scopes ids
  | .business => businessCatalog s principal scopes ids

/-! ## The candidate index -/

/-- `summary`. -/
def CandidateRow.summary (c : CandidateRow) : Tool :=
  let access := (c.row.classified.map (·.1)).getD .none
  ⟨c.row.toolId, c.name, c.row.serverId, access, s.out.env.toolSnapshot c.fingerprint access c.reviewedAt, none⟩

/-- The clauses of `_where` with no query. -/
def candidateVisible (owner : AuthPrincipal) (scopes : Finset Scope) (c : CandidateRow) : Bool :=
  c.row.source = "mcp" && c.row.serverId ≠ "" && rowDecision s.out.env s.out.auth.access s.out.now owner c.row = 1 &&
    match c.row.classified with
    | some (access, status) => status = .published && access.usable && accessScope access ∈ scopes
    | none => false

/-- `selected`. -/
def selected (rows : List CandidateRow) (owner : AuthPrincipal) (scopes : Finset Scope) (ids : List String) :
    Except Error (List Tool) :=
  if ids = [] then .ok []
  else do
    require (owner.authType = .session) (.oauth "session_required" 403)
    return (rows.filter fun c => candidateVisible s owner scopes c && ids.contains c.row.toolId).map
      (CandidateRow.summary s)

/-- `resolve(…, mode="groups", server_ids=…)`. -/
def resolve (rows : List CandidateRow) (owner : AuthPrincipal) (scopes : Finset Scope) (serverIds : List String) :
    Except Error (List String) := do
  require (owner.authType = .session) (.oauth "session_required" 403)
  let found := rows.filter fun c => candidateVisible s owner scopes c && serverIds.contains c.row.serverId
  require (found.length ≤ 5000) (.oauth "scope_selection_tool_limit" 409)
  require ((found.map fun c => c.row.serverId).dedup.length ≤ 100) (.oauth "server_scope_limit" 409)
  return found.map fun c => c.row.toolId

/-! ## The tools of a grant -/

/-- One level of the loop over `("read", "write")`. -/
def levelCandidates (rows : List CandidateRow) (principal : AuthPrincipal) (allowed : Finset Scope)
    (serverIds : List String) : Except Error (List String) :=
  if serverIds = [] then .ok [] else resolve s rows principal allowed serverIds

/-- The ids a set of live server policies adds to the saved ones. -/
def policyCandidates (principal : AuthPrincipal) (scopes : Finset Scope) (policies : List ServerPolicy) :
    Except Error (List String) :=
  if policies = [] then .ok []
  else match s.out.candidates with
    | some rows => do
      let reads := (policies.filter (·.access = .read)).map ServerPolicy.serverId
      let writes := (policies.filter (·.access = .write)).map ServerPolicy.serverId
      let a ← levelCandidates s rows principal (scopes ∩ {.toolsRead}) reads
      let b ← levelCandidates s rows principal (scopes ∩ businessScopes) writes
      return a ++ b
    | none => do
      let found := s.out.registry.filter fun d =>
        d.source = "mcp" && d.metadata.serverId.any (policies.map ServerPolicy.serverId).contains
      require (found.length ≤ 5000) (.oauth "tool_catalog_limit" 409)
      return found.map (·.id)

/-- `result.update(new)` of tool dictionaries. -/
def toolsUpdate (result new : List Tool) : List Tool :=
  new.foldl (fun result t => if (toolGet result t.id).isSome then result.map fun r => if r.id = t.id then t else r
    else result ++ [t]) result

/-- `_grant_tools`: the saved tools that are still what was approved, and those of the live server policies. -/
def grantTools (principal : AuthPrincipal) (grant : Grant) (scopes : Finset Scope) : Except Error (List Tool) := do
  require (grant.tools.length ≤ 5000 && (grant.tools.map Tool.serverId).dedup.length ≤ 100) (bad "invalid_grant")
  let policies := (if grant.targetRevision = 0 then grant.serverPolicies else []).filter fun policy =>
    bindingIs s policy.serverId policy.serverBinding
  let extra ← policyCandidates s principal scopes policies
  let current ← catalog P s principal scopes grant.resource (some (grant.tools.map Tool.id ++ extra))
  let kept := grant.tools.filter fun t => (toolGet current t.id).any (toolScopeMatches t) &&
    t.serverBinding.all (bindingIs s t.serverId)
  return policies.foldl (fun result policy => toolsUpdate result (current.filter fun t =>
    t.serverId = policy.serverId && (policy.access = .write || t.access = .read))) kept

/-- One entry of `_bind_tool_snapshots`. -/
def bindTool (t : Tool) : Except String Tool := do
  let binding ← serverBinding s.out.env s.out.auth.access t.serverId
  return { t with serverBinding := some binding }

/-- `_bind_tool_snapshots`. -/
def bindToolSnapshots (tools : List Tool) : Except Error (List Tool) :=
  tools.mapM fun t => match bindTool s t with
    | .ok bound => .ok bound
    | .error text => .error (.oauth text 409)

/-- `_bind_tool_snapshots(…, skip_unavailable=True)`. -/
def bindAvailable (tools : List Tool) : List Tool := tools.filterMap fun t => (bindTool s t).toOption

/-! ## Grants and clients -/

/-- `SELECT … WHERE id=? AND enabled=1`. -/
def enabledClient (id : String) : Option Client := (s.db.clients.find id).filter Client.enabled

/-- `authenticate_client`. -/
def authenticateClient (clientId secret : String) : Except Error Client := do
  let row ← expect (s.db.clients.find clientId) (.oauth "invalid_client" 401)
  require (row.secretHash = P.hash secret && secret ≠ "" && row.enabled) (.oauth "invalid_client" 401)
  return row

/-- The management conditions of `_active_grant`. -/
def activeManagement (grant : Grant) (owner : User) (client : Client) : Kind → Except Error Unit
  | .business => pure ()
  | .management => do
    require ((rolesForUser s.out.auth grant.userId).contains "admin") (.oauth "management_admin_required" 403)
    let principal ← liftHttp (buildPrincipal s.out.auth owner .session none [])
    let _ ← managementOwner s principal.id
    require (Scope.operationsManage ∈ grant.scopes ∩ client.scopes) (bad "invalid_grant")

/-- `_active_grant`. -/
def activeGrant (grantId : String) (client : Client) (resource : String) : Except Error Grant := do
  let policy ← resourcePolicy P s resource
  let grant ← expect (s.db.grants.find grantId) (bad "invalid_grant")
  let owner ← expect (s.out.auth.users.find? (·.id = grant.userId)) (bad "invalid_grant")
  require (grant.revokedAt = none && s.out.now < grant.expiresAt && owner.status = .active && !owner.mustChangePassword &&
    grant.clientId = client.id && grant.resource = resource && client.resources.contains policy.kind)
    (bad "invalid_grant")
  activeManagement s grant owner client policy.kind
  require (grant.scopes ∩ client.scopes ≠ ∅) (bad "invalid_grant")
  return grant

/-- `_live_grant`: a business grant its owner may still change. -/
def liveGrant (userId grantId : String) : Except Error (Grant × Client × Config) := do
  let grant ← expect ((s.db.grants.find grantId).filter (·.userId = userId)) (.oauth "grant_not_found" 404)
  let config ← readyConfig P s
  let client ← expect (enabledClient s grant.clientId) (.oauth "grant_scope_unavailable" 409)
  require (grant.revokedAt = none && s.out.now < grant.expiresAt && grant.resource = config.resource &&
    client.resources.contains .business) (.oauth "grant_scope_unavailable" 409)
  return (grant, client, config)

/-! ## What a successful check says -/

variable {P s}

theorem readyConfig_ok {config : Config} (h : readyConfig P s = .ok config) : config = s.db.config := by
  simp only [readyConfig, bind_eq_ok, require_eq_ok, pure_eq_ok] at h
  obtain ⟨-, -, rfl⟩ := h
  rfl

/-- The resource names its kind: the configured one is the business resource. -/
theorem resourcePolicy_ok {resource : String} {policy : ResourcePolicy} (h : resourcePolicy P s resource = .ok policy) :
    policy.config = s.db.config ∧ ((policy.kind = .business ∧ policy.managementRevision = none ∧ resource = s.db.config.resource) ∨
        (policy.kind = .management ∧ policy.managementRevision = some s.db.management.revision ∧
          resource ≠ s.db.config.resource ∧ resource = P.managementResource s.db.config.resource)) := by
  simp only [resourcePolicy, bind_eq_ok] at h
  obtain ⟨config, hconfig, h⟩ := h
  obtain rfl := readyConfig_ok hconfig
  split at h
  · rename_i hb
    obtain rfl := pure_eq_ok.mp h
    exact ⟨rfl, .inl ⟨rfl, rfl, hb⟩⟩
  rename_i hb
  split at h
  · rename_i hm
    simp only [bind_eq_ok, require_eq_ok, pure_eq_ok] at h
    obtain ⟨-, -, rfl⟩ := h
    exact ⟨rfl, .inr ⟨rfl, rfl, hb, hm⟩⟩
  · cases h

theorem resourcePolicy_ready {resource : String} {policy : ResourcePolicy} (h : resourcePolicy P s resource = .ok policy) :
    ∃ config, readyConfig P s = .ok config := by
  simp only [resourcePolicy, bind_eq_ok] at h
  obtain ⟨config, hconfig, -⟩ := h
  exact ⟨config, hconfig⟩

variable {client : Client}

theorem authenticateClient_ok {clientId secret : String} (h : authenticateClient P s clientId secret = .ok client) :
    client ∈ s.db.clients ∧ client.id = clientId ∧ client.enabled = true := by
  simp only [authenticateClient, bind_eq_ok, expect_eq_ok, require_eq_ok, pure_eq_ok] at h
  obtain ⟨row, hrow, -, hcheck, rfl⟩ := h
  obtain ⟨hmem, hid⟩ := Table.find_eq_some.mp hrow
  simp only [Bool.and_eq_true] at hcheck
  exact ⟨hmem, hid, hcheck.2⟩

theorem enabledClient_ok {id : String} (h : enabledClient s id = some client) :
    client ∈ s.db.clients ∧ client.id = id ∧ client.enabled = true := by
  simp only [enabledClient, Option.filter_eq_some_iff] at h
  obtain ⟨hmem, hid⟩ := Table.find_eq_some.mp h.1
  exact ⟨hmem, hid, h.2⟩

/-- What an active grant is. -/
structure Active (P : Params D) (s : Snapshot) (grant : Grant) (client : Client) (resource : String) : Prop where
  mem : grant ∈ s.db.grants
  revokedAt : grant.revokedAt = none
  expiresAt : s.out.now < grant.expiresAt
  clientId : grant.clientId = client.id
  policy : ∃ policy, resourcePolicy P s resource = .ok policy ∧ client.resources.contains policy.kind = true
  resource : grant.resource = resource

theorem activeGrant_ok {grantId resource : String} {grant : Grant}
    (h : activeGrant P s grantId client resource = .ok grant) : Active P s grant client resource ∧ grant.id = grantId := by
  simp only [activeGrant, bind_eq_ok, expect_eq_ok, require_eq_ok, pure_eq_ok, Bool.and_eq_true, decide_eq_true_eq] at h
  obtain ⟨policy, hpolicy, row, hrow, owner, -, -, hcheck, -, -, -, -, rfl⟩ := h
  obtain ⟨hmem, hid⟩ := Table.find_eq_some.mp hrow
  obtain ⟨⟨⟨⟨⟨⟨hrev, hexp⟩, -⟩, -⟩, hclient⟩, hres⟩, hkind⟩ := hcheck
  exact ⟨⟨hmem, hrev, hexp, hclient, ⟨policy, hpolicy, hkind⟩, hres⟩, hid⟩

theorem liveGrant_ok {userId grantId : String} {grant : Grant} {config : Config}
    (h : liveGrant P s userId grantId = .ok (grant, client, config)) :
    grant ∈ s.db.grants ∧ grant.id = grantId ∧ grant.userId = userId ∧ grant.revokedAt = none ∧
      s.out.now < grant.expiresAt ∧ config = s.db.config ∧ client ∈ s.db.clients ∧ client.id = grant.clientId := by
  simp only [liveGrant, bind_eq_ok, expect_eq_ok, require_eq_ok, pure_eq_ok, Bool.and_eq_true, decide_eq_true_eq,
    Option.filter_eq_some_iff, Prod.mk.injEq] at h
  obtain ⟨g, ⟨hfind, huser⟩, cfg, hcfg, c, hc, -, hcheck, rfl, rfl, rfl⟩ := h
  obtain ⟨hmem, hid⟩ := Table.find_eq_some.mp hfind
  obtain ⟨hcmem, hcid, -⟩ := enabledClient_ok hc
  exact ⟨hmem, hid, huser, hcheck.1.1.1, hcheck.1.1.2, readyConfig_ok hcfg, hcmem, hcid⟩

end LingshuGate.OAuth

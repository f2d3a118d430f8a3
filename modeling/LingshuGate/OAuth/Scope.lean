import LingshuGate.OAuth.Authorize

/-!
# Changing a grant after a preview (`oauth_server.py`)

| here | there |
| --- | --- |
| `scopeOptions`, `scopeCatalogTicket` | the tickets of `scope_options`, `scope_catalog` (oauth_server.py:785, 855) |
| `optionsTicket`, `confirmationTicket` | `_scope_ticket` (oauth_server.py:674) |
| `checkScopeBinding`     | `_check_scope_binding` (oauth_server.py:688) |
| `quotaOnlyTarget`, `scopeTargetValid` | `_quota_only_target`, `_scope_target` (oauth_server.py:697, 715) |
| `candidateBinding`      | `_candidate_binding` (oauth_server.py:834) |
| `previewScope`, `updateScope` | oauth_server.py:979, 1033 |
| `managementTargetBinding` | `_management_target_binding` (oauth_server.py:1488) |
| `previewManagementTargets`, `updateManagementTargets` | oauth_server.py:1534, 1562 |

`preview_scope` and `update_scope` share their checks line by line: `scopeContext` is the reading of the grant and
its catalog, `scopeChange` what the request comes to. Both flows keep one pending confirmation for each grant.
-/

namespace LingshuGate.OAuth

open Lib AccessControl AuthStore

variable {D : Type} [DecidableEq D] (P : Params D) (s : Snapshot)

/-! ## Bindings -/

def scopeBinding (principal : AuthPrincipal) (session : String) (grant : Grant) (client : Client) (config : Config)
    (digest : D) : ScopeBinding D where
  userId := principal.id
  sessionHash := P.hash session
  grantId := grant.id
  grantRevision := grant.revision
  clientId := client.id
  clientRevision := client.revision
  configurationRevision := config.revision
  resource := grant.resource
  catalogDigest := digest

/-- `[key, server_id, access, snapshot]` -/
def Tool.row (t : Tool) : String × String × Access × String := (t.id, t.serverId, t.access, t.snapshot)

def toolRows (tools : List Tool) : Finset (String × String × Access × String) := (tools.map Tool.row).toFinset

/-- `_candidate_binding`: the digest of the paged catalog. -/
def candidateBinding (principal : AuthPrincipal) (session : String) (grant : Grant) (client : Client) (config : Config)
    (generation : Nat) : Except Error (ScopeBinding D) := do
  require (s.out.marker.1 = generation) (.oauth "tool_scope_changed" 409)
  return scopeBinding P principal session grant client config (P.candidateDigest
    ⟨s.out.marker, principal.roles, principal.permissions, grant.scopes, client.scopes, client.resources, grant.expiresAt,
      grant.ratePerMinute, grant.concurrency, P.catalogDigest (toolRows grant.tools), grant.serverPolicies⟩)

/-- `_check_scope_binding`. -/
def checkScopeBinding (binding : ScopeBinding D) (expiresAt : Int) (current : ScopeBinding D) : Except Error Unit := do
  require (s.out.now < expiresAt) (.oauth "scope_confirmation_changed" 403)
  require ({ binding with catalogDigest := current.catalogDigest } = current) (.oauth "revision_conflict" 409)
  require (binding.catalogDigest = current.catalogDigest) (.oauth "tool_scope_changed" 409)

/-- The binding is this user's, in this session, for this grant. -/
def ScopeBinding.isFor (binding : ScopeBinding D) (principal : AuthPrincipal) (session grantId : String) : Bool :=
  binding.userId = principal.id && binding.sessionHash = P.hash session && binding.grantId = grantId

/-- `_scope_ticket(csrf, "grant_scope_options_…")`. -/
def optionsTicket (paged : Bool) (text : String) (principal : AuthPrincipal) (session grantId : String) :
    Except Error (ScopeBinding D × Int) := do
  require (40 ≤ text.length && text.length ≤ 16384) (.oauth "invalid_csrf" 403)
  match decryptWithin P s 600 text with
  | some (.scopeOptions paged' binding expiresAt) => do
    require (paged' = paged && binding.isFor P principal session grantId && s.out.now < expiresAt) (.oauth "invalid_csrf" 403)
    return (binding, expiresAt)
  | _ => .error (.oauth "invalid_csrf" 403)

/-- `_scope_ticket(confirmation, "grant_scope_confirmation_…")`. -/
def confirmationTicket (paged : Bool) (text : String) (principal : AuthPrincipal) (session grantId : String) :
    Except Error (ScopeBinding D × D × Int) := do
  require (40 ≤ text.length && text.length ≤ 16384) (.oauth "scope_confirmation_changed" 403)
  match decryptWithin P s 600 text with
  | some (.scopeConfirmation paged' binding digest expiresAt) => do
    require (paged' = paged && binding.isFor P principal session grantId && s.out.now < expiresAt)
      (.oauth "scope_confirmation_changed" 403)
    return (binding, digest, expiresAt)
  | _ => .error (.oauth "scope_confirmation_changed" 403)

/-! ## What a change is made of -/

/-- A paged call: `catalog_revision` and the generation its `synchronize` returned. -/
structure Page (D : Type) where
  catalogRevision : D
  generation : Nat
  deriving DecidableEq

structure ScopeRequest where
  revision : Nat
  toolIds : List String
  expiresAt : Int
  ratePerMinute : Int
  concurrency : Int
  /-- `None` submits the saved policies -/
  serverPolicies : Option (List SubmittedPolicy) := none
  deriving DecidableEq

/-- What both calls read before they look at the request. -/
structure ScopeContext (D : Type) where
  principal : AuthPrincipal
  grant : Grant
  client : Client
  config : Config
  catalog : List Tool
  visible : List Tool
  binding : ScopeBinding D

/-- `_validate_draft_ids`. -/
def draftIdsValid (ids : List String) : Bool :=
  ids.length ≤ 5000 && ids.Nodup && ids.all fun id => 1 ≤ id.length && id.length ≤ 512

/-- The unpaged catalog and its digest. -/
def wholeContext (session : String) (principal : AuthPrincipal) (grant : Grant) (client : Client) (config : Config) :
    Except Error (ScopeContext D) := do
  let (eligible, visible) ← scopeCatalog s principal grant.scopes client
  return ⟨principal, grant, client, config, eligible, visible,
    scopeBinding P principal session grant client config (P.catalogDigest (toolRows eligible))⟩

/-- The paged catalog: the named tools only, and the digest of the catalog state. -/
def pagedContext (session : String) (principal : AuthPrincipal) (grant : Grant) (client : Client) (config : Config)
    (toolIds : List String) (page : Page D) : Except Error (ScopeContext D) := do
  require (draftIdsValid toolIds) (bad "invalid_request")
  let ceiling ← candidateCeiling grant.scopes client
  let rows ← expect s.out.candidates (.oauth "scope_catalog_unavailable" 503)
  let tools ← selected s rows principal ceiling toolIds
  let binding ← candidateBinding P s principal session grant client config page.generation
  require (page.catalogRevision = P.candidateRevision binding) (.oauth "tool_scope_changed" 409)
  return ⟨principal, grant, client, config, tools, tools, binding⟩

def scopeContext (caller : AuthPrincipal) (session grantId : String) (toolIds : List String) (page : Option (Page D)) :
    Except Error (ScopeContext D) := do
  let principal ← consoleOwner P s caller session
  let (grant, client, config) ← liveGrant P s principal.id grantId
  match page with
  | none => wholeContext P s session principal grant client config
  | some page => pagedContext P s session principal grant client config toolIds page

/-- `_quota_only_target`; equal sorted intents are a permutation. -/
def quotaOnlyTarget (grant : Grant) (request : ScopeRequest) (submitted : List SubmittedPolicy) : Bool :=
  request.expiresAt = grant.expiresAt && request.toolIds.toFinset = (grant.tools.map Tool.id).toFinset &&
    !(request.ratePerMinute = grant.ratePerMinute && request.concurrency = grant.concurrency) &&
    !(submitted.any SubmittedPolicy.extraKeys) && submitted.all (·.keepsBinding grant.serverPolicies) &&
    (submitted.map SubmittedPolicy.intent).Perm (grant.serverPolicies.map ServerPolicy.intent)

/-- The tools of a target: the saved ones for a quota change, else the chosen ones in order. -/
def targetTools (grant : Grant) (catalog : List Tool) (toolIds : List String) (quotaOnly : Bool) : List Tool :=
  if quotaOnly then grant.tools else (toolIds.insertionSort (· ≤ ·)).filterMap (toolGet catalog)

/-- The checks of `_scope_target`. -/
def scopeTargetValid (grant : Grant) (catalog visible : List Tool) (request : ScopeRequest) (policies : List ServerPolicy)
    (quotaOnly : Bool) : Except Error Unit := do
  require (request.revision = grant.revision) (.oauth "revision_conflict" 409)
  require ((request.toolIds ≠ [] || policies ≠ []) && draftIdsValid request.toolIds) (bad "invalid_request")
  require (quotaOnly || !(request.toolIds.any fun id => (toolGet visible id).isSome && (toolGet catalog id).isNone))
    (.oauth "grant_scope_insufficient" 409)
  require (quotaOnly || request.toolIds.all fun id => (toolGet catalog id).isSome) (.oauth "tool_scope_changed" 409)
  require (((targetTools grant catalog request.toolIds quotaOnly).map Tool.serverId ++
    policies.map ServerPolicy.serverId).dedup.length ≤ 100) (bad "server_scope_limit")
  require (s.out.now < request.expiresAt && request.expiresAt ≤ grant.expiresAt && 1 ≤ request.ratePerMinute &&
    request.ratePerMinute ≤ 10000 && 1 ≤ request.concurrency && request.concurrency ≤ 100)
    (bad "grant_limits_can_only_narrow")

/-- What a request comes to: the tools and policies to store and the target whose digest is confirmed. -/
structure ScopeChange (D : Type) where
  tools : List Tool
  policies : List ServerPolicy
  target : Target D

/-- `{key: item.get("server_binding") for key, item in tools.items()}`. -/
def toolBindings (tools : List Tool) : Finset (String × Option String) :=
  (tools.map fun t => (t.id, t.serverBinding)).toFinset

/-- `target` with its `tool_binding_digest`. -/
def targetOf (tools : List Tool) (policies : List ServerPolicy) (request : ScopeRequest) : Target D where
  toolIds := tools.map Tool.id
  serverPolicies := policies
  expiresAt := request.expiresAt
  ratePerMinute := request.ratePerMinute
  concurrency := request.concurrency
  toolBindingDigest := P.bindingDigest (toolBindings tools)

def submittedPolicies (grant : Grant) (request : ScopeRequest) : List SubmittedPolicy :=
  request.serverPolicies.getD (grant.serverPolicies.map ServerPolicy.submitted)

/-- The policies to store: the saved ones for a quota change. -/
def changePolicies (ctx : ScopeContext D) (request : ScopeRequest) (quotaOnly : Bool) : Except Error (List ServerPolicy) :=
  if quotaOnly then .ok ctx.grant.serverPolicies
  else scopePolicies s ctx.principal ctx.grant.targetRevision ctx.grant.scopes ctx.grant.serverPolicies ctx.client
    (submittedPolicies ctx.grant request) (request.toolIds.filterMap (toolGet ctx.catalog))

/-- The tools to store: a quota change binds nothing anew. -/
def changeTools (ctx : ScopeContext D) (request : ScopeRequest) (quotaOnly : Bool) : Except Error (List Tool) :=
  if quotaOnly then .ok (targetTools ctx.grant ctx.catalog request.toolIds quotaOnly)
  else bindToolSnapshots s (targetTools ctx.grant ctx.catalog request.toolIds quotaOnly)

def scopeChange (ctx : ScopeContext D) (request : ScopeRequest) : Except Error (ScopeChange D) := do
  let quotaOnly := quotaOnlyTarget ctx.grant request (submittedPolicies ctx.grant request)
  let policies ← changePolicies s ctx request quotaOnly
  scopeTargetValid s ctx.grant ctx.catalog ctx.visible request policies quotaOnly
  let tools ← changeTools s ctx request quotaOnly
  return ⟨tools, policies, targetOf P tools policies request⟩

/-! ## Confirmations -/

/-- The capacity check and `INSERT … ON CONFLICT(grant_id) DO UPDATE`. -/
def Db.putConfirmation (db : Db) (now : Int) (row : Confirmation) : Except Error Db := do
  let db := db.deleteConfirmations fun c => c.expiresAt ≤ now
  require ((db.confirmations.find row.grantId).isSome || (db.confirmations.rows.length < 3072 &&
    db.confirmations.count (·.userId = row.userId) < 64)) (.oauth "scope_confirmation_capacity" 429)
  return { db with
    confirmations := db.confirmations.upsert row (fun c => { row with grantId := c.grantId }) fun _ => rfl }

/-- The pending confirmation of the grant is this user's, this session's and this token's. -/
def pendingMatches (userId session grantId confirmation : String) : Bool :=
  (s.db.confirmations.find grantId).any fun c => c.userId = userId && s.out.now < c.expiresAt &&
    c.tokenHash = P.hash confirmation && c.sessionHash = P.hash session

/-- The second `_candidate_binding` of a paged call. -/
def recheckPage (ctx : ScopeContext D) (session : String) (binding : ScopeBinding D) (expiresAt : Int) :
    Option (Page D) → Except Error Unit
  | none => .ok ()
  | some page => do
    checkScopeBinding s binding expiresAt
      (← candidateBinding P s ctx.principal session ctx.grant ctx.client ctx.config page.generation)

/-- `preview_scope`; `token` is the text its payload is sealed in. -/
def previewScope (caller : AuthPrincipal) (grantId session csrf : String) (request : ScopeRequest)
    (page : Option (Page D)) (token : String) : Except Error (Db × Payload D × ScopeChange D) := do
  let (binding, expiresAt) ← optionsTicket P s page.isSome csrf caller session grantId
  let ctx ← scopeContext P s caller session grantId request.toolIds page
  checkScopeBinding s binding expiresAt ctx.binding
  let change ← scopeChange P s ctx request
  let until_ := min (s.out.now + 600) ctx.grant.expiresAt
  let db ← s.db.putConfirmation s.out.now ⟨grantId, ctx.principal.id, P.hash session, P.hash token, until_⟩
  recheckPage P s ctx session binding expiresAt page
  return (db, .scopeConfirmation page.isSome ctx.binding (P.targetDigest change.target) until_, change)

/-- `UPDATE gate_oauth_grants SET tools_json=?,server_policies_json=?,expires_at=?,…,revision=revision+1`. -/
def rescopedGrant (change : ScopeChange D) (request : ScopeRequest) (g : Grant) : Grant :=
  { g with
    tools := change.tools, serverPolicies := change.policies, expiresAt := request.expiresAt,
    ratePerMinute := request.ratePerMinute, concurrency := request.concurrency, revision := g.revision + 1 }

/-- `update_scope`. -/
def updateScope (caller : AuthPrincipal) (grantId session confirmation : String) (request : ScopeRequest)
    (page : Option (Page D)) : Except Error (Db × Grant) := do
  let (binding, digest, expiresAt) ← confirmationTicket P s page.isSome confirmation caller session grantId
  let ctx ← scopeContext P s caller session grantId request.toolIds page
  checkScopeBinding s binding expiresAt ctx.binding
  let change ← scopeChange P s ctx request
  require (digest = P.targetDigest change.target) (.oauth "scope_confirmation_changed" 409)
  require (pendingMatches P s ctx.principal.id session grantId confirmation) (.oauth "scope_confirmation_changed" 409)
  recheckPage P s ctx session binding expiresAt page
  return ((s.db.updateGrant grantId (rescopedGrant change request) fun _ => rfl).deleteConfirmations (·.grantId = grantId),
    rescopedGrant change request ctx.grant)

/-- `scope_options`. -/
def scopeOptions (caller : AuthPrincipal) (grantId session : String) : Except Error (Payload D) := do
  let ctx ← scopeContext P s caller session grantId [] none
  return .scopeOptions false ctx.binding (s.out.now + 600)

/-- `scope_catalog`: the ticket of a page. -/
def scopeCatalogTicket (caller : AuthPrincipal) (grantId session : String) (generation : Nat) (catalogRevision : Option D) :
    Except Error (Payload D) := do
  let principal ← consoleOwner P s caller session
  let (grant, client, config) ← liveGrant P s principal.id grantId
  let _ ← candidateCeiling grant.scopes client
  let binding ← candidateBinding P s principal session grant client config generation
  require (catalogRevision.all (· = P.candidateRevision binding)) (.oauth "tool_scope_changed" 409)
  return .scopeOptions true binding (min (s.out.now + 600) grant.expiresAt)

/-! ## Management targets -/

/-- `_management_target_binding`. -/
def managementTargetBinding (principal : AuthPrincipal) (session grantId : String) : Except Error (Grant × TargetBinding D) := do
  let resource := P.managementResource s.db.config.resource
  let policy ← resourcePolicy P s resource
  let row ← expect ((s.db.grants.find grantId).filter fun g => g.userId = principal.id && g.resource = resource)
    (.oauth "grant_not_found" 404)
  let client ← expect (enabledClient s row.clientId) (.oauth "grant_inactive" 409)
  let grant ← activeGrant P s grantId client resource
  require (Scope.operationsManage ∈ grant.scopes ∩ client.scopes) (.oauth "grant_inactive" 409)
  return (grant, ⟨principal.id, P.hash session, grantId, grant.revision, grant.targetRevision, client.revision,
    policy.config.revision, policy.managementRevision, P.managementDigest grant.managementTargets, P.toolsDigest grant.tools⟩)

def TargetBinding.isFor (binding : TargetBinding D) (principal : AuthPrincipal) (session grantId : String) : Bool :=
  binding.userId = principal.id && binding.sessionHash = P.hash session && binding.grantId = grantId

/-- `_management_target_ticket(csrf, "management_target_options_v1")`; this one has no `ttl`. -/
def targetOptionsTicket (text : String) (principal : AuthPrincipal) (session grantId : String) :
    Except Error (TargetBinding D) := do
  require (40 ≤ text.length && text.length ≤ 16384) (.oauth "invalid_management_confirmation" 403)
  match (P.decrypt text).map Sealed.payload with
  | some (.targetOptions binding expiresAt) => do
    require (binding.isFor P principal session grantId && s.out.now < expiresAt) (.oauth "invalid_management_confirmation" 403)
    return binding
  | _ => .error (.oauth "invalid_management_confirmation" 403)

/-- `_management_target_ticket(confirmation, "management_target_confirmation_v1")`. -/
def targetConfirmationTicket (text : String) (principal : AuthPrincipal) (session grantId : String) :
    Except Error (TargetBinding D × D) := do
  require (40 ≤ text.length && text.length ≤ 16384) (.oauth "invalid_management_confirmation" 403)
  match (P.decrypt text).map Sealed.payload with
  | some (.targetConfirmation binding digest expiresAt) => do
    require (binding.isFor P principal session grantId && s.out.now < expiresAt) (.oauth "invalid_management_confirmation" 403)
    return (binding, digest)
  | _ => .error (.oauth "invalid_management_confirmation" 403)

/-- `_check_management_target_binding`. -/
def checkTargetBinding (binding current : TargetBinding D) (revision targetRevision : Nat) : Except Error Unit := do
  require (revision = current.grantRevision && targetRevision = current.targetRevision) (.oauth "revision_conflict" 409)
  require (binding = current) (.oauth "management_confirmation_changed" 409)

structure TargetRequest where
  revision : Nat
  targetRevision : Nat
  targets : List (String × List String)
  deriving DecidableEq

/-- `management_target_options`. -/
def managementTargetOptions (caller : AuthPrincipal) (session grantId : String) : Except Error (Payload D) := do
  let principal ← managementConsoleOwner P s caller session
  let (grant, binding) ← managementTargetBinding P s principal session grantId
  return .targetOptions binding (min (s.out.now + 600) grant.expiresAt)

/-- `preview_management_targets`. -/
def previewManagementTargets (caller : AuthPrincipal) (session grantId csrf : String) (request : TargetRequest)
    (token : String) : Except Error (Db × Payload D) := do
  let supplied ← targetOptionsTicket P s csrf caller session grantId
  let targets ← expect (normalizeManagementTargets request.targets true) (bad "invalid_management_targets")
  let principal ← managementConsoleOwner P s caller session
  let (grant, binding) ← managementTargetBinding P s principal session grantId
  checkTargetBinding supplied binding request.revision request.targetRevision
  let until_ := min (s.out.now + 600) grant.expiresAt
  let db ← s.db.putConfirmation s.out.now ⟨grantId, principal.id, P.hash session, P.hash token, until_⟩
  return (db, .targetConfirmation binding (P.managementDigest targets) until_)

/-- `UPDATE gate_oauth_grants SET management_targets_json=?,target_revision=target_revision+1,revision=revision+1`. -/
def retargetedGrant (targets : List (String × List String)) (g : Grant) : Grant :=
  { g with managementTargets := targets, targetRevision := g.targetRevision + 1, revision := g.revision + 1 }

/-- `update_management_targets`. -/
def updateManagementTargets (caller : AuthPrincipal) (session grantId confirmation : String) (request : TargetRequest) :
    Except Error (Db × Grant) := do
  let (supplied, digest) ← targetConfirmationTicket P s confirmation caller session grantId
  let targets ← expect (normalizeManagementTargets request.targets true) (bad "invalid_management_targets")
  let principal ← managementConsoleOwner P s caller session
  let (grant, binding) ← managementTargetBinding P s principal session grantId
  checkTargetBinding supplied binding request.revision request.targetRevision
  require (digest = P.managementDigest targets && pendingMatches P s principal.id session grantId confirmation)
    (.oauth "management_confirmation_changed" 409)
  return ((s.db.updateGrant grantId (retargetedGrant targets) fun _ => rfl).deleteConfirmations (·.grantId = grantId),
    retargetedGrant targets grant)

/-! ## What the checks say -/

variable {P s} {used : String → Prop} {db db' : Db} {caller : AuthPrincipal} {grantId session : String}

theorem checkScopeBinding_ok {binding current : ScopeBinding D} {expiresAt : Int}
    (h : checkScopeBinding s binding expiresAt current = .ok ()) : binding = current := by
  simp only [checkScopeBinding, bind_eq_ok, require_eq_ok, decide_eq_true_eq] at h
  obtain ⟨-, -, -, hrest, hdigest⟩ := h
  rw [← hrest, ← hdigest]

variable {payload : Payload D} {text : String}

omit [DecidableEq D] in
theorem decryptWithin_ok {ttl : Int} (h : decryptWithin P s ttl text = some payload) :
    ∃ t, P.decrypt text = some t ∧ t.payload = payload := by
  obtain ⟨t, ht, hwithin⟩ := Option.bind_eq_some_iff.mp h
  refine ⟨t, ht, ?_⟩
  split at hwithin
  · cases hwithin
  · exact Option.some.inj hwithin

omit [DecidableEq D] in
theorem confirmationTicket_ok {paged : Bool} {binding : ScopeBinding D} {digest : D} {expiresAt : Int}
    (h : confirmationTicket P s paged text caller session grantId = .ok (binding, digest, expiresAt)) :
    ∃ t, P.decrypt text = some t ∧ t.payload = .scopeConfirmation paged binding digest expiresAt := by
  simp only [confirmationTicket, bind_eq_ok, require_eq_ok] at h
  obtain ⟨-, -, h⟩ := h
  split at h
  · rename_i paged' binding' digest' expiresAt' hpayload
    simp only [bind_eq_ok, require_eq_ok, pure_eq_ok, Prod.mk.injEq, Bool.and_eq_true, decide_eq_true_eq] at h
    obtain ⟨-, hcheck, rfl, rfl, rfl⟩ := h
    rw [← hcheck.1.1]
    exact decryptWithin_ok hpayload
  · cases h

omit [DecidableEq D] in
theorem targetConfirmationTicket_ok {binding : TargetBinding D} {digest : D}
    (h : targetConfirmationTicket P s text caller session grantId = .ok (binding, digest)) :
    ∃ t expiresAt, P.decrypt text = some t ∧ t.payload = .targetConfirmation binding digest expiresAt := by
  simp only [targetConfirmationTicket, bind_eq_ok, require_eq_ok] at h
  obtain ⟨-, -, h⟩ := h
  split at h
  · rename_i binding' digest' expiresAt' hpayload
    simp only [bind_eq_ok, require_eq_ok, pure_eq_ok, Prod.mk.injEq] at h
    obtain ⟨-, -, rfl, rfl⟩ := h
    obtain ⟨t, ht, hp⟩ := Option.map_eq_some_iff.mp hpayload
    exact ⟨t, expiresAt', ht, hp⟩
  · cases h

/-- The grant under change, as the context read it. -/
structure ScopeContext.Reads (ctx : ScopeContext D) (P : Params D) (s : Snapshot) (session grantId : String) : Prop where
  mem : ctx.grant ∈ s.db.grants
  id : ctx.grant.id = grantId
  live : ctx.grant.revokedAt = none
  binding : ∃ digest, ctx.binding = scopeBinding P ctx.principal session ctx.grant ctx.client ctx.config digest

variable {page : Option (Page D)}

theorem scopeContext_ok {toolIds : List String} {ctx : ScopeContext D}
    (h : scopeContext P s caller session grantId toolIds page = .ok ctx) : ctx.Reads P s session grantId := by
  simp only [scopeContext, bind_eq_ok] at h
  obtain ⟨principal, -, ⟨grant, client, config⟩, hlive, h⟩ := h
  obtain ⟨hmem, hid, -, hrevoked, -⟩ := liveGrant_ok hlive
  split at h
  · simp only [wholeContext, bind_eq_ok, pure_eq_ok] at h
    obtain ⟨⟨eligible, visible⟩, -, rfl⟩ := h
    exact ⟨hmem, hid, hrevoked, _, rfl⟩
  · simp only [pagedContext, candidateBinding, bind_eq_ok, require_eq_ok, pure_eq_ok] at h
    obtain ⟨-, -, ceiling, -, rows, -, tools, -, binding, ⟨-, -, rfl⟩, -, -, rfl⟩ := h
    exact ⟨hmem, hid, hrevoked, _, rfl⟩

/-- What an accepted request comes to. -/
structure ScopeChange.Of (change : ScopeChange D) (P : Params D) (grant : Grant) (request : ScopeRequest) : Prop where
  target : change.target = targetOf P change.tools change.policies request
  revision : request.revision = grant.revision
  expiresAt : request.expiresAt ≤ grant.expiresAt
  quota : quotaOnlyTarget grant request (submittedPolicies grant request) = true →
    change.tools = grant.tools ∧ change.policies = grant.serverPolicies

variable {request : ScopeRequest}

omit [DecidableEq D] in
theorem scopeChange_ok {ctx : ScopeContext D} {change : ScopeChange D}
    (h : scopeChange P s ctx request = .ok change) : change.Of P ctx.grant request := by
  simp only [scopeChange, bind_eq_ok, pure_eq_ok] at h
  obtain ⟨policies, hpolicies, u, hvalid, tools, htools, rfl⟩ := h
  simp only [scopeTargetValid, bind_eq_ok, require_eq_ok, decide_eq_true_eq, Bool.and_eq_true] at hvalid
  obtain ⟨-, hrevision, -, -, -, -, -, -, -, -, hlimits⟩ := hvalid
  refine ⟨rfl, hrevision, hlimits.1.1.1.1.2, ?_⟩
  intro hquota
  simp only [hquota, changePolicies, changeTools, targetTools, if_true, Except.ok.injEq] at hpolicies htools
  exact ⟨htools.symm, hpolicies.symm⟩

/-! ## What the confirmation rows do -/

omit [DecidableEq D] in
theorem pendingMatches_ok {userId confirmation : String} (h : pendingMatches P s userId session grantId confirmation = true) :
    ∃ c ∈ s.db.confirmations, c.grantId = grantId ∧ c.tokenHash = P.hash confirmation ∧ c.sessionHash = P.hash session := by
  obtain ⟨c, hfind, hcheck⟩ := (Option.any_eq_true _ _).mp h
  obtain ⟨hmem, hid⟩ := Table.find_eq_some.mp hfind
  simp only [Bool.and_eq_true, decide_eq_true_eq] at hcheck
  exact ⟨c, hmem, hid, hcheck.1.2, hcheck.2⟩

/-- One row for each grant: the new one, and those of other grants. -/
theorem putConfirmation_ok {now : Int} {row : Confirmation} (h : db.putConfirmation now row = .ok db') :
    ∃ t, db' = { db with confirmations := t } ∧ ∀ c ∈ t, c = row ∨ (c ∈ db.confirmations ∧ c.grantId ≠ row.grantId) := by
  simp only [Db.putConfirmation, bind_eq_ok, require_eq_ok, pure_eq_ok] at h
  obtain ⟨-, -, rfl⟩ := h
  refine ⟨_, rfl, ?_⟩
  intro c hc
  rcases Table.mem_upsert hc with ⟨hmem, hne⟩ | ⟨rfl, -⟩ | ⟨c₀, -, hid, rfl⟩
  · exact .inr ⟨(Table.mem_delete.mp hmem).1, hne⟩
  · exact .inl rfl
  · refine .inl ?_
    rw [hid]

/-! ## What the four calls do -/

/-- A successful preview: the payload its token seals and the row it leaves. -/
structure Previews (P : Params D) (s : Snapshot) (caller : AuthPrincipal) (grantId session : String) (request : ScopeRequest)
    (page : Option (Page D)) (token : String) (db' : Db) (payload : Payload D) (change : ScopeChange D) : Prop where
  reads : ∃ ctx, scopeContext P s caller session grantId request.toolIds page = .ok ctx ∧ scopeChange P s ctx request = .ok change ∧
    ∃ expiresAt, payload = .scopeConfirmation page.isSome ctx.binding (P.targetDigest change.target) expiresAt
  puts : ∃ row, s.db.putConfirmation s.out.now row = .ok db' ∧ row.grantId = grantId ∧ row.tokenHash = P.hash token

theorem previewScope_ok {csrf token : String}
    {change : ScopeChange D} (h : previewScope P s caller grantId session csrf request page token = .ok (db', payload, change)) :
    Previews P s caller grantId session request page token db' payload change := by
  simp only [previewScope, bind_eq_ok, pure_eq_ok, Prod.mk.injEq] at h
  obtain ⟨⟨binding, expiresAt⟩, -, ctx, hctx, -, -, change', hchange, db, hput, -, -, rfl, rfl, rfl⟩ := h
  exact ⟨⟨ctx, hctx, hchange, _, rfl⟩, _, hput, rfl, rfl⟩

/-- A successful update: the confirmation it consumed, the grant it wrote. -/
structure Updates (P : Params D) (s : Snapshot) (caller : AuthPrincipal) (grantId session confirmation : String)
    (request : ScopeRequest) (page : Option (Page D)) (db' : Db) (grant' : Grant) : Prop where
  reads : ∃ ctx change, scopeContext P s caller session grantId request.toolIds page = .ok ctx ∧
    scopeChange P s ctx request = .ok change ∧ grant' = rescopedGrant change request ctx.grant ∧
    db' = (s.db.updateGrant grantId (rescopedGrant change request) fun _ => rfl).deleteConfirmations (·.grantId = grantId) ∧
    ∃ t expiresAt, P.decrypt confirmation = some t ∧
      t.payload = .scopeConfirmation page.isSome ctx.binding (P.targetDigest change.target) expiresAt
  pending : ∃ c ∈ s.db.confirmations, c.grantId = grantId ∧ c.tokenHash = P.hash confirmation

variable {confirmation : String} {grant' : Grant}

theorem updateScope_ok (h : updateScope P s caller grantId session confirmation request page = .ok (db', grant')) :
    Updates P s caller grantId session confirmation request page db' grant' := by
  simp only [updateScope, bind_eq_ok, require_eq_ok, pure_eq_ok, Prod.mk.injEq, decide_eq_true_eq] at h
  obtain ⟨⟨binding, digest, expiresAt⟩, hticket, ctx, hctx, u, hbinding, change, hchange, -, hdigest, -, hpending, -, -, rfl,
    rfl⟩ := h
  obtain ⟨t, ht, hpayload⟩ := confirmationTicket_ok hticket
  obtain ⟨c, hc, hid, htoken, -⟩ := pendingMatches_ok hpending
  obtain rfl : digest = P.targetDigest change.target := hdigest
  obtain rfl : binding = ctx.binding := checkScopeBinding_ok hbinding
  exact ⟨⟨ctx, change, hctx, hchange, rfl, rfl, t, expiresAt, ht, hpayload⟩, c, hc, hid, htoken⟩

theorem Updates.evolves (h : Updates P s caller grantId session confirmation request page db' grant') : Evolves s.db db' := by
  obtain ⟨ctx, change, hctx, hchange, -, rfl, -⟩ := h.reads
  have hreads := scopeContext_ok hctx
  have hupdate : Evolves s.db (s.db.updateGrant grantId (rescopedGrant change request) fun _ => rfl) := by
    refine .updateGrant ?_
    intro g hg hid
    obtain rfl := Table.eq_of_key hg hreads.mem (hid.trans hreads.id.symm)
    exact ⟨rfl, rfl, rfl, rfl, fun _ h => h, (scopeChange_ok hchange).expiresAt, fun h => h, .inl (Nat.lt_succ_self _)⟩
  exact hupdate.trans (.of_eq rfl rfl rfl rfl)

/-- A successful preview of targets: its payload is no scope confirmation. -/
theorem previewManagementTargets_ok {csrf token : String} {request : TargetRequest}
    (h : previewManagementTargets P s caller session grantId csrf request token = .ok (db', payload)) :
    (∃ binding digest expiresAt, payload = .targetConfirmation binding digest expiresAt) ∧
      ∃ row, s.db.putConfirmation s.out.now row = .ok db' ∧ row.grantId = grantId ∧ row.tokenHash = P.hash token := by
  simp only [previewManagementTargets, bind_eq_ok, pure_eq_ok, Prod.mk.injEq] at h
  obtain ⟨supplied, -, targets, -, principal, -, ⟨grant, binding⟩, -, -, -, db, hput, rfl, rfl⟩ := h
  exact ⟨⟨_, _, _, rfl⟩, _, hput, rfl, rfl⟩

theorem updateManagementTargets_ok {request : TargetRequest}
    (h : updateManagementTargets P s caller session grantId confirmation request = .ok (db', grant')) :
    (∃ targets, db' = (s.db.updateGrant grantId (retargetedGrant targets) fun _ => rfl).deleteConfirmations
      (·.grantId = grantId)) ∧
      (∃ t, P.decrypt confirmation = some t) ∧
      ∃ c ∈ s.db.confirmations, c.grantId = grantId ∧ c.tokenHash = P.hash confirmation := by
  simp only [updateManagementTargets, bind_eq_ok, require_eq_ok, pure_eq_ok, Prod.mk.injEq, Bool.and_eq_true] at h
  obtain ⟨⟨supplied, digest⟩, hticket, targets, -, principal, -, ⟨grant, binding⟩, -, -, -, -, ⟨-, hpending⟩, rfl, rfl⟩ := h
  obtain ⟨t, -, ht, -⟩ := targetConfirmationTicket_ok hticket
  obtain ⟨c, hc, hid, htoken, -⟩ := pendingMatches_ok hpending
  exact ⟨⟨targets, rfl⟩, ⟨t, ht⟩, c, hc, hid, htoken⟩

theorem Evolves.retarget {targets : List (String × List String)} :
    Evolves db ((db.updateGrant grantId (retargetedGrant targets) fun _ => rfl).deleteConfirmations (·.grantId = grantId)) := by
  have hupdate : Evolves db (db.updateGrant grantId (retargetedGrant targets) fun _ => rfl) := by
    refine .updateGrant ?_
    intro g _ _
    exact ⟨rfl, rfl, rfl, rfl, fun _ h => h, le_refl _, fun h => h, .inl (Nat.lt_succ_self _)⟩
  exact hupdate.trans (.of_eq rfl rfl rfl rfl)

end LingshuGate.OAuth

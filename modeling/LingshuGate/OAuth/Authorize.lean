import LingshuGate.OAuth.Token

/-!
# From an authorization request to a grant (`oauth_server.py`)

| here | there |
| --- | --- |
| `startAuthorization`    | `start_authorization` (oauth_server.py:330) |
| `openTicket`, `interaction` | `_ticket`, `interaction` (oauth_server.py:357, 408) |
| `admitAuthenticated`, `complete` | `_admit_authenticated`, `_complete` (oauth_server.py:380, 390) |
| `consentContext`, `releaseInteraction` | oauth_server.py:1092, 1140 |
| `consent`               | `consent` (oauth_server.py:1145); `consentGrant` builds the row it inserts |
| `scopePolicies`         | `_scope_policies` (oauth_server.py:612) |
| `bindServer`            | `bind_server_policies` of one policy (mcp_authorization_policy.py:46) |

An authorization ticket is not stored: it is the encrypted payload itself, and an interaction row keyed by its
digest appears only once a user has signed in. A call that reads in several transactions takes one snapshot for
each; only the last one writes.
-/

namespace LingshuGate.OAuth

open Lib AccessControl AuthStore

variable {D : Type} (P : Params D) (s : Snapshot)

/-! ## Tickets -/

structure AuthorizationParams where
  clientId : String
  redirectUri : Option String
  scope : Option String := none
  responseType : Option String
  codeChallengeMethod : Option String
  codeChallenge : String
  resource : String
  deriving DecidableEq

/-- What `start_authorization` checks of the request, the client row and the resource. -/
def startRequest (config : Config) (row : Client) (policy : ResourcePolicy) (params : AuthorizationParams)
    (redirectUri : String) (scopes : Finset Scope) : Except Error AuthorizationRequest := do
  require (scopes ⊆ policy.kind.allowedScopes && row.resources.contains policy.kind &&
    (policy.kind ≠ .management || Scope.operationsManage ∈ scopes) && scopes ⊆ row.scopes) (bad "invalid_scope")
  return ⟨params.clientId, redirectUri, params.resource, params.codeChallenge, scopes, row.revision, config.revision,
    config.issuer, policy.managementRevision⟩

/-- `start_authorization`: the configuration, the client and the resource are three readings. -/
def startAuthorization (atConfig atClient : Snapshot) (params : AuthorizationParams) (browser csrf text : String) :
    Except Error (Payload D) := do
  let config ← readyConfig P atConfig
  let row ← expect (enabledClient atClient params.clientId) (bad "invalid_client_or_redirect")
  let redirectUri ← expect (params.redirectUri.filter row.redirectUris.contains) (bad "invalid_client_or_redirect")
  let scopes ← scopeSet (params.scope.getD "tools.read")
  require (params.responseType = some "code" && params.codeChallengeMethod = some "S256" &&
    pkceChallenge params.codeChallenge) (bad "invalid_authorization_request")
  let policy ← resourcePolicy P s params.resource
  let request ← startRequest config row policy params redirectUri scopes
  require (text.length ≤ 16384) (bad "invalid_authorization_request")
  return .authorization (P.hash browser) csrf request (s.out.now + 600)

/-- Fernet's `decrypt(token, ttl=…)`: the token may be neither too old nor from the future. -/
def decryptWithin (ttl : Int) (text : String) : Option (Payload D) :=
  (P.decrypt text).bind fun sealed =>
    if sealed.sealedAt + ttl < s.out.now || s.out.now + 60 < sealed.sealedAt then none else some sealed.payload

structure Ticket where
  browserHash : String
  csrf : String
  request : AuthorizationRequest
  expiresAt : Int
  deriving DecidableEq

/-- `payload["purpose"] == "authorization_v1"`. -/
def Payload.ticket : Payload D → Option Ticket
  | .authorization browserHash csrf request expiresAt => some ⟨browserHash, csrf, request, expiresAt⟩
  | _ => none

/-- `_ticket`. -/
def openTicket (text browser : String) (csrf : Option String) : Except Error Ticket := do
  require (browser ≠ "" && 40 ≤ text.length && text.length ≤ 16384) (.oauth "authorization_expired" 410)
  let ticket ← expect ((decryptWithin P s 600 text).bind Payload.ticket) (.oauth "authorization_expired" 410)
  require (s.out.now < ticket.expiresAt) (.oauth "authorization_expired" 410)
  require (ticket.browserHash = P.hash browser) (.oauth "invalid_browser" 403)
  require (csrf.all (· = ticket.csrf)) (.oauth "invalid_csrf" 403)
  return ticket

/-- The row `interaction` makes up when none is stored. -/
def virtualRow (text : String) (ticket : Ticket) : Interaction where
  idHash := P.hash text
  browserHash := ticket.browserHash
  csrfHash := P.hash ticket.csrf
  expiresAt := ticket.expiresAt
  userId := none
  clientId := ticket.request.clientId

/-- `interaction`: the ticket is good for the client, configuration and resource it was issued under. -/
def interaction (text browser : String) (csrf : Option String) : Except Error (Interaction × AuthorizationRequest) := do
  let ticket ← openTicket P s text browser csrf
  let config ← readyConfig P s
  let row := s.db.interactions.find (P.hash text)
  require (row.all fun row => s.out.now < row.expiresAt) (.oauth "authorization_expired" 410)
  let request := ticket.request
  let policy ← resourcePolicy P s request.resource
  let client ← expect (enabledClient s request.clientId) (.oauth "authorization_changed" 409)
  require (client.revision = request.clientRevision && config.revision = request.configurationRevision &&
    config.issuer = request.issuer && client.resources.contains policy.kind &&
    request.scopes ⊆ policy.kind.allowedScopes && policy.managementRevision = request.managementRevision)
    (.oauth "authorization_changed" 409)
  return (row.getD (virtualRow P text ticket), request)

/-! ## Interaction rows -/

/-- `_admit_authenticated`. -/
def admitAuthenticated (db : Db) (now : Int) (userId clientId : String) : Except Error Db := do
  let db := db.cleanupInteractions now
  require (db.interactions.count (!·.completed) < 200 &&
    db.interactions.count (fun i => !i.completed && i.userId = some userId) < 5 &&
    db.interactions.count (fun i => !i.completed && i.clientId = clientId) < 50) (.oauth "authorization_capacity" 429)
  return db

/-- The capacity of `_complete`: signed-in users and anonymous denials are counted apart. -/
def completionCapacity (db : Db) : Option String → Bool
  | some userId => db.interactions.count (fun i => i.completed && i.userId.isSome) < 3072 &&
      db.interactions.count (fun i => i.completed && i.userId = some userId) < 64
  | none => db.interactions.count (fun i => i.completed && i.userId = none) < 1024

/-- What an existing row becomes: `completed=1, request_json=…, catalog_json='{}', user_id=…`. -/
def tombstone (userId grantId : Option String) (row : Interaction) : Interaction :=
  { row with completed := true, grantId := grantId, offered := none, userId := userId }

/-- `_complete`. -/
def complete (db : Db) (now : Int) (text : String) (row : Interaction) (request : AuthorizationRequest)
    (userId grantId : Option String) : Except Error Db := do
  let db := db.cleanupInteractions now
  require (completionCapacity db userId) (.oauth "authorization_capacity" 429)
  return { db with
    interactions := db.interactions.upsert
      ⟨P.hash text, row.browserHash, row.csrfHash, none, row.expiresAt, true, userId, request.clientId, grantId⟩
      (tombstone userId grantId) fun _ => rfl }

/-- The row of an open interaction. -/
def newInteraction (text browser csrf : String) (expiresAt : Int) (userId clientId : String) : Interaction where
  idHash := P.hash text
  browserHash := P.hash browser
  csrfHash := P.hash csrf
  expiresAt := expiresAt
  userId := some userId
  clientId := clientId

/-- The row of a user who may now see the tools; one of another user is replaced. -/
def placeInteraction (text browser csrf : String) (row : Interaction) (request : AuthorizationRequest)
    (userId : String) : Except Error Db := do
  let stored := s.db.interactions.find (P.hash text)
  if stored.any fun row => row.userId = some userId then return s.db
  else
    let db ← admitAuthenticated (s.db.deleteInteractions fun i => i.idHash = P.hash text) s.out.now userId request.clientId
    db.insertInteraction (newInteraction P text browser csrf row.expiresAt userId request.clientId)

/-- `UPDATE gate_oauth_interactions SET catalog_json=? WHERE id_hash=?`. -/
def Db.setOffered (db : Db) (idHash : String) (offered : Offered) : Db :=
  { db with
    interactions := db.interactions.update (·.idHash = idHash) (fun i => { i with offered := some offered }) fun _ => rfl }

/-- `bindings` of the offered tools; `{}` for the management resource. -/
def offeredBindings (tools : List Tool) : List (String × String) :=
  tools.filterMap fun t => ((serverBinding s.out.env s.out.auth.access t.serverId).toOption).map fun b => (t.serverId, b)

/-- What the user is shown, by the kind of the resource. -/
def offer (userId : String) (tools : List Tool) : Kind → Offered
  | .business => ⟨userId, bindAvailable s tools, offeredBindings s (bindAvailable s tools)⟩
  | .management => ⟨userId, tools, []⟩

/-- The tools `consent_context` shows, read between its transactions. -/
def contextCatalog (mid : Snapshot) (request : AuthorizationRequest) (completed : Bool) :
    Option AuthPrincipal → Except Error (List Tool)
  | none => .ok []
  | some p => if completed then .ok [] else catalog P mid p request.scopes request.resource none

/-- The second transaction of `consent_context`. -/
def contextWrite (text browser csrf : String) (tools : List Tool) (row : Interaction) (request : AuthorizationRequest) :
    Option AuthPrincipal → Except Error Db
  | none => .ok (s.db.deleteInteractions fun i => i.idHash = P.hash text && !i.completed)
  | some p => do
    let policy ← resourcePolicy P s request.resource
    let db ← placeInteraction P s text browser csrf row request p.id
    return db.setOffered (P.hash text) (offer s p.id tools policy.kind)

/-- `consent_context`. -/
def consentContext (first mid : Snapshot) (text browser : String) (session : Option String) : Except Error Db := do
  let ticket ← openTicket P first text browser none
  let (row, request) ← interaction P first text browser none
  let principal ← sessionPrincipal P mid session request.resource
  let tools ← contextCatalog P mid request row.completed principal
  let (row, request) ← interaction P s text browser none
  if row.completed then return s.db
  else contextWrite P s text browser ticket.csrf tools row request principal

/-- `release_interaction`. -/
def releaseInteraction (text browser csrf : String) : Except Error Db := do
  let _ ← interaction P s text browser (some csrf)
  return s.db.deleteInteractions fun i => i.idHash = P.hash text && !i.completed

/-! ## Continuous server policies -/

/-- `bind_server_policies(connection, [policy])`, its `ValueError` as a conflict. -/
def bindServer (policy : SubmittedPolicy) : Except Error ServerPolicy :=
  (bindServerPolicy (serverBinding s.out.env s.out.auth.access) [] policy).mapError fun text => .oauth text 409

/-- A bound policy and whether it is in `retained`. -/
structure BoundPolicy where
  policy : ServerPolicy
  retained : Bool
  deriving DecidableEq

/-- One turn of the loop: an unchanged policy keeps its saved identity, any other is bound anew. -/
def bindPolicy (previous : List ServerPolicy) (policy : SubmittedPolicy) : Except Error BoundPolicy :=
  match previous.find? (·.serverId = policy.serverId) with
  | none => do return ⟨← bindServer s policy, false⟩
  | some old =>
    if policy.unchanged old then .ok ⟨old, true⟩
    else do
      return ⟨← bindServer s { policy with serverBinding := some (policy.serverBinding.getD old.serverBinding) }, false⟩

def bindPolicies (previous : List ServerPolicy) : List String → List SubmittedPolicy → Except Error (List BoundPolicy)
  | _, [] => .ok []
  | seen, policy :: rest => do
    require (!seen.contains policy.serverId && !policy.extraKeys) (bad "invalid_server_policy")
    let bound ← bindPolicy s previous policy
    let others ← bindPolicies previous (policy.serverId :: seen) rest
    return bound :: others

/-- `_candidate_ceiling`. -/
def candidateCeiling (scopes : Finset Scope) (client : Client) : Except Error (Finset Scope) := do
  require (client.resources.contains .business) (.oauth "grant_scope_unavailable" 409)
  return scopes ∩ client.scopes ∩ businessScopes

/-- `_scope_catalog`: the tools inside the ceiling, and all visible ones. -/
def scopeCatalog (principal : AuthPrincipal) (scopes : Finset Scope) (client : Client) : Except Error (List Tool × List Tool) := do
  let visible ← businessCatalog s principal Scope.all.toFinset none
  return (visible.filter fun t => accessScope t.access ∈ scopes ∩ client.scopes, visible)

/-- `{"tools.read"} if access == "read" else {"tools.read", "tools.invoke"}`. -/
def policyScopes (access : Access) : Finset Scope := if access = .read then {.toolsRead} else businessScopes

/-- A policy that is not retained needs the scopes and some access to the server. -/
def checkPolicy (principal : AuthPrincipal) (scopes : Finset Scope) (client : Client) (ceiling : Finset Scope)
    (policy : ServerPolicy) : Except Error Unit := do
  require (policyScopes policy.access ⊆ ceiling) (.oauth "grant_scope_insufficient" 409)
  if (effectiveAccess s.out.auth.access s.out.now principal policy.serverId "").usable then pure ()
  else
    let (eligible, _) ← scopeCatalog s principal scopes client
    require (eligible.any fun t => t.serverId = policy.serverId) (.oauth "server_scope_unavailable" 409)

/-- The loop over the policies that are not retained. -/
def checkPolicies (principal : AuthPrincipal) (scopes : Finset Scope) (client : Client) (ceiling : Finset Scope) :
    List BoundPolicy → Except Error Unit
  | [] => .ok ()
  | b :: rest => do
    if b.retained then checkPolicies principal scopes client ceiling rest
    else
      checkPolicy s principal scopes client ceiling b.policy
      checkPolicies principal scopes client ceiling rest

/-- `_scope_policies`; of the grant it reads `target_revision`, `scopes` and the previous policies. -/
def scopePolicies (principal : AuthPrincipal) (targetRevision : Nat) (scopes : Finset Scope) (previous : List ServerPolicy)
    (client : Client) (policies : List SubmittedPolicy) (picked : List Tool) : Except Error (List ServerPolicy) :=
  if policies = [] then .ok []
  else do
    require (targetRevision = 0) (bad "invalid_server_policies")
    require (policies.length ≤ 100) (bad "server_scope_limit")
    let bound ← bindPolicies s previous [] policies
    let bound := bound.insertionSort fun a b => a.policy.serverId ≤ b.policy.serverId
    let ceiling ← candidateCeiling scopes client
    require (!bound.any fun b => (picked.map Tool.serverId).contains b.policy.serverId) (bad "server_policy_conflict")
    checkPolicies s principal scopes client ceiling bound
    return bound.map BoundPolicy.policy

/-! ## Consent -/

/-- `TARGET_ID` -/
def targetIdValid (id : String) : Bool :=
  match id.toList with
  | [] => false
  | c :: rest => c.isAlphanum && rest.length ≤ 127 && rest.all fun c => base64Char c || c = '.'

/-- `normalize_management_targets` (oauth_management.py:68); the list is a dictionary, its keys different. -/
def normalizeManagementTargets (targets : List (String × List String)) (allowEmpty : Bool) : Option (List (String × List String)) :=
  if (allowEmpty || targets ≠ []) && targets.length ≤ 1000 && targets.all fun (target, actions) =>
      targetIdValid target && actions ≠ [] && (actions.all managementActions.contains) && actions.Nodup then
    some ((targets.map fun (target, actions) => (target, actions.insertionSort (· ≤ ·))).insertionSort
      fun a b => a.1 ≤ b.1)
  else none

structure ConsentRequest where
  toolIds : List String
  grantDays : Int
  ratePerMinute : Int
  concurrency : Int
  deny : Bool := false
  managementTargets : Option (List (String × List String)) := none
  serverPolicies : List SubmittedPolicy := []
  deriving DecidableEq

/-- The tools a consent may choose from, and its targets: management tools are read again, business tools are bound
to their servers. -/
def consentInputs (principal : AuthPrincipal) (ticket : AuthorizationRequest) (current : List Tool)
    (request : ConsentRequest) : Kind → Except Error (List Tool × List (String × List String))
  | .management => do
    let tools ← managementCatalog s principal ticket.scopes none
    let targets ← expect (request.managementTargets.bind fun t => normalizeManagementTargets t false)
      (bad "invalid_management_targets")
    return (tools, targets)
  | .business => do
    require (request.managementTargets.getD [] = []) (bad "invalid_management_targets")
    let tools ← bindToolSnapshots s (request.toolIds.filterMap (toolGet current))
    return (tools, [])

/-- Each chosen tool is what the user was shown. -/
def offeredMatches (offered : Option Offered) (userId : String) (current : List Tool) (toolIds : List String) : Bool :=
  match offered with
  | none => false
  | some offered => offered.userId = userId && toolIds.all fun id =>
      match toolGet offered.tools id, toolGet current id with
      | some shown, some now => toolScopeMatches shown now && shown.serverBinding = now.serverBinding
      | _, _ => false

/-- `granted_scopes` before the management case. -/
def policyGrantedScopes (tools : List Tool) (policies : List ServerPolicy) : Finset Scope :=
  toolScopes tools ∪ (if policies = [] then ∅ else {.toolsRead}) ∪
    (if policies.any fun p => p.access = .write then {.toolsInvoke} else ∅)

/-- `granted_scopes`. -/
def grantedScopes (tools : List Tool) (policies : List ServerPolicy) : Kind → Finset Scope
  | .business => policyGrantedScopes tools policies
  | .management => managementToolScopes tools (policyGrantedScopes tools policies)

/-- `1 if management else 0`. -/
def Kind.targetRevision : Kind → Nat
  | .business => 0
  | .management => 1

def newGrant (grantId userId : String) (ticket : AuthorizationRequest) (request : ConsentRequest) (kind : Kind)
    (tools : List Tool) (targets : List (String × List String)) (policies : List ServerPolicy) : Grant where
  id := grantId
  userId := userId
  clientId := ticket.clientId
  resource := ticket.resource
  scopes := grantedScopes tools policies kind
  tools := tools
  expiresAt := s.out.now + request.grantDays * 86400
  ratePerMinute := request.ratePerMinute
  concurrency := request.concurrency
  managementTargets := targets
  targetRevision := kind.targetRevision
  serverPolicies := policies

/-- The row a consent inserts. -/
def consentGrant (principal : AuthPrincipal) (row : Interaction) (ticket : AuthorizationRequest) (current : List Tool)
    (request : ConsentRequest) (grantId : String) : Except Error Grant := do
  let policy ← resourcePolicy P s ticket.resource
  let (current, targets) ← consentInputs s principal ticket current request policy.kind
  require (offeredMatches row.offered principal.id current request.toolIds) (.oauth "tool_scope_changed" 409)
  let tools := request.toolIds.filterMap (toolGet current)
  let client ← expect (s.db.clients.find ticket.clientId) .internal
  let policies ← scopePolicies s principal policy.kind.targetRevision ticket.scopes [] client request.serverPolicies tools
  require (policies.all fun p => Py.dictGet (row.offered.elim [] Offered.serverBindings) p.serverId = some p.serverBinding)
    (.oauth "tool_scope_changed" 409)
  require ((tools.map Tool.serverId ++ policies.map ServerPolicy.serverId).dedup.length ≤ 100) (bad "server_scope_limit")
  require (s.db.grants.count (·.userId = principal.id) < 1000) (.oauth "grant_limit" 409)
  return newGrant s grantId principal.id ticket request policy.kind tools targets policies

/-- The code of a new grant. -/
def newCode (grant : Grant) (ticket : AuthorizationRequest) (code : String) : Code where
  codeHash := P.hash code
  grantId := grant.id
  clientId := ticket.clientId
  redirectUri := ticket.redirectUri
  resource := ticket.resource
  challenge := ticket.codeChallenge
  expiresAt := s.out.now + 60

/-- The accepting half of the last transaction: grant, code, tombstone. -/
def accept (text : String) (principal : AuthPrincipal) (row : Interaction) (ticket : AuthorizationRequest)
    (current : List Tool) (request : ConsentRequest) (code grantId : String) : Except Error (Db × Grant) := do
  let grant ← consentGrant P s principal row ticket current request grantId
  require (s.out.auth.users.any (·.id = principal.id)) .integrity
  let db ← s.db.insertGrant grant
  let db ← db.insertCode (newCode P s grant ticket code)
  let db ← complete P db s.out.now text row ticket (some principal.id) (some grantId)
  return (db, grant)

/-- The bounds `consent` checks before it reads anything. -/
def consentValid (request : ConsentRequest) : Bool :=
  (request.toolIds ≠ [] || request.serverPolicies ≠ []) && request.toolIds.length ≤ 5000 && request.toolIds.Nodup &&
    1 ≤ request.grantDays && request.grantDays ≤ 30 && 1 ≤ request.ratePerMinute && request.ratePerMinute ≤ 10000 &&
    1 ≤ request.concurrency && request.concurrency ≤ 100

/-- `consent(…, deny=True)`. -/
def denyConsent (first : Snapshot) (text browser csrf : String) (principal : Option AuthPrincipal) : Except Error Db := do
  let _ ← interaction P first text browser (some csrf)
  let (row, ticket) ← interaction P s text browser (some csrf)
  require (!row.completed) (.oauth "authorization_completed" 409)
  complete P s.db s.out.now text row ticket (principal.map (·.id)) none

/-- `consent(…, deny=False)`. -/
def acceptConsent (first mid : Snapshot) (text browser csrf : String) (principal : Option AuthPrincipal)
    (request : ConsentRequest) (code grantId : String) : Except Error (Db × Grant) := do
  let principal ← expect principal (.oauth "login_required" 401)
  require (consentValid request) (bad "invalid_consent")
  let (_, ticket) ← interaction P first text browser (some csrf)
  let current ← catalog P mid principal ticket.scopes ticket.resource none
  let (row, ticket) ← interaction P s text browser (some csrf)
  require (!row.completed) (.oauth "authorization_completed" 409)
  accept P s text principal row ticket current request code grantId

/-- `consent`. -/
def consent (first mid : Snapshot) (text browser csrf : String) (principal : Option AuthPrincipal)
    (request : ConsentRequest) (code grantId : String) : Except Error (Db × Option Grant) :=
  if request.deny then do
    let db ← denyConsent P s first text browser csrf principal
    return (db, none)
  else do
    let (db, grant) ← acceptConsent P s first mid text browser csrf principal request code grantId
    return (db, some grant)

/-! ## What an open ticket says -/

variable {P s} {used : String → Prop} {db db' : Db}

/-- The ticket, its row and everything `interaction` found unchanged since the ticket was issued. -/
structure Interacts (P : Params D) (s : Snapshot) (text : String) (row : Interaction) (request : AuthorizationRequest)
    (ticket : Ticket) (policy : ResourcePolicy) : Prop where
  sealed : ∃ t, P.decrypt text = some t ∧ t.payload.ticket = some ticket
  request_eq : ticket.request = request
  unexpired : s.out.now < ticket.expiresAt
  row_eq : row = (s.db.interactions.find (P.hash text)).getD (virtualRow P text ticket)
  client : ∃ client ∈ s.db.clients, client.id = request.clientId ∧ client.revision = request.clientRevision
  configuration : s.db.config.revision = request.configurationRevision
  policy_ok : resourcePolicy P s request.resource = .ok policy
  management : policy.managementRevision = request.managementRevision
  scopes : request.scopes ⊆ policy.kind.allowedScopes

variable {ticket : Ticket}

theorem openTicket_ok {text browser : String} {csrf : Option String} (h : openTicket P s text browser csrf = .ok ticket) :
    (∃ t, P.decrypt text = some t ∧ t.payload.ticket = some ticket) ∧ s.out.now < ticket.expiresAt := by
  simp only [openTicket, bind_eq_ok, expect_eq_ok, require_eq_ok, pure_eq_ok, decide_eq_true_eq] at h
  obtain ⟨-, -, ticket', hticket, -, hexpires, -, -, -, -, rfl⟩ := h
  refine ⟨?_, hexpires⟩
  obtain ⟨payload, hpayload, hpt⟩ := Option.bind_eq_some_iff.mp hticket
  obtain ⟨t, ht, hwithin⟩ := Option.bind_eq_some_iff.mp hpayload
  split at hwithin
  · cases hwithin
  · injection hwithin with hwithin
    subst hwithin
    exact ⟨t, ht, hpt⟩

variable {row : Interaction} {request : AuthorizationRequest}

theorem interaction_ok {text browser : String} {csrf : Option String} (h : interaction P s text browser csrf = .ok (row, request)) :
    ∃ ticket policy, Interacts P s text row request ticket policy := by
  simp only [interaction, bind_eq_ok, expect_eq_ok, require_eq_ok, pure_eq_ok, Prod.mk.injEq, Bool.and_eq_true,
    decide_eq_true_eq] at h
  obtain ⟨ticket, hticket, config, hconfig, -, -, policy, hpolicy, client, hclient, -, hcheck, rfl, rfl⟩ := h
  obtain ⟨hsealed, hexpires⟩ := openTicket_ok hticket
  obtain ⟨hmem, hid, -⟩ := enabledClient_ok hclient
  obtain rfl := readyConfig_ok hconfig
  exact ⟨ticket, policy, hsealed, rfl, hexpires, rfl, ⟨client, hmem, hid, hcheck.1.1.1.1.1⟩, hcheck.1.1.1.1.2, hpolicy,
    hcheck.2, hcheck.1.2⟩

variable {policy : ResourcePolicy}

/-- The kind of the resource is the kind the ticket was issued for. -/
theorem Interacts.kind {text : String}
    (h : Interacts P s text row request ticket policy) : policy.kind = .management ↔ request.managementRevision ≠ none := by
  rw [← h.management]
  rcases (resourcePolicy_ok h.policy_ok).2 with ⟨hk, hm, -⟩ | ⟨hk, hm, -⟩
  · simp [hk, hm]
  · simp [hk, hm]

/-! ## Scopes of the catalogs -/

variable {principal : AuthPrincipal} {scopes : Finset Scope} {t : Tool}

theorem businessTool_scope {d : ToolDefinition}
    (h : businessTool s principal scopes d = .ok (some t)) : accessScope t.access ∈ scopes := by
  simp only [businessTool] at h
  split at h
  · cases h
  split at h
  · cases h
  rename_i hkeep
  simp only [Bool.or_eq_true, not_or, decide_eq_true_eq, Bool.not_eq_true, Bool.not_eq_false', ne_eq,
    Decidable.not_not] at hkeep
  split at h
  · cases h
  split at h
  · cases h
  split at h
  · cases h
  · simp only [Except.ok.injEq, Option.some.injEq] at h
    subst h
    exact hkeep.1.2

variable {tools : List Tool}

theorem businessCatalog_scopes {ids : Option (List String)}
    (h : businessCatalog s principal scopes ids = .ok tools) (ht : t ∈ tools) : accessScope t.access ∈ scopes := by
  simp only [businessCatalog, bind_eq_ok, require_eq_ok, pure_eq_ok] at h
  obtain ⟨entries, hentries, -, -, rfl⟩ := h
  obtain ⟨entry, hentry, hid⟩ := List.mem_filterMap.mp ht
  obtain ⟨d, -, hd⟩ := mem_mapM_ok hentries hentry
  have hsome : entry = some t := hid
  exact businessTool_scope (hsome ▸ hd)

/-- A management tool that writes needs `tools.invoke`; one of credentials needs their scope. -/
theorem managementTool_scopes {current : AuthPrincipal} {d : ToolDefinition} (h : managementTool s scopes current d = some t) :
    (t.access ≠ .read → Scope.toolsInvoke ∈ scopes) ∧
      (t.id ∈ credentialManagementToolIds → Scope.credentialsManageSystem ∈ scopes) := by
  simp only [managementTool] at h
  split at h
  · rename_i hkeep
    simp only [Option.some.injEq] at h
    subst h
    simp only [Bool.and_eq_true, Bool.or_eq_true, List.all_eq_true, decide_eq_true_eq, List.contains_iff_mem] at hkeep
    obtain ⟨⟨-, hperm⟩, hwrite⟩ := hkeep
    constructor
    · intro haccess
      rcases hwrite with hread | hinvoke
      · simp [hread] at haccess
      · exact hinvoke.1
    intro hcred
    have hcode : "credentials.manage.system" ∈ managementToolPermissions d.id := by
      have hcred' : d.id ∈ credentialManagementToolIds := hcred
      simp [managementToolPermissions, hcred']
    have htext : Scope.credentialsManageSystem.text ∈ scopeTexts scopes := (hperm _ hcode).1
    exact mem_scopeTexts.mp htext
  · cases h

theorem managementCatalog_scopes {ids : Option (List String)}
    (h : managementCatalog s principal scopes ids = .ok tools) (ht : t ∈ tools) : (t.access ≠ .read → Scope.toolsInvoke ∈ scopes) ∧
      (t.id ∈ credentialManagementToolIds → Scope.credentialsManageSystem ∈ scopes) := by
  simp only [managementCatalog, bind_eq_ok] at h
  obtain ⟨current, -, h⟩ := h
  split at h
  · obtain rfl := pure_eq_ok.mp h
    cases ht
  · obtain rfl := pure_eq_ok.mp h
    obtain ⟨d, -, hd⟩ := List.mem_filterMap.mp ht
    exact managementTool_scopes hd

theorem bindToolSnapshots_access {tools bound : List Tool} (h : bindToolSnapshots s tools = .ok bound)
    (ht : t ∈ bound) : ∃ t₀ ∈ tools, t.access = t₀.access := by
  obtain ⟨t₀, ht₀, hb⟩ := mem_mapM_ok h ht
  refine ⟨t₀, ht₀, ?_⟩
  split at hb
  · rename_i b hbind
    simp only [Except.ok.injEq] at hb
    subst hb
    simp only [bindTool, bind_eq_ok, pure_eq_ok] at hbind
    obtain ⟨binding, -, rfl⟩ := hbind
    rfl
  · cases hb

/-! ## Scopes of server policies -/

theorem checkPolicies_scopes {scopes ceiling : Finset Scope} {client : Client}
    {bound : List BoundPolicy} (h : checkPolicies s principal scopes client ceiling bound = .ok ()) {b : BoundPolicy}
    (hb : b ∈ bound) (hnew : b.retained = false) : policyScopes b.policy.access ⊆ ceiling := by
  induction bound with
  | nil => cases hb
  | cons c rest ih =>
    rw [checkPolicies] at h
    split at h
    · rename_i hret
      rcases List.mem_cons.mp hb with rfl | hb
      · rw [hnew] at hret
        cases hret
      · exact ih h hb
    simp only [bind_eq_ok] at h
    obtain ⟨u, hcheck, hrest⟩ := h
    rcases List.mem_cons.mp hb with rfl | hb
    · simp only [checkPolicy, bind_eq_ok, require_eq_ok, decide_eq_true_eq] at hcheck
      obtain ⟨-, hsub, -⟩ := hcheck
      exact hsub
    · exact ih hrest hb

theorem bindPolicies_new {seen : List String} {policies : List SubmittedPolicy} {bound : List BoundPolicy}
    (h : bindPolicies s [] seen policies = .ok bound) {b : BoundPolicy} (hb : b ∈ bound) : b.retained = false := by
  induction policies generalizing seen bound with
  | nil =>
    obtain rfl := pure_eq_ok.mp h
    cases hb
  | cons policy rest ih =>
    simp only [bindPolicies, bind_eq_ok, pure_eq_ok] at h
    obtain ⟨-, -, b', hb', others, hothers, rfl⟩ := h
    rcases List.mem_cons.mp hb with rfl | hb
    · simp only [bindPolicy, List.find?_nil, bind_eq_ok, pure_eq_ok] at hb'
      obtain ⟨-, -, rfl⟩ := hb'
      rfl
    · exact ih hothers hb

/-- Without earlier policies, every policy lies inside the scopes; a management request takes none. -/
theorem scopePolicies_ok {targetRevision : Nat} {client : Client}
    {policies : List SubmittedPolicy} {picked : List Tool} {result : List ServerPolicy}
    (h : scopePolicies s principal targetRevision scopes [] client policies picked = .ok result) {p : ServerPolicy}
    (hp : p ∈ result) : targetRevision = 0 ∧ policyScopes p.access ⊆ scopes := by
  simp only [scopePolicies] at h
  split at h
  · obtain rfl := pure_eq_ok.mp h
    cases hp
  simp only [bind_eq_ok, require_eq_ok, pure_eq_ok, decide_eq_true_eq] at h
  obtain ⟨-, htarget, -, -, bound, hbound, ceiling, hceiling, -, -, u, hcheck, rfl⟩ := h
  obtain ⟨b, hb, rfl⟩ := List.mem_map.mp hp
  have hb' : b ∈ bound := (List.perm_insertionSort _ _).mem_iff.mp hb
  have hsub := checkPolicies_scopes hcheck hb (bindPolicies_new hbound hb')
  simp only [candidateCeiling, bind_eq_ok, require_eq_ok, pure_eq_ok] at hceiling
  obtain ⟨-, -, rfl⟩ := hceiling
  refine ⟨htarget, ?_⟩
  intro x hx
  have := hsub hx
  simp only [Finset.mem_inter] at this
  exact this.1.1

/-! ## Scopes of a consent -/

theorem mem_toolScopes {scope : Scope} : scope ∈ toolScopes tools ↔ ∃ t ∈ tools, accessScope t.access = scope := by
  simp [toolScopes]

theorem accessScope_invoke {access : Access} (h : accessScope access = .toolsInvoke) : access ≠ .read := by
  rintro rfl
  simp [accessScope] at h

theorem toolGet_mem {ids : List String} (h : t ∈ ids.filterMap (toolGet tools)) : t ∈ tools := by
  obtain ⟨id, -, hid⟩ := List.mem_filterMap.mp h
  exact List.mem_of_find?_eq_some hid

theorem policyGrantedScopes_subset {policies : List ServerPolicy}
    (htools : ∀ t ∈ tools, accessScope t.access ∈ scopes) (hpolicies : ∀ p ∈ policies, policyScopes p.access ⊆ scopes) :
    policyGrantedScopes tools policies ⊆ scopes := by
  intro x hx
  simp only [policyGrantedScopes, Finset.mem_union] at hx
  rcases hx with (hx | hx) | hx
  · obtain ⟨t, ht, rfl⟩ := mem_toolScopes.mp hx
    exact htools t ht
  · split at hx
    · cases hx
    rename_i hne
    obtain ⟨p, hp⟩ := List.exists_mem_of_ne_nil _ hne
    obtain rfl := Finset.mem_singleton.mp hx
    refine hpolicies p hp ?_
    unfold policyScopes
    split <;> decide
  split at hx
  · rename_i hany
    obtain ⟨p, hp, hw⟩ := List.any_eq_true.mp hany
    obtain rfl := Finset.mem_singleton.mp hx
    refine hpolicies p hp ?_
    simp only [decide_eq_true_eq] at hw
    rw [hw]
    decide
  · cases hx

theorem managementToolScopes_subset {asked scopes : Finset Scope}
    (hmanage : Scope.operationsManage ∈ scopes) (hinvoke : Scope.toolsInvoke ∈ asked → Scope.toolsInvoke ∈ scopes)
    (hcred : ∀ t ∈ tools, t.id ∈ credentialManagementToolIds → Scope.credentialsManageSystem ∈ scopes) :
    managementToolScopes tools asked ⊆ scopes := by
  intro x hx
  simp only [managementToolScopes, Finset.mem_union, Finset.mem_singleton] at hx
  rcases hx with (rfl | hx) | hx
  · exact hmanage
  · split at hx
    · obtain rfl := Finset.mem_singleton.mp hx
      exact hinvoke ‹_›
    · cases hx
  split at hx
  · rename_i hany
    obtain ⟨t, ht, hid⟩ := List.any_eq_true.mp hany
    obtain rfl := Finset.mem_singleton.mp hx
    exact hcred t ht (by simpa using hid)
  · cases hx

variable {grant : Grant}

/-- The granted scopes lie inside the ticket's: each comes from a chosen tool or from a policy under the ceiling. -/
theorem consentGrant_scopes {ticket : AuthorizationRequest} {current : List Tool} {request : ConsentRequest} {grantId : String}
    (h : consentGrant P s principal row ticket current request grantId = .ok grant)
    (hpolicy : resourcePolicy P s ticket.resource = .ok policy)
    (hbusiness : policy.kind = .business → ∀ t ∈ current, accessScope t.access ∈ ticket.scopes)
    (hmanagement : policy.kind = .management → Scope.operationsManage ∈ ticket.scopes) : grant.scopes ⊆ ticket.scopes := by
  simp only [consentGrant, bind_eq_ok, expect_eq_ok, require_eq_ok, pure_eq_ok, hpolicy, Except.ok.injEq] at h
  obtain ⟨policy', rfl, ⟨tools, targets⟩, hinputs, -, -, client, -, policies, hpolicies, -, -, -, -, -, -, rfl⟩ := h
  have hps : ∀ p ∈ policies, policyScopes p.access ⊆ ticket.scopes := fun p hp => (scopePolicies_ok hpolicies hp).2
  cases hkind : policy.kind with
  | business =>
    simp only [hkind, consentInputs, bind_eq_ok, pure_eq_ok, Prod.mk.injEq] at hinputs
    obtain ⟨-, -, bound, hbound, rfl, -⟩ := hinputs
    simp only [newGrant, grantedScopes]
    refine policyGrantedScopes_subset ?_ hps
    intro t ht
    obtain ⟨t₀, ht₀, haccess⟩ := bindToolSnapshots_access hbound (toolGet_mem ht)
    rw [haccess]
    exact hbusiness hkind t₀ (toolGet_mem ht₀)
  | management =>
    simp only [hkind, consentInputs, bind_eq_ok, pure_eq_ok, Prod.mk.injEq] at hinputs
    obtain ⟨catalog, hcatalog, -, -, rfl, -⟩ := hinputs
    -- a management consent has no server policy: its target revision is 1
    have hnone : policies = [] := by
      refine List.eq_nil_iff_forall_not_mem.mpr ?_
      intro p hp
      have := (scopePolicies_ok hpolicies hp).1
      simp [hkind, Kind.targetRevision] at this
    subst hnone
    simp only [newGrant, grantedScopes]
    refine managementToolScopes_subset (hmanagement hkind) ?_ ?_
    · intro hx
      have hx' : Scope.toolsInvoke ∈ toolScopes (request.toolIds.filterMap (toolGet catalog)) := by
        simpa [policyGrantedScopes] using hx
      obtain ⟨t, ht, haccess⟩ := mem_toolScopes.mp hx'
      exact (managementCatalog_scopes hcatalog (toolGet_mem ht)).1 (accessScope_invoke haccess)
    · intro t ht
      exact (managementCatalog_scopes hcatalog (toolGet_mem ht)).2

/-! ## What the interaction calls change -/

/-- A completed row stays until it expires or the configuration changes. -/
def Keeps (now : Int) (a b : Db) : Prop :=
  ∀ row ∈ a.interactions, row.completed = true →
    (∃ row' ∈ b.interactions, row'.idHash = row.idHash ∧ row'.completed = true ∧ row'.expiresAt = row.expiresAt) ∨
      row.expiresAt ≤ now ∨ a.config.revision < b.config.revision

/-- Rows appear only under the digest `id`, with the expiry `expiresAt`. -/
def RowsUnder (id : String) (expiresAt : Int) (a b : Db) : Prop :=
  ∀ row' ∈ b.interactions, (∃ row ∈ a.interactions, row.idHash = row'.idHash ∧ row.expiresAt = row'.expiresAt) ∨
    (row'.idHash = id ∧ row'.expiresAt = expiresAt)

variable {now : Int}

theorem Keeps.of_eq {a b : Db} (h : b.interactions = a.interactions) : Keeps now a b := by
  intro row hrow hc
  exact .inl ⟨row, h ▸ hrow, rfl, hc, rfl⟩

theorem Keeps.trans {a b c : Db} (h : Keeps now a b) (h' : Keeps now b c) (hab : Evolves a b) (hbc : Evolves b c) :
    Keeps now a c := by
  intro row hrow hc
  rcases h row hrow hc with ⟨row', hrow', hid, hc', hexp⟩ | hexp | hrev
  · rcases h' row' hrow' hc' with ⟨row'', hrow'', hid', hc'', hexp'⟩ | hexp' | hrev
    · exact .inl ⟨row'', hrow'', hid'.trans hid, hc'', hexp'.trans hexp⟩
    · exact .inr (.inl (hexp ▸ hexp'))
    · exact .inr (.inr (lt_of_le_of_lt hab.config_le hrev))
  · exact .inr (.inl hexp)
  · exact .inr (.inr (lt_of_lt_of_le hrev hbc.config_le))

/-- Deleting open rows, or expired ones, keeps the tombstones. -/
theorem Keeps.deleteInteractions {a : Db} {cond : Interaction → Bool}
    (h : ∀ row ∈ a.interactions, cond row = true → row.completed = true → row.expiresAt ≤ now) :
    Keeps now a (a.deleteInteractions cond) := by
  intro row hrow hc
  cases hcond : cond row with
  | false => exact .inl ⟨row, Table.mem_delete.mpr ⟨hrow, hcond⟩, rfl, hc, rfl⟩
  | true => exact .inr (.inl (h row hrow hcond hc))

theorem Keeps.cleanupInteractions (a : Db) : Keeps now a (a.cleanupInteractions now) := by
  have hdelete : Keeps now a (a.deleteInteractions fun i => i.expiresAt ≤ now) := by
    refine .deleteInteractions ?_
    intro row _ hcond _
    simpa using hcond
  exact hdelete.trans (.of_eq rfl) (.of_eq rfl rfl rfl rfl) (.of_eq rfl rfl rfl rfl)

theorem cleanupInteractions_mem {a : Db} (h : row ∈ (a.cleanupInteractions now).interactions) : row ∈ a.interactions :=
  (Table.mem_delete.mp h).1

theorem Evolves.cleanupInteractions (a : Db) : Evolves a (a.cleanupInteractions now) := .of_eq rfl rfl rfl rfl

/-- A change to interaction rows; beside it, only what `_cleanup_interactions` deletes. -/
structure Touches (now : Int) (id : String) (expiresAt : Int) (a b : Db) : Prop where
  evolves : Evolves a b
  follows : ∀ used, Follows used a b
  keeps : Keeps now a b
  rows : RowsUnder id expiresAt a b
  grants : b.grants = a.grants
  codes : ∀ c ∈ b.codes, c ∈ a.codes
  families : ∀ f ∈ b.families, f ∈ a.families
  refresh : ∀ r ∈ b.refresh, r ∈ a.refresh
  confirmations : b.confirmations = a.confirmations

variable {a b c : Db} {id : String} {expiresAt : Int}

theorem Touches.trans (h : Touches now id expiresAt a b) (h' : Touches now id expiresAt b c) : Touches now id expiresAt a c where
  evolves := h.evolves.trans h'.evolves
  follows := fun used => (h.follows used).andThen (h'.follows used)
  keeps := h.keeps.trans h'.keeps h.evolves h'.evolves
  rows := by
    intro row'' hrow''
    rcases h'.rows row'' hrow'' with ⟨row', hrow', hid', hexp'⟩ | hnew
    · rcases h.rows row' hrow' with ⟨row, hrow, hid, hexp⟩ | ⟨hid, hexp⟩
      · exact .inl ⟨row, hrow, hid.trans hid', hexp.trans hexp'⟩
      · exact .inr ⟨hid' ▸ hid, hexp' ▸ hexp⟩
    · exact .inr hnew
  grants := h'.grants.trans h.grants
  codes := fun x hx => h.codes x (h'.codes x hx)
  families := fun x hx => h.families x (h'.families x hx)
  refresh := fun x hx => h.refresh x (h'.refresh x hx)
  confirmations := h'.confirmations.trans h.confirmations

/-- A change of the interaction table alone. -/
theorem Touches.of_interactions {t : Table Interaction Interaction.idHash}
    (hkeeps : Keeps now a { a with interactions := t }) (hrows : RowsUnder id expiresAt a { a with interactions := t }) :
    Touches now id expiresAt a { a with interactions := t } :=
  ⟨.of_eq rfl rfl rfl rfl, fun _ => .of_eq rfl rfl rfl, hkeeps, hrows, rfl, fun _ h => h, fun _ h => h, fun _ h => h, rfl⟩

theorem Touches.refl (a : Db) : Touches now id expiresAt a a :=
  .of_interactions (.of_eq rfl) fun row h => .inl ⟨row, h, rfl, rfl⟩

theorem Touches.deleteInteractions {cond : Interaction → Bool}
    (h : ∀ row ∈ a.interactions, cond row = true → row.completed = true → row.expiresAt ≤ now) :
    Touches now id expiresAt a (a.deleteInteractions cond) :=
  .of_interactions (.deleteInteractions h) fun row hrow => .inl ⟨row, (Table.mem_delete.mp hrow).1, rfl, rfl⟩

theorem Touches.cleanupInteractions (a : Db) : Touches now id expiresAt a (a.cleanupInteractions now) where
  evolves := .of_eq rfl rfl rfl rfl
  follows := fun _ => .cleanupInteractions
  keeps := .cleanupInteractions a
  rows := fun row hrow => .inl ⟨row, cleanupInteractions_mem hrow, rfl, rfl⟩
  grants := rfl
  codes := fun _ h => (Table.mem_delete.mp h).1
  families := fun _ h => (Table.mem_delete.mp h).1
  refresh := fun _ h => (Table.mem_delete.mp h).1
  confirmations := rfl

theorem Touches.insertInteraction (h : a.insertInteraction row = .ok b) (hid : row.idHash = id)
    (hexp : row.expiresAt = expiresAt) : Touches now id expiresAt a b := by
  obtain ⟨t, ht, rfl⟩ := insertInteraction_ok.mp h
  refine .of_interactions ?_ ?_
  · intro r hr hc
    exact .inl ⟨r, (Table.mem_insert ht).mpr (.inl hr), rfl, hc, rfl⟩
  · intro r hr
    rcases (Table.mem_insert ht).mp hr with hr | rfl
    · exact .inl ⟨r, hr, rfl, rfl⟩
    · exact .inr ⟨hid, hexp⟩

theorem Touches.setOffered {idHash : String} {offered : Offered} : Touches now id expiresAt a (a.setOffered idHash offered) := by
  have hpersists : Table.Persists (fun r r' : Interaction => r'.idHash = r.idHash ∧ r'.completed = r.completed ∧
      r'.expiresAt = r.expiresAt) a.interactions (a.setOffered idHash offered).interactions := by
    refine .update ?_ ?_ ?_
    · intro r
      rfl
    · intro r
      exact ⟨rfl, rfl, rfl⟩
    · intro r _ _
      exact ⟨rfl, rfl, rfl⟩
  refine .of_interactions ?_ ?_
  · intro r hr hc
    obtain ⟨r', hr', hid, hc', hexp⟩ := hpersists r hr
    exact .inl ⟨r', hr', hid, hc'.trans hc, hexp⟩
  intro r hr
  simp only [Table.mem_update] at hr
  obtain ⟨r₀, hr₀, rfl⟩ := hr
  refine .inl ⟨r₀, hr₀, ?_⟩
  split
  · exact ⟨rfl, rfl⟩
  · exact ⟨rfl, rfl⟩

/-- The upsert of `_complete`: a tombstone under the digest, with the expiry of the row it completes. -/
theorem Touches.upsert {userId grantId : Option String} (hid : row.idHash = id)
    (hexp : row.expiresAt = expiresAt) : Touches now id expiresAt a
      { a with interactions := a.interactions.upsert row (tombstone userId grantId) fun _ => rfl } := by
  refine .of_interactions ?_ ?_
  · intro r hr hc
    refine .inl ?_
    by_cases hkey : r.idHash = row.idHash
    · exact ⟨tombstone userId grantId r, Table.mem_upsert_key hr hkey, rfl, rfl, rfl⟩
    · exact ⟨r, Table.mem_upsert_other hr hkey, rfl, hc, rfl⟩
  intro r hr
  rcases Table.mem_upsert hr with ⟨hmem, -⟩ | ⟨rfl, -⟩ | ⟨r₀, hr₀, -, rfl⟩
  · exact .inl ⟨r, hmem, rfl, rfl⟩
  · exact .inr ⟨hid, hexp⟩
  · exact .inl ⟨r₀, hr₀, rfl, rfl⟩

/-- A completion leaves a tombstone and changes no other row. -/
theorem complete_ok {text : String} {userId grantId : Option String}
    (h : complete P a now text row request userId grantId = .ok b) :
    Touches now (P.hash text) row.expiresAt a b ∧ ∃ row' ∈ b.interactions, row'.idHash = P.hash text ∧ row'.completed = true := by
  simp only [complete, bind_eq_ok, require_eq_ok, pure_eq_ok] at h
  obtain ⟨-, -, rfl⟩ := h
  refine ⟨(Touches.cleanupInteractions a).trans (.upsert rfl rfl), ?_⟩
  by_cases hstored : ∃ r ∈ (a.cleanupInteractions now).interactions, r.idHash = P.hash text
  · obtain ⟨r, hr, hid⟩ := hstored
    exact ⟨tombstone userId grantId r, Table.mem_upsert_key hr hid, hid, rfl⟩
  · push Not at hstored
    exact ⟨_, Table.mem_upsert_new hstored, rfl, rfl⟩

/-- An open row leaves no tombstone under its digest. -/
theorem Interacts.not_completed {text : String} (h : Interacts P s text row request ticket policy) (hopen : row.completed = false)
    {r : Interaction} (hr : r ∈ s.db.interactions) (hid : r.idHash = P.hash text) : r.completed = false := by
  have hfind : s.db.interactions.find (P.hash text) = some r := Table.find_eq_some.mpr ⟨hr, hid⟩
  have hrow : row = r := by simpa [hfind] using h.row_eq
  exact hrow ▸ hopen

theorem placeInteraction_ok {text browser csrf userId : String} (hi : Interacts P s text row request ticket policy)
    (hopen : row.completed = false) (h : placeInteraction P s text browser csrf row request userId = .ok db') :
    Touches s.out.now (P.hash text) row.expiresAt s.db db' := by
  simp only [placeInteraction] at h
  split at h
  · obtain rfl := pure_eq_ok.mp h
    exact .refl _
  simp only [bind_eq_ok, admitAuthenticated, require_eq_ok, pure_eq_ok] at h
  obtain ⟨db, ⟨-, -, rfl⟩, hins⟩ := h
  refine .trans (.trans (.deleteInteractions ?_) (.cleanupInteractions _)) (.insertInteraction hins rfl rfl)
  intro r hr hid hc
  rw [hi.not_completed hopen hr (by simpa using hid)] at hc
  cases hc

variable {text browser csrf : String}

theorem contextWrite_ok {principal : Option AuthPrincipal}
    (hi : Interacts P s text row request ticket policy) (hopen : row.completed = false)
    (h : contextWrite P s text browser csrf tools row request principal = .ok db') :
    Touches s.out.now (P.hash text) row.expiresAt s.db db' := by
  cases principal with
  | none =>
    simp only [contextWrite, Except.ok.injEq] at h
    subst h
    refine .deleteInteractions ?_
    intro r hr hid hc
    simp [hc] at hid
  | some p =>
    simp only [contextWrite, bind_eq_ok, pure_eq_ok] at h
    obtain ⟨-, -, db, hplace, rfl⟩ := h
    exact (placeInteraction_ok hi hopen hplace).trans .setOffered

variable {first mid : Snapshot}

/-- `consent_context` never touches a tombstone. -/
theorem consentContext_ok {text browser : String} {session : Option String}
    (h : consentContext P s first mid text browser session = .ok db') :
    ∃ row request ticket policy, Interacts P s text row request ticket policy ∧
      Touches s.out.now (P.hash text) row.expiresAt s.db db' := by
  simp only [consentContext, bind_eq_ok] at h
  obtain ⟨opened, -, ⟨row₁, request₁⟩, -, principal, -, tools, -, ⟨row, request⟩, hlast, h⟩ := h
  obtain ⟨ticket, policy, hi⟩ := interaction_ok hlast
  refine ⟨row, request, ticket, policy, hi, ?_⟩
  split at h
  · obtain rfl := pure_eq_ok.mp h
    exact .refl _
  · rename_i hopen
    exact contextWrite_ok hi (by simpa using hopen) h

theorem releaseInteraction_ok (h : releaseInteraction P s text browser csrf = .ok db') :
    Touches s.out.now id expiresAt s.db db' := by
  simp only [releaseInteraction, bind_eq_ok, pure_eq_ok] at h
  obtain ⟨-, -, rfl⟩ := h
  refine .deleteInteractions ?_
  intro r hr hid hc
  simp [hc] at hid

/-! ## What a consent changes -/

theorem denyConsent_ok {first : Snapshot} {principal : Option AuthPrincipal}
    (h : denyConsent P s first text browser csrf principal = .ok db') :
    ∃ row request ticket policy, Interacts P s text row request ticket policy ∧ row.completed = false ∧
      Touches s.out.now (P.hash text) row.expiresAt s.db db' ∧
      ∃ row' ∈ db'.interactions, row'.idHash = P.hash text ∧ row'.completed = true := by
  simp only [denyConsent, bind_eq_ok, require_eq_ok, Bool.not_eq_true'] at h
  obtain ⟨firstRow, -, ⟨row, request⟩, hlast, -, hopen, hcomplete⟩ := h
  obtain ⟨ticket, policy, hi⟩ := interaction_ok hlast
  obtain ⟨htouches, htombstone⟩ := complete_ok hcomplete
  exact ⟨row, request, ticket, policy, hi, hopen, htouches, htombstone⟩

/-- Everything an accepting consent did: what it read three times and the three rows it wrote. -/
structure Accepts (P : Params D) (s first mid : Snapshot) (text : String) (code grantId : String) (grant : Grant) (db' : Db) where
  row : Interaction
  request : AuthorizationRequest
  ticket : Ticket
  policy : ResourcePolicy
  interacts : Interacts P s text row request ticket policy
  isOpen : row.completed = false
  firstRow : Interaction
  firstPolicy : ResourcePolicy
  /-- the first transaction saw the same ticket -/
  firstInteracts : Interacts P first text firstRow request ticket firstPolicy
  principal : AuthPrincipal
  current : List Tool
  current_ok : catalog P mid principal request.scopes request.resource none = .ok current
  body : ConsentRequest
  grant_ok : consentGrant P s principal row request current body grantId = .ok grant
  db₁ : Db
  insertGrant : s.db.insertGrant grant = .ok db₁
  db₂ : Db
  insertCode : db₁.insertCode (newCode P s grant request code) = .ok db₂
  touches : Touches s.out.now (P.hash text) row.expiresAt db₂ db'
  tombstone : ∃ row' ∈ db'.interactions, row'.idHash = P.hash text ∧ row'.completed = true

/-- A ticket text opens to one ticket. -/
theorem Interacts.ticket_unique {s₁ s₂ : Snapshot} {text : String} {row₁ row₂ : Interaction}
    {request₁ request₂ : AuthorizationRequest} {ticket₁ ticket₂ : Ticket} {policy₁ policy₂ : ResourcePolicy}
    (h₁ : Interacts P s₁ text row₁ request₁ ticket₁ policy₁) (h₂ : Interacts P s₂ text row₂ request₂ ticket₂ policy₂) :
    ticket₁ = ticket₂ := by
  obtain ⟨t₁, hd₁, ht₁⟩ := h₁.sealed
  obtain ⟨t₂, hd₂, ht₂⟩ := h₂.sealed
  rw [hd₁] at hd₂
  obtain rfl := Option.some.inj hd₂
  exact Option.some.inj (ht₁.symm.trans ht₂)

variable {body : ConsentRequest}

theorem acceptConsent_ok {principal : Option AuthPrincipal} {code grantId : String}
    (h : acceptConsent P s first mid text browser csrf principal body code grantId = .ok (db', grant)) :
    Nonempty (Accepts P s first mid text code grantId grant db') := by
  simp only [acceptConsent, bind_eq_ok, expect_eq_ok, require_eq_ok, Bool.not_eq_true', accept, pure_eq_ok, Prod.mk.injEq] at h
  obtain ⟨p, -, -, -, ⟨firstRow, firstRequest⟩, hfirst, current, hcurrent, ⟨row, request⟩, hlast, -, hopen, grant', hgrant,
    -, -, db₁, hdb₁, db₂, hdb₂, db₃, hcomplete, rfl, rfl⟩ := h
  obtain ⟨ticket, policy, hi⟩ := interaction_ok hlast
  obtain ⟨firstTicket, firstPolicy, hif⟩ := interaction_ok hfirst
  obtain rfl := hif.ticket_unique hi
  obtain rfl : firstRequest = request := hif.request_eq.symm.trans hi.request_eq
  obtain ⟨htouches, htombstone⟩ := complete_ok hcomplete
  exact ⟨row, firstRequest, firstTicket, policy, hi, hopen, firstRow, firstPolicy, hif, p, current, hcurrent, body, hgrant,
    db₁, hdb₁, db₂, hdb₂, htouches, htombstone⟩

/-- A consent denies or accepts. -/
theorem consent_ok {principal : Option AuthPrincipal} {code grantId : String} {granted : Option Grant}
    (h : consent P s first mid text browser csrf principal body code grantId = .ok (db', granted)) :
    (granted = none ∧ denyConsent P s first text browser csrf principal = .ok db') ∨
      ∃ grant, granted = some grant ∧ Nonempty (Accepts P s first mid text code grantId grant db') := by
  unfold consent at h
  split at h
  · simp only [bind_eq_ok, pure_eq_ok, Prod.mk.injEq] at h
    obtain ⟨db, hdb, rfl, rfl⟩ := h
    exact .inl ⟨rfl, hdb⟩
  · simp only [bind_eq_ok, pure_eq_ok, Prod.mk.injEq] at h
    obtain ⟨⟨db, grant⟩, hdb, rfl, rfl⟩ := h
    exact .inr ⟨grant, rfl, acceptConsent_ok hdb⟩

theorem consentGrant_id {ticket : AuthorizationRequest} {current : List Tool} {grantId : String}
    (h : consentGrant P s principal row ticket current body grantId = .ok grant) : grant.id = grantId := by
  simp only [consentGrant, bind_eq_ok, pure_eq_ok] at h
  obtain ⟨-, -, ⟨tools, targets⟩, -, -, -, -, -, -, -, -, -, -, -, -, -, rfl⟩ := h
  rfl

section Accepted

variable {first mid : Snapshot} {text code grantId : String} {grant : Grant}
  (h : Accepts P s first mid text code grantId grant db')
include h

theorem Accepts.evolves : Evolves s.db db' := by
  obtain ⟨t, ht, hdb₁⟩ := insertGrant_ok.mp h.insertGrant
  obtain ⟨t', -, hdb₂⟩ := insertCode_ok.mp h.insertCode
  have hgrants : Evolves s.db { s.db with grants := t } :=
    ⟨.inr rfl, .inr rfl, .refl ClientLe.refl _, .insert GrantLe.refl ht⟩
  rw [hdb₁] at hgrants
  exact (hgrants.trans (hdb₂ ▸ .of_eq rfl rfl rfl rfl)).trans h.touches.evolves

theorem Accepts.follows (hcode : ¬ used (P.hash code)) : Follows used s.db db' := by
  obtain ⟨t, -, hdb₁⟩ := insertGrant_ok.mp h.insertGrant
  have hgrants : Follows used s.db h.db₁ := hdb₁ ▸ .of_eq rfl rfl rfl
  exact (hgrants.andThen (.insertCode h.insertCode hcode)).andThen (h.touches.follows used)

theorem Accepts.interactions : h.db₂.interactions = s.db.interactions ∧ h.db₂.config = s.db.config := by
  obtain ⟨t, -, hdb₁⟩ := insertGrant_ok.mp h.insertGrant
  obtain ⟨t', -, hdb₂⟩ := insertCode_ok.mp h.insertCode
  rw [← hdb₂, ← hdb₁]
  exact ⟨rfl, rfl⟩

theorem Accepts.keeps : Keeps s.out.now s.db db' := by
  intro row hrow hc
  rw [← h.interactions.1] at hrow
  rw [← h.interactions.2]
  exact h.touches.keeps row hrow hc

theorem Accepts.rows : RowsUnder (P.hash text) h.row.expiresAt s.db db' := by
  intro row hrow
  rw [← h.interactions.1]
  exact h.touches.rows row hrow

end Accepted

end LingshuGate.OAuth

import LingshuGate.OAuth.Admin

/-!
# Exchanging, verifying and revoking tokens (`oauth_server.py`)

| here | there |
| --- | --- |
| `token`                | `token` (oauth_server.py:1275); `exchangeCode`, `exchangeRefresh` are its two grant types |
| `sign`                 | `_sign` (oauth_server.py:1253) |
| `claimsOf`, `verify`   | `_claims`, `verify` (oauth_server.py:1351, 1382) |
| `verifiedPrincipal`, `refreshVerifiedPrincipal` | oauth_server.py:1396, 1386 |
| `managementAuthority`  | `management_authority` (oauth_server.py:1434) |
| `revokeToken`, `narrowGrant` | oauth_server.py:1589, 1615 |

`token` answers twice: an exception inside the transaction is the outer error, with no database to commit; the
deferred `error` is the inner one, raised after the commit. `TokenEffect` says all it can do.
-/

namespace LingshuGate.OAuth

open Lib AccessControl AuthStore

variable {D : Type} (P : Params D) (s : Snapshot)

/-! ## The token endpoint -/

/-- The form fields `token` reads. -/
structure TokenFields where
  grantType : Option String
  resource : String := ""
  code : String := ""
  codeVerifier : String := ""
  redirectUri : Option String := none
  refreshToken : String := ""
  scope : Option String := none
  deriving DecidableEq

/-- The values `token` generates: the refresh token, `uuid4` for the family and for `jti`. -/
structure TokenSecrets where
  refresh : String
  familyId : String
  jti : String
  deriving DecidableEq

structure TokenResponse where
  claims : Claims
  kid : String
  expiresIn : Int
  refreshToken : String
  scopes : Finset Scope
  deriving DecidableEq

/-- What the two grant types leave to sign, or the deferred `invalid_grant`. -/
inductive Outcome where
  | signs (db : Db) (grant : Grant) (family : Family)
  | refused (db : Db)

/-- The code row the form names, for this client, callback, resource and verifier. -/
def presentedCode (clientId : String) (fields : TokenFields) : Except Error Code := do
  let row ← expect (s.db.codes.find (P.hash fields.code)) (bad "invalid_grant")
  require (row.clientId = clientId && some row.redirectUri = fields.redirectUri && row.resource = fields.resource &&
    pkceVerifier fields.codeVerifier && P.challenge fields.codeVerifier = row.challenge) (bad "invalid_grant")
  return row

/-- The family of a first exchange. -/
def newFamily (client : Client) (kind : Kind) (grant : Grant) (familyId : String) : Family where
  id := familyId
  grantId := grant.id
  scopes := grant.scopes ∩ client.scopes ∩ kind.allowedScopes
  expiresAt := min (s.out.now + 30 * 86400) grant.expiresAt

/-- `grant_type=authorization_code`. -/
def exchangeCode (client : Client) (kind : Kind) (fields : TokenFields) (familyId : String) : Except Error Outcome := do
  let row ← presentedCode P s client.id fields
  let grant ← activeGrant P s row.grantId client fields.resource
  if row.consumedAt ≠ none then
    return .refused (s.db.revokeFamilies (fun f => f.grantId = grant.id && f.revokedAt = none) s.out.now)
  else
    require (s.out.now < row.expiresAt) (bad "invalid_grant")
    let family := newFamily s client kind grant familyId
    let db ← (s.db.consumeCode row.codeHash s.out.now).insertFamily family
    return .signs db grant family

/-- The refresh row the form names and its family, `refresh JOIN families`. -/
def presentedRefresh (fields : TokenFields) : Except Error (Refresh × Family) := do
  let row ← expect (s.db.refresh.find (P.hash fields.refreshToken)) (bad "invalid_grant")
  let family ← expect (s.db.families.find row.familyId) (bad "invalid_grant")
  return (row, family)

/-- `scope_set(fields["scope"]) if "scope" in fields else sorted(ceiling)`. -/
def askedScopes (ceiling : Finset Scope) : Option String → Except Error (Finset Scope)
  | some text => scopeSet text
  | none => .ok ceiling

/-- The scopes of a refreshed token, inside the ceiling. -/
def refreshScopes (kind : Kind) (ceiling : Finset Scope) (scope : Option String) : Except Error (Finset Scope) := do
  let scopes ← askedScopes ceiling scope
  require (scopes ⊆ ceiling && scopes ≠ ∅ && (kind ≠ .management || Scope.operationsManage ∈ scopes)) (bad "invalid_scope")
  return scopes

/-- `grant_type=refresh_token`. -/
def exchangeRefresh (client : Client) (kind : Kind) (fields : TokenFields) : Except Error Outcome := do
  let (row, family) ← presentedRefresh P s fields
  let grant ← activeGrant P s family.grantId client fields.resource
  if row.consumedAt ≠ none then
    return .refused (s.db.revokeFamilies (·.id = family.id) s.out.now)
  else
    require (family.revokedAt = none && s.out.now < family.expiresAt) (bad "invalid_grant")
    let scopes ← refreshScopes kind (family.scopes ∩ grant.scopes ∩ client.scopes ∩ kind.allowedScopes) fields.scope
    if 10000 ≤ s.db.refresh.count (·.familyId = family.id) then
      return .refused (s.db.revokeFamilies (·.id = family.id) s.out.now)
    else
      return .signs ((s.db.consumeRefresh row.tokenHash s.out.now).setFamilyScopes family.id scopes) grant
        { family with scopes := scopes }

/-- The branch on `grant_type`. -/
def exchange (client : Client) (kind : Kind) (fields : TokenFields) (familyId : String) : Except Error Outcome :=
  if fields.grantType = some "authorization_code" then exchangeCode P s client kind fields familyId
  else if fields.grantType = some "refresh_token" then exchangeRefresh P s client kind fields
  else .error (bad "unsupported_grant_type")

/-- `_sign`, in the transaction that already consumed the code or token. -/
def sign (grant : Grant) (family : Family) (jti : String) : Except Error (Claims × String × Int) := do
  let key ← expect (activeKey s.db) (.oauth "signing_key_unavailable" 503)
  require s.out.signer (.oauth "signing_key_unavailable" 503)
  let expiresAt := min (s.out.now + 600) (min grant.expiresAt family.expiresAt)
  return (⟨s.db.config.issuer, grant.userId, grant.resource, grant.clientId, grant.id, family.id,
    " ".intercalate (scopeTexts family.scopes), s.out.now, s.out.now, expiresAt, jti, "access"⟩, key.kid,
    expiresAt - s.out.now)

/-- `_sign` and the insertion of the new refresh token, or the deferred error. -/
def conclude (secrets : TokenSecrets) : Outcome → Except Error (Db × Except Error TokenResponse)
  | .refused db => .ok (db, .error (bad "invalid_grant"))
  | .signs db grant family => do
    let (claims, kid, expiresIn) ← sign s grant family secrets.jti
    let db ← db.insertRefresh ⟨P.hash secrets.refresh, family.id, none, s.out.now⟩
    return (db, .ok ⟨claims, kid, expiresIn, secrets.refresh, family.scopes⟩)

/-- `token`. -/
def token (fields : TokenFields) (clientId secret : String) (secrets : TokenSecrets) :
    Except Error (Db × Except Error TokenResponse) := do
  let _ ← readyConfig P s
  let client ← authenticateClient P s clientId secret
  let policy ← resourcePolicy P s fields.resource
  require (client.resources.contains policy.kind) (bad "invalid_target")
  conclude P s secrets (← exchange P s client policy.kind fields secrets.familyId)

/-! ## Verification -/

/-- `_claims`: the signature, the audience and issuer of the configured resource, and the form of the claims. -/
def claimsOf (text resource : String) : Except Error Claims := do
  let policy ← resourcePolicy P s resource
  require (text ≠ "" && text.length ≤ 16384 && text.toList.count '.' = 2) (.oauth "invalid_token" 401)
  let jwt ← expect (P.jwt text) (.oauth "invalid_token" 401)
  require (jwt.alg = "RS256" && jwt.typ = "at+jwt" && !jwt.foreignKey) (.oauth "invalid_token" 401)
  require ((s.db.keys.find jwt.kid).any fun k => k.active || k.retireAt.any (s.out.now < ·)) (.oauth "invalid_token" 401)
  let claims := jwt.claims
  require (P.signed jwt.kid text && claims.aud = resource && claims.iss = policy.config.issuer && s.out.now < claims.exp &&
    claims.nbf ≤ s.out.now && claims.iat ≤ s.out.now) (.oauth "invalid_token" 401)
  require (claims.tokenUse = "access" && claims.exp - claims.iat ≤ 600 &&
    [claims.sub, claims.clientId, claims.gid, claims.fid, claims.jti].all fun t => 1 ≤ t.length && t.length ≤ 256)
    (.oauth "invalid_token" 401)
  let _ ← scopeSet claims.scope
  return claims

/-- The proof `_verified_principal` rechecks; a claim that is `None` finds no row. -/
structure Proof where
  exp : Int
  clientId : Option String
  gid : Option String
  aud : Option String
  fid : Option String
  sub : String
  scope : String
  iss : Option String
  deriving DecidableEq

def Claims.proof (c : Claims) : Proof :=
  ⟨c.exp, some c.clientId, some c.gid, some c.aud, some c.fid, c.sub, c.scope, some c.iss⟩

/-- `None` as an id. -/
def rowOf {α : Type} (find : String → Option α) (id : Option String) : Option α := id.bind find

/-- The transaction of `_verified_principal`. -/
def verifiedRows (proof : Proof) : Except Error (Client × Grant × Family × User) := do
  require (s.out.now < proof.exp) (.oauth "invalid_token" 401)
  let client ← expect (rowOf (enabledClient s) proof.clientId) (.oauth "invalid_token" 401)
  let gid ← expect proof.gid (bad "invalid_grant")
  let aud ← expect proof.aud (bad "invalid_target")
  let grant ← activeGrant P s gid client aud
  let family ← expect ((rowOf s.db.families.find proof.fid).filter (·.grantId = grant.id)) (.oauth "invalid_token" 401)
  require (proof.sub = grant.userId && family.revokedAt = none && s.out.now < family.expiresAt) (.oauth "invalid_token" 401)
  let user ← expect (s.out.auth.users.find? (·.id = grant.userId)) (.oauth "invalid_token" 401)
  return (client, grant, family, user)

/-- The owner of a verified token, by the kind of its resource. -/
def verifiedOwner (later : Snapshot) (user : User) : Kind → Except Error AuthPrincipal
  | .management => do
    let principal ← liftHttp (buildPrincipal later.out.auth user .session none [])
    managementOwner later principal.id
  | .business => do
    let principal ← liftHttp (buildPrincipal later.out.auth user .session none [])
    require (hasControlPermission principal "credentials.manage.self") (.oauth "invalid_token" 401)
    return principal

/-- `scopes` of the principal: the claim, the grant, the client, the family and the resource. -/
def verifiedScopes (claimed : Finset Scope) (client : Client) (grant : Grant) (family : Family) (kind : Kind) : Finset Scope :=
  claimed ∩ grant.scopes ∩ client.scopes ∩ family.scopes ∩ kind.allowedScopes

/-- The `replace(principal, …)` of `_verified_principal`. -/
def oauthPrincipal (owner : AuthPrincipal) (proof : Proof) (client : Client) (grant : Grant) (family : Family)
    (scopes : Finset Scope) (tools : List Tool) : AuthPrincipal :=
  { owner with
    authType := .oauth, scopes := scopeTexts scopes, delegatedScopes := some (scopeTexts scopes),
    externalGrantId := some grant.id, externalToolIds := tools.map Tool.id,
    externalServerIds := (tools.map Tool.serverId).dedup.insertionSort (· ≤ ·),
    externalAccess := [Access.read, .write].filter fun a => (tools.map Tool.access).contains a,
    externalExpiresAt := .instant (min proof.exp grant.expiresAt),
    externalRatePerMinute := grant.ratePerMinute, externalConcurrency := grant.concurrency,
    oauthBuiltin := true, oauthIssuer := proof.iss, oauthResource := proof.aud, oauthClientId := some client.id,
    oauthFamilyId := some family.id, oauthTokenExpiresAt := proof.exp, oauthTargetRevision := grant.targetRevision,
    oauthToolSnapshots := tools.map fun t => (t.id, t.snapshot) }

/-- `_verified_principal`; `later` is what it reads after its transaction. -/
def verifiedPrincipal (later : Snapshot) (proof : Proof) : Except Error AuthPrincipal := do
  let (client, grant, family, user) ← verifiedRows P s proof
  let policy ← resourcePolicy P later (proof.aud.getD "")
  let owner ← verifiedOwner later user policy.kind
  let claimed ← scopeSet proof.scope
  let scopes := verifiedScopes claimed client grant family policy.kind
  require (policy.kind ≠ .management || Scope.operationsManage ∈ scopes) (.oauth "invalid_token" 401)
  let tools ← grantTools P later owner grant scopes
  return oauthPrincipal owner proof client grant family scopes tools

/-- `verify`; `early` is what `_claims` read before the transaction. -/
def verify (early later : Snapshot) (text : String) (expectedResource : Option String) : Except Error (Claims × AuthPrincipal) := do
  let config ← readyConfig P early
  let claims ← claimsOf P early text (if present expectedResource then expectedResource.getD "" else config.resource)
  return (claims, ← verifiedPrincipal P s later claims.proof)

/-- `refresh_verified_principal`. -/
def refreshVerifiedPrincipal (early later : Snapshot) (p : AuthPrincipal) : Except Error AuthPrincipal := do
  require (p.oauthBuiltin && p.authType = .oauth && p.oauthIssuer = some early.db.config.issuer) (.oauth "invalid_token" 401)
  verifiedPrincipal P s later ⟨p.oauthTokenExpiresAt, p.oauthClientId, p.externalGrantId, p.oauthResource,
    p.oauthFamilyId, p.id, " ".intercalate p.scopes, p.oauthIssuer⟩

/-! ## Management authority -/

/-- `HTTP_MANAGEMENT_ACTIONS`, `CREDENTIAL_MANAGEMENT_ACTIONS` and `MANAGEMENT_ACTIONS` (oauth_management.py:26). -/
def httpManagementActions : List String := ["create", "update", "delete", "revoke_trust", "restore_trust"]

def credentialManagementActions : List String :=
  ["credential.read", "credential.create", "credential.update", "credential.delete"]

def managementActions : List String := httpManagementActions ++ credentialManagementActions ++ ["test"]

/-- `management_tool_actions`. -/
def managementToolActions (toolId : String) : List String :=
  if toolId = "gate_http_mcp_test" then ["test"]
  else if toolId ∈ credentialManagementToolIds then credentialManagementActions
  else if toolId ∈ httpManagementToolIds then httpManagementActions
  else ["create", "update"]

/-- What the dispatcher asks `management_authority`. -/
structure AuthorityRequest where
  toolId : String
  write : Bool := false
  targetId : Option String := none
  action : Option String := none
  deriving DecidableEq

/-- The last check of `management_authority`. -/
def targetAllowed (grant : Grant) (request : AuthorityRequest) : Bool :=
  match request.targetId with
  | none => true
  | some target =>
    let actions := (Py.dictGet grant.managementTargets target |>.getD []).filter
      (managementToolActions request.toolId).contains
    actions ≠ [] && request.action.all actions.contains

/-- `management_authority`; the context is the principal a verification returned. -/
def managementAuthority (context : AuthPrincipal) (request : AuthorityRequest) : Except Error Grant := do
  let resource := P.managementResource s.db.config.resource
  let policy ← resourcePolicy P s resource
  require (context.authType = .oauth && context.oauthBuiltin && policy.kind = .management &&
    context.oauthIssuer = some policy.config.issuer && context.oauthResource = some resource &&
    s.out.now < context.oauthTokenExpiresAt && managementToolIds.contains request.toolId)
    (.oauth "management_authorization_invalid" 403)
  let client ← expect (rowOf (enabledClient s) context.oauthClientId) (.oauth "management_authorization_invalid" 403)
  let grant ← activeGrant P s (context.externalGrantId.getD "") client resource
  let family ← expect ((rowOf s.db.families.find context.oauthFamilyId).filter (·.grantId = grant.id))
    (.oauth "management_authorization_invalid" 403)
  require (grant.userId = context.id && family.revokedAt = none && s.out.now < family.expiresAt &&
    context.oauthTargetRevision = grant.targetRevision) (.oauth "management_authorization_invalid" 403)
  let owner ← managementOwner s context.id
  let scopes := (grant.scopes ∩ client.scopes ∩ family.scopes).filter fun scope =>
    context.scopes.contains scope.text && context.permissions.contains scope.text &&
      owner.permissions.contains scope.text && context.delegatedScopes.all (·.contains scope.text)
  require ((managementToolPermissions request.toolId).all fun code => (scopeTexts scopes).contains code)
    (.oauth "management_scope_insufficient" 403)
  require (!request.write || Scope.toolsInvoke ∈ scopes) (.oauth "management_scope_insufficient" 403)
  let tools ← grantTools P s owner grant scopes
  let saved ← expect (toolGet grant.tools request.toolId) (.oauth "management_tool_not_authorized" 403)
  let offered ← expect (toolGet tools request.toolId) (.oauth "management_tool_not_authorized" 403)
  require (toolScopeMatches saved offered && Py.dictGet context.oauthToolSnapshots request.toolId = some offered.snapshot &&
    (offered.access ≠ .write || Scope.toolsInvoke ∈ scopes)) (.oauth "management_tool_not_authorized" 403)
  require (targetAllowed grant request) (.oauth "management_target_not_authorized" 403)
  return grant

/-! ## Revocation and narrowing -/

/-- The claims of an access token this client holds, read without raising. -/
def revokedClaims (text clientId : String) : Option Claims :=
  if text.toList.count '.' = 2 && text.length ≤ 16384 then do
    let jwt ← P.jwt text
    let bound ← (s.db.grants.find jwt.claims.gid).filter (·.clientId = clientId)
    (claimsOf P s text bound.resource).toOption.filter (·.clientId = clientId)
  else none

/-- The family a token belongs to: by its claims, else by its refresh row. -/
def revokedFamily (text clientId : String) : Option String :=
  match revokedClaims P s text clientId with
  | some claims => some claims.fid
  | none => do
    let row ← s.db.refresh.find (P.hash text)
    let family ← s.db.families.find row.familyId
    let _ ← (s.db.grants.find family.grantId).filter (·.clientId = clientId)
    return family.id

/-- `revoke_token`: an unknown token is a success too. -/
def revokeToken (text clientId secret : String) : Except Error Db := do
  let _ ← readyConfig P s
  let _ ← authenticateClient P s clientId secret
  match revokedFamily P s text clientId with
  | none => return s.db
  | some familyId => return s.db.revokeFamilies (fun f => f.id = familyId && f.revokedAt = none) s.out.now

/-- `{"tools.read" if access == "read" else "tools.invoke" for …}`. -/
def toolScopes (tools : List Tool) : Finset Scope := (tools.map fun t => accessScope t.access).toFinset

/-- `{"operations.manage"} | ({"tools.invoke"} if …) | ({"credentials.manage.system"} if …)`. -/
def managementToolScopes (tools : List Tool) (scopes : Finset Scope) : Finset Scope :=
  {Scope.operationsManage} ∪ (if Scope.toolsInvoke ∈ scopes then {.toolsInvoke} else ∅) ∪
    (if tools.any fun t => credentialManagementToolIds.contains t.id then {.credentialsManageSystem} else ∅)

/-- The scopes of a narrowed grant. -/
def narrowedScopes (grant : Grant) (tools : List Tool) : Finset Scope :=
  let scopes := toolScopes tools ∩ grant.scopes
  if grant.resource = P.managementResource s.db.config.resource then managementToolScopes tools scopes ∩ grant.scopes
  else scopes

structure NarrowRequest where
  revision : Nat
  tools : List String
  expiresAt : Int
  ratePerMinute : Int
  concurrency : Int
  deriving DecidableEq

/-- The tools a narrowed grant keeps. -/
def retainedTools (grant : Grant) (ids : List String) : List Tool := ids.eraseDups.filterMap (toolGet grant.tools)

/-- `UPDATE gate_oauth_grants SET revoked_at=COALESCE(revoked_at,?),revision=revision+1`. -/
def revokedGrant (now : Int) (g : Grant) : Grant :=
  { g with revokedAt := some (g.revokedAt.getD now), revision := g.revision + 1 }

/-- `UPDATE gate_oauth_grants SET tools_json=?,scopes_json=?,expires_at=?,…`. -/
def narrowedGrant (tools : List Tool) (scopes : Finset Scope) (request : NarrowRequest) (g : Grant) : Grant :=
  { g with
    tools := tools, scopes := scopes, expiresAt := request.expiresAt, ratePerMinute := request.ratePerMinute,
    concurrency := request.concurrency, revision := g.revision + 1 }

/-- `narrow_grant`. -/
def narrowGrant (userId grantId : String) (request : NarrowRequest) (revoke : Bool) : Except Error Db := do
  let grant ← expect ((s.db.grants.find grantId).filter (·.userId = userId)) (.oauth "grant_not_found" 404)
  require (grant.revision = request.revision) (.oauth "revision_conflict" 409)
  if revoke then
    return (s.db.updateGrant grantId (revokedGrant s.out.now) fun _ => rfl).revokeFamilies
      (fun f => f.grantId = grantId && f.revokedAt = none) s.out.now
  else
    require (grant.revokedAt = none && request.tools ≠ [] && (request.tools.all fun id => (toolGet grant.tools id).isSome) &&
      s.out.now < request.expiresAt && request.expiresAt ≤ grant.expiresAt && 1 ≤ request.ratePerMinute &&
      request.ratePerMinute ≤ grant.ratePerMinute && 1 ≤ request.concurrency && request.concurrency ≤ grant.concurrency)
      (bad "grant_can_only_narrow")
    let tools := retainedTools grant request.tools
    return s.db.updateGrant grantId (narrowedGrant tools (narrowedScopes P s grant tools) request) fun _ => rfl

/-! ## What the token endpoint does -/

variable {P s} {used : String → Prop} {db' : Db}

variable {fields : TokenFields} {clientId : String}

theorem presentedCode_ok {row : Code} (h : presentedCode P s clientId fields = .ok row) :
    row ∈ s.db.codes ∧ row.codeHash = P.hash fields.code ∧ row.clientId = clientId ∧ row.resource = fields.resource := by
  simp only [presentedCode, bind_eq_ok, expect_eq_ok, require_eq_ok, pure_eq_ok, Bool.and_eq_true, decide_eq_true_eq] at h
  obtain ⟨row', hfind, -, hcheck, rfl⟩ := h
  obtain ⟨hmem, hhash⟩ := Table.find_eq_some.mp hfind
  exact ⟨hmem, hhash, hcheck.1.1.1.1, hcheck.1.1.2⟩

variable {family : Family}

theorem presentedRefresh_ok {row : Refresh} (h : presentedRefresh P s fields = .ok (row, family)) :
    row ∈ s.db.refresh ∧ row.tokenHash = P.hash fields.refreshToken ∧ family ∈ s.db.families ∧ family.id = row.familyId := by
  simp only [presentedRefresh, bind_eq_ok, expect_eq_ok, pure_eq_ok, Prod.mk.injEq] at h
  obtain ⟨row', hfind, family', hfamily, rfl, rfl⟩ := h
  obtain ⟨hmem, hhash⟩ := Table.find_eq_some.mp hfind
  obtain ⟨hfmem, hfid⟩ := Table.find_eq_some.mp hfamily
  exact ⟨hmem, hhash, hfmem, hfid⟩

theorem refreshScopes_ok {kind : Kind} {ceiling scopes : Finset Scope} {scope : Option String}
    (h : refreshScopes kind ceiling scope = .ok scopes) : scopes ⊆ ceiling := by
  simp only [refreshScopes, bind_eq_ok, require_eq_ok, pure_eq_ok, Bool.and_eq_true, decide_eq_true_eq] at h
  obtain ⟨scopes', -, -, hcheck, rfl⟩ := h
  exact hcheck.1.1

/-- A code of this client and resource, under an active grant. -/
structure PresentsCode (P : Params D) (s : Snapshot) (clientId : String) (fields : TokenFields) (row : Code)
    (grant : Grant) (client : Client) : Prop where
  grantType : fields.grantType = some "authorization_code"
  mem : row ∈ s.db.codes
  codeHash : row.codeHash = P.hash fields.code
  clientId : row.clientId = clientId
  resource : row.resource = fields.resource
  grantId : grant.id = row.grantId
  active : Active P s grant client fields.resource

/-- A refresh token of this client, under an active grant. -/
structure PresentsRefresh (P : Params D) (s : Snapshot) (fields : TokenFields) (row : Refresh) (family : Family)
    (grant : Grant) (client : Client) : Prop where
  grantType : fields.grantType = some "refresh_token"
  mem : row ∈ s.db.refresh
  tokenHash : row.tokenHash = P.hash fields.refreshToken
  family_mem : family ∈ s.db.families
  familyId : family.id = row.familyId
  grantId : grant.id = family.grantId
  active : Active P s grant client fields.resource

/-- Everything a `token` call that commits can do. -/
inductive TokenEffect (P : Params D) (s : Snapshot) (clientId : String) (fields : TokenFields) (secrets : TokenSecrets) :
    Db → Except Error TokenResponse → Prop
  | replayedCode {row : Code} {grant : Grant} {client : Client} :
    PresentsCode P s clientId fields row grant client → row.consumedAt ≠ none →
    TokenEffect P s clientId fields secrets
      (s.db.revokeFamilies (fun f => f.grantId = grant.id && f.revokedAt = none) s.out.now) (.error (bad "invalid_grant"))
  | created {row : Code} {grant : Grant} {client : Client} {policy : ResourcePolicy} {db₁ db₂ : Db}
      {response : TokenResponse} :
    PresentsCode P s clientId fields row grant client → row.consumedAt = none →
    client ∈ s.db.clients → client.id = clientId → resourcePolicy P s fields.resource = .ok policy →
    (s.db.consumeCode row.codeHash s.out.now).insertFamily (newFamily s client policy.kind grant secrets.familyId) = .ok db₁ →
    db₁.insertRefresh ⟨P.hash secrets.refresh, secrets.familyId, none, s.out.now⟩ = .ok db₂ →
    TokenEffect P s clientId fields secrets db₂ (.ok response)
  | replayedRefresh {row : Refresh} {family : Family} {grant : Grant} {client : Client} :
    PresentsRefresh P s fields row family grant client → row.consumedAt ≠ none →
    TokenEffect P s clientId fields secrets (s.db.revokeFamilies (·.id = family.id) s.out.now) (.error (bad "invalid_grant"))
  | exhausted {row : Refresh} {family : Family} {grant : Grant} {client : Client} :
    PresentsRefresh P s fields row family grant client → row.consumedAt = none →
    10000 ≤ s.db.refresh.count (·.familyId = family.id) →
    TokenEffect P s clientId fields secrets (s.db.revokeFamilies (·.id = family.id) s.out.now) (.error (bad "invalid_grant"))
  | rotated {row : Refresh} {family : Family} {grant : Grant} {client : Client} {scopes : Finset Scope} {db₂ : Db}
      {response : TokenResponse} :
    PresentsRefresh P s fields row family grant client → row.consumedAt = none → family.revokedAt = none →
    scopes ⊆ family.scopes →
    ((s.db.consumeRefresh row.tokenHash s.out.now).setFamilyScopes family.id scopes).insertRefresh
      ⟨P.hash secrets.refresh, family.id, none, s.out.now⟩ = .ok db₂ →
    TokenEffect P s clientId fields secrets db₂ (.ok response)

variable {answer : Except Error TokenResponse} {secrets : TokenSecrets}

variable {grant : Grant}

theorem conclude_signs {db : Db} (h : conclude P s secrets (.signs db grant family) = .ok (db', answer)) :
    db.insertRefresh ⟨P.hash secrets.refresh, family.id, none, s.out.now⟩ = .ok db' ∧ ∃ response, answer = .ok response := by
  simp only [conclude, bind_eq_ok, pure_eq_ok, Prod.mk.injEq] at h
  obtain ⟨signed, -, db₂, hins, rfl, rfl⟩ := h
  exact ⟨hins, _, rfl⟩

variable {client : Client}

theorem exchangeCode_effect {policy : ResourcePolicy} {outcome : Outcome} (htype : fields.grantType = some "authorization_code")
    (hclient : client ∈ s.db.clients) (hpolicy : resourcePolicy P s fields.resource = .ok policy)
    (h : exchangeCode P s client policy.kind fields secrets.familyId = .ok outcome)
    (hc : conclude P s secrets outcome = .ok (db', answer)) : TokenEffect P s client.id fields secrets db' answer := by
  simp only [exchangeCode, bind_eq_ok] at h
  obtain ⟨row, hrow, grant, hgrant, h⟩ := h
  obtain ⟨hmem, hhash, hcid, hres⟩ := presentedCode_ok hrow
  obtain ⟨hactive, hgid⟩ := activeGrant_ok hgrant
  have hpresents : PresentsCode P s client.id fields row grant client := ⟨htype, hmem, hhash, hcid, hres, hgid, hactive⟩
  split at h
  · rename_i hconsumed
    obtain rfl := pure_eq_ok.mp h
    simp only [conclude, Except.ok.injEq, Prod.mk.injEq] at hc
    obtain ⟨rfl, rfl⟩ := hc
    exact .replayedCode hpresents hconsumed
  · rename_i hconsumed
    simp only [bind_eq_ok, require_eq_ok, pure_eq_ok] at h
    obtain ⟨-, -, db₁, hfamily, rfl⟩ := h
    obtain ⟨hins, response, rfl⟩ := conclude_signs hc
    exact .created hpresents (by simpa using hconsumed) hclient rfl hpolicy hfamily hins

theorem exchangeRefresh_effect {kind : Kind} {outcome : Outcome} (htype : fields.grantType = some "refresh_token")
    (h : exchangeRefresh P s client kind fields = .ok outcome)
    (hc : conclude P s secrets outcome = .ok (db', answer)) (clientId : String) :
    TokenEffect P s clientId fields secrets db' answer := by
  simp only [exchangeRefresh, bind_eq_ok] at h
  obtain ⟨⟨row, family⟩, hrow, grant, hgrant, h⟩ := h
  obtain ⟨hmem, hhash, hfmem, hfid⟩ := presentedRefresh_ok hrow
  obtain ⟨hactive, hgid⟩ := activeGrant_ok hgrant
  have hpresents : PresentsRefresh P s fields row family grant client := ⟨htype, hmem, hhash, hfmem, hfid, hgid, hactive⟩
  split at h
  · rename_i hconsumed
    obtain rfl := pure_eq_ok.mp h
    simp only [conclude, Except.ok.injEq, Prod.mk.injEq] at hc
    obtain ⟨rfl, rfl⟩ := hc
    exact .replayedRefresh hpresents hconsumed
  rename_i hconsumed
  have hnone : row.consumedAt = none := by simpa using hconsumed
  simp only [bind_eq_ok, require_eq_ok, Bool.and_eq_true, decide_eq_true_eq] at h
  obtain ⟨-, ⟨hrevoked, -⟩, scopes, hscopes, h⟩ := h
  split at h
  · rename_i hcount
    obtain rfl := pure_eq_ok.mp h
    simp only [conclude, Except.ok.injEq, Prod.mk.injEq] at hc
    obtain ⟨rfl, rfl⟩ := hc
    exact .exhausted hpresents hnone hcount
  obtain rfl := pure_eq_ok.mp h
  obtain ⟨hins, response, rfl⟩ := conclude_signs hc
  have hceiling := refreshScopes_ok hscopes
  refine .rotated hpresents hnone hrevoked ?_ hins
  intro x hx
  have := hceiling hx
  simp only [Finset.mem_inter] at this
  exact this.1.1.1

/-- A `token` call that commits does one of five things. -/
theorem token_effect {clientId secret : String}
    (h : token P s fields clientId secret secrets = .ok (db', answer)) : TokenEffect P s clientId fields secrets db' answer := by
  simp only [token, bind_eq_ok, require_eq_ok] at h
  obtain ⟨-, -, client, hclient, policy, hpolicy, -, -, outcome, hout, hc⟩ := h
  obtain ⟨hmem, rfl, -⟩ := authenticateClient_ok hclient
  simp only [exchange] at hout
  split at hout
  · exact exchangeCode_effect ‹_› hmem hpolicy hout hc
  · split at hout
    · exact exchangeRefresh_effect ‹_› hout hc client.id
    · cases hout

/-- An authenticated client that presents a consumed refresh token under its active grant. -/
structure ReplaysRefresh (P : Params D) (s : Snapshot) (clientId secret : String) (fields : TokenFields) (family : Family) :
    Prop where
  grantType : fields.grantType = some "refresh_token"
  row : ∃ row ∈ s.db.refresh, row.tokenHash = P.hash fields.refreshToken ∧ row.consumedAt ≠ none ∧ row.familyId = family.id
  family_mem : family ∈ s.db.families
  client : ∃ client grant, authenticateClient P s clientId secret = .ok client ∧
    activeGrant P s family.grantId client fields.resource = .ok grant

/-- The replay revokes the family, and commits although the client gets `invalid_grant`. -/
theorem token_replays {clientId secret : String} (secrets : TokenSecrets) (h : ReplaysRefresh P s clientId secret fields family) :
    token P s fields clientId secret secrets =
      .ok (s.db.revokeFamilies (·.id = family.id) s.out.now, .error (bad "invalid_grant")) := by
  obtain ⟨client, grant, hclient, hgrant⟩ := h.client
  obtain ⟨row, hrow, hhash, hconsumed, hid⟩ := h.row
  obtain ⟨policy, hpolicy, hkind⟩ := (activeGrant_ok hgrant).1.policy
  obtain ⟨config, hconfig⟩ := resourcePolicy_ready hpolicy
  have hpresented : presentedRefresh P s fields = .ok (row, family) := by
    simp only [presentedRefresh, bind_eq_ok, expect_eq_ok, pure_eq_ok, Prod.mk.injEq]
    exact ⟨row, Table.find_eq_some.mpr ⟨hrow, hhash⟩, family, Table.find_eq_some.mpr ⟨h.family_mem, hid.symm⟩, rfl, rfl⟩
  have hexchange : exchange P s client policy.kind fields secrets.familyId =
      .ok (.refused (s.db.revokeFamilies (·.id = family.id) s.out.now)) := by
    simp only [exchange, h.grantType, exchangeRefresh]
    rw [if_neg (by decide), if_pos trivial, bind_eq_ok]
    refine ⟨(row, family), hpresented, bind_eq_ok.mpr ⟨grant, hgrant, ?_⟩⟩
    rw [if_pos hconsumed]
    rfl
  simp only [token, bind_eq_ok, require_eq_ok]
  exact ⟨config, hconfig, client, hclient, policy, hpolicy, (), hkind, _, hexchange, rfl⟩

theorem TokenEffect.evolves (h : TokenEffect P s clientId fields secrets db' answer) : Evolves s.db db' := by
  cases h with
  | replayedCode => exact .of_eq rfl rfl rfl rfl
  | created _ _ _ _ _ hfamily hrefresh =>
    obtain ⟨t, -, rfl⟩ := insertFamily_ok.mp hfamily
    obtain ⟨t', -, rfl⟩ := insertRefresh_ok.mp hrefresh
    exact .of_eq rfl rfl rfl rfl
  | replayedRefresh | exhausted => exact .of_eq rfl rfl rfl rfl
  | rotated _ _ _ _ hrefresh =>
    obtain ⟨t', -, rfl⟩ := insertRefresh_ok.mp hrefresh
    exact .of_eq rfl rfl rfl rfl

/-- An exchange leaves interactions, grants and confirmations alone, and its codes have the digests they had. -/
theorem TokenEffect.others (h : TokenEffect P s clientId fields secrets db' answer) :
    db'.interactions = s.db.interactions ∧ db'.grants = s.db.grants ∧ db'.confirmations = s.db.confirmations ∧
      Table.Continues CodeLe (fun _ => True) s.db.codes db'.codes := by
  cases h with
  | replayedCode | replayedRefresh | exhausted => exact ⟨rfl, rfl, rfl, .refl CodeLe.refl _⟩
  | created _ _ _ _ _ hfamily hrefresh =>
    obtain ⟨t, -, rfl⟩ := insertFamily_ok.mp hfamily
    obtain ⟨t', -, rfl⟩ := insertRefresh_ok.mp hrefresh
    exact ⟨rfl, rfl, rfl, Follows.consumeCode.codes⟩
  | rotated _ _ _ _ hrefresh =>
    obtain ⟨t', -, rfl⟩ := insertRefresh_ok.mp hrefresh
    exact ⟨rfl, rfl, rfl, .refl CodeLe.refl _⟩

theorem TokenEffect.follows (h : TokenEffect P s clientId fields secrets db' answer)
    (hfamilyId : ¬ used secrets.familyId) (hrefreshHash : ¬ used (P.hash secrets.refresh)) : Follows used s.db db' := by
  cases h with
  | replayedCode => exact .revokeFamilies
  | created _ _ _ _ _ hfamily hrefresh =>
    exact (Follows.consumeCode.andThen (.insertFamily hfamily hfamilyId)).andThen (.insertRefresh hrefresh hrefreshHash)
  | replayedRefresh | exhausted => exact .revokeFamilies
  | @rotated row family _ _ scopes _ _ hpresents _ _ hscopes hrefresh =>
    refine (Follows.consumeRefresh.andThen (.setFamilyScopes ?_)).andThen (.insertRefresh hrefresh hrefreshHash)
    intro f hf hid
    rw [Table.eq_of_key hf hpresents.family_mem hid]
    exact hscopes

/-! ## What revocation and narrowing do -/

theorem revokeToken_ok {text clientId secret : String} (h : revokeToken P s text clientId secret = .ok db') :
    ∃ cond, db' = s.db.revokeFamilies cond s.out.now ∧
      ∀ f, revokedFamily P s text clientId = some f.id → f.revokedAt = none → cond f = true := by
  simp only [revokeToken, bind_eq_ok] at h
  obtain ⟨-, -, -, -, h⟩ := h
  split at h
  · rename_i hnone
    obtain rfl := pure_eq_ok.mp h
    refine ⟨fun _ => false, by simp [Db.revokeFamilies, Table.update], ?_⟩
    intro f hf
    rw [hnone] at hf
    cases hf
  rename_i familyId hsome
  obtain rfl := pure_eq_ok.mp h
  refine ⟨_, rfl, ?_⟩
  intro f hf hlive
  rw [hsome] at hf
  simp [Option.some.inj hf, hlive]

theorem narrowedScopes_subset (grant : Grant) (tools : List Tool) : narrowedScopes P s grant tools ⊆ grant.scopes := by
  simp only [narrowedScopes]
  split
  · exact Finset.inter_subset_right
  · exact Finset.inter_subset_right

variable {userId grantId : String} {request : NarrowRequest}

variable {revoke : Bool}

/-- A revoked grant takes its families with it, a narrowed one shrinks. -/
theorem narrowGrant_ok (h : narrowGrant P s userId grantId request revoke = .ok db') : ∃ grant ∈ s.db.grants, grant.id = grantId ∧
      ((revoke = true ∧ db' = (s.db.updateGrant grantId (revokedGrant s.out.now) fun _ => rfl).revokeFamilies
          (fun f => f.grantId = grantId && f.revokedAt = none) s.out.now) ∨
        (revoke = false ∧ ∃ tools scopes, scopes ⊆ grant.scopes ∧ request.expiresAt ≤ grant.expiresAt ∧
          db' = s.db.updateGrant grantId (narrowedGrant tools scopes request) fun _ => rfl)) := by
  simp only [narrowGrant, bind_eq_ok, expect_eq_ok, require_eq_ok] at h
  obtain ⟨grant, hgrant, -, -, h⟩ := h
  obtain ⟨hmem, hid⟩ := Table.find_eq_some.mp (Option.filter_eq_some_iff.mp hgrant).1
  refine ⟨grant, hmem, hid, ?_⟩
  split at h
  · exact .inl ⟨‹_›, (pure_eq_ok.mp h).symm⟩
  · rename_i hkeep
    simp only [bind_eq_ok, require_eq_ok, pure_eq_ok, Bool.and_eq_true, decide_eq_true_eq] at h
    obtain ⟨-, hcheck, rfl⟩ := h
    exact .inr ⟨by simpa using hkeep, _, _, narrowedScopes_subset grant _, hcheck.1.1.1.1.2, rfl⟩

theorem revokedGrant_le (now : Int) (g : Grant) : GrantLe g (revokedGrant now g) :=
  ⟨rfl, rfl, rfl, rfl, fun _ h => h, le_refl _, fun _ => by simp [revokedGrant], .inl (Nat.lt_succ_self _)⟩

theorem narrowGrant_evolves (h : narrowGrant P s userId grantId request revoke = .ok db') : Evolves s.db db' := by
  obtain ⟨grant, hmem, hid, ⟨-, rfl⟩ | ⟨-, tools, scopes, hscopes, hexpires, rfl⟩⟩ := narrowGrant_ok h
  · have hrevoke : Evolves s.db (s.db.updateGrant grantId (revokedGrant s.out.now) fun _ => rfl) := by
      refine .updateGrant ?_
      intro g _ _
      exact revokedGrant_le s.out.now g
    exact hrevoke.trans (.of_eq rfl rfl rfl rfl)
  · refine .updateGrant ?_
    intro g hg hgid
    obtain rfl := Table.eq_of_key hg hmem (hgid.trans hid.symm)
    exact ⟨rfl, rfl, rfl, rfl, hscopes, hexpires, fun h => h, .inl (Nat.lt_succ_self _)⟩

theorem narrowGrant_follows (h : narrowGrant P s userId grantId request revoke = .ok db') : Follows used s.db db' := by
  obtain ⟨grant, -, -, ⟨-, rfl⟩ | ⟨-, tools, scopes, -, -, rfl⟩⟩ := narrowGrant_ok h
  · have hrevoke : Follows used s.db (s.db.updateGrant grantId (revokedGrant s.out.now) fun _ => rfl) :=
      .of_eq rfl rfl rfl
    exact hrevoke.andThen .revokeFamilies
  · exact .of_eq rfl rfl rfl

/-- A revocation leaves the grant revoked. -/
theorem narrowGrant_revokes
    (h : narrowGrant P s userId grantId request true = .ok db') : ∃ g ∈ db'.grants, g.id = grantId ∧ g.revokedAt ≠ none := by
  obtain ⟨grant, hmem, hid, ⟨-, rfl⟩ | ⟨hkeep, -⟩⟩ := narrowGrant_ok h
  · have hrevoked : revokedGrant s.out.now grant ∈
        (s.db.updateGrant grantId (revokedGrant s.out.now) fun _ => rfl).grants := updateGrant_mem _ hmem hid
    exact ⟨revokedGrant s.out.now grant, hrevoked, hid, by simp [revokedGrant]⟩
  · cases hkeep

/-! ## What a verified principal is -/

theorem verifiedRows_ok {proof : Proof} {user : User} (h : verifiedRows P s proof = .ok (client, grant, family, user)) :
    (client ∈ s.db.clients ∧ proof.clientId = some client.id) ∧ (grant ∈ s.db.grants ∧ proof.gid = some grant.id) ∧
      (family ∈ s.db.families ∧ proof.fid = some family.id) ∧ family.revokedAt = none := by
  simp only [verifiedRows, bind_eq_ok, expect_eq_ok, require_eq_ok, pure_eq_ok, Prod.mk.injEq, Bool.and_eq_true,
    decide_eq_true_eq, Option.filter_eq_some_iff] at h
  obtain ⟨-, -, client', hclient, gid, hgid, aud, -, grant', hgrant, family', ⟨hfamily, -⟩, -, hcheck, user', -, rfl, rfl,
    rfl, rfl⟩ := h
  obtain ⟨hactive, hgrantId⟩ := activeGrant_ok hgrant
  obtain ⟨cid, hproof, hcid⟩ := Option.bind_eq_some_iff.mp hclient
  obtain ⟨hcmem, hclientId, -⟩ := enabledClient_ok hcid
  obtain ⟨fid, hfid, hfind⟩ := Option.bind_eq_some_iff.mp hfamily
  obtain ⟨hfmem, hid⟩ := Table.find_eq_some.mp hfind
  exact ⟨⟨hcmem, hclientId ▸ hproof⟩, ⟨hactive.mem, hgrantId ▸ hgid⟩, ⟨hfmem, hid ▸ hfid⟩, hcheck.1.2⟩

/-- The rows a verified principal rests on, and its scopes. -/
structure Verified (s later : Snapshot) (P : Params D) (proof : Proof) (p : AuthPrincipal) (client : Client)
    (grant : Grant) (family : Family) (kind : Kind) : Prop where
  client_mem : client ∈ s.db.clients ∧ proof.clientId = some client.id
  grant_mem : grant ∈ s.db.grants ∧ proof.gid = some grant.id
  family_mem : family ∈ s.db.families ∧ proof.fid = some family.id
  familyId : p.oauthFamilyId = some family.id
  live : family.revokedAt = none
  policy : ∃ policy, resourcePolicy P later (proof.aud.getD "") = .ok policy ∧ policy.kind = kind
  scopes : ∃ claimed, scopeSet proof.scope = .ok claimed ∧ p.scopes = scopeTexts (verifiedScopes claimed client grant family kind)

theorem verifiedPrincipal_ok {later : Snapshot} {proof : Proof} {p : AuthPrincipal}
    (h : verifiedPrincipal P s later proof = .ok p) :
    ∃ client grant family kind, Verified s later P proof p client grant family kind := by
  simp only [verifiedPrincipal, bind_eq_ok, require_eq_ok, pure_eq_ok] at h
  obtain ⟨⟨client, grant, family, user⟩, hrows, policy, hpolicy, owner, -, claimed, hclaimed, -, -, tools, -, rfl⟩ := h
  obtain ⟨hc, hg, hf, hlive⟩ := verifiedRows_ok hrows
  exact ⟨client, grant, family, policy.kind, hc, hg, hf, rfl, hlive, ⟨policy, hpolicy, rfl⟩, claimed, hclaimed, rfl⟩

theorem verify_ok {early later : Snapshot} {text : String} {expectedResource : Option String} {claims : Claims}
    {p : AuthPrincipal} (h : verify P s early later text expectedResource = .ok (claims, p)) :
    (∃ jwt, P.jwt text = some jwt ∧ jwt.claims = claims) ∧ verifiedPrincipal P s later claims.proof = .ok p := by
  simp only [verify, bind_eq_ok, pure_eq_ok, Prod.mk.injEq] at h
  obtain ⟨config, -, claims', hclaims, p', hp, rfl, rfl⟩ := h
  refine ⟨?_, hp⟩
  simp only [claimsOf, bind_eq_ok, expect_eq_ok, require_eq_ok, pure_eq_ok] at hclaims
  obtain ⟨policy, -, -, -, jwt, hjwt, -, -, -, -, -, -, -, -, scopes, -, rfl⟩ := hclaims
  exact ⟨jwt, hjwt, rfl⟩

theorem managementAuthority_ok {context : AuthPrincipal} {request : AuthorityRequest}
    (h : managementAuthority P s context request = .ok grant) :
    ∃ family ∈ s.db.families, context.oauthFamilyId = some family.id ∧ family.revokedAt = none := by
  simp only [managementAuthority, bind_eq_ok, expect_eq_ok, require_eq_ok, Bool.and_eq_true, decide_eq_true_eq,
    Option.filter_eq_some_iff] at h
  obtain ⟨policy, -, -, -, client, -, grant', -, family, ⟨hfamily, -⟩, -, hcheck, -⟩ := h
  obtain ⟨fid, hfid, hfind⟩ := Option.bind_eq_some_iff.mp hfamily
  obtain ⟨hfmem, hid⟩ := Table.find_eq_some.mp hfind
  exact ⟨family, hfmem, hid ▸ hfid, hcheck.1.1.2⟩

end LingshuGate.OAuth

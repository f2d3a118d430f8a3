import Mathlib.Data.List.Sort
import LingshuGate.Lib.Check
import LingshuGate.Access.TokenBudget

/-!
# Signing in and minting API tokens (`auth.py`)

| here | there |
| --- | --- |
| `AuthDb`                   | `users`, `auth_sessions`, `api_tokens`, `api_token_authorizations` and the role tables |
| `rolesForUser`, `permissionsForUser` | `_roles_for_user`, `_permissions_for_user` (auth.py:983, 996) |
| `buildPrincipal`           | `_build_principal` (auth.py:938) |
| `principalFromSession`, `principalFromApiToken` | auth.py:879, 897 |
| `applyApiTokenAuthorization` | `apply_api_token_authorization` (auth.py:919) |
| `authenticateRequest`      | `_authenticate_request` (auth.py:837), authentication enabled |
| `normalizeApiTokenScopes`  | `_normalize_api_token_scopes` (auth.py:587) |
| `createApiToken`           | `create_api_token` (auth.py:498) |
| `createPersonalToken`      | `POST /v1/auth/tokens` (access_routes.py:646) |

The digest of a secret is a parameter; a table that already holds the new id or digest refuses the row
(`PRIMARY KEY`, `UNIQUE`). Columns no modelled function reads (`password_hash`, `token_prefix`,
`last_used_at`, the times of creation) are left out.
-/

namespace LingshuGate.AuthStore

open Lib.Py AccessControl

inductive UserStatus where
  | pending | active | disabled
  deriving DecidableEq

def UserStatus.text : UserStatus → String
  | .pending => "pending"
  | .active => "active"
  | .disabled => "disabled"

structure User where
  id : String
  username : String
  status : UserStatus
  mustChangePassword : Bool := false
  deriving DecidableEq

inductive SessionPurpose where
  | console | oauthConsent
  deriving DecidableEq

structure AuthSession where
  id : String
  userId : String
  tokenHash : String
  expiresAt : Stamp
  purpose : SessionPurpose := .console
  deriving DecidableEq

structure ApiToken where
  id : String
  userId : String
  name : String
  tokenHash : String
  scopes : List String
  expiresAt : Stamp
  revokedAt : Option String := none
  deriving DecidableEq

/-- A row of `api_token_authorizations`; `tools` is `tools_json` as `(tool_id, snapshot, server_binding)`. -/
structure TokenAuthorization where
  tokenId : String
  revision : Nat
  mode : TokenMode
  serverPolicies : List (String × String × Access)
  tools : List (String × String × String)
  ratePerMinute : Int
  concurrency : Int
  deriving DecidableEq

theorem no_authorization_token : ∀ a ∈ ([] : List TokenAuthorization), a.tokenId ∈ ([] : List ApiToken).map ApiToken.id :=
  List.forall_mem_nil _

structure AuthDb where
  access : AccessDb
  users : List User := []
  sessions : List AuthSession := []
  apiTokens : List ApiToken := []
  tokenAuthorizations : List TokenAuthorization := []
  /-- `(id, code)` -/
  controlPermissions : List (String × String) := []
  /-- `(role_id, permission_id)` -/
  rolePermissions : List (String × String) := []
  /-- `token_id … REFERENCES api_tokens(id)` -/
  authorization_token : ∀ a ∈ tokenAuthorizations, a.tokenId ∈ apiTokens.map ApiToken.id := by
    first | exact LingshuGate.AuthStore.no_authorization_token | decide

/-- `HTTPException(status_code, detail)`. -/
structure HttpError where
  status : Nat
  detail : String
  deriving DecidableEq

/-! ## The principal of a user -/

/-- The enabled roles of a user, `user_roles JOIN roles`. -/
def enabledRoles (db : AuthDb) (userId : String) : List Role :=
  (db.access.userRoles.filter (·.1 = userId)).filterMap fun ur =>
    db.access.roles.find? fun r => r.id = ur.2 && r.enabled

/-- `ORDER BY roles.is_system DESC, roles.code`. -/
def roleOrder (r s : Role) : Bool :=
  (r.isSystem && !s.isSystem) || (r.isSystem == s.isSystem && decide (r.code ≤ s.code))

def rolesForUser (db : AuthDb) (userId : String) : List String :=
  ((enabledRoles db userId).insertionSort fun r s => roleOrder r s = true).map Role.code

/-- `SELECT DISTINCT control_permissions.code … ORDER BY control_permissions.code`. -/
def permissionsForUser (db : AuthDb) (userId : String) : List String :=
  let codes := (enabledRoles db userId).flatMap fun r =>
    (db.rolePermissions.filter (·.1 = r.id)).filterMap fun rp =>
      (db.controlPermissions.find? (·.1 = rp.2)).map (·.2)
  codes.dedup.insertionSort (· ≤ ·)

def buildPrincipal (db : AuthDb) (user : User) (authType : AuthType) (tokenId : Option String)
    (scopes : List String) : Except HttpError AuthPrincipal :=
  match rolesForUser db user.id with
  | [] => .error ⟨403, "No enabled role is assigned; contact an administrator"⟩
  | role :: rest => .ok {
      id := user.id, username := user.username, role := role, status := user.status.text, authType := authType,
      roles := role :: rest, permissions := permissionsForUser db user.id,
      mustChangePassword := user.mustChangePassword, tokenId := tokenId, scopes := scopes }

/-! ## Authentication -/

/-- The `replace(principal, …)` of `apply_api_token_authorization`. -/
def TokenAuthorization.applyTo (policy : TokenAuthorization) (p : AuthPrincipal) : AuthPrincipal :=
  { p with
    apiTokenAuthorizationMode := policy.mode, apiTokenRevision := policy.revision,
    apiTokenServerPolicies := policy.serverPolicies,
    apiTokenToolSnapshots := policy.tools.map fun t => (t.1, t.2.1),
    apiTokenToolBindings := policy.tools.map fun t => (t.1, t.2.2),
    apiTokenRatePerMinute := policy.ratePerMinute, apiTokenConcurrency := policy.concurrency }

/-- `apply_api_token_authorization`: a token without a row keeps the account's rights. The budget is counted in the order of the
tables. -/
def applyApiTokenAuthorization (env : Env) (db : AuthDb) (now : Int) (p : AuthPrincipal) : Except HttpError AuthPrincipal :=
  match db.tokenAuthorizations.find? fun a => some a.tokenId = p.tokenId with
  | none => .ok p
  | some policy =>
    if policy.mode = .independent && !tokenAuthorizationBudgetValid ⟨.kept, .kept⟩ .kept env db.access now (policy.applyTo p) then
      .error ⟨403, "authorization_scope_limit"⟩
    else .ok (policy.applyTo p)

def principalFromSession (hash : String → String) (db : AuthDb) (now : Int) (token : String)
    (purpose : SessionPurpose) : Except HttpError (Option AuthPrincipal) :=
  match db.sessions.find? fun s => s.tokenHash = hash token && s.purpose = purpose with
  | none => .ok none
  | some session =>
    match db.users.find? (·.id = session.userId) with
    | none => .ok none
    | some user =>
      if user.status ≠ .active || session.expiresAt.isExpired now then .ok none
      else do
        let p ← buildPrincipal db user .session none []
        return some { p with sessionId := some session.id }

def principalFromApiToken (env : Env) (hash : String → String) (db : AuthDb) (now : Int) (token : String) :
    Except HttpError (Option AuthPrincipal) :=
  match db.apiTokens.find? (·.tokenHash = hash token) with
  | none => .ok none
  | some row =>
    match db.users.find? (·.id = row.userId) with
    | none => .ok none
    | some user =>
      if user.status ≠ .active || truthy row.revokedAt || row.expiresAt.isExpired now then .ok none
      else do
        let p ← buildPrincipal db user .token (some row.id) row.scopes
        return some (← applyApiTokenAuthorization env db now p)

/-- What authentication reads of a request: whether there is an `Authorization` header, the bearer secret
in it, the session cookie and the path. -/
structure Request where
  authorization : Bool
  bearer : Option String
  cookie : Option String
  path : String
  deriving DecidableEq

/-- `_enforce_password_change`. -/
def enforcePasswordChange (p : AuthPrincipal) (request : Request) : Except HttpError AuthPrincipal :=
  if p.mustChangePassword && !(["/v1/auth/me", "/v1/auth/password", "/v1/auth/logout"].contains request.path) then
    .error ⟨403, "password change required"⟩
  else .ok p

/-- `_authenticate_request` with authentication enabled. An explicit but invalid credential never falls
back to the cookie. -/
def authenticateRequest (env : Env) (hash : String → String) (db : AuthDb) (now : Int) (request : Request) :
    Except HttpError AuthPrincipal :=
  if db.users.isEmpty then .error ⟨503, "authentication state is unavailable"⟩
  else if request.authorization then
    match request.bearer with
    | none => .error ⟨401, "invalid authorization credential"⟩
    | some bearer => do
      match ← principalFromApiToken env hash db now bearer with
      | some p => enforcePasswordChange p request
      | none => .error ⟨401, "invalid authorization credential"⟩
  else match request.cookie with
    | none => .error ⟨401, "authentication required"⟩
    | some cookie => do
      if cookie = "" then .error ⟨401, "authentication required"⟩
      else match ← principalFromSession hash db now cookie .console with
        | some p => enforcePasswordChange p request
        | none => .error ⟨401, "authentication required"⟩

/-! ## Minting -/

/-- `sorted({scope.strip() for scope in scopes if scope.strip()})`, or `["tools.read"]` when that is empty. -/
def requestedScopes (scopes : List String) : List String :=
  let requested := (((scopes.map strip).filter (· ≠ "")).dedup).insertionSort (· ≤ ·)
  if requested = [] then ["tools.read"] else requested

/-- The loop over `ceilings`. -/
def applyCeilings : List String → List (List String) → List String
  | allowed, [] => allowed
  | allowed, ceiling :: rest =>
    if "*" ∈ ceiling then applyCeilings allowed rest
    else if "*" ∈ allowed then applyCeilings ceiling rest
    else applyCeilings (allowed.filter (ceiling.contains ·)) rest

/-- The `allowed_scopes` a request is checked against. -/
def allowedScopes (p : AuthPrincipal) : List String :=
  applyCeilings
    (if p.role = "admin" || p.roles.contains "admin" then "*" :: p.permissions else p.permissions) (scopeLimits p)

/-- `_normalize_api_token_scopes(…, allow_default=True)`; the error is the text of the `ValueError`. -/
def normalizeApiTokenScopes (p : AuthPrincipal) (scopes : List String) : Except String (List String) :=
  match (requestedScopes scopes).filter fun scope => !(allowedScopes p).contains scope with
  | [] => .ok (requestedScopes scopes)
  | invalid => .error ("scope exceeds user permissions: " ++ ", ".intercalate invalid)

/-- What the caller and the random source supply to `create_api_token`. -/
structure TokenRequest where
  name : String
  scopes : List String
  expiresAt : Stamp
  tokenId : String
  secret : String
  deriving DecidableEq

inductive CreateError where
  | value (text : String)
  | integrity
  deriving DecidableEq

def newToken (hash : String → String) (p : AuthPrincipal) (request : TokenRequest) (scopes : List String) : ApiToken where
  id := request.tokenId
  userId := p.id
  name := if strip request.name = "" then "API Token" else strip request.name
  tokenHash := hash request.secret
  scopes := scopes
  expiresAt := request.expiresAt

/-- `INSERT INTO api_tokens`. -/
def AuthDb.insertApiToken (db : AuthDb) (row : ApiToken) : AuthDb :=
  { db with
    apiTokens := db.apiTokens ++ [row]
    authorization_token := by
      intro a ha
      rw [List.map_append]
      exact List.mem_append_left _ (db.authorization_token a ha) }

/-- `create_api_token`. -/
def createApiToken (hash : String → String) (db : AuthDb) (p : AuthPrincipal) (request : TokenRequest) :
    Except CreateError AuthDb :=
  match normalizeApiTokenScopes p request.scopes with
  | .error text => .error (.value text)
  | .ok scopes =>
    if db.apiTokens.any fun t => t.id = request.tokenId || t.tokenHash = hash request.secret then .error .integrity
    else .ok (db.insertApiToken (newToken hash p request scopes))

/-- `create_personal_token`: the permission check, then the insertion. -/
def createPersonalToken (hash : String → String) (db : AuthDb) (p : AuthPrincipal) (request : TokenRequest) :
    Except HttpError AuthDb :=
  if !hasControlPermission p "credentials.manage.self" then
    .error ⟨403, "missing control permission: credentials.manage.self"⟩
  else match createApiToken hash db p request with
    | .error (.value text) => .error ⟨400, text⟩
    | .error .integrity => .error ⟨500, "Internal Server Error"⟩
    | .ok db' => .ok db'

/-! ## Who signs in -/

variable {env : Env} {hash : String → String} {db db' : AuthDb} {now : Int} {p q : AuthPrincipal}

/-- What authentication builds: the user's current roles and permissions, a console session or an API token. -/
structure SignedIn (db : AuthDb) (p : AuthPrincipal) : Prop where
  roles : p.roles = rolesForUser db p.id
  role : p.roles.head? = some p.role
  permissions : p.permissions = permissionsForUser db p.id
  delegated : p.delegatedScopes = none
  kind : p.authType = .session ∨ p.authType = .token

theorem buildPrincipal_spec {user : User} {authType : AuthType} {tokenId : Option String} {scopes : List String}
    (hkind : authType = .session ∨ authType = .token) (h : buildPrincipal db user authType tokenId scopes = .ok p) :
    SignedIn db p ∧ p.id = user.id ∧ p.authType = authType ∧ p.tokenId = tokenId ∧ p.scopes = scopes ∧
      p.apiTokenAuthorizationMode = .account := by
  unfold buildPrincipal at h
  split at h
  · cases h
  · rename_i role rest hroles
    injection h with h
    subst h
    exact ⟨⟨hroles.symm, rfl, rfl, rfl, hkind⟩, rfl, rfl, rfl, rfl, rfl⟩

/-- The authorization row of a token changes its mode, scope and quota, nothing of the user. -/
theorem applyApiTokenAuthorization_signedIn (hp : SignedIn db p)
    (h : applyApiTokenAuthorization env db now p = .ok q) : SignedIn db q := by
  unfold applyApiTokenAuthorization at h
  split at h
  · injection h with h
    exact h ▸ hp
  split at h
  · cases h
  · injection h with h
    subst h
    exact ⟨hp.roles, hp.role, hp.permissions, hp.delegated, hp.kind⟩

theorem principalFromSession_signedIn {token : String} {purpose : SessionPurpose}
    (h : principalFromSession hash db now token purpose = .ok (some p)) :
    SignedIn db p := by
  unfold principalFromSession at h
  split at h
  · cases h
  split at h
  · cases h
  split at h
  · cases h
  obtain ⟨p₀, hbuild, h⟩ := Lib.bind_eq_ok.mp h
  injection h with h
  injection h with h
  subst h
  obtain ⟨hs, -⟩ := buildPrincipal_spec (.inl rfl) hbuild
  exact ⟨hs.roles, hs.role, hs.permissions, hs.delegated, hs.kind⟩

theorem principalFromApiToken_signedIn {token : String}
    (h : principalFromApiToken env hash db now token = .ok (some p)) : SignedIn db p := by
  unfold principalFromApiToken at h
  split at h
  · cases h
  split at h
  · cases h
  split at h
  · cases h
  obtain ⟨p₀, hbuild, h⟩ := Lib.bind_eq_ok.mp h
  obtain ⟨p₁, happly, h⟩ := Lib.bind_eq_ok.mp h
  injection h with h
  injection h with h
  subst h
  exact applyApiTokenAuthorization_signedIn (buildPrincipal_spec (.inr rfl) hbuild).1 happly

theorem enforcePasswordChange_ok {request : Request} (h : enforcePasswordChange p request = .ok q) : q = p := by
  unfold enforcePasswordChange at h
  split at h
  · cases h
  · injection h with h
    exact h.symm

theorem authenticateRequest_signedIn {request : Request} (h : authenticateRequest env hash db now request = .ok p) :
    SignedIn db p := by
  unfold authenticateRequest at h
  split at h
  · cases h
  split at h
  · split at h
    · cases h
    · obtain ⟨found, hfound, h⟩ := Lib.bind_eq_ok.mp h
      cases found with
      | none => cases h
      | some p₀ => exact enforcePasswordChange_ok h ▸ principalFromApiToken_signedIn hfound
  split at h
  · cases h
  split at h
  · cases h
  · obtain ⟨found, hfound, h⟩ := Lib.bind_eq_ok.mp h
    cases found with
    | none => cases h
    | some p₀ => exact enforcePasswordChange_ok h ▸ principalFromSession_signedIn hfound

/-! ## What a minted token carries -/

theorem applyCeilings_subset {allowed : List String} (hstar : "*" ∉ allowed) :
    ∀ ceilings, applyCeilings allowed ceilings ⊆ allowed := by
  intro ceilings
  induction ceilings generalizing allowed with
  | nil => exact List.Subset.refl _
  | cons ceiling rest ih =>
    rw [applyCeilings, if_neg hstar]
    split
    · exact ih hstar
    · have hfilter : allowed.filter (ceiling.contains ·) ⊆ allowed := List.filter_subset_self _
      exact List.Subset.trans (ih (fun h => hstar (hfilter h))) hfilter

/-- The loop leaves nothing outside a ceiling, unless the ceiling is open. -/
theorem applyCeilings_le {ceilings : List (List String)} {ceiling : List String} (hmem : ceiling ∈ ceilings)
    (hstar : "*" ∉ ceiling) : ∀ allowed, applyCeilings allowed ceilings ⊆ ceiling := by
  induction ceilings with
  | nil => cases hmem
  | cons head rest ih =>
    intro allowed
    rw [applyCeilings]
    rcases List.mem_cons.mp hmem with rfl | hrest
    · rw [if_neg hstar]
      split
      · exact applyCeilings_subset hstar rest
      rename_i hallowed
      have hfilter : allowed.filter (ceiling.contains ·) ⊆ ceiling := by
        intro scope h
        simpa using (List.mem_filter.mp h).2
      exact List.Subset.trans (applyCeilings_subset (fun h => hstar (hfilter h)) rest) hfilter
    split
    · exact ih hrest _
    split
    · exact ih hrest _
    · exact ih hrest _

theorem normalizeApiTokenScopes_ok {scopes result : List String} (h : normalizeApiTokenScopes p scopes = .ok result) :
    result = requestedScopes scopes ∧ ∀ limit ∈ scopeLimits p, "*" ∈ limit ∨ result ⊆ limit := by
  unfold normalizeApiTokenScopes at h
  split at h
  · rename_i hinvalid
    injection h with h
    subst h
    refine ⟨rfl, ?_⟩
    intro limit hlimit
    by_cases hstar : "*" ∈ limit
    · exact .inl hstar
    right
    intro scope hscope
    have hallowed : scope ∈ allowedScopes p := by
      by_contra hnot
      have : scope ∈ ([] : List String) := hinvalid ▸ List.mem_filter.mpr ⟨hscope, by simp [hnot]⟩
      cases this
    exact applyCeilings_le hlimit hstar _ hallowed
  · cases h

theorem createPersonalToken_ok {request : TokenRequest} (h : createPersonalToken hash db p request = .ok db') :
    ∃ scopes, normalizeApiTokenScopes p request.scopes = .ok scopes ∧
      (∀ t ∈ db.apiTokens, t.id ≠ request.tokenId ∧ t.tokenHash ≠ hash request.secret) ∧
      db' = db.insertApiToken (newToken hash p request scopes) := by
  unfold createPersonalToken createApiToken at h
  split at h
  · cases h
  split at h <;> try cases h
  rename_i hcreate
  split at hcreate
  · cases hcreate
  rename_i scopes hscopes
  split at hcreate
  · cases hcreate
  rename_i hany
  injection hcreate with hcreate
  refine ⟨scopes, hscopes, ?_, hcreate.symm⟩
  intro t ht
  simp only [List.any_eq_true, not_exists, not_and, Bool.or_eq_true, decide_eq_true_eq, not_or] at hany
  exact hany t ht

/-- The secret of a new row signs in as the row's user, under the row's scopes and in account mode: the new id has
no row in `api_token_authorizations`. -/
theorem principalFromApiToken_insert {row : ApiToken} {secret : String} (hsecret : row.tokenHash = hash secret)
    (hfresh : ∀ t ∈ db.apiTokens, t.id ≠ row.id ∧ t.tokenHash ≠ row.tokenHash)
    (hq : principalFromApiToken env hash (db.insertApiToken row) now secret = .ok (some q)) :
    SignedIn db q ∧ q.id = row.userId ∧ q.authType = .token ∧ q.scopes = row.scopes ∧ q.apiTokenAuthorizationMode = .account := by
  have hrow : (db.insertApiToken row).apiTokens.find? (·.tokenHash = hash secret) = some row := by
    have hnone : db.apiTokens.find? (·.tokenHash = hash secret) = none := by
      rw [List.find?_eq_none]
      intro t ht
      simpa [hsecret] using (hfresh t ht).2
    simp [AuthDb.insertApiToken, List.find?_append, hnone, hsecret]
  unfold principalFromApiToken at hq
  rw [hrow] at hq
  simp only at hq
  split at hq
  · cases hq
  rename_i user huser
  split at hq
  · cases hq
  obtain ⟨q₀, hbuild, hq⟩ := Lib.bind_eq_ok.mp hq
  obtain ⟨q₁, happly, hq⟩ := Lib.bind_eq_ok.mp hq
  injection hq with hq
  injection hq with hq
  subst hq
  obtain ⟨hs, hid, htype, htoken, hsc, hmode⟩ := buildPrincipal_spec (.inr rfl) hbuild
  have hnorow : (db.insertApiToken row).tokenAuthorizations.find? (fun a => some a.tokenId = q₀.tokenId) = none := by
    rw [List.find?_eq_none]
    intro a ha
    obtain ⟨t, ht, hta⟩ := List.mem_map.mp (db.authorization_token a ha)
    have hne : a.tokenId ≠ row.id := hta ▸ (hfresh t ht).1
    simpa [htoken] using hne
  rw [applyApiTokenAuthorization, hnorow] at happly
  injection happly with happly
  subst happly
  have huid : user.id = row.userId := by
    have hfound := List.find?_some huser
    simpa using hfound
  exact ⟨⟨hs.roles, hs.role, hs.permissions, hs.delegated, hs.kind⟩, hid.trans huid, htype, hsc, hmode⟩

/-- The same user, under the requested scopes and in account mode. -/
def accountView (p : AuthPrincipal) (scopes : List String) : AuthPrincipal where
  id := p.id
  username := p.username
  role := p.role
  roles := p.roles
  permissions := p.permissions
  authType := .token
  tokenId := p.tokenId
  scopes := scopes

/-- Two principals that authentication builds for one user have the same roles and permissions. -/
theorem SignedIn.same_user (hp : SignedIn db p) (hq : SignedIn db q) (hid : q.id = p.id) :
    q.role = p.role ∧ q.roles = p.roles ∧ q.permissions = p.permissions := by
  have hroles : q.roles = p.roles := by rw [hq.roles, hp.roles, hid]
  refine ⟨?_, hroles, by rw [hq.permissions, hp.permissions, hid]⟩
  have hhead := hq.role
  rw [hroles, hp.role] at hhead
  exact (Option.some.inj hhead).symm

/-- What the owner of the new secret is, next to the caller who asked for it. -/
structure Minted (p q : AuthPrincipal) (scopes : List String) : Prop where
  id : q.id = p.id
  /-- the caller is limited no tighter than the new token -/
  noTighter : NoTighter q p
  /-- the new token is the account view, in both directions -/
  view : NoTighter q (accountView p scopes) ∧ NoTighter (accountView p scopes) q
  account : isIndependent q = false
  kind : p.authType ≠ .oauth ∧ q.authType ≠ .oauth

theorem minted {request : TokenRequest} (hp : SignedIn db p) (hcreate : createPersonalToken hash db p request = .ok db')
    (hq : principalFromApiToken env hash db' now request.secret = .ok (some q)) :
    Minted p q (requestedScopes request.scopes) ∧ db'.access = db.access := by
  obtain ⟨scopes, hscopes, hfresh, rfl⟩ := createPersonalToken_ok hcreate
  obtain ⟨rfl, hlimits⟩ := normalizeApiTokenScopes_ok hscopes
  obtain ⟨hs, hid, htype, hsc, hmode⟩ := principalFromApiToken_insert rfl hfresh hq
  obtain ⟨hrole, hroles, hperms⟩ := hp.same_user hs hid
  have hsq : scopeLimits q = [requestedScopes request.scopes] := by
    simp [scopeLimits, htype, hs.delegated, hsc, newToken]
  have hsv : scopeLimits (accountView p (requestedScopes request.scopes)) = [requestedScopes request.scopes] := rfl
  have hview : isDelegated (accountView p (requestedScopes request.scopes)) = false := rfl
  have hdq : isDelegated q = false := by simp [isDelegated, htype, hs.delegated]
  have hdp : isDelegated p = false := by
    rcases hp.kind with h | h <;> simp [isDelegated, h, hp.delegated]
  refine ⟨⟨hid, ⟨hrole.symm, hroles.symm, hperms.symm, ?_, ?_⟩, ⟨⟨hrole.symm, hroles.symm, hperms.symm, ?_, ?_⟩,
    ⟨hrole, hroles, hperms, ?_, ?_⟩⟩, ?_, ?_, ?_⟩, rfl⟩
  · intro limit hlimit
    rw [hsq]
    exact (hlimits limit hlimit).imp id fun h => ⟨_, by simp, h⟩
  · simp [hdp]
  · rw [hsv, hsq]
    exact fun limit hlimit => .inr ⟨limit, hlimit, List.Subset.refl _⟩
  · simp [hview]
  · rw [hsv, hsq]
    exact fun limit hlimit => .inr ⟨limit, hlimit, List.Subset.refl _⟩
  · simp [hdq]
  · simp [isIndependent, hmode]
  · rcases hp.kind with h | h <;> simp [h]
  · simp [htype]

/-! ## Escalation -/

/-- The minted token can do no more than the caller: every control permission, every downstream tool. -/
def NoEscalation (env : Env) (db : AccessDb) (now : Int) (p q : AuthPrincipal) : Prop :=
  (∀ code, hasControlPermission q code = true → hasControlPermission p code = true) ∧
    ∀ d : ToolDefinition, d.source = "mcp" → (evaluate env db now q d).allowed = true → (evaluate env db now p d).allowed = true

/-- The caller is no independent token, or its own policy covers every downstream tool that the account may
use under the requested scopes. -/
def PolicyCovers (env : Env) (db : AccessDb) (now : Int) (p : AuthPrincipal) (scopes : List String) : Prop :=
  isIndependent p = true → ∀ d : ToolDefinition, d.source = "mcp" →
    (evaluate env db now (accountView p (requestedScopes scopes)) d).allowed = true →
      tokenMcpPolicyAllows env db p d (loadClassification db (serverIdOf d) d.id) = true

theorem credentialGate_of_account {d : ToolDefinition} {c : Option Classification} {adb : AccessDb}
    (hi : isIndependent p = false) (ho : p.authType ≠ .oauth) : credentialGate env adb now p d c = true := by
  simp [credentialGate, hi, ho]

/-- **Minting escalates exactly through the independent policy**: a token minted by a caller that
authentication accepts can do no more than the caller if and only if the caller is a session or an account
token, or its independent policy covers what the account may do under the requested scopes. -/
theorem mint_never_escalates_iff (env : Env) (hash : String → String) (db db' : AuthDb) (signedInAt usedAt now : Int)
    (request : Request) (mint : TokenRequest) (p q : AuthPrincipal)
    (hp : authenticateRequest env hash db signedInAt request = .ok p)
    (hcreate : createPersonalToken hash db p mint = .ok db')
    (hq : principalFromApiToken env hash db' usedAt mint.secret = .ok (some q)) :
    NoEscalation env db'.access now p q ↔ PolicyCovers env db.access now p mint.scopes := by
  obtain ⟨hm, hdb⟩ := minted (authenticateRequest_signedIn hp) hcreate hq
  rw [hdb]
  constructor
  · rintro ⟨-, hall⟩ hi d hd hview
    have hqd : (evaluate env db.access now q d).allowed = true :=
      hm.view.2.evaluateWith hm.id hd (fun _ => credentialGate_of_account hm.account hm.kind.2) hview
    have hgate := ((evaluateWith_allowed_mcp env db.access now hd _).mp (hall d hd hqd)).1
    simpa [credentialGate, hi, hm.kind.1] using hgate
  intro hcover
  refine ⟨fun code hcode => hm.noTighter.hasControlPermission hcode, ?_⟩
  intro d hd hqd
  refine hm.noTighter.evaluateWith hm.id.symm hd ?_ hqd
  intro _
  cases hi : isIndependent p with
  | false => exact credentialGate_of_account hi hm.kind.1
  | true =>
    have hview : (evaluate env db.access now (accountView p (requestedScopes mint.scopes)) d).allowed = true :=
      hm.view.1.evaluateWith hm.id.symm hd (fun _ => credentialGate_of_account rfl (by simp [accountView])) hqd
    simp [credentialGate, hcover hi d hd hview, hm.kind.1]

/-- A viewer `u1` who may read the tools of `files` and manage its own credentials, with an account token
(`account-secret`) and an independent token (`narrow-secret`) that is granted no tool. -/
def viewerAuthDb : AuthDb where
  access := { viewerDb with roles := [⟨"r1", "viewer", true, true⟩], userRoles := [("u1", "r1")] }
  users := [⟨"u1", "viewer", .active, false⟩]
  apiTokens := [⟨"t1", "u1", "account", "#account-secret", ["credentials.manage.self", "tools.read"], .absent, none⟩,
    ⟨"t2", "u1", "narrow", "#narrow-secret", ["credentials.manage.self", "tools.read"], .absent, none⟩]
  tokenAuthorizations := [⟨"t2", 1, .independent, [], [], 6000, 100⟩]
  controlPermissions := [("c1", "credentials.manage.self"), ("c2", "tools.read")]
  rolePermissions := [("r1", "c1"), ("r1", "c2")]

def plainHash (secret : String) : String := "#" ++ secret

def bearerRequest (secret : String) : Request := ⟨true, some secret, none, "/v1/auth/tokens"⟩

def childRequest : TokenRequest := ⟨"child", ["tools.read"], .absent, "t3", "child-secret"⟩

/-- The two callers, and the principal of a child that either of them mints. -/
def accountCaller : AuthPrincipal where
  id := "u1"
  username := "viewer"
  role := "viewer"
  authType := .token
  roles := ["viewer"]
  permissions := ["credentials.manage.self", "tools.read"]
  tokenId := some "t1"
  scopes := ["credentials.manage.self", "tools.read"]

def narrowCaller : AuthPrincipal :=
  { accountCaller with
    tokenId := some "t2", apiTokenAuthorizationMode := .independent, apiTokenRevision := 1
    apiTokenRatePerMinute := 6000, apiTokenConcurrency := 100 }

def childPrincipal : AuthPrincipal := { accountCaller with tokenId := some "t3", scopes := ["tools.read"] }

def childDb (p : AuthPrincipal) : AuthDb :=
  viewerAuthDb.insertApiToken (newToken plainHash p childRequest ["tools.read"])

theorem mint_never_escalates_iff_account : NoEscalation plainEnv (childDb accountCaller).access 0 accountCaller childPrincipal :=
  (mint_never_escalates_iff plainEnv plainHash viewerAuthDb (childDb accountCaller) 0 0 0
    (bearerRequest "account-secret") childRequest accountCaller childPrincipal rfl rfl rfl).mpr
    (by intro h; cases h)

/-- The independent token may list nothing, and the child it mints may list `files`. -/
theorem mint_escalates_independent :
    authenticateRequest plainEnv plainHash viewerAuthDb 0 (bearerRequest "narrow-secret") = .ok narrowCaller ∧
      createPersonalToken plainHash viewerAuthDb narrowCaller childRequest = .ok (childDb narrowCaller) ∧
      principalFromApiToken plainEnv plainHash (childDb narrowCaller) 0 "child-secret" = .ok (some childPrincipal) ∧
      ¬ NoEscalation plainEnv (childDb narrowCaller).access 0 narrowCaller childPrincipal := by
  refine ⟨rfl, rfl, rfl, ?_⟩
  rintro ⟨-, hall⟩
  have hdenied : (evaluate plainEnv (childDb narrowCaller).access 0 narrowCaller listTool).allowed = false := by
    decide
  rw [hall listTool rfl (by decide)] at hdenied
  cases hdenied

end LingshuGate.AuthStore

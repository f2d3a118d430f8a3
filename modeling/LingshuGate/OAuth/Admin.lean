import LingshuGate.OAuth.Store

/-!
# Configuration, keys and clients (`oauth_server.py`)

| here | there |
| --- | --- |
| `saveConfig`           | `save_config` (oauth_server.py:245) |
| `saveManagementConfig` | `save_management_config` (oauth_server.py:144) |
| `rotateKey`            | `rotate_key` (oauth_server.py:224) |
| `createClient`, `updateClient` | oauth_server.py:279, 304 |
| `checkClientFields`    | `_check_client_fields` (oauth_server.py:293) |

A function checks, then writes; an exception rolls the transaction back, so a failed call has no database.
Generated values (`kid`, `client_id`, `secret`) are arguments.
-/

namespace LingshuGate.OAuth

open Lib AuthStore

variable {D : Type} (P : Params D) (s : Snapshot)

/-- `SELECT kid FROM gate_oauth_keys WHERE active=1`. -/
def activeKey (db : Db) : Option Key := db.keys.rows.find? Key.active

/-! ## Configuration -/

/-- The body of `PUT /oauth/config`. -/
structure ConfigPayload where
  enabled : Bool
  issuer : String
  resource : String
  deriving DecidableEq

/-- `changed`: another issuer or another resource. -/
def ConfigPayload.changes (payload : ConfigPayload) (old : Config) : Bool :=
  old.issuer ≠ payload.issuer || old.resource ≠ payload.resource

/-- The conflicts with the external authorization server. -/
def checkExternal (payload : ConfigPayload) : Option ExternalConfiguration → Except Error Unit
  | none => pure ()
  | some configured => do
    require (!(payload.enabled && configured.enabled && configured.resource ≠ some payload.resource))
      (.oauth "resource_configuration_conflict" 409)
    require (!(payload.enabled && configured.enabled && configured.trustedIssuers.contains payload.issuer))
      (.oauth "issuer_configuration_conflict" 409)

/-- Disabling, or a new URL, ends every family and drops codes, interactions and the management resource. -/
def Db.resetAuthorizations (db : Db) (now : Int) : Db :=
  { ((db.revokeFamilies (·.revokedAt = none) now).deleteCodes fun _ => true).deleteInteractions fun _ => true with
    management := if db.management.enabled then ⟨false, db.management.revision + 1⟩ else db.management }

def Db.writeConfig (db : Db) (payload : ConfigPayload) (now : Int) : Db :=
  { (if payload.changes db.config || !payload.enabled then db.resetAuthorizations now else db) with
    config := ⟨payload.enabled, payload.issuer, payload.resource, db.config.revision + 1⟩ }

/-- `save_config`. -/
def saveConfig (payload : ConfigPayload) (revision : Nat) : Except Error Db := do
  require (validIssuer P payload.issuer && httpsResource P payload.resource && validCallback P payload.resource)
    (bad "invalid_configuration")
  require ((P.urlsplit payload.resource).any (·.path = "/mcp")) (bad "resource_must_use_mcp_path")
  require (!payload.enabled || s.out.authEnabled) (.oauth "authentication_required" 409)
  require (s.db.config.revision = revision) (.oauth "revision_conflict" 409)
  require (!(s.db.config.enabled && payload.changes s.db.config)) (.oauth "disable_before_changing_urls" 409)
  require (!payload.enabled || (activeKey s.db).isSome) (.oauth "signing_key_required" 409)
  checkExternal payload s.out.external
  return s.db.writeConfig payload s.out.now

/-- The caller of `save_management_config`, when there is one. -/
def checkManagementCaller : Option (AuthPrincipal × String) → Except Error Unit
  | none => pure ()
  | some (principal, session) => do
    let current ← expect (← liveConsoleSession P s principal session) (.oauth "session_required" 403)
    let _ ← managementOwner s current.id

def checkManagementEnabled (enabled : Bool) : Except Error Unit :=
  if enabled then do
    let _ ← readyConfig P s
    require (activeKey s.db).isSome (.oauth "signing_key_required" 409)
  else pure ()

/-- Disabling ends the families of management grants and drops their codes. -/
def Db.writeManagement (db : Db) (resource : String) (enabled : Bool) (now : Int) : Db :=
  { (if enabled then db
      else (db.revokeFamilies (fun f => f.revokedAt = none && (db.grants.find f.grantId).any (·.resource = resource))
        now).deleteCodes (·.resource = resource)) with
    management := ⟨enabled, db.management.revision + 1⟩ }

/-- `save_management_config`. -/
def saveManagementConfig (enabled : Bool) (revision : Nat) (caller : Option (AuthPrincipal × String)) : Except Error Db := do
  checkManagementCaller P s caller
  require (s.db.management.revision = revision) (.oauth "revision_conflict" 409)
  checkManagementEnabled P s enabled
  return s.db.writeManagement (P.managementResource s.db.config.resource) enabled s.out.now

/-! ## Keys -/

/-- `rotate_key`. -/
def rotateKey (kid : String) : Except Error Db := do
  let keys := s.db.keys.delete fun k => !k.active && k.retireAt.any (· ≤ s.out.now)
  require (keys.rows.length < 10) (.oauth "key_rotation_limit" 429)
  let keys := keys.update Key.active (fun k => { k with active := false, retireAt := some (s.out.now + 600) }) fun _ => rfl
  ({ s.db with keys := keys } : Db).insertKey ⟨kid, true, none⟩

/-! ## Clients -/

def Kind.text : Kind → String
  | .business => "business"
  | .management => "management"

/-- `sorted(resources)` of known resources without repetition. -/
def kindsOf (resources : List String) : List Kind := [.business, .management].filter fun k => resources.contains k.text

/-- The fields a client is created or updated with. -/
structure ClientFields where
  name : String
  redirects : List String
  scopes : List String
  resources : List String
  deriving DecidableEq

/-- `_check_client_fields`; the result is the set `json.dumps(sorted(set(scopes)))` stores. -/
def checkClientFields (fields : ClientFields) : Except Error (Finset Scope) := do
  let scopes ← expect (fields.scopes.mapM Scope.parse) (bad "invalid_client_configuration")
  require (Py.strip fields.name ≠ "" && fields.name.length ≤ 100 && !(fields.name.toList.any (·.toNat < 32)) &&
    1 ≤ fields.redirects.length && fields.redirects.length ≤ 10 && fields.redirects.Nodup &&
    fields.redirects.all (validCallback P) && fields.scopes ≠ [] && fields.resources ≠ [] && fields.resources.Nodup &&
    (fields.resources.all fun r => ["business", "management"].contains r) &&
    (scopes.contains .operationsManage == fields.resources.contains "management") &&
    !(scopes.contains .credentialsManageSystem && !fields.resources.contains "management"))
    (bad "invalid_client_configuration")
  return scopes.toFinset

/-- `create_client`. -/
def createClient (fields : ClientFields) (clientId secret : String) : Except Error Db := do
  let scopes ← checkClientFields P fields
  require (s.db.clients.rows.length < 100) (.oauth "client_limit" 409)
  s.db.insertClient ⟨clientId, Py.strip fields.name, fields.redirects, scopes, P.hash secret, true, 1, kindsOf fields.resources⟩

/-- `UPDATE gate_oauth_clients SET …,revision=revision+1`. -/
def editClient (fields : ClientFields) (scopes : Finset Scope) (enabled : Bool) (secretHash : String) (c : Client) : Client where
  id := c.id
  name := Py.strip fields.name
  redirectUris := fields.redirects
  scopes := scopes
  secretHash := secretHash
  enabled := enabled
  revision := c.revision + 1
  resources := kindsOf fields.resources

/-- Any edit drops the client's codes; disabling or a new secret ends its families. -/
def Db.endClient (db : Db) (clientId : String) (revoke : Bool) (now : Int) : Db :=
  if revoke then (db.deleteCodes (·.clientId = clientId)).revokeFamilies
    (fun f => (db.grants.find f.grantId).any (·.clientId = clientId) && f.revokedAt = none) now
  else db.deleteCodes (·.clientId = clientId)

/-- `update_client`; `resources=None` keeps the client's own. -/
def updateClient (clientId : String) (revision : Nat) (enabled rotate : Bool) (fields : ClientFields)
    (keepResources : Bool) (secret : String) : Except Error Db := do
  let row ← expect (s.db.clients.find clientId) (.oauth "client_not_found" 404)
  require (row.revision = revision) (.oauth "revision_conflict" 409)
  let fields := { fields with resources := if keepResources then row.resources.map Kind.text else fields.resources }
  let scopes ← checkClientFields P fields
  let secretHash := if rotate then P.hash secret else row.secretHash
  return (s.db.updateClientRow clientId (editClient fields scopes enabled secretHash) fun _ => rfl).endClient clientId
    (!enabled || rotate) s.out.now

/-! ## What they change -/

variable {P s} {used : String → Prop} {db' : Db}

variable {payload : ConfigPayload}

variable {revision : Nat}

theorem saveConfig_ok (h : saveConfig P s payload revision = .ok db') : db' = s.db.writeConfig payload s.out.now := by
  simp only [saveConfig, bind_eq_ok, require_eq_ok, pure_eq_ok] at h
  obtain ⟨-, -, -, -, -, -, -, -, -, -, -, -, -, -, rfl⟩ := h
  rfl

variable {enabled : Bool}

theorem saveManagementConfig_ok {caller : Option (AuthPrincipal × String)}
    (h : saveManagementConfig P s enabled revision caller = .ok db') :
    db' = s.db.writeManagement (P.managementResource s.db.config.resource) enabled s.out.now := by
  simp only [saveManagementConfig, bind_eq_ok, require_eq_ok, pure_eq_ok] at h
  obtain ⟨-, -, -, -, -, -, rfl⟩ := h
  rfl

theorem rotateKey_ok {kid : String} (h : rotateKey s kid = .ok db') : ∃ keys, db' = { s.db with keys := keys } := by
  simp only [rotateKey, Db.insertKey, bind_eq_ok, require_eq_ok, expect_eq_ok, pure_eq_ok] at h
  obtain ⟨-, -, keys, -, rfl⟩ := h
  exact ⟨keys, rfl⟩

variable {fields : ClientFields}

theorem createClient_ok {clientId secret : String} (h : createClient P s fields clientId secret = .ok db') :
    ∃ row clients, row.id = clientId ∧ s.db.clients.insert row = some clients ∧ db' = { s.db with clients := clients } := by
  simp only [createClient, Db.insertClient, bind_eq_ok, require_eq_ok, expect_eq_ok, pure_eq_ok] at h
  obtain ⟨scopes, -, -, -, clients, hins, rfl⟩ := h
  exact ⟨_, clients, rfl, hins, rfl⟩

variable {clientId : String}

/-- A successful edit is one row update under a new revision, then the end of what hung on the client. -/
theorem updateClient_ok {enabled rotate keepResources : Bool} {secret : String}
    (h : updateClient P s clientId revision enabled rotate fields keepResources secret = .ok db') :
    ∃ fields' scopes secretHash, db' = (s.db.updateClientRow clientId
      (editClient fields' scopes enabled secretHash) fun _ => rfl).endClient clientId (!enabled || rotate) s.out.now := by
  simp only [updateClient, bind_eq_ok, require_eq_ok, expect_eq_ok, pure_eq_ok] at h
  obtain ⟨row, -, -, -, scopes, -, rfl⟩ := h
  exact ⟨_, _, _, rfl⟩

theorem Evolves.resetAuthorizations (db : Db) (now : Int) : Evolves db (db.resetAuthorizations now) where
  config := .inr rfl
  management := by
    show db.management.revision < (if db.management.enabled then _ else _ : ManagementConfig).revision ∨
      db.management = if db.management.enabled then _ else _
    split
    · exact .inl (Nat.lt_succ_self _)
    · exact .inr rfl
  clients := .refl ClientLe.refl _
  grants := .refl GrantLe.refl _

theorem Evolves.writeConfig (db : Db) (payload : ConfigPayload) (now : Int) : Evolves db (db.writeConfig payload now) := by
  have hbase : Evolves db (if payload.changes db.config || !payload.enabled then db.resetAuthorizations now else db) := by
    split
    · exact .resetAuthorizations db now
    · exact .refl db
  exact ⟨.inl (Nat.lt_succ_self _), hbase.management, hbase.clients, hbase.grants⟩

theorem resetAuthorizations_codes (db : Db) (now : Int) (c : Code) : c ∉ (db.resetAuthorizations now).codes := by
  intro h
  have := (Table.mem_delete.mp h).2
  cases this

theorem Follows.resetAuthorizations (db : Db) (now : Int) : Follows used db (db.resetAuthorizations now) :=
  Follows.revokeFamilies.andThen (Follows.deleteCodes.andThen (.of_eq rfl rfl rfl))

theorem Follows.writeConfig (db : Db) (payload : ConfigPayload) (now : Int) : Follows used db (db.writeConfig payload now) := by
  have hbase : Follows used db (if payload.changes db.config || !payload.enabled then db.resetAuthorizations now else db) := by
    split
    · exact .resetAuthorizations db now
    · exact .refl db
  exact ⟨hbase.codes, hbase.families, hbase.refresh⟩

theorem Evolves.writeManagement (db : Db) (resource : String) (enabled : Bool) (now : Int) :
    Evolves db (db.writeManagement resource enabled now) := by
  unfold Db.writeManagement
  split
  · exact ⟨.inr rfl, .inl (Nat.lt_succ_self _), .refl ClientLe.refl _, .refl GrantLe.refl _⟩
  · exact ⟨.inr rfl, .inl (Nat.lt_succ_self _), .refl ClientLe.refl _, .refl GrantLe.refl _⟩

theorem Follows.writeManagement (db : Db) (resource : String) (enabled : Bool) (now : Int) :
    Follows used db (db.writeManagement resource enabled now) := by
  unfold Db.writeManagement
  split
  · exact .of_eq rfl rfl rfl
  · exact Follows.revokeFamilies.andThen (Follows.deleteCodes.andThen (.of_eq rfl rfl rfl))

theorem Evolves.updateClientRow (db : Db) {scopes : Finset Scope} {secretHash : String} :
    Evolves db (db.updateClientRow clientId (editClient fields scopes enabled secretHash) fun _ => rfl) where
  config := .inr rfl
  management := .inr rfl
  clients := by
    refine .update ?_ ClientLe.refl ?_
    · intro c
      rfl
    · intro c _ _
      exact ⟨rfl, .inl (Nat.lt_succ_self _)⟩
  grants := .refl GrantLe.refl _

variable {db : Db}

theorem Follows.updateClientRow {f : Client → Client} {hf : ∀ c, (f c).id = c.id} :
    Follows used db (db.updateClientRow clientId f hf) :=
  .of_eq rfl rfl rfl

theorem Evolves.endClient (db : Db) (clientId : String) (revoke : Bool) (now : Int) :
    Evolves db (db.endClient clientId revoke now) := by
  unfold Db.endClient
  split
  · exact .of_eq rfl rfl rfl rfl
  · exact .of_eq rfl rfl rfl rfl

theorem Follows.endClient (db : Db) (clientId : String) (revoke : Bool) (now : Int) :
    Follows used db (db.endClient clientId revoke now) := by
  unfold Db.endClient
  split
  · exact Follows.deleteCodes.andThen Follows.revokeFamilies
  · exact Follows.deleteCodes

variable {now : Int}

/-- No code of the client is left. -/
theorem endClient_codes (db : Db) {revoke : Bool} {c : Code}
    (h : c ∈ (db.endClient clientId revoke now).codes) : c.clientId ≠ clientId := by
  have hmem : c ∈ db.codes.delete (·.clientId = clientId) := by
    unfold Db.endClient at h
    split at h
    · exact h
    · exact h
  simpa using (Table.mem_delete.mp hmem).2

/-- An edited client has a new revision. -/
theorem editClient_revision {scopes : Finset Scope}
    {secretHash : String} {revoke : Bool} {c : Client} (hc : c ∈ db.clients) (hid : c.id = clientId) :
    ∃ c' ∈ ((db.updateClientRow clientId (editClient fields scopes enabled secretHash) fun _ => rfl).endClient clientId
      revoke now).clients, c'.id = clientId ∧ c'.revision = c.revision + 1 := by
  have hclients : ((db.updateClientRow clientId (editClient fields scopes enabled secretHash) fun _ => rfl).endClient clientId
      revoke now).clients = db.clients.update (·.id = clientId) (editClient fields scopes enabled secretHash) fun _ => rfl := by
    unfold Db.endClient
    split
    · rfl
    · rfl
  refine ⟨editClient fields scopes enabled secretHash c, ?_, hid, rfl⟩
  rw [hclients]
  exact Table.mem_update_of_mem _ hc (by simp [hid])

/-! ## The tables they leave alone -/

@[simp] theorem Db.writeConfig_grants (db : Db) (payload : ConfigPayload) (now : Int) :
    (db.writeConfig payload now).grants = db.grants := by
  unfold Db.writeConfig
  split
  · rfl
  · rfl

@[simp] theorem Db.writeConfig_confirmations (db : Db) (payload : ConfigPayload) (now : Int) :
    (db.writeConfig payload now).confirmations = db.confirmations := by
  unfold Db.writeConfig
  split
  · rfl
  · rfl

@[simp] theorem Db.writeManagement_interactions (db : Db) (resource : String) (enabled : Bool) (now : Int) :
    (db.writeManagement resource enabled now).interactions = db.interactions := by
  unfold Db.writeManagement
  split
  · rfl
  · rfl

@[simp] theorem Db.writeManagement_grants (db : Db) (resource : String) (enabled : Bool) (now : Int) :
    (db.writeManagement resource enabled now).grants = db.grants := by
  unfold Db.writeManagement
  split
  · rfl
  · rfl

@[simp] theorem Db.writeManagement_confirmations (db : Db) (resource : String) (enabled : Bool) (now : Int) :
    (db.writeManagement resource enabled now).confirmations = db.confirmations := by
  unfold Db.writeManagement
  split
  · rfl
  · rfl

@[simp] theorem Db.endClient_interactions (db : Db) (clientId : String) (revoke : Bool) (now : Int) :
    (db.endClient clientId revoke now).interactions = db.interactions := by
  unfold Db.endClient
  split
  · rfl
  · rfl

@[simp] theorem Db.endClient_grants (db : Db) (clientId : String) (revoke : Bool) (now : Int) :
    (db.endClient clientId revoke now).grants = db.grants := by
  unfold Db.endClient
  split
  · rfl
  · rfl

@[simp] theorem Db.endClient_confirmations (db : Db) (clientId : String) (revoke : Bool) (now : Int) :
    (db.endClient clientId revoke now).confirmations = db.confirmations := by
  unfold Db.endClient
  split
  · rfl
  · rfl

/-! ## What they cut off -/

theorem writeConfig_codes
    (hreset : (payload.changes db.config || !payload.enabled) = true) (c : Code) : c ∉ (db.writeConfig payload now).codes := by
  simp only [Db.writeConfig, hreset, if_true]
  exact resetAuthorizations_codes db now c

theorem writeManagement_codes {resource : String} {c : Code}
    (h : c ∈ (db.writeManagement resource false now).codes) : c.resource ≠ resource := by
  simpa using (Table.mem_delete.mp h).2

/-- The family is in the tables and revoked. -/
def Ended (db : Db) (familyId : String) : Prop := ∃ f ∈ db.families, f.id = familyId ∧ f.revokedAt ≠ none

variable {f : Family}

theorem Ended.revokeFamilies {cond : Family → Bool} (hf : f ∈ db.families)
    (hcond : f.revokedAt = none → cond f = true) : Ended (db.revokeFamilies cond now) f.id := by
  by_cases hc : cond f = true
  · exact ⟨_, revokeFamilies_mem hf hc, rfl, by simp⟩
  · refine ⟨f, ?_, rfl, fun hnone => hc (hcond hnone)⟩
    simp only [Db.revokeFamilies, Table.mem_update]
    exact ⟨f, hf, by simp [hc]⟩

theorem Ended.writeConfig (hreset : (payload.changes db.config || !payload.enabled) = true) (hf : f ∈ db.families) :
    Ended (db.writeConfig payload now) f.id := by
  simp only [Db.writeConfig, hreset, if_true]
  exact Ended.revokeFamilies hf (by simp)

theorem Ended.writeManagement {resource : String} {grant : Grant}
    (hf : f ∈ db.families) (hgrant : grant ∈ db.grants) (hid : grant.id = f.grantId) (hresource : grant.resource = resource) :
    Ended (db.writeManagement resource false now) f.id := by
  have hfind : db.grants.find f.grantId = some grant := Table.find_eq_some.mpr ⟨hgrant, hid⟩
  refine Ended.revokeFamilies hf ?_
  intro hlive
  simp [hlive, hfind, hresource]

theorem Ended.endClient {grant : Grant} (hf : f ∈ db.families)
    (hgrant : grant ∈ db.grants) (hid : grant.id = f.grantId) (hclient : grant.clientId = clientId) :
    Ended (db.endClient clientId true now) f.id := by
  have hfind : db.grants.find f.grantId = some grant := Table.find_eq_some.mpr ⟨hgrant, hid⟩
  refine Ended.revokeFamilies hf ?_
  intro hlive
  simp [hlive, hfind, hclient]

end LingshuGate.OAuth

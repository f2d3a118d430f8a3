import Mathlib.Control.Traversable.Instances
import LingshuGate.Lib.Since
import LingshuGate.Config.Store

/-!
# The HTTP scopes of shared credentials (`credential_store.py`, `shared_credentials.py`)

| here | there |
| --- | --- |
| `checkScopes`          | `_scopes` (shared_credentials.py:202) |
| `createCredential`, `updateCredential`, `deleteCredential` | `create`, `update`, `delete` (171, 178, 186) with their store (credential_store.py:123, 135, 148) |
| `assertHttpBinding`    | `assert_http_binding` (184) |
| `bindHttpUsage`        | `bind_http_usage` (201) |
| `httpCredentialBinding`, `bindSavedHttpCredentials` | `http_credential_binding`, `_bind_saved_http_credentials` (mcp_configuration.py:79, 102) |
| `clientBinding`, `resolveHeaders` | `_resolve_headers` of the HTTP client (mcp_http_client.py:439) |
| `testHeaders`          | `_resolve_headers` of the connection test (http_connection_test.py:143), its `guard` and its revisions |

A scope names a service and an origin, and the identity of the service it is sealed to; one that names none is pending.
`secrets_sealed` says where a secret goes: the client of a service gets it only under a scope that was approved for the
identity in force then, or was pending and sealed by the first save that refers to the credential. The connection test
of an administrator is allowed a pending scope: `test_before_seal`.

A request that changes credentials holds the lock of the configurations and that of the credentials, and so does a
save that seals; each is one step. A client reads the identity before it takes the lock of the credentials, so the two
are different steps. The services do whatever they like in between: files come and go, identities are recorded and
dropped. The other guards of the connection test, and the dependencies that stop a deletion, only refuse more.

A secret stands for its ciphertext. Names, descriptions and the journal of the requests are left out.
-/

namespace LingshuGate.SharedCredentials

open Lib
open Config (Manifest Content Target Store)

/-- `canonical_http_origin`, which refuses what is no endpoint, and `urlsplit(…).path`. -/
structure Urls where
  canonicalHttpOrigin : String → Option String
  path : String → String

structure HttpScope where
  serverId : String
  origin : String
  binding : Option Nat := none
  deriving DecidableEq

structure Credential where
  id : String
  secret : String
  /-- `updated_at` -/
  revision : String
  scopes : List HttpScope
  deriving DecidableEq

inductive CredentialError
  | alreadyExists
  | notFound
  | revisionConflict
  | usageDenied (message : String)
  | invalid (message : String)
  deriving DecidableEq

abbrev Credentials := Table Credential Credential.id

/-! ## Approving scopes -/

def offScope (serverId origin : String) (scopes : List HttpScope) : Bool :=
  scopes.all fun scope => scope.serverId ≠ serverId || scope.origin ≠ origin

/-- One requested scope; `seen` are the ones before it. -/
def checkScope (urls : Urls) (cfg : Store) (seen : List HttpScope) (request : HttpScope) : Except CredentialError HttpScope := do
  require (["", "/"].contains (urls.path request.origin))
    (.usageDenied "Credential scope must be an origin, without a path.")
  let origin ← expect (urls.canonicalHttpOrigin request.origin) (.invalid "endpoint")
  require (offScope request.serverId origin seen) (.usageDenied "Duplicate credential HTTP scope.")
  match request.binding with
  | none => pure { serverId := request.serverId, origin }
  | some binding =>
    let manifest ← expect (cfg.loadManifest request.serverId).toOption .notFound
    require (manifest.transport = .streamableHttp) (.usageDenied "Saved service does not match the requested scope.")
    let saved ← expect (urls.canonicalHttpOrigin (manifest.endpoint.getD "")) (.invalid "endpoint")
    require (saved = origin) (.usageDenied "Saved service does not match the requested scope.")
    let current ← expect (cfg.currentBinding request.serverId) (.invalid "server_scope_unavailable")
    require (current = binding) (.usageDenied "Saved service identity changed.")
    pure { serverId := request.serverId, origin, binding := some binding }

def checkAll (urls : Urls) (cfg : Store) (seen : List HttpScope) : List HttpScope → Except CredentialError (List HttpScope)
  | [] => pure seen
  | request :: requests => do
    let scope ← checkScope urls cfg seen request
    checkAll urls cfg (seen ++ [scope]) requests

/-- `key=lambda item: (item["server_id"], item["origin"])`. -/
def HttpScope.le (a b : HttpScope) : Bool :=
  a.serverId < b.serverId || a.serverId = b.serverId && a.origin ≤ b.origin

def checkScopes (urls : Urls) (cfg : Store) (requests : List HttpScope) : Except CredentialError (List HttpScope) := do
  let scopes ← checkAll urls cfg [] requests
  pure (scopes.insertionSort (HttpScope.le · ·))

/-! ## The store -/

/-- A value that is given; masks are none. -/
def checkValue (value : String) (message : String) : Except CredentialError Unit :=
  require (value ≠ "" && value ≠ "***") (.invalid message)

def createCredential (urls : Urls) (cfg : Store) (credentials : Credentials) (id value now : String)
    (requests : List HttpScope) : Except CredentialError Credentials := do
  let scopes ← checkScopes urls cfg requests
  require (credentials.find id).isNone .alreadyExists
  checkValue value "A non-masked credential value is required."
  expect (credentials.insert { id, secret := value, revision := now, scopes }) .alreadyExists

/-- What an update writes: `None` keeps the value, or the scopes. -/
def Credential.edit (c : Credential) (value : Option String) (scopes : Option (List HttpScope)) (now : String) : Credential :=
  { c with secret := value.getD c.secret, scopes := scopes.getD c.scopes, revision := now }

def updateCredential (urls : Urls) (cfg : Store) (credentials : Credentials) (id expectedRevision : String)
    (value : Option String) (requests : Option (List HttpScope)) (now : String) :
    Except CredentialError Credentials := do
  let scopes ← requests.mapM (checkScopes urls cfg)
  let current ← expect (credentials.find id) .notFound
  require (expectedRevision ≠ "" && current.revision = expectedRevision) .revisionConflict
  match value with
  | none => pure ()
  | some value => checkValue value "Use null to retain the value; masks are not credential values."
  pure (credentials.update (·.id = id) (·.edit value scopes now) fun _ => rfl)

def deleteCredential (credentials : Credentials) (id expectedRevision : String) : Except CredentialError Credentials := do
  let current ← expect (credentials.find id) .notFound
  require (current.revision = expectedRevision) .revisionConflict
  pure (credentials.delete (·.id = id))

/-! ## Using a scope -/

/-- The comparison of `assert_http_binding` for one scope. -/
def HttpScope.permits (scope : HttpScope) (serverId origin : String) (binding : Option Nat) (allowPending : Bool) : Bool :=
  scope.serverId = serverId && scope.origin = origin &&
    ((binding.isSome && scope.binding = binding) || (allowPending && scope.binding = none))

def assertHttpBinding (urls : Urls) (credentials : Credentials) (id serverId endpoint : String)
    (binding : Option Nat) (expectedRevision : Option String) (allowPending : Bool) : Except CredentialError Unit := do
  let origin ← expect (urls.canonicalHttpOrigin endpoint) (.invalid "endpoint")
  let item ← expect (credentials.find id) .notFound
  require (expectedRevision.all (item.revision = ·)) .revisionConflict
  require (item.scopes.any (·.permits serverId origin binding allowPending))
    (.usageDenied "Credential is not approved for this HTTP service, origin and generation.")

/-- The pending scope of this service and origin gets the identity. -/
def HttpScope.sealTo (scope : HttpScope) (serverId origin : String) (binding : Nat) : HttpScope :=
  if scope.serverId = serverId ∧ scope.origin = origin ∧ scope.binding = none then { scope with binding := some binding }
  else scope

def bindHttpUsage (urls : Urls) (credentials : Credentials) (ids : List String) (serverId endpoint : String)
    (binding : Nat) : Except CredentialError Credentials := do
  let origin ← expect (urls.canonicalHttpOrigin endpoint) (.invalid "endpoint")
  each (fun id => assertHttpBinding urls credentials id serverId endpoint (some binding) none true) ids
  pure (credentials.update (fun c => ids.contains c.id)
    (fun c => { c with scopes := c.scopes.map (·.sealTo serverId origin binding) }) fun _ => rfl)

/-- The identity of a manifest that is still the saved one. -/
def httpCredentialBinding (cfg : Store) (m : Manifest) : Option Nat :=
  match cfg.loadManifest m.id with
  | .error _ => none
  | .ok current =>
    if current.launch = m.launch ∧ current.transport = m.transport ∧ current.endpoint = m.endpoint then cfg.currentBinding m.id
    else none

/-- After a save: every pending scope the manifest uses is sealed to its identity. -/
def bindSavedHttpCredentials (urls : Urls) (cfg : Store) (credentials : Credentials) (m : Manifest) :
    Except CredentialError Credentials := do
  if m.transport = .streamableHttp ∧ m.headerRefs ≠ [] then
    let binding ← expect (httpCredentialBinding cfg m) (.invalid "Saved HTTP service identity is unavailable")
    bindHttpUsage urls credentials m.headerRefs m.id (m.endpoint.getD "") binding
  else pure credentials

/-! ## Releasing a secret -/

/-- What the client of a service reads of its identity; `remembered` is the one of its last request. -/
def clientBinding (cfg : Store) (m : Manifest) (remembered : Option Nat) : Except CredentialError Nat := do
  let denied := CredentialError.usageDenied "Saved HTTP service identity is unavailable for credential use."
  let binding ← expect (cfg.currentBinding m.id) denied
  let identity ← expect (cfg.identities m.id) denied
  require (identity.target = some ⟨m.launch, m.transport, m.endpoint⟩) denied
  require (remembered.all (· = binding)) denied
  pure binding

def resolveValue (credentials : Credentials) (id : String) (expectedRevision : Option String) : Except CredentialError String := do
  let item ← expect (credentials.find id) .notFound
  require (expectedRevision.all (item.revision = ·)) .revisionConflict
  pure item.secret

/-- `revisions.get(ref, "")`, where a request is bound to revisions. -/
def expected (revisions : Option (List (String × String))) (id : String) : Option String :=
  revisions.map fun r => (r.lookup id).getD ""

/-- The secrets of a request: every reference passes first. -/
def releaseTo (urls : Urls) (credentials : Credentials) (m : Manifest) (binding : Option Nat)
    (revisions : Option (List (String × String))) (allowPending : Bool) : Except CredentialError (List String) := do
  each (fun id => assertHttpBinding urls credentials id m.id (m.endpoint.getD "") binding (expected revisions id)
    allowPending) m.headerRefs
  m.headerRefs.mapM fun id => resolveValue credentials id (expected revisions id)

/-- The client of a service, with the identity it read. -/
def resolveHeaders (urls : Urls) (credentials : Credentials) (m : Manifest) (binding : Nat)
    (revisions : Option (List (String × String))) : Except CredentialError (List String) :=
  releaseTo urls credentials m (some binding) revisions false

/-- The client of a connection test: no service need be saved. -/
def testHeaders (urls : Urls) (credentials : Credentials) (m : Manifest) (binding : Option Nat)
    (revisions : List (String × String)) : Except CredentialError (List String) :=
  releaseTo urls credentials m binding (some revisions) true

/-! ## Runs -/

structure World where
  config : Store := {}
  credentials : Credentials := ∅
  /-- The clients that have read the identity of their service. -/
  clients : List (Manifest × Nat) := []
  /-- The connection tests that have begun, with the identity of the service, if it is saved. -/
  tests : List (Manifest × Option Nat) := []

inductive Event
  /-- A file of `config_dir` is written or removed, by Gate or from outside. -/
  | file (path : String) (content : Option Content)
  | ensure (serverId : String)
  | record (serverId path : String) (target : Target) (replace : Bool)
  /-- A deleted configuration loses its identity. -/
  | drop (serverId : String)
  | create (id value now : String) (requests : List HttpScope)
  | update (id expectedRevision : String) (value : Option String) (requests : Option (List HttpScope)) (now : String)
  | delete (id expectedRevision : String)
  /-- The last step of a save; the manifest is what it reads back. -/
  | save (m : Manifest)
  | client (m : Manifest) (remembered : Option Nat)
  | test (m : Manifest)

def World.withCredentials (w : World) : Except CredentialError Credentials → World
  | .ok credentials => { w with credentials }
  | .error _ => w

def next (urls : Urls) (w : World) : Event → World
  | .file path (some content) => { w with config := w.config.write path content }
  | .file path none => { w with config := w.config.unlink path }
  | .ensure serverId => { w with config := w.config.ensureServerIdentity serverId }
  | .record serverId path target replace => match w.config.recordConfigIdentity serverId path target replace with
    | some (config, _) => { w with config }
    | none => w
  | .drop serverId => { w with config := w.config.setIdentity serverId none }
  | .create id value now requests => w.withCredentials (createCredential urls w.config w.credentials id value now requests)
  | .update id expectedRevision value requests now =>
    w.withCredentials (updateCredential urls w.config w.credentials id expectedRevision value requests now)
  | .delete id expectedRevision => w.withCredentials (deleteCredential w.credentials id expectedRevision)
  | .save m => w.withCredentials (bindSavedHttpCredentials urls w.config w.credentials m)
  | .client m remembered => match clientBinding w.config m remembered with
    | .ok binding => { w with clients := (m, binding) :: w.clients }
    | .error _ => w
  | .test m => { w with tests := (m, httpCredentialBinding w.config m) :: w.tests }

def Step (urls : Urls) (w : World) (e : Event) (w' : World) : Prop := next urls w e = w'

/-! ## What a step does to a scope -/

/-- The scopes that an event asks to approve for a credential. -/
def Event.requests (id : String) : Event → Option (List HttpScope)
  | .create id' _ _ requests => if id' = id then some requests else none
  | .update id' _ _ requests _ => if id' = id then requests else none
  | _ => none

/-- The step approves the scope for the credential. -/
def Approves (urls : Urls) (id : String) (scope : HttpScope) (t : World) (e : Event) (v : World) : Prop :=
  ∃ requests scopes, e.requests id = some requests ∧ checkScopes urls t.config requests = .ok scopes ∧ scope ∈ scopes ∧
    ∃ c ∈ v.credentials, c.id = id ∧ c.scopes = scopes

/-- The step neither replaces the scopes of the credential nor deletes it. -/
def Untouched (id : String) (t : World) (e : Event) (v : World) : Prop :=
  v.credentials = t.credentials ∨ e.requests id = none ∧ ∀ revision, e ≠ .delete id revision

/-- The step is a save of the service at that origin, with a reference to the credential. -/
def Seals (urls : Urls) (id serverId origin : String) (t : World) (e : Event) (v : World) : Prop :=
  ∃ m, e = .save m ∧ id ∈ m.headerRefs ∧ m.id = serverId ∧ m.transport = .streamableHttp ∧
    urls.canonicalHttpOrigin (m.endpoint.getD "") = some origin ∧
    bindSavedHttpCredentials urls t.config t.credentials m = .ok v.credentials

/-- The scope is pending: it was approved without an identity, and no save has used it. -/
def PendingSince (urls : Urls) (id serverId origin : String) (tr : List Event) (w : World) : Prop :=
  Since (Step urls) (fun _ => Approves urls id { serverId, origin })
    (fun t e v => Untouched id t e v ∧ ¬ Seals urls id serverId origin t e v) {} tr w

/-- The step ties the credential to the service, the origin and the identity: the identity is in force, and either this
is an approval that names it, or the first save to use a pending scope. -/
def Grants (urls : Urls) (id serverId origin : String) (binding : Nat) (tr : List Event) (t : World) (e : Event)
    (v : World) : Prop :=
  t.config.currentBinding serverId = some binding ∧ (Approves urls id { serverId, origin, binding := some binding } t e v ∨
      Seals urls id serverId origin t e v ∧ PendingSince urls id serverId origin tr t)

/-- The credential has been tied to them, and its scopes have not been replaced since. -/
def GrantedSince (urls : Urls) (id serverId origin : String) (binding : Nat) (tr : List Event) (w : World) : Prop :=
  Since (Step urls) (Grants urls id serverId origin binding) (Untouched id) {} tr w

/-- The client has read the identity of its service, which was in force then, with the target it was saved for. -/
def ReadSince (urls : Urls) (m : Manifest) (binding : Nat) (tr : List Event) (w : World) : Prop :=
  Since (Step urls) (fun _ t e _ => ∃ remembered, e = .client m remembered ∧ clientBinding t.config m remembered = .ok binding)
    (fun _ _ _ => True) {} tr w

variable {urls : Urls} {cfg : Store} {credentials credentials' : Credentials}

theorem checkScope_ok {seen : List HttpScope} {request scope : HttpScope} (h : checkScope urls cfg seen request = .ok scope) :
    ∀ binding, scope.binding = some binding → cfg.currentBinding scope.serverId = some binding := by
  intro binding hbinding
  simp only [checkScope, bind_eq_ok, expect_eq_ok, require_eq_ok] at h
  obtain ⟨-, -, origin, -, -, -, h⟩ := h
  cases hrequest : request.binding with
  | none =>
    rw [hrequest] at h
    obtain rfl := pure_eq_ok.mp h
    cases hbinding
  | some b =>
    simp only [hrequest, bind_eq_ok, expect_eq_ok, require_eq_ok, pure_eq_ok] at h
    obtain ⟨_, -, -, -, _, -, -, -, current, hcurrent, -, heq, rfl⟩ := h
    obtain rfl : current = b := by simpa using heq
    obtain rfl : current = binding := by simpa using hbinding
    exact hcurrent

variable {scope : HttpScope}

theorem checkAll_ok {seen requests scopes : List HttpScope} (h : checkAll urls cfg seen requests = .ok scopes)
    (hmem : scope ∈ scopes) :
    scope ∈ seen ∨ ∀ binding, scope.binding = some binding → cfg.currentBinding scope.serverId = some binding := by
  induction requests generalizing seen with
  | nil =>
    obtain rfl := pure_eq_ok.mp h
    exact .inl hmem
  | cons request requests ih =>
    simp only [checkAll, bind_eq_ok] at h
    obtain ⟨first, hfirst, hrest⟩ := h
    rcases ih hrest with hseen | hcurrent
    · rcases List.mem_append.mp hseen with hseen | hlast
      · exact .inl hseen
      · obtain rfl := List.mem_singleton.mp hlast
        exact .inr (checkScope_ok hfirst)
    · exact .inr hcurrent

variable {binding : Nat}

/-- A scope that names an identity is approved only while that identity is in force. -/
theorem checkScopes_ok {requests scopes : List HttpScope} (h : checkScopes urls cfg requests = .ok scopes)
    (hmem : scope ∈ scopes) (hbinding : scope.binding = some binding) : cfg.currentBinding scope.serverId = some binding := by
  simp only [checkScopes, bind_eq_ok, pure_eq_ok] at h
  obtain ⟨all, hall, rfl⟩ := h
  rcases checkAll_ok hall ((List.mem_insertionSort _).mp hmem) with hnil | hcurrent
  · cases hnil
  · exact hcurrent binding hbinding

variable {m : Manifest}

theorem httpCredentialBinding_some (h : httpCredentialBinding cfg m = some binding) : cfg.currentBinding m.id = some binding := by
  unfold httpCredentialBinding at h
  split at h
  · cases h
  · split at h
    · exact h
    · cases h

theorem createCredential_ok {id value now : String} {requests : List HttpScope}
    (h : createCredential urls cfg credentials id value now requests = .ok credentials') :
    ∃ scopes, checkScopes urls cfg requests = .ok scopes ∧
      credentials.insert { id, secret := value, revision := now, scopes } = some credentials' := by
  simp only [createCredential, bind_eq_ok, expect_eq_ok] at h
  obtain ⟨scopes, hscopes, -, -, -, -, hinsert⟩ := h
  exact ⟨scopes, hscopes, hinsert⟩

theorem updateCredential_ok {id expectedRevision now : String} {value : Option String} {requests : Option (List HttpScope)}
    (h : updateCredential urls cfg credentials id expectedRevision value requests now = .ok credentials') :
    ∃ scopes, requests.mapM (checkScopes urls cfg) = .ok scopes ∧
      credentials' = credentials.update (·.id = id) (·.edit value scopes now) fun _ => rfl := by
  simp only [updateCredential, bind_eq_ok] at h
  obtain ⟨scopes, hscopes, _, -, -, -, h⟩ := h
  refine ⟨scopes, hscopes, ?_⟩
  cases value with
  | none => exact (pure_eq_ok.mp h).symm
  | some value =>
    simp only [bind_eq_ok, pure_eq_ok] at h
    obtain ⟨-, -, rfl⟩ := h
    rfl

theorem deleteCredential_ok {id expectedRevision : String}
    (h : deleteCredential credentials id expectedRevision = .ok credentials') :
    credentials' = credentials.delete (·.id = id) := by
  simp only [deleteCredential, bind_eq_ok, pure_eq_ok] at h
  obtain ⟨_, -, -, -, rfl⟩ := h
  rfl

/-- A save changes nothing, or seals the scopes of the credentials it refers to. -/
theorem bindSavedHttpCredentials_ok (h : bindSavedHttpCredentials urls cfg credentials m = .ok credentials') :
    (credentials' = credentials ∧ (m.transport ≠ .streamableHttp ∨ m.headerRefs = [])) ∨
      ∃ origin binding, m.transport = .streamableHttp ∧ urls.canonicalHttpOrigin (m.endpoint.getD "") = some origin ∧
        cfg.currentBinding m.id = some binding ∧
        credentials' = credentials.update (fun c => m.headerRefs.contains c.id)
          (fun c => { c with scopes := c.scopes.map (·.sealTo m.id origin binding) }) fun _ => rfl := by
  unfold bindSavedHttpCredentials at h
  split at h
  · rename_i hused
    simp only [bind_eq_ok, expect_eq_ok, bindHttpUsage, pure_eq_ok] at h
    obtain ⟨binding, hbinding, origin, horigin, -, -, rfl⟩ := h
    exact .inr ⟨origin, binding, hused.1, horigin, httpCredentialBinding_some hbinding, rfl⟩
  rename_i hnot
  obtain rfl := pure_eq_ok.mp h
  refine .inl ⟨rfl, ?_⟩
  by_cases ht : m.transport = .streamableHttp
  · exact .inr (by simpa [ht] using hnot)
  · exact .inl ht

variable {serverId origin : String}

theorem mem_sealTo {scopes : List HttpScope} (h : scope ∈ scopes.map (·.sealTo serverId origin binding)) :
    (scope ∈ scopes ∧ ¬ (scope.serverId = serverId ∧ scope.origin = origin ∧ scope.binding = none)) ∨
      scope = ⟨serverId, origin, some binding⟩ ∧ ⟨serverId, origin, none⟩ ∈ scopes := by
  obtain ⟨before, hbefore, rfl⟩ := List.mem_map.mp h
  unfold HttpScope.sealTo
  split
  · rename_i hpending
    obtain ⟨rfl, rfl, hnone⟩ := hpending
    refine .inr ⟨rfl, ?_⟩
    cases before
    simp only at hnone
    subst hnone
    exact hbefore
  · rename_i hother
    exact .inl ⟨hbefore, hother⟩

/-- Where a scope comes from: it is approved, it was there, or it was pending and is sealed. -/
inductive ScopeOrigin (urls : Urls) (t : World) (e : Event) (v : World) (id : String) (scope : HttpScope) : Prop
  | approved (h : Approves urls id scope t e v)
  | kept (c : Credential) (hc : c ∈ t.credentials) (hid : c.id = id) (hscope : scope ∈ c.scopes) (h : Untouched id t e v)
    (hseals : scope.binding = none → ¬ Seals urls id scope.serverId scope.origin t e v)
  | sealed (c : Credential) (hc : c ∈ t.credentials) (hid : c.id = id) (binding : Nat) (hbinding : scope.binding = some binding)
    (hscope : { scope with binding := none } ∈ c.scopes) (hcurrent : t.config.currentBinding scope.serverId = some binding)
    (h : Seals urls id scope.serverId scope.origin t e v)

variable {c : Credential}

theorem ScopeOrigin.of_unchanged {t v : World} {e : Event}
    (hsame : v.credentials = t.credentials) (hsave : ∀ m, e ≠ .save m) (hc : c ∈ v.credentials) (hscope : scope ∈ c.scopes) :
    ScopeOrigin urls t e v c.id scope := by
  refine .kept c (hsame ▸ hc) rfl hscope (.inl hsame) ?_
  rintro - ⟨m, he, -⟩
  exact hsave m he

variable {t : World}

section
attribute [local simp] next Event.requests World.withCredentials

theorem scopeOrigin_create {id value now : String} {requests : List HttpScope}
    (hc : c ∈ (next urls t (.create id value now requests)).credentials) (hscope : scope ∈ c.scopes) :
    ScopeOrigin urls t (.create id value now requests) (next urls t (.create id value now requests)) c.id scope := by
  cases hresult : createCredential urls t.config t.credentials id value now requests with
  | error =>
    have hsame : (next urls t (.create id value now requests)).credentials = t.credentials := by
      simp [hresult]
    exact .of_unchanged hsame (by simp) hc hscope
  | ok credentials' =>
    have hnext : (next urls t (.create id value now requests)).credentials = credentials' := by
      simp [hresult]
    obtain ⟨scopes, hscopes, hinsert⟩ := createCredential_ok hresult
    rcases (Table.mem_insert hinsert).mp (hnext ▸ hc) with hold | rfl
    · have hne : c.id ≠ id := (Table.insert_eq_some hinsert).2 c hold
      refine .kept c hold rfl hscope (.inr ⟨by simp [hne.symm], by simp⟩) ?_
      rintro - ⟨m, he, -⟩
      cases he
    · exact .approved ⟨requests, scopes, by simp, hscopes, hscope, _, hc, rfl, rfl⟩

theorem scopeOrigin_update {id expectedRevision now : String} {value : Option String} {requests : Option (List HttpScope)}
    (hc : c ∈ (next urls t (.update id expectedRevision value requests now)).credentials) (hscope : scope ∈ c.scopes) :
    ScopeOrigin urls t (.update id expectedRevision value requests now)
      (next urls t (.update id expectedRevision value requests now)) c.id scope := by
  cases hresult : updateCredential urls t.config t.credentials id expectedRevision value requests now with
  | error =>
    have hsame : (next urls t (.update id expectedRevision value requests now)).credentials = t.credentials := by
      simp [hresult]
    exact .of_unchanged hsame (by simp) hc hscope
  | ok credentials' =>
    have hnext : (next urls t (.update id expectedRevision value requests now)).credentials = credentials' := by
      simp [hresult]
    obtain ⟨scopes, hscopes, hupdate⟩ := updateCredential_ok hresult
    have hsave : ¬ Seals urls c.id scope.serverId scope.origin t (.update id expectedRevision value requests now)
        (next urls t (.update id expectedRevision value requests now)) := by
      rintro ⟨m, he, -⟩
      cases he
    rcases Table.mem_update_cases ((hnext.trans hupdate) ▸ hc) with ⟨hold, hne⟩ | ⟨before, hbefore, hid, hafter⟩
    · have hne : id ≠ c.id := by simpa [eq_comm] using hne
      exact .kept c hold rfl hscope (.inr ⟨by simp [hne], by simp⟩) fun _ => hsave
    obtain rfl : before.id = id := by simpa using hid
    have hsame : before.id = c.id := hafter ▸ rfl
    cases requests with
    | none =>
      obtain rfl := pure_eq_ok.mp hscopes
      have hkept : scope ∈ before.scopes := by simpa [hafter, Credential.edit] using hscope
      exact .kept before hbefore hsame hkept (.inr ⟨by simp, by simp⟩) fun _ => hsave
    | some requests =>
      cases hcheck : checkScopes urls t.config requests with
      | error => simp [Option.mapM, hcheck, Functor.map, Except.map] at hscopes
      | ok checked =>
        have hchecked : scopes = some checked := by
          simpa [Option.mapM, hcheck, Functor.map, Except.map, eq_comm] using hscopes
        have hscopes' : c.scopes = checked := by simp [hafter, Credential.edit, hchecked]
        exact .approved ⟨requests, checked, by simp [hsame], hcheck, hscopes' ▸ hscope, c, hc, rfl, hscopes'⟩

theorem scopeOrigin_delete {id expectedRevision : String}
    (hc : c ∈ (next urls t (.delete id expectedRevision)).credentials) (hscope : scope ∈ c.scopes) :
    ScopeOrigin urls t (.delete id expectedRevision) (next urls t (.delete id expectedRevision)) c.id scope := by
  cases hresult : deleteCredential t.credentials id expectedRevision with
  | error =>
    have hsame : (next urls t (.delete id expectedRevision)).credentials = t.credentials := by
      simp [hresult]
    exact .of_unchanged hsame (by simp) hc hscope
  | ok credentials' =>
    have hnext : (next urls t (.delete id expectedRevision)).credentials = credentials' := by
      simp [hresult]
    obtain ⟨hold, hne⟩ := Table.mem_delete.mp ((hnext.trans (deleteCredential_ok hresult)) ▸ hc)
    have hne : c.id ≠ id := by simpa using hne
    refine .kept c hold rfl hscope (.inr ⟨rfl, fun _ he => hne (by cases he; rfl)⟩) ?_
    rintro - ⟨m, he, -⟩
    cases he

theorem scopeOrigin_save (hc : c ∈ (next urls t (.save m)).credentials) (hscope : scope ∈ c.scopes) :
    ScopeOrigin urls t (.save m) (next urls t (.save m)) c.id scope := by
  have huntouched : ∀ v, Untouched c.id t (.save m) v := fun _ => .inr ⟨rfl, by simp⟩
  cases hresult : bindSavedHttpCredentials urls t.config t.credentials m with
  | error =>
    have hsame : (next urls t (.save m)).credentials = t.credentials := by simp [hresult]
    refine .kept c (hsame ▸ hc) rfl hscope (huntouched _) ?_
    rintro - ⟨m', he, -, -, -, -, hok⟩
    cases he
    simp [hresult] at hok
  | ok credentials' =>
    have hnext : (next urls t (.save m)).credentials = credentials' := by simp [hresult]
    rcases bindSavedHttpCredentials_ok hresult with ⟨hsame, hnone⟩ | ⟨origin, binding, hstreamable, horigin, hcurrent, hupdate⟩
    · refine .kept c ((hnext.trans hsame) ▸ hc) rfl hscope (huntouched _) ?_
      rintro - ⟨m', he, hmem, -, htransport, -⟩
      cases he
      rcases hnone with hother | hnil
      · exact hother htransport
      · simp [hnil] at hmem
    rcases Table.mem_update_cases ((hnext.trans hupdate) ▸ hc) with ⟨hold, hnot⟩ | ⟨before, hbefore, href, rfl⟩
    · refine .kept c hold rfl hscope (huntouched _) ?_
      rintro - ⟨m', he, hmem, -⟩
      cases he
      simp [hmem] at hnot
    rcases mem_sealTo hscope with ⟨hkept, hother⟩ | ⟨rfl, hpending⟩
    · refine .kept before hbefore rfl hkept (huntouched _) ?_
      rintro hnone ⟨m', he, -, hserver, -, horigin', -⟩
      cases he
      exact hother ⟨hserver.symm, by simpa [horigin] using horigin'.symm, hnone⟩
    · refine .sealed before hbefore rfl binding rfl hpending hcurrent ?_
      exact ⟨m, rfl, by simpa using href, rfl, hstreamable, horigin, hnext ▸ hresult⟩

end

/-- Every scope after a step comes from one of the three. -/
theorem scopeOrigin (t : World) (e : Event) (hc : c ∈ (next urls t e).credentials) (hscope : scope ∈ c.scopes) :
    ScopeOrigin urls t e (next urls t e) c.id scope := by
  cases e with
  | create => exact scopeOrigin_create hc hscope
  | update => exact scopeOrigin_update hc hscope
  | delete => exact scopeOrigin_delete hc hscope
  | save => exact scopeOrigin_save hc hscope
  | file path content =>
    have hsame : (next urls t (.file path content)).credentials = t.credentials := by cases content <;> rfl
    exact .of_unchanged hsame (by simp) hc hscope
  | record serverId path target replace =>
    have hsame : (next urls t (.record serverId path target replace)).credentials = t.credentials := by
      simp only [next]
      split <;> rfl
    exact .of_unchanged hsame (by simp) hc hscope
  | client m remembered =>
    have hsame : (next urls t (.client m remembered)).credentials = t.credentials := by
      simp only [next]
      split <;> rfl
    exact .of_unchanged hsame (by simp) hc hscope
  | ensure | drop | test => exact .of_unchanged rfl (by simp) hc hscope

/-! ## Every run -/

variable {w : World} {tr : List Event}

/-- A scope without an identity is one that was approved so and no save has used. -/
theorem pendingSince_of_mem (h : Run (Step urls) {} tr w)
    (hc : c ∈ w.credentials) (hscope : { serverId, origin } ∈ c.scopes) : PendingSince urls c.id serverId origin tr w := by
  refine h.since (I := fun _ => True) (A := fun w => ∃ c' ∈ w.credentials, c'.id = c.id ∧ { serverId, origin } ∈ c'.scopes)
    trivial (fun _ _ _ _ _ => trivial) ?_ ?_ ⟨c, hc, rfl, hscope⟩
  · rintro ⟨c', hc', -⟩
    exact Table.not_mem_empty _ hc'
  rintro _ t e _ - - rfl ⟨c', hc', hid, hscope'⟩
  rw [← hid]
  cases scopeOrigin t e hc' hscope' with
  | approved h => exact .inl h
  | kept c0 hc0 hid0 hscope0 h hseals => exact .inr ⟨⟨c0, hc0, hid0, hscope0⟩, h, hseals rfl⟩
  | sealed _ _ _ _ hbinding => cases hbinding

/-- A scope with an identity was approved for it while it was in force, or was pending and sealed to it then. -/
theorem grantedSince_of_mem (h : Run (Step urls) {} tr w)
    (hc : c ∈ w.credentials) (hscope : { serverId, origin, binding := some binding } ∈ c.scopes) :
    GrantedSince urls c.id serverId origin binding tr w := by
  refine h.since (I := fun _ => True)
    (A := fun w => ∃ c' ∈ w.credentials, c'.id = c.id ∧ { serverId, origin, binding := some binding } ∈ c'.scopes)
    trivial (fun _ _ _ _ _ => trivial) ?_ ?_ ⟨c, hc, rfl, hscope⟩
  · rintro ⟨c', hc', -⟩
    exact Table.not_mem_empty _ hc'
  rintro pre t e _ hrun - rfl ⟨c', hc', hid, hscope'⟩
  rw [← hid]
  cases scopeOrigin t e hc' hscope' with
  | approved h =>
    obtain ⟨requests, scopes, -, hcheck, hmem, -⟩ := id h
    exact .inl ⟨checkScopes_ok hcheck hmem rfl, .inl h⟩
  | kept c0 hc0 hid0 hscope0 h => exact .inr ⟨⟨c0, hc0, hid0, hscope0⟩, h⟩
  | sealed c0 hc0 hid0 b hb hscope0 hcurrent h =>
    obtain rfl : binding = b := by simpa using hb
    exact .inl ⟨hcurrent, .inr ⟨h, hid0 ▸ pendingSince_of_mem hrun hc0 hscope0⟩⟩

theorem readSince_of_mem (h : Run (Step urls) {} tr w) (hm : (m, binding) ∈ w.clients) : ReadSince urls m binding tr w := by
  refine h.since (I := fun _ => True) (A := fun w => (m, binding) ∈ w.clients) trivial (fun _ _ _ _ _ => trivial)
    List.not_mem_nil ?_ hm
  rintro _ t e _ - - rfl hmem
  cases e with
  | client m' remembered =>
    simp only [next] at hmem
    split at hmem
    · rename_i hread
      rcases List.mem_cons.mp hmem with heq | hmem
      · obtain ⟨rfl, rfl⟩ := Prod.mk.inj heq
        exact .inl ⟨remembered, rfl, hread⟩
      · exact .inr ⟨hmem, trivial⟩
    · exact .inr ⟨hmem, trivial⟩
  | file path content => cases content <;> exact .inr ⟨hmem, trivial⟩
  | record | create | update | delete | save =>
    simp only [next, World.withCredentials] at hmem
    split at hmem <;> exact .inr ⟨hmem, trivial⟩
  | ensure | drop | test => exact .inr ⟨hmem, trivial⟩

/-- A released secret is one of a credential with a scope that permits it. -/
theorem releaseTo_ok {binding : Option Nat} {revisions : Option (List (String × String))} {allowPending : Bool}
    {secrets : List String} (h : releaseTo urls credentials m binding revisions allowPending = .ok secrets) {id : String}
    (hid : id ∈ m.headerRefs) :
    ∃ origin, urls.canonicalHttpOrigin (m.endpoint.getD "") = some origin ∧
      ∃ c ∈ credentials, c.id = id ∧ ∃ scope ∈ c.scopes, scope.permits m.id origin binding allowPending = true := by
  simp only [releaseTo, bind_eq_ok, each_eq_ok] at h
  obtain ⟨-, hall, -⟩ := h
  have hassert := hall id hid
  simp only [assertHttpBinding, bind_eq_ok, expect_eq_ok, require_eq_ok, List.any_eq_true] at hassert
  obtain ⟨origin, horigin, c, hfind, -, -, scope, hscope, hpermits⟩ := hassert
  obtain ⟨hc, hcid⟩ := Table.find_eq_some.mp hfind
  exact ⟨origin, horigin, c, hc, hcid, scope, hscope, hpermits⟩

theorem HttpScope.permits_iff {binding : Option Nat} {allowPending : Bool} :
    scope.permits serverId origin binding allowPending = true ↔ scope = ⟨serverId, origin, scope.binding⟩ ∧
        ((∃ b, binding = some b ∧ scope.binding = some b) ∨ allowPending = true ∧ scope.binding = none) := by
  obtain ⟨s, o, b⟩ := scope
  simp only [permits, Bool.and_eq_true, Bool.or_eq_true, decide_eq_true_eq, mk.injEq, and_true, Option.isSome_iff_exists]
  constructor
  · rintro ⟨hplace, ⟨⟨b', rfl⟩, rfl⟩ | hpending⟩
    · exact ⟨hplace, .inl ⟨b', rfl, rfl⟩⟩
    · exact ⟨hplace, .inr hpending⟩
  · rintro ⟨hplace, ⟨b', rfl, rfl⟩ | hpending⟩
    · exact ⟨hplace, .inl ⟨⟨b', rfl⟩, rfl⟩⟩
    · exact ⟨hplace, .inr hpending⟩

/-- Every binding a scope names was given out. -/
structure Issued (w : World) : Prop where
  identities : w.config.Issued
  scopes : ∀ c ∈ w.credentials, ∀ scope ∈ c.scopes, ∀ b, scope.binding = some b → b < w.config.nextBinding

theorem next_advances (w : World) (e : Event) : w.config.Advances (next urls w e).config := by
  cases e with
  | file path content =>
    cases content with
    | none => exact .unlink _ _
    | some content => exact .write _ _ _
  | ensure serverId => exact .ensure _ _
  | record serverId path target replace =>
    simp only [next]
    split
    · rename_i hrecord
      exact .record hrecord
    · exact .refl _
  | drop serverId => exact .drop _ _
  | client | create | update | delete | save =>
    simp only [next, World.withCredentials]
    split <;> exact .refl _
  | test => exact .refl _

/-- A step names only bindings that were given out before it. -/
theorem Issued.names (h : Issued w) {e : Event} {b : Nat}
    (hc : c ∈ (next urls w e).credentials) (hscope : scope ∈ c.scopes) (hb : scope.binding = some b) :
    b < w.config.nextBinding := by
  cases scopeOrigin w e hc hscope with
  | approved h' =>
    obtain ⟨requests, scopes, -, hcheck, hmem, -⟩ := h'
    exact h.identities.current (checkScopes_ok hcheck hmem hb)
  | kept c0 hc0 _ hscope0 => exact h.scopes c0 hc0 scope hscope0 b hb
  | sealed _ _ _ b' hb' _ hcurrent =>
    obtain rfl : b' = b := Option.some.inj (hb'.symm.trans hb)
    exact h.identities.current hcurrent

theorem Issued.step (h : Issued w) (e : Event) : Issued (next urls w e) := by
  have hadvances : w.config.Advances (next urls w e).config := next_advances w e
  refine ⟨hadvances.issued h.identities, ?_⟩
  intro c hc scope hscope b hb
  exact Nat.lt_of_lt_of_le (h.names hc hscope hb) hadvances.next

theorem issued_run (h : Run (Step urls) {} tr w) : Issued w := by
  refine h.invariant ⟨?_, ?_⟩ ?_
  · intro s row hrow
    cases hrow
  · intro c hc
    exact absurd hc (Table.not_mem_empty c)
  · rintro t e _ ht rfl
    exact ht.step e

/-- **Where a secret goes.** In every run of requests, saves and clients, whatever happens to the services:
* the client of a service gets the secret of a credential only for the identity it has read, and only if the credential
  has been tied to this service, origin and identity while the identity was in force, by an approval that names it or by
  the first save to use a pending scope, and its scopes have not been replaced since;
* a connection test gets it under the same condition, or under a scope that is still pending;
* a service that gets another identity finds no scope for it. -/
theorem secrets_sealed (h : Run (Step urls) {} tr w) : (∀ m binding revisions secrets, (m, binding) ∈ w.clients →
      resolveHeaders urls w.credentials m binding revisions = .ok secrets → ReadSince urls m binding tr w ∧ ∀ id ∈ m.headerRefs,
          ∃ origin, urls.canonicalHttpOrigin (m.endpoint.getD "") = some origin ∧ GrantedSince urls id m.id origin binding tr w) ∧
    (∀ m binding revisions secrets, (m, binding) ∈ w.tests →
      testHeaders urls w.credentials m binding revisions = .ok secrets → ∀ id ∈ m.headerRefs,
        ∃ origin, urls.canonicalHttpOrigin (m.endpoint.getD "") = some origin ∧
          ((∃ b, binding = some b ∧ GrantedSince urls id m.id origin b tr w) ∨ PendingSince urls id m.id origin tr w)) ∧
    (∀ e v, Step urls w e v → ∀ serverId row, v.config.identities serverId = some row →
      (∀ row', w.config.identities serverId = some row' → row'.binding ≠ row.binding) →
        ∀ c ∈ v.credentials, ∀ scope ∈ c.scopes, scope.binding ≠ some row.binding) := by
  refine ⟨?_, ?_, ?_⟩
  · intro m binding revisions secrets hclient hrelease
    refine ⟨readSince_of_mem h hclient, ?_⟩
    intro id hid
    obtain ⟨origin, horigin, c, hc, rfl, scope, hscope, hpermits⟩ := releaseTo_ok hrelease hid
    obtain ⟨hshape, ⟨b, hb, hbinding⟩ | ⟨hpending, -⟩⟩ := HttpScope.permits_iff.mp hpermits
    · obtain rfl : binding = b := by simpa using hb
      rw [hshape, hbinding] at hscope
      exact ⟨origin, horigin, grantedSince_of_mem h hc hscope⟩
    · cases hpending
  · intro m binding revisions secrets _ hrelease id hid
    obtain ⟨origin, horigin, c, hc, rfl, scope, hscope, hpermits⟩ := releaseTo_ok hrelease hid
    refine ⟨origin, horigin, ?_⟩
    obtain ⟨hshape, ⟨b, hb, hbinding⟩ | ⟨-, hnone⟩⟩ := HttpScope.permits_iff.mp hpermits
    · rw [hshape, hbinding] at hscope
      exact .inl ⟨b, hb, grantedSince_of_mem h hc hscope⟩
    · rw [hshape, hnone] at hscope
      exact .inr (pendingSince_of_mem h hc hscope)
  · rintro e _ rfl serverId row hrow hnew c hc scope hscope hnames
    rcases (next_advances w e).binding serverId row hrow with ⟨-, hfresh⟩ | ⟨row', hrow', heq⟩
    · exact absurd ((issued_run h).names hc hscope hnames) (Nat.not_lt.mpr hfresh)
    · exact hnew row' hrow' heq

/-! ## A scope that is sealed, and one that is not -/

def exampleUrls : Urls where
  canonicalHttpOrigin endpoint :=
    if endpoint = "https://api.example" ∨ endpoint = "https://api.example/mcp" then some "https://api.example:443" else none
  path endpoint := if endpoint = "https://api.example/mcp" then "/mcp" else ""

def exampleManifest : Manifest where
  id := "s"
  endpoint := some "https://api.example/mcp"
  headerRefs := ["c"]

/-- A pending scope is approved, and the service is saved with a reference to the credential. -/
def approvedAndSaved : List Event :=
  [.create "c" "secret" "r1" [{ serverId := "s", origin := "https://api.example" }],
    .file "s.yaml" (some (.manifest exampleManifest)), .record "s" "s.yaml" exampleManifest.target true,
    .save exampleManifest, .client exampleManifest none]

theorem secrets_sealed_saved : ∃ w, Run (Step exampleUrls) {} approvedAndSaved w ∧ (exampleManifest, 0) ∈ w.clients ∧
    resolveHeaders exampleUrls w.credentials exampleManifest 0 none = .ok ["secret"] ∧
    GrantedSince exampleUrls "c" "s" "https://api.example:443" 0 approvedAndSaved w := by
  have hrun : Run (Step exampleUrls) {} approvedAndSaved (approvedAndSaved.foldl (next exampleUrls) {}) :=
    Run.of_foldl (fun _ _ => rfl) _ _
  have hclient : (exampleManifest, 0) ∈ (approvedAndSaved.foldl (next exampleUrls) {}).clients := by decide
  have hrelease : resolveHeaders exampleUrls (approvedAndSaved.foldl (next exampleUrls) {}).credentials exampleManifest 0 none =
      .ok ["secret"] := by rfl
  obtain ⟨hreleases, -⟩ := secrets_sealed hrun
  obtain ⟨-, hgranted⟩ := hreleases exampleManifest 0 none ["secret"] hclient hrelease
  obtain ⟨origin, horigin, hsince⟩ := hgranted "c" (by decide)
  obtain rfl : "https://api.example:443" = origin := by simpa [exampleUrls, exampleManifest] using horigin
  exact ⟨_, hrun, hclient, hrelease, hsince⟩

/-- What is tied to an identity is tied to one that was given out. -/
theorem grantedSince_lt {id serverId origin : String}
    (h : GrantedSince urls id serverId origin binding tr w) : binding < w.config.nextBinding := by
  induction h with
  | now hr he hgrants =>
    obtain rfl := he
    exact Nat.lt_of_lt_of_le ((issued_run hr).identities.current hgrants.1) (next_advances _ _).next
  | later _ he _ ih =>
    obtain rfl := he
    exact Nat.lt_of_lt_of_le ih (next_advances _ _).next

/-- A connection test of a service that was never saved gets the secret: no identity was ever given out. -/
theorem test_before_seal : ∃ tr w, Run (Step exampleUrls) {} tr w ∧ (exampleManifest, none) ∈ w.tests ∧
    testHeaders exampleUrls w.credentials exampleManifest none [("c", "r1")] = .ok ["secret"] ∧
    ∀ origin binding, ¬ GrantedSince exampleUrls "c" "s" origin binding tr w := by
  have hrun : Run (Step exampleUrls) {} [.create "c" "secret" "r1" [{ serverId := "s", origin := "https://api.example" }],
      .test exampleManifest] _ := Run.of_foldl (fun _ _ => rfl) _ _
  refine ⟨_, _, hrun, by decide, by rfl, ?_⟩
  intro origin binding hgranted
  have hlt := grantedSince_lt hgranted
  exact absurd hlt (Nat.not_lt_zero binding)

end LingshuGate.SharedCredentials

import LingshuGate.Lib.Table
import LingshuGate.Lib.Check

/-!
# Business credentials (`business_credential_store.py`, `application/business_credentials.py`)

| here | there |
| --- | --- |
| `createCredential` … `deleteBinding` | the methods of `BusinessCredentialStore` |
| `Op`, `perform`       | `BusinessCredentialService`: `create`, `update`, `delete`, `bind`, `update_binding`, `delete_binding` |
| `beginSync` … `finishSync` | `synchronize` (316) around its downstream call |

Each operation is one transaction of the store; `synchronize` is two, with the call of the target between them. The `_ok`
lemmas say what a transaction that commits has checked and written.

Authority, the pinned contract of the target and the encryption key are outside: any of them may refuse at its place.
-/

namespace LingshuGate.Credentials

open Lib

/-! ## The store -/

structure BusinessError where
  code : String
  message : String
  status : Nat := 400
  deriving DecidableEq

inductive CredentialScope
  | personal | shared
  deriving DecidableEq

structure Secret where
  username : String
  password : String
  deriving DecidableEq

/-- A row of `business_credentials`; the secret is stored encrypted. -/
structure Credential where
  id : String
  ownerId : String
  scope : CredentialScope := .personal
  metadata : String := ""
  secret : Secret
  enabled : Bool := true
  version : Nat := 1
  deriving DecidableEq

inductive SyncStatus
  | pending | synced | failed | unknown | deleted
  deriving DecidableEq

/-- The manifest digest and the tool revisions a binding is pinned to. -/
structure Contract where
  manifestDigest : String
  toolRevisions : List (String × String)
  deriving DecidableEq

/-- A row of `business_credential_bindings`. -/
structure Binding where
  id : String
  credentialId : String
  serverId : String
  toolPrefix : String := "agent_browser_"
  contract : Contract
  enabled : Bool := true
  revision : Nat := 1
  syncedVersion : Option Nat := none
  syncStatus : SyncStatus := .pending
  remoteCopyPossible : Bool := false
  deriving DecidableEq

/-- A browser session that is not closed. -/
structure OpenSession where
  credentialId : String
  bindingId : String
  deriving DecidableEq

structure Store where
  credentials : Table Credential Credential.id := ∅
  bindings : Table Binding Binding.id := ∅
  /-- `business_credential_targets`: server and tool prefix. -/
  targets : List (String × String) := []
  sessions : List OpenSession := []

def credentialNotFound : BusinessError := ⟨"credential_not_found", "The business credential is unavailable.", 404⟩

def bindingNotFound : BusinessError := ⟨"binding_not_found", "The credential binding is unavailable.", 404⟩

def revisionConflict : BusinessError := ⟨"credential_revision_conflict", "The credential or binding changed; reload it.", 409⟩

/-- `_version` (75). -/
def checkVersion (actual expected : Nat) : Except BusinessError Unit := require (actual = expected) revisionConflict

/-- A check that is made outside: what it raises, if anything. -/
def allowed : Option BusinessError → Except BusinessError Unit
  | none => .ok ()
  | some e => .error e

/-- `encrypts`: the key of the store is there. -/
def createCredential (st : Store) (ownerExists encrypts : Bool) (c : Credential) : Except BusinessError Store := do
  require ownerExists ⟨"credential_owner_unavailable", "A current Gate account is required.", 403⟩
  require encrypts ⟨"credential_unavailable", "The business credential cannot be encrypted.", 409⟩
  return { st with credentials := ← expect (st.credentials.insert { c with version := 1 }) ⟨"integrity_error", "", 500⟩ }

structure CredentialUpdate where
  expectedVersion : Nat
  username : Option String := none
  password : Option String := none
  enabled : Bool := true
  metadata : String := ""
  /-- Some user or role is allowed. -/
  shares : Bool := false
  deriving DecidableEq

def Secret.change (s : Secret) (r : CredentialUpdate) : Secret := ⟨r.username.getD s.username, r.password.getD s.password⟩

/-- Every binding of the credential is `pending` again: an old receipt cannot mark the new account. -/
def updateCredential (st : Store) (decrypts : Bool) (credentialId : String) (r : CredentialUpdate) :
    Except BusinessError Store := do
  let row ← expect (st.credentials.find credentialId) credentialNotFound
  checkVersion row.version r.expectedVersion
  require (!(row.scope = .personal && r.shares))
    ⟨"personal_credential_grant_denied", "Personal credentials cannot be shared.", 422⟩
  require (decrypts || (r.username.isNone && r.password.isNone))
    ⟨"credential_unavailable", "The business credential cannot be decrypted.", 409⟩
  return { st with
    credentials := st.credentials.update (fun c => c.id = credentialId && c.version = r.expectedVersion)
      (fun c => { c with metadata := r.metadata, secret := c.secret.change r, enabled := r.enabled, version := c.version + 1 })
      fun _ => rfl
    bindings := st.bindings.update (·.credentialId = credentialId)
      (fun b => { b with syncStatus := .pending, revision := b.revision + 1 }) fun _ => rfl }

def resolveSecret (st : Store) (decrypts : Bool) (credentialId : String) (expectedVersion : Nat) : Except BusinessError Secret := do
  let row ← expect (st.credentials.find credentialId) credentialNotFound
  checkVersion row.version expectedVersion
  require row.enabled ⟨"credential_disabled", "The business credential is disabled.", 403⟩
  require decrypts ⟨"credential_unavailable", "The business credential cannot be decrypted.", 409⟩
  return row.secret

def deleteCredential (st : Store) (credentialId : String) (expectedVersion : Nat) : Except BusinessError Store := do
  let row ← expect (st.credentials.find credentialId) credentialNotFound
  checkVersion row.version expectedVersion
  require (!st.bindings.rows.any fun b => b.credentialId = credentialId && b.remoteCopyPossible)
    ⟨"remote_copy_cleanup_required", "Remove remote vault copies first, or keep this credential disabled for cleanup.", 409⟩
  require (!st.sessions.any fun s => s.credentialId = credentialId)
    ⟨"browser_session_cleanup_required", "Close managed browser sessions first, or keep this credential disabled for cleanup.", 409⟩
  return { st with
    bindings := st.bindings.delete (·.credentialId = credentialId)
    credentials := st.credentials.delete (·.id = credentialId) }

/-- `b` is the row to insert: a new id, the first revision, nothing synchronized. -/
def createBinding (st : Store) (validContract : Bool) (b : Binding) : Except BusinessError Store := do
  require validContract ⟨"invalid_binding_contract", "An exact manifest and adapter tool contract is required.", 422⟩
  let _ ← expect (st.credentials.find b.credentialId) credentialNotFound
  require (st.targets.all fun t => t.1 ≠ b.serverId || t.2 = b.toolPrefix)
    ⟨"adapter_target_conflict", "This target already uses a different adapter contract.", 409⟩
  require (!st.bindings.rows.any fun b' => b'.credentialId = b.credentialId && b'.serverId = b.serverId)
    ⟨"binding_exists", "This credential is already bound to the selected instance.", 409⟩
  let row := { b with revision := 1, syncedVersion := none, syncStatus := .pending, remoteCopyPossible := false }
  return { st with
    targets := if st.targets.any (·.1 = b.serverId) then st.targets else st.targets ++ [(b.serverId, b.toolPrefix)]
    bindings := ← expect (st.bindings.insert row) ⟨"integrity_error", "", 500⟩ }

structure BindingUpdate where
  expectedRevision : Nat
  expectedVersion : Nat
  enabled : Bool
  deriving DecidableEq

def updateBinding (st : Store) (bindingId : String) (r : BindingUpdate) (contract : Contract) : Except BusinessError Store := do
  let row ← expect (st.bindings.find bindingId) bindingNotFound
  checkVersion row.revision r.expectedRevision
  let credential ← expect (st.credentials.find row.credentialId) credentialNotFound
  checkVersion credential.version r.expectedVersion
  require (contract = row.contract || !row.remoteCopyPossible)
    ⟨"remote_copy_cleanup_required", "Remove the old remote vault copy before accepting a changed target contract.", 409⟩
  return { st with
    bindings := st.bindings.update (·.id = bindingId)
      (fun b => { b with
        enabled := r.enabled, contract := contract, revision := b.revision + 1
        syncStatus := if contract = row.contract then row.syncStatus else .pending }) fun _ => rfl }

/-- The row as `mark_sync` writes it. -/
def Binding.mark (b : Binding) (expectedVersion : Nat) (status : SyncStatus) : Binding :=
  { b with
    syncStatus := status
    syncedVersion := if status = .synced then some expectedVersion else if status = .deleted then none else b.syncedVersion
    remoteCopyPossible :=
      if status = .deleted then false else if status = .unknown || status = .synced then true else b.remoteCopyPossible
    revision := b.revision + 1 }

/-- `mark_sync` (266), with the row it returns. -/
def markSync (st : Store) (bindingId : String) (expectedRevision expectedVersion : Nat) (status : SyncStatus) :
    Except BusinessError (Store × Binding) := do
  let row ← expect (st.bindings.find bindingId) bindingNotFound
  checkVersion row.revision expectedRevision
  let credential ← expect (st.credentials.find row.credentialId) credentialNotFound
  checkVersion credential.version expectedVersion
  require (status ≠ .synced || (row.enabled && credential.enabled))
    ⟨"credential_disabled", "Disabled credentials cannot be synchronized.", 403⟩
  return ({ st with
    bindings := st.bindings.update (·.id = bindingId) (·.mark expectedVersion status) fun _ => rfl },
    row.mark expectedVersion status)

def deleteBinding (st : Store) (bindingId : String) (expectedRevision : Nat) : Except BusinessError Store := do
  let row ← expect (st.bindings.find bindingId) bindingNotFound
  checkVersion row.revision expectedRevision
  require (!row.remoteCopyPossible)
    ⟨"remote_copy_cleanup_required", "Remove the remote vault copy first, or keep the binding disabled for cleanup.", 409⟩
  require (!st.sessions.any fun s => s.bindingId = bindingId)
    ⟨"browser_session_cleanup_required", "Close managed browser sessions first, or keep this binding disabled for cleanup.", 409⟩
  return { st with bindings := st.bindings.delete (·.id = bindingId) }

/-! ## Synchronizing -/

/-- Where a synchronization is. -/
inductive Stage
  /-- `unknown` is written, nothing sent. -/
  | marked
  | dispatched
  /-- The target answered with a receipt. -/
  | verified
  /-- It did not, or nothing was sent. -/
  | unverified
  deriving DecidableEq

/-- A synchronization under way: what it was asked for, the revision it wrote and the secret it resolved. -/
structure Sync where
  credentialId : String
  bindingId : String
  version : Nat
  revision : Nat
  deleteRemote : Bool
  secret : Secret
  stage : Stage := .marked
  deriving DecidableEq

/-- The binding of a credential (`binding`, 251). -/
def findBinding (st : Store) (credentialId bindingId : String) : Except BusinessError (Credential × Binding) := do
  let record ← expect (st.credentials.find credentialId) credentialNotFound
  let binding ← expect (st.bindings.find bindingId) bindingNotFound
  require (binding.credentialId = credentialId) bindingNotFound
  return (record, binding)

/-- The secret among the arguments of the call; a deletion sends none. -/
def sentSecret (st : Store) (decrypts : Bool) (credentialId : String) (expectedVersion : Nat) (deleteRemote : Bool) :
    Except BusinessError Secret :=
  if deleteRemote then .ok ⟨"", ""⟩ else resolveSecret st decrypts credentialId expectedVersion

/-- `refusal`: the pin, the tool authority or the arguments raise. Nothing is done for a deletion without a copy. -/
def beginSync (st : Store) (refusal : Option BusinessError) (decrypts : Bool) (credentialId bindingId : String)
    (expectedVersion expectedRevision : Nat) (deleteRemote : Bool) : Except BusinessError (Store × Option Sync) := do
  let (record, binding) ← findBinding st credentialId bindingId
  checkVersion record.version expectedVersion
  checkVersion binding.revision expectedRevision
  if deleteRemote && !binding.remoteCopyPossible then return (st, none)
  else
    allowed refusal
    require (deleteRemote || (record.enabled && binding.enabled))
      ⟨"credential_disabled", "Enable the credential and binding before synchronizing.", 403⟩
    let secret ← sentSecret st decrypts credentialId expectedVersion deleteRemote
    let (st', marked) ← markSync st bindingId expectedRevision expectedVersion .unknown
    return (st', some ⟨credentialId, bindingId, expectedVersion, marked.revision, deleteRemote, secret, .marked⟩)

/-- The guard of `_raw` right before the call (299). -/
def dispatchGuard (st : Store) (x : Sync) : Bool :=
  match st.credentials.find x.credentialId, st.bindings.find x.bindingId with
  | some c, some b => c.version = x.version && b.revision = x.revision && (x.deleteRemote || (c.enabled && b.enabled))
  | _, _ => false

/-- The last transaction of `synchronize`. -/
def finishSync (st : Store) (x : Sync) : Except BusinessError Store := do
  let status := match x.stage with
    | .verified => if x.deleteRemote then .deleted else .synced
    | _ => .unknown
  let (st', _) ← markSync st x.bindingId x.revision x.version status
  return st'

/-! ## The operations -/

/-- An operation with what it is given; `refusal` is what authority, target or contract raise. -/
inductive Op
  | create (refusal : Option BusinessError) (ownerExists encrypts : Bool) (row : Credential)
  | update (refusal : Option BusinessError) (decrypts : Bool) (credentialId : String) (r : CredentialUpdate)
  | delete (refusal : Option BusinessError) (credentialId : String) (expectedVersion : Nat)
  | bind (refusal : Option BusinessError) (validContract : Bool) (row : Binding) (expectedVersion : Nat)
  | updateBinding (refusal : Option BusinessError) (credentialId bindingId : String) (r : BindingUpdate)
  | unbind (refusal : Option BusinessError) (credentialId bindingId : String) (expectedRevision : Nat)
  | synchronize (refusal : Option BusinessError) (decrypts : Bool) (credentialId bindingId : String)
      (expectedVersion expectedRevision : Nat) (deleteRemote : Bool)

/-- A binding keeps the contract it has: the service never passes another (266). -/
def perform (st : Store) : Op → Except BusinessError (Store × Option Sync)
  | .create refusal ownerExists encrypts row => do
    allowed refusal
    return (← createCredential st ownerExists encrypts row, none)
  | .update refusal decrypts credentialId r => do
    allowed refusal
    return (← updateCredential st decrypts credentialId r, none)
  | .delete refusal credentialId expectedVersion => do
    allowed refusal
    return (← deleteCredential st credentialId expectedVersion, none)
  | .bind refusal validContract row expectedVersion => do
    let record ← expect (st.credentials.find row.credentialId) credentialNotFound
    checkVersion record.version expectedVersion
    allowed refusal
    return (← createBinding st validContract row, none)
  | .updateBinding refusal credentialId bindingId r => do
    allowed refusal
    let (_, binding) ← findBinding st credentialId bindingId
    return (← Credentials.updateBinding st bindingId r binding.contract, none)
  | .unbind refusal credentialId bindingId expectedRevision => do
    allowed refusal
    let _ ← findBinding st credentialId bindingId
    return (← deleteBinding st bindingId expectedRevision, none)
  | .synchronize refusal decrypts credentialId bindingId expectedVersion expectedRevision deleteRemote =>
    beginSync st refusal decrypts credentialId bindingId expectedVersion expectedRevision deleteRemote

/-- The id an operation makes up. -/
def Op.newId : Op → Option String
  | .create _ _ _ row => some row.id
  | .bind _ _ row _ => some row.id
  | _ => none

/-! ## What a transaction has checked -/

variable {st st' : Store} {credentialId bindingId : String}

@[simp] theorem checkVersion_eq_ok {actual expected : Nat} {u : Unit} :
    checkVersion actual expected = .ok u ↔ actual = expected := by
  simp [checkVersion]

@[simp] theorem allowed_eq_ok {refusal : Option BusinessError} {u : Unit} : allowed refusal = .ok u ↔ refusal = none := by
  cases refusal <;> simp [allowed]

theorem updateCredential_ok {decrypts : Bool} {r : CredentialUpdate} (h : updateCredential st decrypts credentialId r = .ok st') :
    ∃ row, st.credentials.find credentialId = some row ∧ row.version = r.expectedVersion ∧
      st'.credentials = st.credentials.update (fun c => c.id = credentialId && c.version = r.expectedVersion)
        (fun c => { c with
          metadata := r.metadata, secret := c.secret.change r, enabled := r.enabled, version := c.version + 1 }) (fun _ => rfl) ∧
      st'.bindings = st.bindings.update (·.credentialId = credentialId)
        (fun b => { b with syncStatus := .pending, revision := b.revision + 1 }) (fun _ => rfl) := by
  simp only [updateCredential, bind_eq_ok, pure_eq_ok, expect_eq_ok, checkVersion_eq_ok, require_eq_ok] at h
  obtain ⟨row, hrow, -, hversion, -, -, -, -, rfl⟩ := h
  exact ⟨row, hrow, hversion, rfl, rfl⟩

theorem deleteCredential_ok {expectedVersion : Nat} (h : deleteCredential st credentialId expectedVersion = .ok st') :
    (∃ row, st.credentials.find credentialId = some row ∧ row.version = expectedVersion) ∧
      (∀ b ∈ st.bindings, b.credentialId = credentialId → b.remoteCopyPossible = false) ∧
      st'.credentials = st.credentials.delete (·.id = credentialId) ∧
      st'.bindings = st.bindings.delete (·.credentialId = credentialId) := by
  simp only [deleteCredential, bind_eq_ok, pure_eq_ok, expect_eq_ok, checkVersion_eq_ok, require_eq_ok] at h
  obtain ⟨row, hrow, -, hversion, -, hcopies, -, -, rfl⟩ := h
  refine ⟨⟨row, hrow, hversion⟩, ?_, rfl, rfl⟩
  have hnone : ∀ b ∈ st.bindings.rows, b.credentialId = credentialId → b.remoteCopyPossible = false := by simpa using hcopies
  exact hnone

theorem createCredential_ok {ownerExists encrypts : Bool} {c : Credential}
    (h : createCredential st ownerExists encrypts c = .ok st') :
    st.credentials.insert { c with version := 1 } = some st'.credentials ∧ st'.bindings = st.bindings := by
  simp only [createCredential, bind_eq_ok, pure_eq_ok, expect_eq_ok, require_eq_ok] at h
  obtain ⟨-, -, -, -, t, ht, rfl⟩ := h
  exact ⟨ht, rfl⟩

theorem createBinding_ok {validContract : Bool} {b : Binding} (h : createBinding st validContract b = .ok st') :
    (∃ c, st.credentials.find b.credentialId = some c) ∧ st'.credentials = st.credentials ∧
      st.bindings.insert { b with revision := 1, syncedVersion := none, syncStatus := .pending, remoteCopyPossible := false } =
        some st'.bindings := by
  simp only [createBinding, bind_eq_ok, pure_eq_ok, expect_eq_ok, require_eq_ok] at h
  obtain ⟨-, -, c, hc, -, -, -, -, t, ht, rfl⟩ := h
  exact ⟨⟨c, hc⟩, rfl, ht⟩

theorem updateBinding_ok {r : BindingUpdate} {contract : Contract} (h : updateBinding st bindingId r contract = .ok st') :
    ∃ row c, st.bindings.find bindingId = some row ∧ row.revision = r.expectedRevision ∧
      st.credentials.find row.credentialId = some c ∧ c.version = r.expectedVersion ∧ st'.credentials = st.credentials ∧
      st'.bindings = st.bindings.update (·.id = bindingId)
        (fun b => { b with
          enabled := r.enabled, contract := contract, revision := b.revision + 1
          syncStatus := if contract = row.contract then row.syncStatus else .pending }) (fun _ => rfl) := by
  simp only [updateBinding, bind_eq_ok, pure_eq_ok, expect_eq_ok, checkVersion_eq_ok, require_eq_ok] at h
  obtain ⟨row, hrow, -, hrevision, c, hc, -, hversion, -, -, rfl⟩ := h
  exact ⟨row, c, hrow, hrevision, hc, hversion, rfl, rfl⟩

theorem deleteBinding_ok {expectedRevision : Nat} (h : deleteBinding st bindingId expectedRevision = .ok st') :
    ∃ row, st.bindings.find bindingId = some row ∧ row.revision = expectedRevision ∧ row.remoteCopyPossible = false ∧
      st'.credentials = st.credentials ∧ st'.bindings = st.bindings.delete (·.id = bindingId) := by
  simp only [deleteBinding, bind_eq_ok, pure_eq_ok, expect_eq_ok, checkVersion_eq_ok, require_eq_ok] at h
  obtain ⟨row, hrow, -, hrevision, -, hcopy, -, -, rfl⟩ := h
  exact ⟨row, hrow, hrevision, by simpa using hcopy, rfl, rfl⟩

theorem markSync_ok {expectedRevision expectedVersion : Nat} {status : SyncStatus} {b : Binding}
    (h : markSync st bindingId expectedRevision expectedVersion status = .ok (st', b)) :
    ∃ row c, st.bindings.find bindingId = some row ∧ row.revision = expectedRevision ∧
      st.credentials.find row.credentialId = some c ∧ c.version = expectedVersion ∧ b = row.mark expectedVersion status ∧
      st'.credentials = st.credentials ∧
      st'.bindings = st.bindings.update (·.id = bindingId) (·.mark expectedVersion status) (fun _ => rfl) := by
  simp only [markSync, bind_eq_ok, pure_eq_ok, expect_eq_ok, checkVersion_eq_ok, require_eq_ok, Prod.mk.injEq] at h
  obtain ⟨row, hrow, -, hrevision, c, hc, -, hversion, -, -, rfl, rfl⟩ := h
  exact ⟨row, c, hrow, hrevision, hc, hversion, rfl, rfl, rfl⟩

/-- A synchronization begins with `unknown` written, for the secret of the version it was asked for. -/
theorem beginSync_ok {refusal : Option BusinessError} {decrypts deleteRemote : Bool} {expectedVersion expectedRevision : Nat}
    {sync : Option Sync} (h : beginSync st refusal decrypts credentialId bindingId expectedVersion expectedRevision
      deleteRemote = .ok (st', sync)) :
    ∃ c b, st.credentials.find credentialId = some c ∧ st.bindings.find bindingId = some b ∧
      b.credentialId = credentialId ∧ c.version = expectedVersion ∧ b.revision = expectedRevision ∧
      ((st' = st ∧ sync = none) ∨ ∃ secret, (deleteRemote = false → secret = c.secret) ∧
          markSync st bindingId expectedRevision expectedVersion .unknown = .ok (st', b.mark expectedVersion .unknown) ∧
          sync = some ⟨credentialId, bindingId, expectedVersion, b.revision + 1, deleteRemote, secret, .marked⟩) := by
  simp only [beginSync, findBinding, bind_eq_ok, pure_eq_ok, expect_eq_ok, checkVersion_eq_ok, require_eq_ok] at h
  obtain ⟨-, ⟨c, hc, b, hb, -, hid, rfl⟩, -, hversion, -, hrevision, h⟩ := h
  have hid' : b.credentialId = credentialId := by simpa using hid
  refine ⟨c, b, hc, hb, hid', hversion, hrevision, ?_⟩
  split at h
  · obtain ⟨rfl, rfl⟩ := Prod.mk.inj (pure_eq_ok.mp h)
    exact .inl ⟨rfl, rfl⟩
  right
  simp only [bind_eq_ok, pure_eq_ok, allowed_eq_ok, require_eq_ok, Prod.mk.injEq] at h
  obtain ⟨-, -, -, -, secret, hsecret, ⟨st'', marked⟩, hmark, rfl, rfl⟩ := h
  obtain ⟨row, -, hrow, -, -, -, rfl, -⟩ := markSync_ok hmark
  obtain rfl : b = row := by
    rw [hb] at hrow
    exact Option.some.inj hrow
  refine ⟨secret, ?_, hmark, rfl⟩
  rintro rfl
  simp only [sentSecret, Bool.false_eq_true, if_false, resolveSecret, hc, bind_eq_ok, pure_eq_ok, expect_eq_ok, Option.some.injEq,
    exists_eq_left', checkVersion_eq_ok, require_eq_ok] at hsecret
  obtain ⟨-, -, -, -, -, -, h⟩ := hsecret
  exact h.symm

/-! ## Stale operations -/

/-- Every version and revision an operation expects is that of its row. -/
def Op.Current (st : Store) : Op → Prop
  | .create _ _ _ _ => True
  | .update _ _ credentialId r => ∃ c, st.credentials.find credentialId = some c ∧ c.version = r.expectedVersion
  | .delete _ credentialId expectedVersion => ∃ c, st.credentials.find credentialId = some c ∧ c.version = expectedVersion
  | .bind _ _ row expectedVersion => ∃ c, st.credentials.find row.credentialId = some c ∧ c.version = expectedVersion
  | .updateBinding _ _ bindingId r => ∃ b c, st.bindings.find bindingId = some b ∧ b.revision = r.expectedRevision ∧
      st.credentials.find b.credentialId = some c ∧ c.version = r.expectedVersion
  | .unbind _ _ bindingId expectedRevision => ∃ b, st.bindings.find bindingId = some b ∧ b.revision = expectedRevision
  | .synchronize _ _ credentialId bindingId expectedVersion expectedRevision _ => ∃ c b,
      st.credentials.find credentialId = some c ∧ c.version = expectedVersion ∧
      st.bindings.find bindingId = some b ∧ b.revision = expectedRevision

theorem perform_current {o : Op} {r : Store × Option Sync} (h : perform st o = .ok r) : o.Current st := by
  cases o with
  | create => trivial
  | update =>
    simp only [perform, bind_eq_ok, pure_eq_ok, allowed_eq_ok] at h
    obtain ⟨-, -, _, hupdate, -⟩ := h
    obtain ⟨row, hrow, hversion, -⟩ := updateCredential_ok hupdate
    exact ⟨row, hrow, hversion⟩
  | delete =>
    simp only [perform, bind_eq_ok, pure_eq_ok, allowed_eq_ok] at h
    obtain ⟨-, -, _, hdelete, -⟩ := h
    exact (deleteCredential_ok hdelete).1
  | bind =>
    simp only [perform, bind_eq_ok, pure_eq_ok, allowed_eq_ok, expect_eq_ok, checkVersion_eq_ok] at h
    obtain ⟨c, hc, -, hversion, -⟩ := h
    exact ⟨c, hc, hversion⟩
  | updateBinding =>
    simp only [perform, bind_eq_ok, pure_eq_ok, allowed_eq_ok] at h
    obtain ⟨-, -, ⟨record, binding⟩, -, _, hupdate, -⟩ := h
    obtain ⟨row, c, hrow, hrevision, hc, hversion, -⟩ := updateBinding_ok hupdate
    exact ⟨row, c, hrow, hrevision, hc, hversion⟩
  | unbind =>
    simp only [perform, bind_eq_ok, pure_eq_ok, allowed_eq_ok] at h
    obtain ⟨-, -, -, -, _, hdelete, -⟩ := h
    obtain ⟨row, hrow, hrevision, -⟩ := deleteBinding_ok hdelete
    exact ⟨row, hrow, hrevision⟩
  | synchronize =>
    obtain ⟨c, b, hc, hb, -, hversion, hrevision, -⟩ := beginSync_ok h
    exact ⟨c, b, hc, hversion, hb, hrevision⟩

end LingshuGate.Credentials

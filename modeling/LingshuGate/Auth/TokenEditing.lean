import LingshuGate.Access.ServerPolicies
import LingshuGate.Auth.Tokens
import LingshuGate.Lib.Run
import Mathlib.Data.String.Basic

/-!
# Editing what a personal token may do (`token_authorizations.py`)

| here | there |
| --- | --- |
| `stateOf`           | `_state` (52) |
| `editorCatalog`     | `_editor_catalog` (113) |
| `issueTicket`, `consume` | `_ticket` (132), `_consume` (149) |
| `options`           | `options` (158) |
| `targetOf`          | `_target` (176) |
| `change`            | `change` (233) |
| `normalizeScopes`   | `_normalize_api_token_scopes` with `allow_default=False` (auth.py:588) |

A call is one transaction and meets an `Env`: its owner as the session is then, the catalog as the registry and the
classifications are then, the binding of each server, the clock. Nothing relates the environments of two calls, so a
result about runs is about every change of the catalog and of the owner between them.

The digests are the parameter `Hashes`; what they must tell apart is `Hashes.Faithful`. A dictionary is a list of
entries; `json.dumps` sorts keys, so a digest does not see their order.

`previews` records the last preview of each session and target, and is never read.
-/

namespace LingshuGate.TokenEditing

open Lib Lib.Py
open AccessControl (ServerPolicy SubmittedPolicy bindServerPolicies)
open AuthStore (allowedScopes)

inductive EditError
  | http (status : Nat) (detail : String)
  | value (text : String)
  /-- A statement of the transaction fails. -/
  | database
  deriving DecidableEq

/-- `"new"`, or the id of a token. -/
inductive TargetId
  | new
  | token (id : String)
  deriving DecidableEq

structure Tool where
  id : String
  name : String
  serverId : String
  serverName : String
  access : Access
  snapshot : String
  serverBinding : String
  deriving DecidableEq

/-- `dict[str, dict[str, Any]]`. -/
abbrev Tools := List (String × Tool)

def Tools.Same (a b : Tools) : Prop := ∀ key, a.lookup key = b.lookup key

/-- `a == b` of two dictionaries. -/
def Tools.eq (a b : Tools) : Bool := a.length = b.length && a.all fun kv => b.lookup kv.1 = some kv.2

structure Server where
  serverId : String
  serverName : String
  serverBinding : String
  toolCount : Nat
  deriving DecidableEq

structure TokenRow where
  userId : String
  name : String
  scopes : List String
  expiresAt : Stamp := .absent
  revoked : Bool := false
  deriving DecidableEq

structure AuthorizationRow where
  revision : Nat
  mode : TokenMode
  serverPolicies : List ServerPolicy
  tools : Tools
  ratePerMinute : Int
  concurrency : Int
  deriving DecidableEq

structure State where
  revision : Nat
  mode : TokenMode
  scopes : List String
  serverPolicies : List ServerPolicy
  tools : Tools
  ratePerMinute : Option Int
  concurrency : Option Int
  name : String
  expiresAt : Stamp
  deriving DecidableEq

def State.toolIds (st : State) : List String := st.tools.map (·.1)

structure Target where
  mode : TokenMode
  scopes : List String
  tools : Tools
  toolIds : List String
  serverPolicies : List ServerPolicy
  ratePerMinute : Int
  concurrency : Int
  name : String
  expiresAt : Stamp
  deriving DecidableEq

/-- What `_binding` digests. -/
structure Binding where
  state : State
  catalog : Tools
  servers : List Server
  roles : List String
  permissions : List String
  deriving DecidableEq

structure Hashes (δ : Type) where
  binding : Binding → δ
  target : Target → δ

/-- Two targets that differ at most in the order of their tools. -/
structure Target.Same (a b : Target) : Prop where
  mode : a.mode = b.mode
  scopes : a.scopes = b.scopes
  tools : Tools.Same a.tools b.tools
  toolIds : a.toolIds = b.toolIds
  serverPolicies : a.serverPolicies = b.serverPolicies
  ratePerMinute : a.ratePerMinute = b.ratePerMinute
  concurrency : a.concurrency = b.concurrency
  name : a.name = b.name
  expiresAt : a.expiresAt = b.expiresAt

/-- Two states that differ at most in the order of their tools. -/
structure State.Same (a b : State) : Prop where
  revision : a.revision = b.revision
  mode : a.mode = b.mode
  scopes : a.scopes = b.scopes
  tools : Tools.Same a.tools b.tools
  serverPolicies : a.serverPolicies = b.serverPolicies
  ratePerMinute : a.ratePerMinute = b.ratePerMinute
  concurrency : a.concurrency = b.concurrency
  name : a.name = b.name
  expiresAt : a.expiresAt = b.expiresAt

/-- SHA-256 of canonical JSON tells different values apart. -/
structure Hashes.Faithful {δ : Type} (h : Hashes δ) : Prop where
  binding : ∀ a b, h.binding a = h.binding b → a.state.Same b.state ∧ Tools.Same a.catalog b.catalog ∧
    a.servers = b.servers ∧ a.roles = b.roles ∧ a.permissions = b.permissions
  target : ∀ a b, h.target a = h.target b → a.Same b

inductive Purpose
  | options | confirmation
  deriving DecidableEq

/-- Whose ticket it is, and for what it was given out. -/
structure Place where
  user : String
  session : String
  target : TargetId
  deriving DecidableEq

structure Ticket (δ : Type) where
  token : Nat
  place : Place
  purpose : Purpose
  binding : δ
  target : Option δ
  expiresAt : Int
  deriving DecidableEq

structure Preview where
  confirmation : Nat
  binding : Binding
  target : Target
  deriving DecidableEq

structure Db (δ : Type) where
  tokens : String → Option TokenRow
  authorizations : String → Option AuthorizationRow
  tickets : List (Ticket δ) := []
  /-- The secrets that `secrets.token_urlsafe` has made are the numbers below. -/
  issued : Nat := 0
  previews : Place → Option Preview := fun _ => none

structure Env where
  owner : Except EditError AuthPrincipal
  now : Int
  /-- `_catalog(connection, principal)`. -/
  catalog : Except EditError (Tools × List Server)
  /-- `_catalog(connection, principal, state)`. -/
  limitedCatalog : State → Except EditError (Tools × List Server)
  serverBinding : String → Except String String
  tokenId : String
  auditFails : Bool := false

structure Body (δ : Type) where
  expectedRevision : Nat
  catalogRevision : δ
  mode : TokenMode
  scopes : List String
  toolIds : List String := []
  serverPolicies : List SubmittedPolicy := []
  ratePerMinute : Int := 6000
  concurrency : Int := 100
  name : Option String := none
  expiresAt : Stamp := .absent
  /-- The csrf token of a preview, the confirmation of a save. -/
  presented : Nat

/-! ## What is being edited -/

def newState (p : AuthPrincipal) : State where
  revision := 0
  mode := .independent
  scopes :=
    if p.roles.contains "admin" || p.role = "admin" then (p.permissions.filter (· ≠ "*")).insertionSort (· ≤ ·)
    else if p.permissions.contains "tools.read" then ["tools.read"] else []
  serverPolicies := []
  tools := []
  ratePerMinute := some 6000
  concurrency := some 100
  name := ""
  expiresAt := .absent

/-- `authorization_data`, with the columns of the token. -/
def storedState (token : TokenRow) (row : Option AuthorizationRow) : State where
  revision := (row.map (·.revision)).getD 0
  mode := (row.map (·.mode)).getD .account
  scopes := token.scopes
  serverPolicies := (row.map (·.serverPolicies)).getD []
  tools := (row.map (·.tools)).getD []
  ratePerMinute := row.map (·.ratePerMinute)
  concurrency := row.map (·.concurrency)
  name := token.name
  expiresAt := token.expiresAt

section Calls

variable {δ : Type} [DecidableEq δ] (hashes : Hashes δ)

def stateOf (db : Db δ) (env : Env) (p : AuthPrincipal) : TargetId → Except EditError State
  | .new => .ok (newState p)
  | .token id => do
    let token ← expect ((db.tokens id).filter (·.userId = p.id)) (.http 404 "token_not_found")
    require (!(token.revoked || token.expiresAt.isExpired env.now)) (.http 409 "token_authorization_unavailable")
    return storedState token (db.authorizations id)

def EditError.isCatalogLimit : EditError → Bool
  | .http _ detail => detail = "authorization_catalog_limit"
  | _ => false

/-- The last component says that the catalog is limited to what the token already has. -/
def editorCatalog (env : Env) (st : State) (id : TargetId) : Except EditError (Tools × List Server × Bool) :=
  match env.catalog with
  | .ok (catalog, servers) => .ok (catalog, servers, false)
  | .error e =>
    if id = .new || !e.isCatalogLimit then .error e
    else match env.limitedCatalog st with
      | .ok (catalog, servers) => .ok (catalog, servers, true)
      | .error e => .error e

/-- A server that is subscribed to and has no tools at the moment is still listed. -/
def withSubscribed (servers : List Server) (policies : List ServerPolicy) : List Server :=
  servers ++ (policies.filter fun policy => !(servers.map (·.serverId)).contains policy.serverId).map fun policy =>
    ⟨policy.serverId, policy.serverId, policy.serverBinding, 0⟩

/-! ## Tickets -/

def issueTicket (db : Db δ) (place : Place) (purpose : Purpose) (binding : δ) (target : Option δ) (now : Int) :
    Except EditError (Db δ × Nat) := do
  let live := db.tickets.filter fun t => now < t.expiresAt
  -- only the last preview of a target can be confirmed
  let live := if purpose = .confirmation then live.filter fun t => !(t.place = place && t.purpose = .confirmation) else live
  require (live.length < 4096 && live.countP (fun t => t.place.user = place.user) < 32)
    (.http 429 "authorization_ticket_capacity")
  return ({ db with
    tickets := live ++ [⟨db.issued, place, purpose, binding, target, now + 300⟩]
    issued := db.issued + 1 }, db.issued)

def Ticket.fits (t : Ticket δ) (token : Nat) (place : Place) (purpose : Purpose) (binding : δ) (target : Option δ) (now : Int) :
    Bool :=
  t.token = token && t.place = place && t.purpose = purpose && t.binding = binding && t.target = target && now < t.expiresAt

/-- An options ticket is read, a confirmation is deleted. -/
def consume (db : Db δ) (place : Place) (purpose : Purpose) (token : Nat) (binding : δ) (target : Option δ) (now : Int) :
    Except EditError (Db δ) :=
  let fits := fun t : Ticket δ => t.fits token place purpose binding target now
  match purpose with
  | .options => do
    require (db.tickets.any fits) (.http 403 "invalid_csrf")
    return db
  | .confirmation => do
    require (db.tickets.countP fits = 1) (.http 409 "authorization_confirmation_changed")
    return { db with tickets := db.tickets.filter fun t => !fits t }

/-! ## The target -/

def normalizeScopes (p : AuthPrincipal) (scopes : List String) : Except EditError (List String) := do
  let requested := (((scopes.map strip).filter (· ≠ "")).dedup).insertionSort (· ≤ ·)
  require (requested ≠ []) (.value "at least one scope is required")
  let invalid := requested.filter fun scope => !(allowedScopes p).contains scope
  require (invalid = []) (.value ("scope exceeds user permissions: " ++ ", ".intercalate invalid))
  return requested

/-- A policy sent without its binding means the one the token has. -/
def fillBinding (previous : List ServerPolicy) (policy : SubmittedPolicy) : SubmittedPolicy :=
  match policy.serverBinding, previous.find? (·.serverId = policy.serverId) with
  | none, some old => { policy with serverBinding := some old.serverBinding }
  | _, _ => policy

def requestedPolicies (st : State) (body : Body δ) : List SubmittedPolicy :=
  (body.serverPolicies.map (fillBinding st.serverPolicies)).insertionSort fun a b => a.serverId ≤ b.serverId

def samePolicies (st : State) (body : Body δ) : Bool := requestedPolicies st body = st.serverPolicies.map ServerPolicy.submitted

/-- Only the quota changes: what was saved is kept as it is, also what is no longer there. -/
def quotaOnly (st : State) (body : Body δ) (scopes : List String) : Bool :=
  body.toolIds.all st.toolIds.contains && st.toolIds.all body.toolIds.contains && samePolicies st body &&
    body.mode = st.mode && scopes = st.scopes

def selectTool (st : State) (catalog : Tools) (quotaOnly : Bool) (key : String) : Except EditError (String × Tool) :=
  match if quotaOnly then st.tools.lookup key else none with
  | some tool => .ok (key, tool)
  | none => do
    let tool ← expect (catalog.lookup key) (.http 409 "tool_scope_changed")
    return (key, tool)

/-- The function permission that a tool or a policy of this access needs. -/
def covers (scopes : List String) (access : Access) : Bool :=
  scopes.contains (if access = .read then "tools.read" else "tools.invoke") || scopes.contains "*"

/-- A server the owner does not see cannot be subscribed to by guessing its id. -/
def policyAvailable (st : State) (catalog : Tools) (policy : ServerPolicy) : Bool :=
  catalog.any (fun kv => kv.2.serverId = policy.serverId) ||
    st.serverPolicies.any fun old => old.serverId = policy.serverId && old.serverBinding = policy.serverBinding

/-- The policies of the token stay as they are where the request names the same ones. -/
def policiesOf (env : Env) (st : State) (body : Body δ) : Except EditError (List ServerPolicy) :=
  if samePolicies st body then .ok st.serverPolicies
  else (bindServerPolicies env.serverBinding (body.serverPolicies.map (fillBinding st.serverPolicies))).mapError .value

def targetOf (env : Env) (p : AuthPrincipal) (st : State) (catalog : Tools) (body : Body δ) (id : TargetId) :
    Except EditError Target := do
  require (body.expectedRevision = st.revision) (.http 409 "revision_conflict")
  require (!(body.mode = .account && (id = .new || st.mode ≠ .account))) (.value "account_mode_cannot_be_restored")
  let scopes ← normalizeScopes p body.scopes
  require (decide (1 ≤ body.ratePerMinute ∧ body.ratePerMinute ≤ 10000 ∧ 1 ≤ body.concurrency ∧ body.concurrency ≤ 100))
    (.value "invalid_quota")
  let policies ← policiesOf env st body
  require (body.toolIds.length ≤ 5000 && decide body.toolIds.Nodup) (.value "invalid_tool_selection")
  require (!(body.mode = .account && (body.toolIds ≠ [] || policies ≠ []))) (.value "account_mode_has_no_independent_scope")
  let tools ← body.toolIds.mapM (selectTool st catalog (quotaOnly st body scopes))
  let continuous := policies.map (·.serverId)
  let selected := tools.map (·.2.serverId)
  require (!continuous.any selected.contains) (.value "server_scope_modes_conflict")
  require ((continuous ++ selected).dedup.length ≤ 100) (.value "server_scope_limit")
  require (tools.all fun kv => covers scopes kv.2.access) (.value "tool_scope_exceeds_function_permissions")
  each (fun policy => do
    require (covers scopes policy.access) (.value "server_scope_exceeds_function_permissions")
    require (policyAvailable st catalog policy) (.value "server_scope_unavailable")) policies
  let name := match body.name, st.name with
    | some name, old => if name ≠ "" then name else if old ≠ "" then old else "API Token"
    | none, old => if old ≠ "" then old else "API Token"
  let expiresAt := if id = .new then body.expiresAt else st.expiresAt
  require (!expiresAt.isExpired env.now) (.value "invalid_expiration")
  return {
    mode := body.mode, scopes, tools, toolIds := (tools.map (·.1)).insertionSort (· ≤ ·), serverPolicies := policies
    ratePerMinute := body.ratePerMinute, concurrency := body.concurrency, name := strip name, expiresAt }

/-! ## The calls -/

/-- The part of a call that a preview and its save share: the owner, the state, what its catalog binds to. -/
structure Opened where
  principal : AuthPrincipal
  state : State
  catalog : Tools
  servers : List Server
  limited : Bool

def openEditor (db : Db δ) (env : Env) (id : TargetId) : Except EditError Opened := do
  let p ← env.owner
  let st ← stateOf db env p id
  let (catalog, servers, limited) ← editorCatalog env st id
  return ⟨p, st, catalog, withSubscribed servers st.serverPolicies, limited⟩

def Opened.binding (o : Opened) : Binding := ⟨o.state, o.catalog, o.servers, o.principal.roles, o.principal.permissions⟩

def options (db : Db δ) (env : Env) (session : String) (id : TargetId) : Except EditError (Db δ × Nat) := do
  let o ← openEditor db env id
  issueTicket db ⟨o.principal.id, session, id⟩ .options (hashes.binding o.binding) none env.now

/-- The target of a preview or a save, with what it was computed from. -/
def checked (db : Db δ) (env : Env) (id : TargetId) (body : Body δ) : Except EditError (Opened × Target) := do
  let o ← openEditor db env id
  require (body.catalogRevision = hashes.binding o.binding) (.http 409 "authorization_catalog_changed")
  let target ← targetOf env o.principal o.state o.catalog body id
  require (!(o.limited && (target.mode ≠ o.state.mode || target.scopes ≠ o.state.scopes || !target.tools.eq o.state.tools ||
    target.serverPolicies ≠ o.state.serverPolicies))) (.http 409 "authorization_catalog_limit")
  return (o, target)

/-- `change(save=False)`. -/
def preview (db : Db δ) (env : Env) (session : String) (id : TargetId) (body : Body δ) : Except EditError (Db δ × Preview) := do
  let (o, target) ← checked hashes db env id body
  let place : Place := ⟨o.principal.id, session, id⟩
  let db ← consume db place .options body.presented (hashes.binding o.binding) none env.now
  let (db, confirmation) ←
    issueTicket db place .confirmation (hashes.binding o.binding) (some (hashes.target target)) env.now
  let shown : Preview := ⟨confirmation, o.binding, target⟩
  return ({ db with previews := Function.update db.previews place (some shown) }, shown)

def Target.row (target : Target) (revision : Nat) : AuthorizationRow :=
  ⟨revision, target.mode, target.serverPolicies, target.tools, target.ratePerMinute, target.concurrency⟩

/-- The rows that a save writes. -/
def write (db : Db δ) (env : Env) (p : AuthPrincipal) (st : State) (target : Target) : TargetId → Except EditError (Db δ × String)
  | .new => do
    require (db.tokens env.tokenId).isNone .database
    let token : TokenRow := { userId := p.id, name := target.name, scopes := target.scopes, expiresAt := target.expiresAt }
    return ({ db with
      tokens := Function.update db.tokens env.tokenId (some token)
      authorizations := Function.update db.authorizations env.tokenId (some (target.row (st.revision + 1))) }, env.tokenId)
  | .token id =>
    let updated := fun token : TokenRow =>
      if token.userId = p.id && !token.revoked then { token with scopes := target.scopes } else token
    .ok ({ db with
      tokens := Function.update db.tokens id ((db.tokens id).map updated)
      authorizations := Function.update db.authorizations id (some (target.row (st.revision + 1))) }, id)

/-- `change(save=True)`: the id of the token. -/
def save (db : Db δ) (env : Env) (session : String) (id : TargetId) (body : Body δ) : Except EditError (Db δ × String) := do
  let (o, target) ← checked hashes db env id body
  let place : Place := ⟨o.principal.id, session, id⟩
  let db ← consume db place .confirmation body.presented (hashes.binding o.binding) (some (hashes.target target)) env.now
  let written ← write db env o.principal o.state target id
  require (!env.auditFails) .database
  return written

inductive Event (δ : Type)
  | options (env : Env) (session : String) (id : TargetId)
  | preview (env : Env) (session : String) (id : TargetId) (body : Body δ)
  | save (env : Env) (session : String) (id : TargetId) (body : Body δ)

/-- A call that raises is rolled back. -/
def next (db : Db δ) : Event δ → Db δ
  | .options env session id => ((options hashes db env session id).toOption.map (·.1)).getD db
  | .preview env session id body => ((preview hashes db env session id body).toOption.map (·.1)).getD db
  | .save env session id body => ((save hashes db env session id body).toOption.map (·.1)).getD db

def EditStep (db : Db δ) (e : Event δ) (db' : Db δ) : Prop := next hashes db e = db'

end Calls

end LingshuGate.TokenEditing

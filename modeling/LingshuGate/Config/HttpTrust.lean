import LingshuGate.Auth.Tokens
import LingshuGate.Config.Store

/-!
# Permission to connect to private addresses (`mcp_http_trust.py`)

| here | there |
| --- | --- |
| `TrustRow`             | `gate_mcp_http_trust` (63) |
| `isAdministrator`      | `_require_admin` (85) |
| `TrustRow.policy`, `Trust.get` | `_get` (96) |
| `requireEndpoint`      | `require_endpoint` (115) |
| `migrateSavedConfigs`  | `migrate_saved_configs` (141) |
| `bindPending`          | `bind_pending` (154) |
| `planConfiguration`, `checkPlan`, `applySavedConfiguration` | `plan_configuration` (168), `check_plan` (209), `apply_saved_configuration` (216) |
| `retireDeleted`        | `retire_deleted` (245) |
| `update`               | `update` (254) |

A row permits origins to one incarnation of a service: the binding it names. A row that names none is pending: the
service is not saved yet. A row from before bindings is `legacy`.

Each function is one transaction. `privateHttpOrigin` is the address and the port of an endpoint that has been
validated, if they are private. A request whose body fails its schema changes nothing and is not modelled; who changed a
row last and when is left out.
-/

namespace LingshuGate.HttpTrust

open Lib
open Config (Store)
open AccessControl AuthStore

/-- `(ip, port)`. -/
abbrev Origin := String × Nat

inductive TrustState
  | legacy | active | pending | revoked | needsReview
  deriving DecidableEq

structure TrustRow where
  revision : Nat
  origins : List Origin
  binding : Option Nat
  state : TrustState
  deriving DecidableEq

/-- The rows, by `server_id`. -/
abbrev Trust := String → Option TrustRow

/-- `_write`. -/
def Trust.write (trust : Trust) (serverId : String) (row : TrustRow) : Trust := Function.update trust serverId (some row)

inductive TrustError
  /-- `McpHttpTrustDenied` -/
  | denied
  /-- `McpHttpTrustConflict` -/
  | conflict (message : String)
  /-- `ValueError` -/
  | invalid (message : String)
  deriving DecidableEq

/-! ## Reading -/

/-- An active user with an enabled admin role and no password to change. -/
def activeAdmin (db : AuthDb) (actorId : String) : Bool :=
  db.users.any (fun u => u.id = actorId && u.status = .active && !u.mustChangePassword) &&
    db.access.userRoles.any fun ur => ur.1 = actorId &&
      db.access.roles.any fun role => role.id = ur.2 && role.code = "admin" && role.enabled

/-- An enabled role of the user has the control permission `operations.manage`. -/
def managesOperations (db : AuthDb) (actorId : String) : Bool :=
  db.access.userRoles.any fun ur => ur.1 = actorId && db.access.roles.any fun role => role.id = ur.2 && role.enabled &&
      db.rolePermissions.any fun rp => rp.1 = role.id && db.controlPermissions.any fun p => p.1 = rp.2 && p.2 = "operations.manage"

def isAdministrator (db : AuthDb) (actorId : String) : Bool := activeAdmin db actorId && managesOperations db actorId

inductive PolicyState
  | unconfigured | active | pending | revoked | needsReview
  deriving DecidableEq

structure Policy where
  revision : Nat := 0
  origins : List Origin := []
  state : PolicyState := .unconfigured
  binding : Option Nat := none
  deriving DecidableEq

/-- An old row, and one of another incarnation, have to be reviewed. -/
def TrustRow.policy (row : TrustRow) (current : Option Nat) : Policy where
  revision := row.revision
  origins := row.origins
  binding := row.binding
  state := match row.state with
    | .legacy => .needsReview
    | .active => if row.binding.isSome ∧ row.binding = current then .active else .needsReview
    | .pending => .pending
    | .revoked => .revoked
    | .needsReview => .needsReview

def Trust.get (trust : Trust) (cfg : Store) (serverId : String) : Policy :=
  match trust serverId with
  | none => {}
  | some row => row.policy (cfg.currentBinding serverId)

def endpointDenied : TrustError :=
  .invalid "Private HTTP MCP endpoint requires administrator-approved trust for this service, exact IP and port"

variable (privateHttpOrigin : String → Option Origin)

/-- The binding an endpoint is permitted to; `none` also for an endpoint that is not private. -/
def requireEndpoint (cfg : Store) (trust : Trust) (serverId endpoint : String) (allowPending : Bool)
    (expectedBinding : Option Nat) : Except TrustError (Option Nat) :=
  match privateHttpOrigin endpoint with
  | none => pure none
  | some origin => do
    require (Py.idText 128 serverId) (.invalid "Private HTTP MCP trust could not be read; connection is denied")
    let policy := trust.get cfg serverId
    require (policy.state = .active || allowPending && policy.state = .pending) endpointDenied
    require (expectedBinding.isNone || policy.binding = expectedBinding) endpointDenied
    require (policy.origins.contains origin) endpointDenied
    pure policy.binding

/-! ## Startup and saves -/

/-- What the startup makes of one old row. -/
def TrustRow.migrate (row : TrustRow) (endpoint : Option String) (binding : Option Nat) : TrustRow :=
  let origin := endpoint.bind privateHttpOrigin
  let hits := row.origins.filter fun item => origin = some item
  if binding.isSome ∧ hits ≠ [] then { row with binding, state := .active, origins := hits }
  else if row.origins = [] then { row with binding, state := .revoked }
  else { row with binding, state := .needsReview }

def migrateSavedConfigs (cfg : Store) (trust : Trust) (endpoints : List (String × String)) : Trust := fun serverId =>
  (trust serverId).map fun row =>
    if row.state = .legacy then
      row.migrate privateHttpOrigin (endpoints.lookup serverId) (cfg.currentBinding serverId)
    else row

/-- Only the origin that was saved becomes usable. -/
def bindPending (cfg : Store) (trust : Trust) (serverId : String) (endpoint : Option String) : Trust :=
  match endpoint.bind privateHttpOrigin, trust serverId, cfg.currentBinding serverId with
  | some origin, some row, some binding =>
    if row.state = .pending ∧ origin ∈ row.origins then
      trust.write serverId { row with binding := some binding, state := .active, origins := [origin] }
    else trust
  | _, _, _ => trust

/-! ## A plan, and the save it is for -/

inductive TrustAction
  | auto | preserve | restore
  deriving DecidableEq

inductive TrustChange
  | none | authorize | preserveDenied | retire
  deriving DecidableEq

structure Plan where
  serverId : String
  expectedRevision : Nat
  expectedBinding : Option Nat
  policyState : PolicyState
  change : TrustChange
  origin : Option Origin
  endpoint : Option String
  creating : Bool
  connectionAllowed : Bool
  deriving DecidableEq

/-- The permission change of a private endpoint. -/
def planChange (policy : Policy) (action : TrustAction) (allowed creating sameEndpoint : Bool) : Except TrustError TrustChange :=
  match action with
  | .restore => pure .authorize
  | .auto =>
    if creating && policy.state = .pending && allowed then pure .none
    else if creating && policy.state ≠ .needsReview then pure .authorize
    else if policy.state = .revoked || policy.state = .needsReview then pure .preserveDenied
    else if !allowed || !sameEndpoint then pure .authorize
    else pure .none
  | .preserve => if !allowed || !creating && !sameEndpoint then .error endpointDenied else pure .none

def planConfiguration (cfg : Store) (trust : Trust) (serverId : String) (endpoint : Option String) (action : TrustAction)
    (previousEndpoint : Option String) (creating : Bool) (expectedRevision : Option Nat) : Except TrustError Plan := do
  require (Py.idText 128 serverId) (.invalid "Invalid MCP server ID")
  let policy := trust.get cfg serverId
  require (expectedRevision.all (· = policy.revision))
    (.conflict "HTTP trust changed; reload the current revision before updating")
  let origin := endpoint.bind privateHttpOrigin
  let allowed := origin.any fun o => (policy.state = .active || policy.state = .pending) && policy.origins.contains o
  let change ← if origin.isSome then planChange policy action allowed creating (endpoint = previousEndpoint)
    else if (policy.state = .active || policy.state = .pending) && previousEndpoint ≠ endpoint then pure .retire
    else pure .none
  pure { serverId, endpoint, creating, origin, change
         expectedRevision := policy.revision
         expectedBinding := cfg.currentBinding serverId
         policyState := policy.state
         connectionAllowed := origin.isNone || allowed || change = .authorize }

def checkPlan (cfg : Store) (trust : Trust) (plan : Plan) : Except TrustError Unit :=
  require ((trust.get cfg plan.serverId).revision = plan.expectedRevision &&
      cfg.currentBinding plan.serverId = plan.expectedBinding)
    (.conflict "HTTP trust or service identity changed after planning")

/-- The change is made once the file has its identity. -/
def applySavedConfiguration (cfg : Store) (people : AuthDb) (trust : Trust) (plan : Plan) (actorId : String) :
    Except TrustError Trust := do
  let policy := trust.get cfg plan.serverId
  require (policy.revision = plan.expectedRevision) (.conflict "HTTP trust changed while saving configuration")
  let binding ← expect (cfg.currentBinding plan.serverId) (.conflict "Saved service identity is unavailable")
  if plan.change = .authorize then
    require (isAdministrator people actorId) .denied
    pure (trust.write plan.serverId
      { revision := policy.revision + 1, origins := plan.origin.toList, binding := some binding, state := .active })
  else if plan.change = .retire then
    require (isAdministrator people actorId) .denied
    pure (trust.write plan.serverId
      { revision := policy.revision + 1, origins := [], binding := some binding, state := .revoked })
  else
    require (policy.state ≠ .active || policy.binding = some binding)
      (.conflict "Service identity changed without a reviewed HTTP permission")
    pure trust

def retireDeleted (trust : Trust) (serverId : String) : Trust :=
  match trust serverId with
  | none => trust
  | some row => trust.write serverId { revision := row.revision + 1, origins := [], binding := none, state := .revoked }

/-- The replacement an administrator asks for. -/
def update (cfg : Store) (people : AuthDb) (trust : Trust) (serverId : String) (origins : List Origin)
    (expectedRevision : Nat) (actorId : String) : Except TrustError Trust := do
  require (Py.idText 128 serverId) (.invalid "Invalid MCP server ID")
  require (isAdministrator people actorId) .denied
  let revision := (trust serverId).elim 0 TrustRow.revision
  require (revision = expectedRevision) (.conflict "HTTP trust changed; reload the current revision before updating")
  let binding := cfg.currentBinding serverId
  pure (trust.write serverId
    { revision := revision + 1
      origins := origins.insertionSort fun a b => a.1 < b.1 ∨ a.1 = b.1 ∧ a.2 ≤ b.2
      binding
      state := if origins = [] then .revoked else if binding.isSome then .active else .pending })

/-! ## What a row permits -/

variable {privateHttpOrigin} {cfg : Store} {people : AuthDb} {trust trust' : Trust} {serverId : String} {origin : Origin}

/-- The row permits the origin to the incarnation. -/
def Permits (trust : Trust) (serverId : String) (origin : Origin) (binding : Nat) : Prop :=
  ∃ row, trust serverId = some row ∧ row.state = .active ∧ row.binding = some binding ∧ origin ∈ row.origins

/-- The row awaits the first save of the origin. -/
def Awaits (trust : Trust) (serverId : String) (origin : Origin) : Prop :=
  ∃ row, trust serverId = some row ∧ row.state = .pending ∧ origin ∈ row.origins

/-- The row is from before bindings and lists the origin. -/
def Legacy (trust : Trust) (serverId : String) (origin : Origin) : Prop :=
  ∃ row, trust serverId = some row ∧ row.state = .legacy ∧ origin ∈ row.origins

variable {row : TrustRow}

theorem policy_active {current : Option Nat} (h : (row.policy current).state = .active) :
    row.state = .active ∧ ∃ binding, row.binding = some binding ∧ current = some binding := by
  unfold TrustRow.policy at h
  cases hstate : row.state with
  | active =>
    simp only [hstate] at h
    split at h
    · rename_i hsame
      obtain ⟨b, hb⟩ := Option.isSome_iff_exists.mp hsame.1
      exact ⟨rfl, b, hb, by rw [← hsame.2, hb]⟩
    · cases h
  | legacy | pending | revoked | needsReview => simp [hstate] at h

/-- An endpoint is accepted only under a row that permits its origin to the incarnation in force. -/
theorem requireEndpoint_ok {endpoint : String} {expectedBinding result : Option Nat}
    (horigin : privateHttpOrigin endpoint = some origin)
    (h : requireEndpoint privateHttpOrigin cfg trust serverId endpoint false expectedBinding = .ok result) :
    ∃ binding, result = some binding ∧ cfg.currentBinding serverId = some binding ∧ Permits trust serverId origin binding := by
  simp only [requireEndpoint, horigin, bind_eq_ok, pure_eq_ok, require_eq_ok] at h
  obtain ⟨-, -, -, hstate, -, -, -, hlisted, rfl⟩ := h
  have hactive : (trust.get cfg serverId).state = .active := by simpa using hstate
  unfold Trust.get at hactive hlisted ⊢
  cases hrow : trust serverId with
  | none => simp [hrow] at hactive
  | some row =>
    simp only [hrow] at hactive hlisted ⊢
    obtain ⟨hrowstate, binding, hbinding, hcurrent⟩ := policy_active hactive
    exact ⟨binding, hbinding, hcurrent, row, hrow, hrowstate, hbinding, by simpa [TrustRow.policy] using hlisted⟩

@[simp] theorem Trust.write_self (trust : Trust) (serverId : String) (row : TrustRow) : trust.write serverId row serverId = some row := by
  simp [Trust.write]

theorem Trust.write_of_ne {other : String} (h : other ≠ serverId) (row : TrustRow) : trust.write serverId row other = trust other := by
  simp [Trust.write, h]

/-! ## What each function writes -/

theorem update_ok {origins : List Origin} {expectedRevision : Nat} {actorId : String}
    (h : update cfg people trust serverId origins expectedRevision actorId = .ok trust') :
    isAdministrator people actorId = true ∧ ∃ row, trust' = trust.write serverId row ∧ (∀ o, o ∈ row.origins ↔ o ∈ origins) ∧
      row.binding = cfg.currentBinding serverId ∧
      row.state = if origins = [] then .revoked else if row.binding.isSome then .active else .pending := by
  simp only [update, bind_eq_ok, pure_eq_ok, require_eq_ok] at h
  obtain ⟨-, -, -, hadmin, -, -, rfl⟩ := h
  exact ⟨hadmin, _, rfl, fun o => List.mem_insertionSort _, rfl, rfl⟩

theorem applySavedConfiguration_ok {plan : Plan} {actorId : String}
    (h : applySavedConfiguration cfg people trust plan actorId = .ok trust') :
    (plan.change = .authorize ∧ isAdministrator people actorId = true ∧ ∃ binding row,
      cfg.currentBinding plan.serverId = some binding ∧ trust' = trust.write plan.serverId row ∧
        row.origins = plan.origin.toList ∧ row.binding = some binding ∧ row.state = .active) ∨
    (plan.change = .retire ∧ ∃ row, trust' = trust.write plan.serverId row ∧ row.origins = [] ∧ row.state = .revoked) ∨
    (plan.change ≠ .authorize ∧ plan.change ≠ .retire ∧ trust' = trust) := by
  simp only [applySavedConfiguration, bind_eq_ok, require_eq_ok, expect_eq_ok] at h
  obtain ⟨-, -, binding, hbinding, h⟩ := h
  split at h
  · rename_i hchange
    simp only [bind_eq_ok, require_eq_ok, pure_eq_ok] at h
    obtain ⟨-, hadmin, rfl⟩ := h
    exact .inl ⟨hchange, hadmin, binding, _, hbinding, rfl, rfl, rfl, rfl⟩
  rename_i hnot
  split at h
  · rename_i hchange
    simp only [bind_eq_ok, require_eq_ok, pure_eq_ok] at h
    obtain ⟨-, -, rfl⟩ := h
    exact .inr (.inl ⟨hchange, _, rfl, rfl, rfl⟩)
  · rename_i hnot'
    simp only [bind_eq_ok, require_eq_ok, pure_eq_ok] at h
    obtain ⟨-, -, rfl⟩ := h
    exact .inr (.inr ⟨hnot, hnot', rfl⟩)

theorem bindPending_cases (privateHttpOrigin : String → Option Origin) (cfg : Store) (trust : Trust) (serverId : String)
    (endpoint : Option String) :
    bindPending privateHttpOrigin cfg trust serverId endpoint = trust ∨
      ∃ origin row binding, endpoint.bind privateHttpOrigin = some origin ∧ trust serverId = some row ∧
        cfg.currentBinding serverId = some binding ∧ row.state = .pending ∧ origin ∈ row.origins ∧
        bindPending privateHttpOrigin cfg trust serverId endpoint =
          trust.write serverId { row with binding := some binding, state := .active, origins := [origin] } := by
  unfold bindPending
  split
  · rename_i origin row binding horigin hrow hbinding
    split
    · rename_i hpending
      exact .inr ⟨origin, row, binding, horigin, hrow, hbinding, hpending.1, hpending.2, rfl⟩
    · exact .inl rfl
  · exact .inl rfl

/-- A migrated row that is active lists what was listed before and is saved. -/
theorem migrate_active {endpoint : Option String} {binding : Option Nat}
    (h : (row.migrate privateHttpOrigin endpoint binding).state = .active) :
    binding.isSome ∧ (row.migrate privateHttpOrigin endpoint binding).binding = binding ∧
      ∀ o ∈ (row.migrate privateHttpOrigin endpoint binding).origins, o ∈ row.origins ∧ endpoint.bind privateHttpOrigin = some o := by
  unfold TrustRow.migrate at h ⊢
  simp only at h ⊢
  split
  · rename_i hmatch
    refine ⟨hmatch.1, rfl, ?_⟩
    intro o ho
    simpa using ho
  · rename_i hno
    simp only [if_neg hno] at h
    split at h <;> cases h

theorem migrate_ne_pending {endpoint : Option String} {binding : Option Nat} :
    (row.migrate privateHttpOrigin endpoint binding).state ≠ .pending ∧
      (row.migrate privateHttpOrigin endpoint binding).state ≠ .legacy := by
  unfold TrustRow.migrate
  simp only
  split
  · simp
  · split <;> simp

end LingshuGate.HttpTrust

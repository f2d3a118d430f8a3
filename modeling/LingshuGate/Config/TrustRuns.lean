import LingshuGate.Lib.Since
import LingshuGate.Config.HttpTrust

/-!
# Private HTTP trust over whole runs (`mcp_config_store.py`, `mcp_http_trust.py`)

| here | there |
| --- | --- |
| `beginSave`                 | `_save_config` up to the write of the file (mcp_config_store.py:210) |
| `.record`, `.bind`, `.apply` | the rest of it: `_record_authorization_identity` (81), `bind_pending`, `apply_saved_configuration` |
| `beginDelete`, `.retire`, `.drop` | `_delete_config` (277): the file, the permission, the identity |
| `.start`, `.reconcile`, `.bind`, `.migrate` | `__init__` (56): every saved file, then the old rows |

A save, a deletion and the startup write a file and two tables, one after the other. They hold the lock of the store, so
at most one of them is under way: `Job` says how far it is, and `.crash` ends it anywhere. Files also change from outside.

`trust_approved` says what an accepted endpoint rests on: an administrator permitted its origin to the incarnation in
force, or permitted it before the service was saved and the save or startup that recorded the incarnation took it up, and
the row has not been written since. The startup may do what an interrupted save left undone: `taken_up_by_startup`.
-/

namespace LingshuGate.HttpTrust

open Lib
open Config (Manifest Content File Store)
open AuthStore

/-- How far the work under the lock is. -/
inductive Job
  /-- The file is written. -/
  | written (m : Manifest) (path : String) (replace : Bool) (request : Option (Plan × String))
  /-- The identity is recorded. -/
  | recorded (m : Manifest) (binding : Nat) (request : Option (Plan × String))
  /-- A pending permission is taken up. -/
  | bound (plan : Plan) (actorId : String)
  | unlinked (serverId : String)
  | retired (serverId : String)
  /-- The files that are left, the endpoints seen, and the services that got another identity. -/
  | starting (paths : List String) (endpoints : List (String × String)) (invalidated : List String)
  | reconciled (m : Manifest) (binding : Nat) (paths : List String) (endpoints : List (String × String))
    (invalidated : List String)

structure World where
  config : Store := {}
  trust : Trust := fun _ => none
  people : AuthDb
  plans : List Plan := []
  job : Option Job := none

structure SaveRequest where
  manifest : Manifest
  expectedId : Option String := none
  overwrite : Bool := false
  /-- `expected_digest`, of the content it is of. -/
  expected : Option Content := none
  /-- `trust_plan` and `actor_id`. -/
  trust : Option (Plan × String) := none

inductive Event
  /-- A file is replaced or removed from outside. -/
  | external (path : String) (content : Option Content)
  | people (db : AuthDb)
  | ensure (serverId : String)
  | update (serverId : String) (origins : List Origin) (expectedRevision : Nat) (actorId : String)
  | plan (serverId : String) (endpoint : Option String) (action : TrustAction) (previousEndpoint : Option String)
    (creating : Bool) (expectedRevision : Option Nat)
  | save (request : SaveRequest)
  | record | bind | apply
  | delete (serverId : String)
  | retire | drop
  | start | reconcile | migrate
  | crash

variable (privateHttpOrigin : String → Option Origin)

/-- What a save checks before it writes. -/
def checkSave (w : World) (request : SaveRequest) (existing : Option String) : Except TrustError Unit := do
  let m := request.manifest
  let content := existing.bind fun path => (w.config.file path).map File.content
  require (request.expectedId.all (· = m.id)) (.invalid "Manifest id mismatch")
  require (request.expected.isNone || content = request.expected)
    (.conflict "MCP configuration changed; reopen the saved configuration before updating")
  require (existing.isNone || request.overwrite) (.invalid "MCP config already exists")
  require (content ≠ some .unreadable) (.invalid "Manifest root must be an object")
  match request.trust with
  | none => match m.endpoint with
    | none => pure ()
    | some endpoint =>
      let _ ← requireEndpoint privateHttpOrigin w.config w.trust m.id endpoint true none
      pure ()
  | some (plan, actorId) =>
    require (plan.serverId = m.id && plan.endpoint = m.endpoint && plan.creating = existing.isNone)
      (.conflict "HTTP permission plan does not match the saved configuration")
    checkPlan w.config w.trust plan
    require ((plan.change ≠ .authorize && plan.change ≠ .retire) || isAdministrator w.people actorId) .denied

def beginSave (w : World) (request : SaveRequest) : Except TrustError World := do
  let existing := w.config.findPath request.manifest.id
  checkSave privateHttpOrigin w request existing
  let path := existing.getD (request.manifest.id ++ ".yaml")
  let replace := existing.isNone || (w.config.currentBinding request.manifest.id).isNone
  pure { w with
    config := w.config.write path (.manifest request.manifest)
    job := some (.written request.manifest path replace request.trust) }

def beginDelete (w : World) (serverId : String) : Option World := do
  let path ← w.config.findPath serverId
  let _ ← (w.config.loadPath path).toOption
  return { w with config := w.config.unlink path, job := some (.unlinked serverId) }

/-- One file at startup; a file that cannot be read is skipped. -/
def reconcileFile (w : World) (path : String) (paths : List String) (endpoints : List (String × String))
    (invalidated : List String) : World :=
  let skipped := { w with job := some (.starting paths endpoints invalidated) }
  match w.config.loadPath path with
  | .error _ => skipped
  | .ok m =>
    match w.config.recordConfigIdentity m.id path m.target (w.config.currentBinding m.id).isNone with
    | none => skipped
    | some (config, binding) =>
      let rotated := (w.config.identities m.id).any (·.binding ≠ binding)
      let invalidated := if rotated then m.id :: invalidated else invalidated
      { w with config, job := some (.reconciled m binding paths endpoints invalidated) }

/-- After `bind_pending`: a save goes on to its plan, a startup to the next file. -/
def Job.afterBind : Job → Option Job
  | .recorded _ _ request => request.map fun (plan, actorId) => .bound plan actorId
  | .reconciled m _ paths endpoints invalidated => match m.endpoint with
    | some endpoint =>
      some (.starting paths (if invalidated.contains m.id then endpoints else (m.id, endpoint) :: endpoints) invalidated)
    | none => some (.starting paths endpoints invalidated)
  | job => some job

/-- The manifest and the binding a job has just recorded. -/
def Job.records : Job → Option (Manifest × Nat)
  | .recorded m binding _ => some (m, binding)
  | .reconciled m binding _ _ _ => some (m, binding)
  | _ => none

/-- One event; what an event is refused changes nothing. -/
def next (w : World) : Event → World
  | .external path (some content) => { w with config := w.config.write path content }
  | .external path none => { w with config := w.config.unlink path }
  | .people db => { w with people := db }
  | .ensure serverId => { w with config := w.config.ensureServerIdentity serverId }
  | .update serverId origins expectedRevision actorId =>
    match update w.config w.people w.trust serverId origins expectedRevision actorId with
    | .ok trust => { w with trust }
    | .error _ => w
  | .plan serverId endpoint action previousEndpoint creating expectedRevision =>
    match planConfiguration privateHttpOrigin w.config w.trust serverId endpoint action previousEndpoint creating
      expectedRevision with
    | .ok plan => { w with plans := plan :: w.plans }
    | .error _ => w
  | .save request =>
    if w.job.isNone && request.trust.all (w.plans.contains ·.1) then
      match beginSave privateHttpOrigin w request with
      | .ok w' => w'
      | .error _ => w
    else w
  | .record => match w.job with
    | some (.written m path replace request) =>
      match w.config.recordConfigIdentity m.id path m.target replace with
      | some (config, binding) => { w with config, job := some (.recorded m binding request) }
      | none => { w with job := none }
    | _ => w
  | .bind => match w.job with
    | none => w
    | some job => match job.records with
      | none => w
      | some (m, _) =>
        { w with trust := bindPending privateHttpOrigin w.config w.trust m.id m.endpoint, job := job.afterBind }
  | .apply => match w.job with
    | some (.bound plan actorId) =>
      match applySavedConfiguration w.config w.people w.trust plan actorId with
      | .ok trust => { w with trust, job := none }
      | .error _ => { w with job := none }
    | _ => w
  | .delete serverId => if w.job.isNone then (beginDelete w serverId).getD w else w
  | .retire => match w.job with
    | some (.unlinked serverId) => { w with trust := retireDeleted w.trust serverId, job := some (.retired serverId) }
    | _ => w
  | .drop => match w.job with
    | some (.retired serverId) => { w with config := w.config.setIdentity serverId none, job := none }
    | _ => w
  | .start => { w with job := some (.starting (w.config.iterFiles.map Prod.fst) [] []) }
  | .reconcile => match w.job with
    | some (.starting (path :: paths) endpoints invalidated) => reconcileFile w path paths endpoints invalidated
    | _ => w
  | .migrate => match w.job with
    | some (.starting [] endpoints _) =>
      { w with trust := migrateSavedConfigs privateHttpOrigin w.config w.trust endpoints, job := none }
    | _ => w
  | .crash => { w with job := none }

def Step (w : World) (e : Event) (w' : World) : Prop := next privateHttpOrigin w e = w'

/-! ## What an accepted endpoint rests on -/

section History

variable (serverId : String) (origin : Origin)

/-- An administrator permitted the origin while the service had no identity, and the row has not been written since. -/
def AwaitsSince (s : World) (tr : List Event) (w : World) : Prop :=
  Since (Step privateHttpOrigin)
    (fun _ t e _ => ∃ origins revision actorId trust, e = .update serverId origins revision actorId ∧
      update t.config t.people t.trust serverId origins revision actorId = .ok trust ∧
      isAdministrator t.people actorId = true ∧ origin ∈ origins ∧ t.config.currentBinding serverId = none)
    (fun t _ v => v.trust serverId = t.trust serverId) s tr w

/-- An administrator permits the origin to the incarnation in force: by an update, by the plan of a save, or by a
pending permission that is taken up by the work that recorded the incarnation. -/
inductive Approves (binding : Nat) (s : World) (tr : List Event) (t : World) : Event → Prop
  | updated {origins : List Origin} {revision : Nat} {actorId : String} {trust : Trust}
    (hupdate : update t.config t.people t.trust serverId origins revision actorId = .ok trust)
    (hadmin : isAdministrator t.people actorId = true)
    (hlisted : origin ∈ origins) (hcurrent : t.config.currentBinding serverId = some binding) :
    Approves binding s tr t (.update serverId origins revision actorId)
  | planned {plan : Plan} {actorId : String} {trust : Trust} (hjob : t.job = some (.bound plan actorId))
    (happly : applySavedConfiguration t.config t.people t.trust plan actorId = .ok trust)
    (hserver : plan.serverId = serverId) (hchange : plan.change = .authorize) (horigin : plan.origin = some origin)
    (hadmin : isAdministrator t.people actorId = true) (hcurrent : t.config.currentBinding serverId = some binding) :
    Approves binding s tr t .apply
  | takenUp {m : Manifest} (hjob : t.job.bind Job.records = some (m, binding)) (hserver : m.id = serverId)
    (horigin : m.endpoint.bind privateHttpOrigin = some origin) (hcurrent : t.config.currentBinding serverId = some binding)
    (hawaits : AwaitsSince privateHttpOrigin serverId origin s tr t) : Approves binding s tr t .bind

/-- The startup matches an old row with the saved endpoint of the service. -/
def Matches (binding : Nat) (t : World) (e : Event) : Prop :=
  e = .migrate ∧ Legacy t.trust serverId origin ∧ t.config.currentBinding serverId = some binding ∧
    ∃ endpoints invalidated, t.job = some (.starting [] endpoints invalidated) ∧
      (endpoints.lookup serverId).bind privateHttpOrigin = some origin

/-- An administrator permitted the origin to the incarnation, and the row has not been written since. -/
def ApprovedSince (binding : Nat) (s : World) (tr : List Event) (w : World) : Prop :=
  Since (Step privateHttpOrigin) (fun tr t e _ => Approves privateHttpOrigin serverId origin binding s tr t e)
    (fun t _ v => v.trust serverId = t.trust serverId) s tr w

/-- An old row was matched at startup, and has not been written since. -/
def MatchedSince (binding : Nat) (s : World) (tr : List Event) (w : World) : Prop :=
  Since (Step privateHttpOrigin) (fun _ t e _ => Matches privateHttpOrigin serverId origin binding t e)
    (fun t _ v => v.trust serverId = t.trust serverId) s tr w

/-- The permission is taken away: an administrator replaces it by one without the origin, a saved plan retires it, or
the deletion of the service does. -/
inductive Withdraws (t : World) : Event → Prop
  | updated {origins : List Origin} {revision : Nat} {actorId : String} {trust : Trust}
    (hupdate : update t.config t.people t.trust serverId origins revision actorId = .ok trust) (hnot : origin ∉ origins) :
    Withdraws t (.update serverId origins revision actorId)
  | planned {plan : Plan} {actorId : String} {trust : Trust} (hjob : t.job = some (.bound plan actorId))
    (hserver : plan.serverId = serverId) (hchange : plan.change = .retire)
    (happly : applySavedConfiguration t.config t.people t.trust plan actorId = .ok trust) : Withdraws t .apply
  | deleted (hjob : t.job = some (.unlinked serverId)) : Withdraws t .retire

end History

/-! ## What a step writes to a row -/

variable {privateHttpOrigin} {w s : World} {tr : List Event} {serverId : String} {origin : Origin}

/-- The row that an event writes. -/
inductive Writes (privateHttpOrigin : String → Option Origin) (w : World) (serverId : String) (row : TrustRow) : Event → Prop
  | updated {origins : List Origin} {revision : Nat} {actorId : String} {trust : Trust}
    (hupdate : update w.config w.people w.trust serverId origins revision actorId = .ok trust)
    (horigins : ∀ o, o ∈ row.origins ↔ o ∈ origins) (hbinding : row.binding = w.config.currentBinding serverId)
    (hstate : row.state = if origins = [] then .revoked else if row.binding.isSome then .active else .pending) :
    Writes privateHttpOrigin w serverId row (.update serverId origins revision actorId)
  | authorized {plan : Plan} {actorId : String} {binding : Nat} {trust : Trust} (hjob : w.job = some (.bound plan actorId))
    (happly : applySavedConfiguration w.config w.people w.trust plan actorId = .ok trust) (hserver : plan.serverId = serverId) (hchange : plan.change = .authorize)
    (hadmin : isAdministrator w.people actorId = true) (hcurrent : w.config.currentBinding serverId = some binding)
    (horigins : row.origins = plan.origin.toList) (hbinding : row.binding = some binding) (hstate : row.state = .active) :
    Writes privateHttpOrigin w serverId row .apply
  | retired {plan : Plan} {actorId : String} (hjob : w.job = some (.bound plan actorId)) (hserver : plan.serverId = serverId)
    (hchange : plan.change = .retire) (horigins : row.origins = []) (hstate : row.state = .revoked) :
    Writes privateHttpOrigin w serverId row .apply
  | takenUp {m : Manifest} {recorded binding : Nat} {o : Origin} {old : TrustRow}
    (hjob : w.job.bind Job.records = some (m, recorded)) (hserver : m.id = serverId)
    (horigin : m.endpoint.bind privateHttpOrigin = some o) (hold : w.trust serverId = some old)
    (hpending : old.state = .pending) (hlisted : o ∈ old.origins) (hcurrent : w.config.currentBinding serverId = some binding)
    (hrow : row = { old with binding := some binding, state := .active, origins := [o] }) :
    Writes privateHttpOrigin w serverId row .bind
  | deleted (hjob : w.job = some (.unlinked serverId)) (horigins : row.origins = []) (hstate : row.state = .revoked) :
    Writes privateHttpOrigin w serverId row .retire
  | migrated {endpoints : List (String × String)} {invalidated : List String} {old : TrustRow}
    (hjob : w.job = some (.starting [] endpoints invalidated)) (hold : w.trust serverId = some old)
    (hlegacy : old.state = .legacy)
    (hrow : row = old.migrate privateHttpOrigin (endpoints.lookup serverId) (w.config.currentBinding serverId)) :
    Writes privateHttpOrigin w serverId row .migrate

/-- A step leaves the row of a service alone, or writes it. -/
def Effect (privateHttpOrigin : String → Option Origin) (serverId : String) (w : World) (e : Event) (v : World) : Prop :=
  v.trust serverId = w.trust serverId ∨ ∃ row, v.trust serverId = some row ∧ Writes privateHttpOrigin w serverId row e

variable {e : Event}

variable {v : World}

/-- A row written for one service is what only that service may see. -/
theorem Effect.write (target : String) (row : TrustRow) (hv : v.trust = w.trust.write target row)
    (h : target = serverId → Writes privateHttpOrigin w serverId row e) : Effect privateHttpOrigin serverId w e v := by
  by_cases htarget : target = serverId
  · subst htarget
    exact .inr ⟨row, by simp [hv], h rfl⟩
  · exact .inl (by rw [hv, Trust.write_of_ne (Ne.symm htarget)])

section
attribute [local simp] next

theorem effect_update {origins : List Origin} {revision : Nat} {actorId target : String} :
    Effect privateHttpOrigin serverId w (.update target origins revision actorId)
      (next privateHttpOrigin w (.update target origins revision actorId)) := by
  cases hupdate : update w.config w.people w.trust target origins revision actorId with
  | error => exact .inl (by simp [hupdate])
  | ok trust =>
    obtain ⟨-, row, hrow, horigins, hbinding, hstate⟩ := update_ok hupdate
    refine .write target row (by simp [hupdate, hrow]) ?_
    rintro rfl
    exact .updated hupdate horigins hbinding hstate

theorem effect_bind : Effect privateHttpOrigin serverId w .bind (next privateHttpOrigin w .bind) := by
  cases hjob : w.job with
  | none => exact .inl (by simp [hjob])
  | some job =>
    cases hrecords : job.records with
    | none => exact .inl (by simp [hjob, hrecords])
    | some recorded =>
      obtain ⟨m, binding⟩ := recorded
      rcases bindPending_cases privateHttpOrigin w.config w.trust m.id m.endpoint with
        hsame | ⟨o, old, current, horigin, hold, hcurrent, hpending, hlisted, hwrite⟩
      · exact .inl (by simp [hjob, hrecords, hsame])
      refine .write m.id { old with binding := some current, state := .active, origins := [o] }
        (by simp [hjob, hrecords, hwrite]) ?_
      rintro rfl
      have hrecorded : w.job.bind Job.records = some (m, binding) := by simp [hjob, hrecords]
      exact .takenUp hrecorded rfl horigin hold hpending hlisted hcurrent rfl

end

theorem effect_apply : Effect privateHttpOrigin serverId w .apply (next privateHttpOrigin w .apply) := by
  simp only [next]
  split
  · rename_i plan actorId hjob
    split
    · rename_i trust happly
      rcases applySavedConfiguration_ok happly with
        ⟨hchange, hadmin, binding, row, hcurrent, hwrite, horigins, hbinding, hstate⟩ |
        ⟨hchange, row, hwrite, horigins, hstate⟩ | ⟨-, -, hsame⟩
      · refine .write plan.serverId row hwrite ?_
        rintro rfl
        exact .authorized hjob happly rfl hchange hadmin hcurrent horigins hbinding hstate
      · refine .write plan.serverId row hwrite ?_
        rintro rfl
        exact .retired hjob rfl hchange horigins hstate
      · exact .inl (by rw [hsame])
    · exact .inl rfl
  · exact .inl rfl

theorem effect_retire : Effect privateHttpOrigin serverId w .retire (next privateHttpOrigin w .retire) := by
  simp only [next]
  split
  · rename_i target hjob
    cases hrow : w.trust target with
    | none => exact .inl (by simp [retireDeleted, hrow])
    | some row =>
      refine .write target { revision := row.revision + 1, origins := [], binding := none, state := .revoked }
        (by simp [retireDeleted, hrow]) ?_
      rintro rfl
      exact .deleted hjob rfl rfl
  · exact .inl rfl

theorem effect_migrate : Effect privateHttpOrigin serverId w .migrate (next privateHttpOrigin w .migrate) := by
  simp only [next]
  split
  · rename_i endpoints invalidated hjob
    cases hrow : w.trust serverId with
    | none => exact .inl (by simp [migrateSavedConfigs, hrow])
    | some row =>
      by_cases hlegacy : row.state = .legacy
      · exact .inr ⟨_, by simp [migrateSavedConfigs, hrow, hlegacy], .migrated hjob hrow hlegacy rfl⟩
      · exact .inl (by simp [migrateSavedConfigs, hrow, hlegacy])
  · exact .inl rfl

theorem effect (privateHttpOrigin : String → Option Origin) (serverId : String) (w : World) (e : Event) :
    Effect privateHttpOrigin serverId w e (next privateHttpOrigin w e) := by
  cases e with
  | update => exact effect_update
  | bind => exact effect_bind
  | apply => exact effect_apply
  | retire => exact effect_retire
  | migrate => exact effect_migrate
  | external path content => cases content <;> exact .inl rfl
  | people | ensure | start | crash => exact .inl rfl
  | plan =>
    simp only [next]
    split <;> exact .inl rfl
  | save request =>
    simp only [next]
    split
    · split
      · rename_i hsave
        simp only [beginSave, bind_eq_ok, pure_eq_ok] at hsave
        obtain ⟨-, -, rfl⟩ := hsave
        exact .inl rfl
      · exact .inl rfl
    · exact .inl rfl
  | record =>
    simp only [next]
    split
    · split <;> exact .inl rfl
    · exact .inl rfl
  | delete target =>
    simp only [next]
    split
    · cases hdelete : beginDelete w target with
      | none => exact .inl rfl
      | some v =>
        simp only [beginDelete, Option.bind_eq_bind, Option.bind_eq_some_iff, Option.pure_def, Option.some.injEq] at hdelete
        obtain ⟨_, -, _, -, rfl⟩ := hdelete
        exact .inl rfl
    · exact .inl rfl
  | drop =>
    simp only [next]
    split <;> exact .inl rfl
  | reconcile =>
    simp only [next]
    split
    · simp only [reconcileFile]
      split
      · exact .inl rfl
      · split <;> exact .inl rfl
    · exact .inl rfl

/-! ## Every run -/

/-- The work that has recorded an identity finds it in the row. -/
def Recorded (w : World) : Prop :=
  ∀ m binding, w.job.bind Job.records = some (m, binding) → ∃ row, w.config.identities m.id = some row ∧ row.binding = binding

theorem Recorded.current (h : Recorded w) {m : Manifest} {recorded binding : Nat}
    (hjob : w.job.bind Job.records = some (m, recorded)) (hcurrent : w.config.currentBinding m.id = some binding) :
    recorded = binding := by
  obtain ⟨row, hrow, rfl⟩ := h m recorded hjob
  obtain ⟨row', hrow', rfl⟩ := Config.Store.serverBinding_ok (Config.Store.currentBinding_eq_some.mp hcurrent)
  rw [Option.some.inj (hrow.symm.trans hrow')]

/-- A step that leaves the job alone keeps the identities that are recorded. -/
theorem Recorded.of_same (h : Recorded w) (hjob : v.job = w.job)
    (hrows : ∀ s row, w.config.identities s = some row → v.config.identities s = some row) : Recorded v := by
  intro m binding hrecords
  obtain ⟨row, hrow, hbinding⟩ := h m binding (hjob ▸ hrecords)
  exact ⟨row, hrows m.id row hrow, hbinding⟩

theorem Recorded.of_none (h : v.job.bind Job.records = none) : Recorded v := by
  intro m binding hrecords
  rw [h] at hrecords
  cases hrecords

variable {binding : Nat}

theorem Recorded.of_record {m : Manifest} {path : String} {replace : Bool}
    {target : Config.Target} (hrecord : w.config.recordConfigIdentity m.id path target replace = some (v.config, binding))
    (hjob : v.job.bind Job.records = some (m, binding)) : Recorded v := by
  intro m' binding' hrecords
  obtain ⟨rfl, rfl⟩ : m = m' ∧ binding = binding' := by simpa using hjob.symm.trans hrecords
  obtain ⟨file, -, hset, -⟩ := Config.Store.recordConfigIdentity_ok hrecord
  exact ⟨_, by rw [hset, Function.update_self], rfl⟩

theorem Job.afterBind_records {job : Job} (h : job.records ≠ none) : job.afterBind.bind Job.records = none := by
  cases job with
  | recorded m binding request => cases request <;> rfl
  | reconciled m binding paths endpoints invalidated =>
    simp only [afterBind]
    split <;> rfl
  | written | bound | unlinked | retired | starting => exact absurd rfl h

theorem ensure_keeps (st : Store) (target s : String) {row : Config.Identity} (h : st.identities s = some row) :
    (st.ensureServerIdentity target).identities s = some row := by
  unfold Config.Store.ensureServerIdentity
  split
  · exact h
  rename_i hnone
  have hne : s ≠ target := by
    rintro rfl
    simp [hnone] at h
  simpa [Config.Store.setIdentity, hne] using h

theorem Recorded.step (h : Recorded w) (e : Event) : Recorded (next privateHttpOrigin w e) := by
  cases e with
  | external path content => cases content <;> exact h.of_same rfl fun _ _ hrow => hrow
  | people => exact h.of_same rfl fun _ _ hrow => hrow
  | ensure target => exact h.of_same rfl fun s _ hrow => ensure_keeps w.config target s hrow
  | update | plan =>
    simp only [next]
    split
    · exact h.of_same rfl fun _ _ hrow => hrow
    · exact h
  | save request =>
    simp only [next]
    split
    · split
      · rename_i hsave
        simp only [beginSave, bind_eq_ok, pure_eq_ok] at hsave
        obtain ⟨-, -, rfl⟩ := hsave
        exact .of_none rfl
      · exact h
    · exact h
  | record =>
    simp only [next]
    split
    · split
      · rename_i hrecord
        exact .of_record hrecord rfl
      · exact .of_none rfl
    · exact h
  | bind =>
    simp only [next]
    split
    · exact h
    · split
      · exact h
      · rename_i hrecords
        exact .of_none (Job.afterBind_records (by simp [hrecords]))
  | apply =>
    simp only [next]
    split
    · split <;> exact .of_none rfl
    · exact h
  | delete target =>
    simp only [next]
    split
    · cases hdelete : beginDelete w target with
      | none => exact h
      | some v =>
        simp only [beginDelete, Option.bind_eq_bind, Option.bind_eq_some_iff, Option.pure_def, Option.some.injEq] at hdelete
        obtain ⟨_, -, _, -, rfl⟩ := hdelete
        exact .of_none rfl
    · exact h
  | retire | drop | migrate =>
    simp only [next]
    split
    · exact .of_none rfl
    · exact h
  | start | crash => exact .of_none rfl
  | reconcile =>
    simp only [next]
    split
    · simp only [reconcileFile]
      split
      · exact .of_none rfl
      · split
        · exact .of_none rfl
        · rename_i hrecord
          exact .of_record hrecord rfl
    · exact h

/-- A step after which the origin awaits its save is an approval, or leaves the row alone. -/
theorem awaits_step (h : Awaits (next privateHttpOrigin w e).trust serverId origin) :
    (∃ origins revision actorId trust, e = .update serverId origins revision actorId ∧
      update w.config w.people w.trust serverId origins revision actorId = .ok trust ∧
      isAdministrator w.people actorId = true ∧ origin ∈ origins ∧ w.config.currentBinding serverId = none) ∨
    Awaits w.trust serverId origin ∧ (next privateHttpOrigin w e).trust serverId = w.trust serverId := by
  rcases effect privateHttpOrigin serverId w e with hsame | ⟨row, hrow, hwrites⟩
  · unfold Awaits at h ⊢
    exact .inr ⟨hsame ▸ h, hsame⟩
  obtain ⟨row', hrow', hpending, hlisted⟩ := h
  obtain rfl := Option.some.inj (hrow'.symm.trans hrow)
  cases hwrites with
  | @updated origins revision actorId trust hupdate horigins hbinding hstate =>
    refine .inl ⟨origins, revision, actorId, trust, rfl, hupdate, (update_ok hupdate).1, (horigins origin).mp hlisted, ?_⟩
    cases hcurrent : w.config.currentBinding serverId with
    | none => rfl
    | some binding =>
      rw [hpending, hbinding, hcurrent] at hstate
      split at hstate <;> cases hstate
  | authorized _ _ _ _ _ _ _ _ hstate | retired _ _ _ _ hstate => simp [hpending] at hstate
  | takenUp _ _ _ _ _ _ _ hshape => simp [hshape] at hpending
  | deleted _ _ hstate => simp [hpending] at hstate
  | migrated _ _ _ hshape =>
    rw [hshape] at hpending
    exact absurd hpending migrate_ne_pending.1

theorem awaitsSince (h : Run (Step privateHttpOrigin) s tr w) (hs : ¬ Awaits s.trust serverId origin)
    (hw : Awaits w.trust serverId origin) : AwaitsSince privateHttpOrigin serverId origin s tr w := by
  refine h.since (I := fun _ => True) (A := fun w => Awaits w.trust serverId origin) trivial (fun _ _ _ _ _ => trivial) hs ?_ hw
  rintro _ t e _ - - rfl hv
  exact awaits_step hv

/-- A step after which the row permits the origin is an approval, a matched old row, or leaves the row alone. -/
theorem permits_step (hrun : Run (Step privateHttpOrigin) s tr w) (hrecorded : Recorded w)
    (hs : ¬ Awaits s.trust serverId origin) (h : Permits (next privateHttpOrigin w e).trust serverId origin binding) :
    Approves privateHttpOrigin serverId origin binding s tr w e ∨ Matches privateHttpOrigin serverId origin binding w e ∨
    Permits w.trust serverId origin binding ∧ (next privateHttpOrigin w e).trust serverId = w.trust serverId := by
  rcases effect privateHttpOrigin serverId w e with hsame | ⟨row, hrow, hwrites⟩
  · unfold Permits at h ⊢
    exact .inr (.inr ⟨hsame ▸ h, hsame⟩)
  obtain ⟨row', hrow', hactive, hpermitted, hlisted⟩ := h
  obtain rfl := Option.some.inj (hrow'.symm.trans hrow)
  cases hwrites with
  | updated hupdate horigins hbinding =>
    exact .inl (.updated hupdate (update_ok hupdate).1 ((horigins origin).mp hlisted) (hbinding.symm.trans hpermitted))
  | authorized hjob happly hserver hchange hadmin hcurrent horigins hbinding =>
    obtain rfl := Option.some.inj (hbinding.symm.trans hpermitted)
    refine .inl (.planned hjob happly hserver hchange ?_ hadmin hcurrent)
    simpa [horigins] using hlisted
  | retired _ _ _ _ hstate => simp [hactive] at hstate
  | @takenUp m recorded current o old hjob hserver horigin hold hpending hold_listed hcurrent hshape =>
    obtain rfl : current = binding := by simpa [hshape] using hpermitted
    obtain rfl : origin = o := by simpa [hshape] using hlisted
    obtain rfl : recorded = current := hrecorded.current hjob (hserver ▸ hcurrent)
    exact .inl (.takenUp hjob hserver horigin hcurrent (awaitsSince hrun hs ⟨old, hold, hpending, hold_listed⟩))
  | deleted _ _ hstate => simp [hactive] at hstate
  | @migrated endpoints invalidated old hjob hold hlegacy hshape =>
    rw [hshape] at hactive hpermitted hlisted
    obtain ⟨-, hbinding, horigins⟩ := migrate_active hactive
    obtain ⟨hlisted_old, hendpoint⟩ := horigins origin hlisted
    exact .inr (.inl ⟨rfl, ⟨old, hold, hlegacy, hlisted_old⟩, hbinding.symm.trans hpermitted, endpoints, invalidated, hjob,
      hendpoint⟩)

/-- No row is an old one again. -/
theorem legacy_step (h : Legacy (next privateHttpOrigin w e).trust serverId origin) : Legacy w.trust serverId origin := by
  rcases effect privateHttpOrigin serverId w e with hsame | ⟨row, hrow, hwrites⟩
  · unfold Legacy at h ⊢
    exact hsame ▸ h
  obtain ⟨row', hrow', hlegacy, -⟩ := h
  obtain rfl := Option.some.inj (hrow'.symm.trans hrow)
  cases hwrites with
  | updated _ _ _ hstate =>
    rw [hlegacy] at hstate
    split at hstate
    · cases hstate
    · split at hstate <;> cases hstate
  | authorized _ _ _ _ _ _ _ _ hstate | retired _ _ _ _ hstate => simp [hlegacy] at hstate
  | takenUp _ _ _ _ _ _ _ hshape => simp [hshape] at hlegacy
  | deleted _ _ hstate => simp [hlegacy] at hstate
  | migrated _ _ _ hshape =>
    rw [hshape] at hlegacy
    exact absurd hlegacy migrate_ne_pending.2

/-- From a state in which the origin is neither permitted, nor awaited, nor on an old row, it takes an administrator. -/
theorem approvedSince (h : Run (Step privateHttpOrigin) s tr w) (hrecorded : Recorded s)
    (hlegacy : ¬ Legacy s.trust serverId origin) (hawaits : ¬ Awaits s.trust serverId origin)
    (hpermits : ¬ Permits s.trust serverId origin binding) (hw : Permits w.trust serverId origin binding) :
    ApprovedSince privateHttpOrigin serverId origin binding s tr w := by
  refine h.since (I := fun w => Recorded w ∧ ¬ Legacy w.trust serverId origin)
    (A := fun w => Permits w.trust serverId origin binding) ⟨hrecorded, hlegacy⟩ ?_ hpermits ?_ hw
  · rintro t e _ ⟨ht, htlegacy⟩ rfl
    exact ⟨ht.step e, fun hv => htlegacy (legacy_step hv)⟩
  rintro pre t e _ hrun ⟨ht, htlegacy⟩ rfl hv
  rcases permits_step hrun ht hawaits hv with happroves | hmatches | hsame
  · exact .inl happroves
  · exact absurd hmatches.2.1 htlegacy
  · exact .inr hsame

/-- Where a store begins: every row is an old one, and no work is under way. -/
structure Initial (s : World) : Prop where
  legacy : ∀ serverId row, s.trust serverId = some row → row.state = .legacy
  idle : s.job = none

theorem Initial.recorded (h : Initial s) : Recorded s := .of_none (by simp [h.idle])

theorem Initial.not_awaits (h : Initial s) : ¬ Awaits s.trust serverId origin := by
  rintro ⟨row, hrow, hpending, -⟩
  simp [h.legacy serverId row hrow] at hpending

theorem Initial.not_permits (h : Initial s) : ¬ Permits s.trust serverId origin binding := by
  rintro ⟨row, hrow, hactive, -⟩
  simp [h.legacy serverId row hrow] at hactive

theorem recorded_run (h : Run (Step privateHttpOrigin) s tr w) (hs : Recorded s) : Recorded w := by
  refine h.invariant hs ?_
  rintro t e _ ht rfl
  exact ht.step e

/-- From the beginning there may also be an old row. -/
theorem trustedSince (h : Run (Step privateHttpOrigin) s tr w) (hs : Initial s) (hw : Permits w.trust serverId origin binding) :
    ApprovedSince privateHttpOrigin serverId origin binding s tr w ∨
      MatchedSince privateHttpOrigin serverId origin binding s tr w := by
  induction h with
  | nil => exact absurd hw hs.not_permits
  | snoc hrun he ih =>
    obtain rfl := he
    rcases permits_step hrun (recorded_run hrun hs.recorded) hs.not_awaits hw with happroves | hmatches | ⟨ht, hsame⟩
    · exact .inl (.now hrun rfl happroves)
    · exact .inr (.now hrun rfl hmatches)
    · rcases ih ht with happroved | hmatched
      · exact .inl (.later happroved rfl hsame)
      · exact .inr (.later hmatched rfl hsame)

/-- After the permission is taken away the row is neither active for the origin, nor pending for it, nor an old one. -/
theorem Withdraws.row (privateHttpOrigin : String → Option Origin) {t : World} (h : Withdraws serverId origin t e) :
    (next privateHttpOrigin t e).trust serverId = none ∨ ∃ row, (next privateHttpOrigin t e).trust serverId = some row ∧
      origin ∉ row.origins ∧ row.state ≠ .legacy := by
  cases h with
  | @updated origins revision actorId trust hupdate hnot =>
    obtain ⟨-, row, hrow, horigins, -, hstate⟩ := update_ok hupdate
    refine .inr ⟨row, by simp [next, hupdate, hrow], fun hmem => hnot ((horigins origin).mp hmem), ?_⟩
    rw [hstate]
    split
    · simp
    · split <;> simp
  | @planned plan actorId trust hjob hserver hchange happly =>
    rcases applySavedConfiguration_ok happly with ⟨hauthorize, -⟩ | ⟨-, row, hwrite, horigins, hstate⟩ | ⟨-, hnot, -⟩
    · simp [hchange] at hauthorize
    · exact .inr ⟨row, by simp [next, hjob, happly, hwrite, hserver], by simp [horigins], by simp [hstate]⟩
    · exact absurd hchange hnot
  | deleted hjob =>
    cases hrow : t.trust serverId with
    | none => exact .inl (by simp [next, hjob, retireDeleted, hrow])
    | some row =>
      refine .inr ⟨{ revision := row.revision + 1, origins := [], binding := none, state := .revoked }, ?_, by simp, by simp⟩
      simp [next, hjob, retireDeleted, hrow]

/-- Nothing is left of a permission that was taken away. -/
theorem Withdraws.clears {t : World} (h : Withdraws serverId origin t e) :
    ¬ Legacy (next privateHttpOrigin t e).trust serverId origin ∧ ¬ Awaits (next privateHttpOrigin t e).trust serverId origin ∧
      ∀ binding, ¬ Permits (next privateHttpOrigin t e).trust serverId origin binding := by
  rcases h.row privateHttpOrigin with hnone | ⟨row, hrow, hnot, hlegacy⟩
  · simp [Legacy, Awaits, Permits, hnone]
  · simp [Legacy, Awaits, Permits, hrow, hnot, hlegacy]

/-- **What an accepted endpoint rests on.** Whenever `require_endpoint` accepts a private origin, it returns the binding in
force, and an administrator permitted the origin to it, or an old row was matched at startup, and the row has not been
written since. Once the permission was taken away, it takes an administrator who permits the origin after that. -/
theorem trust_approved (hs : Initial s) (h : Run (Step privateHttpOrigin) s tr w) {endpoint : String}
    {expectedBinding result : Option Nat} (horigin : privateHttpOrigin endpoint = some origin)
    (haccept : requireEndpoint privateHttpOrigin w.config w.trust serverId endpoint false expectedBinding = .ok result) :
    ∃ binding, result = some binding ∧ w.config.currentBinding serverId = some binding ∧
      (ApprovedSince privateHttpOrigin serverId origin binding s tr w ∨
        MatchedSince privateHttpOrigin serverId origin binding s tr w) ∧
      ∀ pre e post t v, tr = pre ++ e :: post → Run (Step privateHttpOrigin) s pre t → Step privateHttpOrigin t e v →
        Run (Step privateHttpOrigin) v post w → Withdraws serverId origin t e →
          ApprovedSince privateHttpOrigin serverId origin binding v post w := by
  obtain ⟨binding, hresult, hcurrent, hpermits⟩ := requireEndpoint_ok horigin haccept
  refine ⟨binding, hresult, hcurrent, trustedSince h hs hpermits, ?_⟩
  rintro pre e post t _ - hpre rfl hpost hwithdraws
  have hrecorded : Recorded (next privateHttpOrigin t e) := (recorded_run hpre hs.recorded).step e
  obtain ⟨hlegacy, hawaits, hclear⟩ := hwithdraws.clears
  exact approvedSince hpost hrecorded hlegacy hawaits (hclear binding) hpermits

/-! ## A permission that is given before the service is saved -/

def exampleOrigin (endpoint : String) : Option Origin :=
  if endpoint = "http://10.0.0.5:8000/mcp" then some ("10.0.0.5", 8000) else none

def exampleManifest : Manifest := { id := "s", endpoint := some "http://10.0.0.5:8000/mcp" }

/-- One administrator, and nothing saved. -/
def exampleWorld : World where
  people :=
    { access := { roles := [⟨"r", "admin", true, true⟩], userRoles := [("u", "r")] }
      users := [{ id := "u", username := "root", status := .active }]
      controlPermissions := [("p", "operations.manage")]
      rolePermissions := [("r", "p")] }

theorem exampleWorld_initial : Initial exampleWorld := ⟨by simp [exampleWorld], rfl⟩

/-- The origin is permitted, the service is saved, and the permission is taken up. -/
def permittedAndSaved : List Event :=
  [.update "s" [("10.0.0.5", 8000)] 0 "u", .save { manifest := exampleManifest }, .record, .bind]

theorem trust_approved_saved : ∃ w, Run (Step exampleOrigin) exampleWorld permittedAndSaved w ∧
      requireEndpoint exampleOrigin w.config w.trust "s" "http://10.0.0.5:8000/mcp" false none = .ok (some 0) ∧
      (ApprovedSince exampleOrigin "s" ("10.0.0.5", 8000) 0 exampleWorld permittedAndSaved w ∨
        MatchedSince exampleOrigin "s" ("10.0.0.5", 8000) 0 exampleWorld permittedAndSaved w) := by
  have hrun : Run (Step exampleOrigin) exampleWorld permittedAndSaved
      (permittedAndSaved.foldl (next exampleOrigin) exampleWorld) := Run.of_foldl (fun _ _ => rfl) _ _
  have haccept : requireEndpoint exampleOrigin (permittedAndSaved.foldl (next exampleOrigin) exampleWorld).config
      (permittedAndSaved.foldl (next exampleOrigin) exampleWorld).trust "s" "http://10.0.0.5:8000/mcp" false none =
        .ok (some 0) := by decide
  have horigin : exampleOrigin "http://10.0.0.5:8000/mcp" = some ("10.0.0.5", 8000) := by decide
  obtain ⟨binding, hbinding, -, hsince, -⟩ := trust_approved exampleWorld_initial hrun horigin haccept
  obtain rfl : 0 = binding := by simpa using hbinding
  exact ⟨_, hrun, haccept, hsince⟩

/-- The save stops after it recorded the identity; the next startup takes the permission up. -/
def interruptedSave : List Event :=
  [.update "s" [("10.0.0.5", 8000)] 0 "u", .save { manifest := exampleManifest }, .record, .crash, .start, .reconcile, .bind,
    .migrate]

/-- An approval in force, the plan of a save, a pending permission taken up by a save, or a matched old row. -/
def bySave (t : World) : Event → Bool
  | .update serverId _ _ _ => (t.config.currentBinding serverId).isSome
  | .apply => t.job.isSome
  | .bind => match t.job with
    | some (.recorded _ _ _) => true
    | _ => false
  | .migrate => (t.trust "s").any (·.state = .legacy)
  | _ => false

theorem taken_up_by_startup : ∃ w, Run (Step exampleOrigin) exampleWorld interruptedSave w ∧
      requireEndpoint exampleOrigin w.config w.trust "s" "http://10.0.0.5:8000/mcp" false none = .ok (some 0) ∧
      ¬ MatchedSince exampleOrigin "s" ("10.0.0.5", 8000) 0 exampleWorld interruptedSave w ∧
      ¬ Since (Step exampleOrigin) (fun tr t e _ =>
          Approves exampleOrigin "s" ("10.0.0.5", 8000) 0 exampleWorld tr t e ∧
            (e = .bind → ∃ m request, t.job = some (.recorded m 0 request)))
        (fun _ _ _ => True) exampleWorld interruptedSave w := by
  have hnone : occurs (next exampleOrigin) bySave exampleWorld interruptedSave = false := by decide
  refine ⟨_, Run.of_foldl (fun _ _ => rfl) _ _, by decide, ?_, ?_⟩
  · intro hsince
    have hoccurs := hsince.occurs (c := bySave) (fun _ _ _ h => h) ?_
    · simp [hnone] at hoccurs
    · rintro _ t e _ ⟨rfl, ⟨row, hrow, hlegacy, -⟩, -⟩
      simp [bySave, hrow, hlegacy]
  intro hsince
  have hoccurs := hsince.occurs (c := bySave) (fun _ _ _ h => h) ?_
  · simp [hnone] at hoccurs
  rintro _ t e _ ⟨happroves, hsave⟩
  cases happroves with
  | updated _ _ _ hcurrent => simp [bySave, hcurrent]
  | planned hjob => simp [bySave, hjob]
  | takenUp =>
    obtain ⟨m, request, hjob⟩ := hsave rfl
    simp [bySave, hjob]

end LingshuGate.HttpTrust

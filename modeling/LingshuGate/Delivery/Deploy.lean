import LingshuGate.Config.Save
import LingshuGate.Runtime.Manager

/-!
# Deploying a build, and taking it back (`build_deploy.py`)

| here | there |
| --- | --- |
| `DeployRequest`   | the arguments of `deploy_build` (742) and the manifest it deploys |
| `tryDeploy`       | its `try` (823) |
| `restoreConfig`, `restoreRuntime` | the compensations in its `except` (888, 902) |
| `deployBuild`     | the whole: `none` is an exception, and then there is no deployment to speak of |

A deployment writes the file of a server and replaces its runtime. `Faults` says which steps fail. What a deployment
returns says whether it went through, or whether it was taken back: `Truthful` is that it is so.

It is not always so. A save that fails after it replaced the file is not taken back, since `config_applied` is only set
when it returns (`replaced_not_restored`). A save restores masked values from the file it replaces, so the manifest that
is written back may get values of the one that was deployed. And a file named after the server may hold the configuration
of another. `deploy_truthful` says that this is all.

The database rows of a deployment are its result; the snapshot, the texts of the errors and the events are left out.
-/

namespace LingshuGate.Deploy

open Lib
open Config (Manifest Store Draft Fault)
open LingshuGate.Runtime (Manager ApplyFaults ApplyResult ServerState Desired Entry desiredState)

structure World where
  config : Store := {}
  runtime : Manager := {}

/-- The manifest that is deployed, under the id of its server. -/
structure DeployRequest where
  draft : Draft
  start : Bool := false
  overwrite : Bool := false

def DeployRequest.serverId (r : DeployRequest) : String := r.draft.manifest.id

/-- Which steps fail. -/
structure Faults where
  /-- A check before the deployment, or the insertion of its row. -/
  refused : Bool := false
  snapshot : Bool := false
  save : Fault := .none
  /-- `SET config_path = ?, config_applied = 1`. -/
  markApplied : Bool := false
  /-- `load_manifest`. -/
  reload : Bool := false
  apply : ApplyFaults := {}
  /-- `SET started = ?, runtime_started = ?`. -/
  markStarted : Bool := false
  /-- The successful outcome. -/
  outcome : Bool := false
  restoreConfig : Fault := .none
  restoreRuntime : ApplyFaults := {}
  removeStop : Bool := false
  removeIntent : Bool := false
  /-- The failed outcome. -/
  record : Bool := false
  /-- The logs and events, and reading the row back. -/
  report : Bool := false

inductive Failure
  | other
  /-- `McpTargetApplyError`; `reported` is "target rollback failed:" in its text. -/
  | target (reported : Bool)
  deriving DecidableEq

/-- What the `try` leaves. -/
structure Tried where
  world : World
  configApplied : Bool := false
  runtimeApplied : Bool := false
  started : Bool := false
  failure : Option Failure := none

def tryDeploy (core : Bool) (w : World) (r : DeployRequest) (previous : Option Manifest) (f : Faults) : Tried :=
  if previous.isSome && f.snapshot then { world := w, failure := some .other }
  else match w.config.saveConfig r.draft (previous.map fun _ => r.serverId) r.overwrite f.save with
  | .refused => { world := w, failure := some .other }
  | .replaced config => { world := { w with config }, failure := some .other }
  | .saved config =>
    let saved : Tried := { world := { w with config }, configApplied := true }
    if f.markApplied || f.reload then { saved with failure := some .other }
    else match config.loadManifest r.serverId with
    | .error _ => { saved with failure := some .other }
    | .ok m => match w.runtime.apply core m r.start f.apply with
      | (runtime, .refused) => { saved with world := ⟨config, runtime⟩, failure := some .other }
      | (runtime, .failed reported) => { saved with world := ⟨config, runtime⟩, failure := some (.target reported) }
      | (runtime, .ok status) =>
        let applied := { saved with world := ⟨config, runtime⟩, runtimeApplied := true }
        if status = .failed || (r.start && status ≠ .running) then { applied with failure := some .other }
        else
          { applied with
            started := status = .running
            failure := if f.markStarted || f.outcome then some .other else none }

/-- The saved configuration, written back or removed; the flag is whether that fails. -/
def restoreConfig (config : Store) (serverId : String) (previous : Option Manifest) (fault : Fault) : Store × Bool :=
  match (match previous with
    | some m => config.saveConfig (.ofSaved m) (some serverId) true fault
    | none => config.deleteConfig serverId fault) with
  | .refused => (config, true)
  | .replaced config => (config, true)
  | .saved config => (config, false)

/-- `expected_statuses`. -/
def restoredStatus (desired : Desired) (status : ServerState) : Bool :=
  match desired with
  | .running => status = .running
  | .stopped => status = .loaded || status = .stopped || status = .external

/-- The runtime from before the deployment; the flag is whether that fails. -/
def restoreRuntime (core : Bool) (runtime : Manager) (serverId : String) (previous : Option Entry) (f : Faults) : Manager × Bool :=
  match previous with
  | none => runtime.remove serverId f.removeStop f.removeIntent
  | some e => match runtime.apply core e.manifest (e.desired = .running) f.restoreRuntime with
    | (runtime, .ok status) => (runtime, !restoredStatus e.desired status)
    | (runtime, _) => (runtime, true)

inductive DeployStatus
  | success | failed
  deriving DecidableEq

structure Deployment where
  status : DeployStatus
  configApplied : Bool
  /-- Also `runtime_started`. -/
  started : Bool
  rollbackAttempted : Bool := false
  rollbackSucceeded : Option Bool := none
  deriving DecidableEq

/-- The compensation of a deployment whose configuration was saved; the flag is whether all of it succeeded. -/
def compensate (core : Bool) (w : World) (r : DeployRequest) (previous : Option Manifest) (f : Faults) (tried : Tried) :
    World × Bool :=
  let config := restoreConfig tried.world.config r.serverId previous f.restoreConfig
  let runtime := if tried.runtimeApplied then restoreRuntime core tried.world.runtime r.serverId (w.runtime.servers r.serverId) f
    else (tried.world.runtime, false)
  (⟨config.1, runtime.1⟩, tried.failure ≠ some (.target true) && !config.2 && !runtime.2)

def deployBuild (core : Bool) (w : World) (r : DeployRequest) (f : Faults) : World × Option Deployment :=
  match w.config.loadManifest r.serverId with
  | .error .unreadable => (w, none)
  | loaded =>
    let previous := loaded.toOption
    if f.refused then (w, none)
    else
      let tried := tryDeploy core w r previous f
      let deployment : Deployment := { status := .success, configApplied := tried.configApplied, started := tried.started }
      if tried.failure.isNone then (tried.world, if f.report then none else some deployment)
      else
        let failed := { deployment with status := .failed }
        if tried.configApplied then
          let restored := compensate core w r previous f tried
          (restored.1, if f.record || f.report then none
            else some { failed with rollbackAttempted := true, rollbackSucceeded := some restored.2 })
        else (tried.world, if f.record || f.report then none else some failed)

/-! ## What a deployment says -/

variable {core : Bool} {w w' : World} {r : DeployRequest} {f : Faults} {previous : Option Manifest}

/-- What is saved and what runs under the other ids is as it was. -/
def OthersKept (w : World) (serverId : String) (w' : World) : Prop :=
  ∀ other, other ≠ serverId →
    w'.config.loadManifest other = w.config.loadManifest other ∧ w'.runtime.servers other = w.runtime.servers other

/-- The manifest that a deployment saves. -/
def DeployRequest.deployed (r : DeployRequest) (w : World) : Manifest := (w.config.written r.draft).2

/-- A failed deployment that took nothing back, or says it took all of it back, leaves the server as it was; a successful
one leaves what was asked for. Either way the other servers are as they were. -/
structure Truthful (w : World) (r : DeployRequest) (w' : World) (d : Deployment) : Prop where
  failed : d.status = .failed → d.rollbackAttempted = false ∨ d.rollbackSucceeded = some true →
    w'.config.loadManifest r.serverId = w.config.loadManifest r.serverId ∧
      w'.runtime.holds r.serverId = w.runtime.holds r.serverId ∧ OthersKept w r.serverId w'
  success : d.status = .success → w'.config.loadManifest r.serverId = .ok (r.deployed w) ∧
      (∃ e, w'.runtime.servers r.serverId = some e ∧ e.manifest = r.deployed w ∧ e.desired = desiredState r.start ∧
        (r.start = true → e.server.state = .running)) ∧
      OthersKept w r.serverId w'

/-- The deployment gets to the file of the server. -/
def Replaces (w : World) (r : DeployRequest) (f : Faults) : Prop :=
  w.config.loadManifest r.serverId ≠ .error .unreadable ∧ f.refused = false ∧
    ((w.config.loadManifest r.serverId).toOption.isSome && f.snapshot) = false ∧
    ((w.config.findPath r.serverId).isNone ∨ r.overwrite = true)

/-- What the runtime makes of the manifest. -/
def applied (core : Bool) (w : World) (r : DeployRequest) (f : Faults) : Manager × ApplyResult :=
  w.runtime.apply core (r.deployed w) r.start f.apply

/-- After the save, no step fails. -/
def GoesThrough (core : Bool) (w : World) (r : DeployRequest) (f : Faults) : Prop :=
  f.markApplied = false ∧ f.reload = false ∧ (∃ status, (applied core w r f).2 = .ok status) ∧ f.markStarted = false ∧
    f.outcome = false

/-- The runtime was not touched, took itself back, or is taken back. -/
def RuntimeRestored (core : Bool) (w : World) (r : DeployRequest) (f : Faults) : Prop :=
  (f.markApplied || f.reload) = true ∨ match (applied core w r f).2 with
    | .refused => True
    | .failed reported => reported = false
    | .ok _ => (restoreRuntime core (applied core w r f).1 r.serverId (w.runtime.servers r.serverId) f).2 = false

/-- Something fails after the save, and nothing that takes it back does. -/
def TakenBack (core : Bool) (w : World) (r : DeployRequest) (f : Faults) : Prop :=
  ¬ GoesThrough core w r f ∧ RuntimeRestored core w r f ∧ f.restoreConfig = .none ∧
    ∀ m, w.config.loadManifest r.serverId = .ok m → m.id = r.serverId

/-- When a deployment that gets to the file is as it says:
* if the save fails after it replaced the file, then the file held the same manifest;
* if the deployment goes through, the file was not the one that another id is read from, or that id reads the same without it;
* if it is taken back, no value of the manifest that was saved is masked and in the deployed one not. -/
structure Sound (core : Bool) (w : World) (r : DeployRequest) (f : Faults) : Prop where
  late : f.save = .after → f.record = false → w.config.loadManifest r.serverId = .ok (r.deployed w)
  through : f.save = .none → GoesThrough core w r f → ∀ other, other ≠ r.serverId → w.config.Spares r.draft other
  back : f.save = .none → TakenBack core w r f → f.record = false →
    ∀ m, w.config.loadManifest r.serverId = .ok m → m.preserveMasked (r.deployed w) = m

/-! ## The runtime -/

theorem applied_other {other : String} (h : other ≠ r.serverId) :
    (applied core w r f).1.servers other = w.runtime.servers other := by
  have happly : w.runtime.apply core (r.deployed w) r.start f.apply = ((applied core w r f).1, (applied core w r f).2) := rfl
  refine Manager.apply_other happly ?_
  rwa [DeployRequest.deployed, w.config.written_id r.draft]

theorem applied_ok {status : ServerState} (h : (applied core w r f).2 = .ok status) :
    (∃ e, (applied core w r f).1.servers r.serverId = some e ∧ e.manifest = r.deployed w ∧
      e.desired = desiredState r.start ∧ e.server.state = status) ∧ (r.start = true → status = .running) ∧ status ≠ .failed := by
  have happly : w.runtime.apply core (r.deployed w) r.start f.apply = ((applied core w r f).1, .ok status) := by
    rw [← h]
    rfl
  obtain ⟨e, he, hmanifest, hdesired, hstate, hrunning, hfailed⟩ := Manager.apply_ok happly
  rw [DeployRequest.deployed, w.config.written_id r.draft] at he
  exact ⟨⟨e, he, hmanifest, hdesired, hstate⟩, hrunning, hfailed⟩

theorem restoreRuntime_other {runtime : Manager} {previous : Option Entry} {serverId other : String}
    (hprevious : ∀ e, previous = some e → e.manifest.id = serverId) (h : other ≠ serverId) :
    (restoreRuntime core runtime serverId previous f).1.servers other = runtime.servers other := by
  unfold restoreRuntime
  cases previous with
  | none => exact Manager.remove_other _ _ h
  | some e =>
    dsimp only
    split
    · rename_i happly
      exact Manager.apply_other happly (hprevious e rfl ▸ h)
    · rename_i happly
      exact Manager.apply_other happly (hprevious e rfl ▸ h)

/-- A restored server holds what it held. -/
theorem restoreRuntime_holds {runtime : Manager} {previous : Option Entry} {serverId : String}
    (hprevious : ∀ e, previous = some e → e.manifest.id = serverId)
    (h : (restoreRuntime core runtime serverId previous f).2 = false) :
    (restoreRuntime core runtime serverId previous f).1.holds serverId = previous.map fun e => (e.manifest, e.desired) := by
  unfold restoreRuntime at h ⊢
  cases previous with
  | none => simp [Manager.holds, Manager.remove_ok h]
  | some e =>
    dsimp only at h ⊢
    split at h
    · rename_i runtime' status happly
      obtain ⟨e', he', hmanifest, hdesired, -⟩ := Manager.apply_ok happly
      rw [hprevious e rfl] at he'
      have hsame : desiredState (decide (e.desired = .running)) = e.desired := by
        cases hd : e.desired <;> simp [desiredState]
      simp [Manager.holds, he', hmanifest, hdesired, hsame]
    · cases h

/-- The runtime is what it was. -/
def SameRuntime (w : World) (serverId : String) (runtime : Manager) : Prop :=
  runtime.holds serverId = w.runtime.holds serverId ∧ ∀ other, other ≠ serverId → runtime.servers other = w.runtime.servers other

/-! ## The steps after the save -/

/-- What the steps after the save leave when one of them fails. -/
def FailsAt (core : Bool) (w : World) (r : DeployRequest) (f : Faults) (tried : Tried) : Prop :=
  if (f.markApplied || f.reload) = true then
    tried.world.runtime = w.runtime ∧ tried.runtimeApplied = false ∧ tried.failure = some .other
  else tried.world.runtime = (applied core w r f).1 ∧ match (applied core w r f).2 with
    | .refused => tried.runtimeApplied = false ∧ tried.failure = some .other
    | .failed reported => tried.runtimeApplied = false ∧ tried.failure = some (.target reported)
    | .ok _ => tried.runtimeApplied = true ∧ tried.failure = some .other

/-- A saved configuration goes through, or a step after it fails. -/
theorem tryDeploy_saved (core : Bool) (hsnapshot : (previous.isSome && f.snapshot) = false)
    (hfree : (w.config.findPath r.serverId).isNone ∨ r.overwrite = true) (hsave : f.save = .none) :
    (tryDeploy core w r previous f).configApplied = true ∧
      (tryDeploy core w r previous f).world.config = w.config.afterSave r.draft ∧
      (GoesThrough core w r f ∧ (tryDeploy core w r previous f).failure = none ∧
          (tryDeploy core w r previous f).world.runtime = (applied core w r f).1 ∨
        ¬ GoesThrough core w r f ∧ FailsAt core w r f (tryDeploy core w r previous f)) := by
  have hid : ∀ id, previous.map (fun _ => r.serverId) = some id → id = r.draft.manifest.id := by
    intro id hid
    obtain ⟨_, -, rfl⟩ := Option.map_eq_some_iff.mp hid
    rfl
  have hresult : w.config.saveConfig r.draft (previous.map fun _ => r.serverId) r.overwrite .none =
      .saved (w.config.afterSave r.draft) := Store.saveConfig_eq hid hfree
  have hload : (w.config.afterSave r.draft).loadManifest r.serverId = .ok (r.deployed w) :=
    w.config.loadManifest_afterSave r.draft
  unfold tryDeploy FailsAt GoesThrough
  rw [if_neg (by simp [hsnapshot]), hsave, hresult]
  dsimp only [Fault.result]
  cases hmark : f.markApplied || f.reload with
  | true =>
    refine ⟨rfl, rfl, .inr ⟨?_, by simp⟩⟩
    rintro ⟨happlied, hreload, -⟩
    simp [happlied, hreload] at hmark
  | false =>
    obtain ⟨happlied, hreload⟩ : f.markApplied = false ∧ f.reload = false := by simpa using hmark
    simp only [happlied, hreload, hload, Bool.false_eq_true, if_false, true_and]
    rw [show w.runtime.apply core (r.deployed w) r.start f.apply = applied core w r f from rfl]
    rcases happly : applied core w r f with ⟨runtime, result⟩
    cases result with
    | refused | failed reported => simp
    | ok status =>
      have hok : (applied core w r f).2 = .ok status := by rw [happly]
      obtain ⟨-, hrunning, hfailed⟩ := applied_ok hok
      have hreached : ¬ (decide (status = .failed) || (r.start && decide (status ≠ .running))) = true := by
        cases hstart : r.start with
        | false => simp [hfailed]
        | true => simp [hrunning hstart]
      simp only [if_neg hreached]
      cases hout : f.markStarted || f.outcome with
      | true =>
        have hout' : ¬ (f.markStarted = false ∧ f.outcome = false) := by
          rintro ⟨hstarted, houtcome⟩
          simp [hstarted, houtcome] at hout
        simp [hout']
      | false =>
        obtain ⟨hstarted, houtcome⟩ : f.markStarted = false ∧ f.outcome = false := by simpa using hout
        simp [hstarted, houtcome]

/-- The runtime is taken back exactly where it says so. -/
theorem compensate_runtime {tried : Tried} (h : FailsAt core w r f tried) : ((compensate core w r previous f tried).2 = true ↔
      RuntimeRestored core w r f ∧ (restoreConfig tried.world.config r.serverId previous f.restoreConfig).2 = false) ∧
    (RuntimeRestored core w r f → SameRuntime w r.serverId (compensate core w r previous f tried).1.runtime) := by
  have hkeyed := w.runtime.keyed r.serverId
  have hsame : SameRuntime w r.serverId w.runtime := ⟨rfl, fun _ _ => rfl⟩
  unfold FailsAt at h
  unfold compensate RuntimeRestored
  cases hmark : f.markApplied || f.reload with
  | true =>
    simp only [hmark, if_true] at h
    obtain ⟨hruntime, happlied, hfailure⟩ := h
    simp [hruntime, happlied, hfailure, hsame]
  | false =>
    simp only [hmark, Bool.false_eq_true, if_false] at h
    obtain ⟨hruntime, h⟩ := h
    have hothers : ∀ other, other ≠ r.serverId → (applied core w r f).1.servers other = w.runtime.servers other :=
      fun other hne => applied_other hne
    cases hresult : (applied core w r f).2 with
    | refused =>
      obtain ⟨happlied, hfailure⟩ : tried.runtimeApplied = false ∧ tried.failure = some .other := by simpa [hresult] using h
      have hunchanged : (applied core w r f).1 = w.runtime := by
        have happly : w.runtime.apply core (r.deployed w) r.start f.apply = ((applied core w r f).1, .refused) := by
          rw [← hresult]
          rfl
        exact Manager.apply_refused happly
      simp [hruntime, happlied, hfailure, hunchanged, hsame]
    | failed reported =>
      obtain ⟨happlied, hfailure⟩ : tried.runtimeApplied = false ∧ tried.failure = some (.target reported) := by
        simpa [hresult] using h
      cases reported with
      | true => simp [happlied, hfailure]
      | false =>
        have hholds : (applied core w r f).1.holds r.serverId = w.runtime.holds r.serverId := by
          have happly : w.runtime.apply core (r.deployed w) r.start f.apply = ((applied core w r f).1, .failed false) := by
            rw [← hresult]
            rfl
          have := Manager.apply_failed happly
          rwa [DeployRequest.deployed, w.config.written_id r.draft] at this
        have hsame' : SameRuntime w r.serverId (applied core w r f).1 := ⟨hholds, hothers⟩
        simp [hruntime, happlied, hfailure, hsame']
    | ok status =>
      obtain ⟨happlied, hfailure⟩ : tried.runtimeApplied = true ∧ tried.failure = some .other := by simpa [hresult] using h
      simp only [happlied, hfailure, hruntime, if_true]
      refine ⟨?_, ?_⟩
      · simp [and_comm]
      · rintro (hfalse | hrestored)
        · cases hfalse
        · refine ⟨restoreRuntime_holds hkeyed hrestored, ?_⟩
          intro other hne
          rw [restoreRuntime_other hkeyed hne, hothers other hne]

/-! ## The configuration -/

theorem restoreConfig_none (fault : Fault) (h : w.config.loadManifest r.serverId = .error .notFound) :
    ((restoreConfig (w.config.afterSave r.draft) r.serverId none fault).2 = false ↔ fault = .none) ∧
    (fault = .none → (restoreConfig (w.config.afterSave r.draft) r.serverId none fault).1.contents = w.config.contents) := by
  have hdelete : (w.config.afterSave r.draft).deleteConfig r.serverId fault =
      fault.result ((w.config.afterSave r.draft).unlink (w.config.written r.draft).1) := Store.deleteConfig_afterSave
  have hback := Store.contents_save_delete (Store.loadManifest_notFound h)
  unfold restoreConfig
  rw [hdelete]
  cases fault with
  | none => exact ⟨by simp [Fault.result], fun _ => hback⟩
  | refused | write | after => simp [Fault.result]

theorem restoreConfig_some (w : World) (r : DeployRequest) (m : Manifest) (fault : Fault) :
    ((restoreConfig (w.config.afterSave r.draft) r.serverId (some m) fault).2 = false ↔ fault = .none ∧ m.id = r.serverId) ∧
    (fault = .none → m.id = r.serverId → (restoreConfig (w.config.afterSave r.draft) r.serverId (some m) fault).1 =
      (w.config.afterSave r.draft).afterSave (.ofSaved m)) := by
  unfold restoreConfig
  by_cases hid : m.id = r.serverId
  · have hsave : (w.config.afterSave r.draft).saveConfig (.ofSaved m) (some r.serverId) true fault =
        fault.result ((w.config.afterSave r.draft).afterSave (.ofSaved m)) := by
      refine Store.saveConfig_eq ?_ (.inr rfl)
      rintro id hid'
      exact (Option.some.inj hid').symm.trans hid.symm
    dsimp only
    rw [hsave]
    cases fault with
    | none => exact ⟨by simp [Fault.result, hid], fun _ _ => rfl⟩
    | refused | write | after => simp [Fault.result]
  have hsave : (w.config.afterSave r.draft).saveConfig (.ofSaved m) (some r.serverId) true fault = .refused := by
    refine Store.saveConfig_refused ?_
    rintro ⟨hall, -⟩
    simp only [Option.all_some, decide_eq_true_eq] at hall
    exact hid hall.symm
  dsimp only
  rw [hsave]
  simp [hid]

/-- The saved manifest that is written back, with what its masked values stand for now. -/
theorem loadManifest_written_back {m : Manifest} (hid : m.id = r.serverId) :
    ((w.config.afterSave r.draft).afterSave (.ofSaved m)).loadManifest r.serverId = .ok (m.preserveMasked (r.deployed w)) := by
  have hload := (w.config.afterSave r.draft).loadManifest_afterSave (.ofSaved m)
  rw [Store.written_afterSave hid] at hload
  exact hid ▸ hload

/-- What was saved is loaded again for every server. -/
def SameConfig (w : World) (config : Store) : Prop := ∀ id, config.loadManifest id = w.config.loadManifest id

/-- A configuration that is taken back is what it was, if no masked value stands for another one. -/
theorem restoreConfig_same (hload : w.config.loadManifest r.serverId ≠ .error .unreadable) {fault : Fault}
    (hok : (restoreConfig (w.config.afterSave r.draft) r.serverId (w.config.loadManifest r.serverId).toOption fault).2 = false)
    (hmasked : ∀ m, w.config.loadManifest r.serverId = .ok m → m.preserveMasked (r.deployed w) = m) :
    SameConfig w (restoreConfig (w.config.afterSave r.draft) r.serverId (w.config.loadManifest r.serverId).toOption fault).1 := by
  cases hprevious : w.config.loadManifest r.serverId with
  | error e =>
    cases e with
    | unreadable => exact absurd hprevious hload
    | notFound =>
      obtain ⟨hiff, hcontents⟩ := restoreConfig_none fault hprevious
      rw [hprevious] at hok
      exact fun id => Store.loadManifest_congr (hcontents (hiff.mp hok)) id
  | ok m =>
    obtain ⟨hiff, hconfig⟩ := restoreConfig_some w r m fault
    rw [hprevious] at hok
    obtain ⟨hfault, hid⟩ := hiff.mp hok
    have hcontents := Store.contents_save_back hprevious hid (hmasked m hprevious)
    intro id
    show (restoreConfig (w.config.afterSave r.draft) r.serverId (some m) fault).1.loadManifest id = _
    rw [hconfig hfault hid]
    exact Store.loadManifest_congr hcontents id

/-! ## The deployment -/

theorem deployBuild_of_not_replaces (core : Bool) (h : ¬ Replaces w r f) : (deployBuild core w r f).1 = w ∧
      ∀ d, (deployBuild core w r f).2 = some d → d.status = .failed := by
  by_cases hload : w.config.loadManifest r.serverId = .error .unreadable
  · simp [deployBuild, hload]
  by_cases hrefused : f.refused = true
  · unfold deployBuild
    split
    · exact ⟨rfl, by simp⟩
    · simp [hrefused]
  have htried : tryDeploy core w r (w.config.loadManifest r.serverId).toOption f = { world := w, failure := some .other } := by
    unfold tryDeploy
    by_cases hsnapshot : ((w.config.loadManifest r.serverId).toOption.isSome && f.snapshot) = true
    · rw [if_pos hsnapshot]
    · have hfree : ¬ ((w.config.findPath r.serverId).isNone ∨ r.overwrite = true) := by
        intro hfree
        exact h ⟨hload, by simpa using hrefused, by simpa using hsnapshot, hfree⟩
      rw [if_neg hsnapshot, Store.saveConfig_refused fun hok => hfree hok.2]
  unfold deployBuild
  split
  · exact absurd ‹_› hload
  · simp [hrefused, htried]

theorem deployBuild_of_replaces (h : Replaces w r f) : deployBuild core w r f =
      let tried := tryDeploy core w r (w.config.loadManifest r.serverId).toOption f
      let deployment : Deployment := { status := .success, configApplied := tried.configApplied, started := tried.started }
      if tried.failure.isNone then (tried.world, if f.report then none else some deployment)
      else
        let failed := { deployment with status := .failed }
        if tried.configApplied then
          let restored := compensate core w r (w.config.loadManifest r.serverId).toOption f tried
          (restored.1, if f.record || f.report then none
            else some { failed with rollbackAttempted := true, rollbackSucceeded := some restored.2 })
        else (tried.world, if f.record || f.report then none else some failed) := by
  unfold deployBuild
  split
  · exact absurd ‹_› h.1
  · rw [if_neg (by simp [h.2.1])]

variable {d : Deployment}

/-- A deployment that says nothing was done, or that all of it was taken back, where it is so. -/
theorem Truthful.of_same (hd : d.status = .failed) (hconfig : SameConfig w w'.config)
    (hruntime : SameRuntime w r.serverId w'.runtime) : Truthful w r w' d where
  failed _ _ := ⟨hconfig r.serverId, hruntime.1, fun other hne => ⟨hconfig other, hruntime.2 other hne⟩⟩
  success h := by simp [hd] at h

theorem Truthful.refl (hd : d.status = .failed) : Truthful w r w d :=
  .of_same hd (fun _ => rfl) ⟨rfl, fun _ _ => rfl⟩

/-- The save of a deployment that gets to the file, up to its fault. -/
theorem tryDeploy_saveConfig (h : Replaces w r f) :
    w.config.saveConfig r.draft ((w.config.loadManifest r.serverId).toOption.map fun _ => r.serverId) r.overwrite f.save =
      f.save.result (w.config.afterSave r.draft) := by
  refine Store.saveConfig_eq ?_ h.2.2.2
  intro id hid
  obtain ⟨_, -, rfl⟩ := Option.map_eq_some_iff.mp hid
  rfl

/-- A save that does not reach the file leaves everything as it was. -/
theorem deployBuild_unsaved (core : Bool) (h : Replaces w r f) (hsave : f.save = .refused ∨ f.save = .write) :
    (deployBuild core w r f).1 = w ∧ ∀ d, (deployBuild core w r f).2 = some d → d.status = .failed := by
  have htried : tryDeploy core w r (w.config.loadManifest r.serverId).toOption f = { world := w, failure := some .other } := by
    unfold tryDeploy
    rw [if_neg (by simp [h.2.2.1]), tryDeploy_saveConfig h]
    rcases hsave with hsave | hsave <;> rw [hsave] <;> rfl
  rw [deployBuild_of_replaces h, htried]
  simp

/-- A save that fails after it replaced the file leaves the new file, and the deployment says that nothing was done. -/
theorem deployBuild_late (core : Bool) (h : Replaces w r f) (hsave : f.save = .after) :
    deployBuild core w r f = ({ w with config := w.config.afterSave r.draft },
      if f.record || f.report then none else some { status := .failed, configApplied := false, started := false }) := by
  have htried : tryDeploy core w r (w.config.loadManifest r.serverId).toOption f =
      { world := { w with config := w.config.afterSave r.draft }, failure := some .other } := by
    unfold tryDeploy
    rw [if_neg (by simp [h.2.2.1]), tryDeploy_saveConfig h, hsave]
    rfl
  rw [deployBuild_of_replaces h, htried]
  simp

/-- A deployment that goes through. -/
theorem deployBuild_through (h : Replaces w r f) (hsave : f.save = .none) (hthrough : GoesThrough core w r f) :
    (deployBuild core w r f).1 = ⟨w.config.afterSave r.draft, (applied core w r f).1⟩ ∧
      (deployBuild core w r f).2.isSome = !f.report ∧ ∀ d, (deployBuild core w r f).2 = some d → d.status = .success := by
  obtain ⟨-, hconfig, ⟨-, hfailure, hruntime⟩ | ⟨hnot, -⟩⟩ := tryDeploy_saved core h.2.2.1 h.2.2.2 hsave
  · rw [deployBuild_of_replaces h]
    simp only [hfailure, Option.isNone_none, if_true]
    refine ⟨by rw [← hconfig, ← hruntime], ?_, ?_⟩
    · cases f.report <;> rfl
    · cases f.report <;> simp
  · exact absurd hthrough hnot

/-- A deployment that fails after the save is taken back, as far as that goes. -/
theorem deployBuild_back (h : Replaces w r f) (hsave : f.save = .none) (hnot : ¬ GoesThrough core w r f) :
    ∃ tried, tried.world.config = w.config.afterSave r.draft ∧ FailsAt core w r f tried ∧
      (deployBuild core w r f).1 = (compensate core w r (w.config.loadManifest r.serverId).toOption f tried).1 ∧
      (deployBuild core w r f).2.isSome = !(f.record || f.report) ∧
      ∀ d, (deployBuild core w r f).2 = some d → d.status = .failed ∧ d.rollbackAttempted = true ∧
        d.rollbackSucceeded = some (compensate core w r (w.config.loadManifest r.serverId).toOption f tried).2 := by
  obtain ⟨happlied, hconfig, ⟨hthrough, -⟩ | ⟨-, hfails⟩⟩ := tryDeploy_saved core h.2.2.1 h.2.2.2 hsave
  · exact absurd hthrough hnot
  refine ⟨_, hconfig, hfails, ?_⟩
  have hfailure : (tryDeploy core w r (w.config.loadManifest r.serverId).toOption f).failure.isNone = false := by
    unfold FailsAt at hfails
    split at hfails
    · simp [hfails.2.2]
    · split at hfails <;> simp [hfails.2.2]
  rw [deployBuild_of_replaces h]
  simp only [hfailure, happlied, Bool.false_eq_true, if_false, if_true]
  refine ⟨trivial, ?_, ?_⟩
  · cases f.record || f.report <;> rfl
  · cases f.record || f.report <;> simp

/-- Where a deployment is taken back, its flag says so. -/
theorem compensate_takenBack {tried : Tried} (hload : w.config.loadManifest r.serverId ≠ .error .unreadable)
    (hconfig : tried.world.config = w.config.afterSave r.draft) (hfails : FailsAt core w r f tried)
    (hnot : ¬ GoesThrough core w r f) :
    (compensate core w r (w.config.loadManifest r.serverId).toOption f tried).2 = true ↔ TakenBack core w r f := by
  rw [(compensate_runtime hfails).1, hconfig]
  unfold TakenBack
  cases hprevious : w.config.loadManifest r.serverId with
  | error e =>
    cases e with
    | unreadable => exact absurd hprevious hload
    | notFound => simp [Except.toOption, (restoreConfig_none f.restoreConfig hprevious).1, hnot]
  | ok m => simp [Except.toOption, (restoreConfig_some w r m f.restoreConfig).1, hnot]

theorem sound_of_truthful (h : ∀ d, (deployBuild core w r f).2 = some d → Truthful w r (deployBuild core w r f).1 d)
    (hreplaces : Replaces w r f) (hreport : f.report = false) : Sound core w r f where
  late hsave hrecord := by
    have hdeploy := deployBuild_late core hreplaces hsave
    have htruthful := h { status := .failed, configApplied := false, started := false } (by simp [hdeploy, hrecord, hreport])
    rw [hdeploy] at htruthful
    exact (htruthful.failed rfl (.inl rfl)).1.symm.trans (w.config.loadManifest_afterSave r.draft)
  through hsave hthrough := by
    obtain ⟨hworld, hsome, hstatus⟩ := deployBuild_through hreplaces hsave hthrough
    obtain ⟨d, hd⟩ := Option.isSome_iff_exists.mp (by simpa [hreport] using hsome)
    have htruthful := h d hd
    rw [hworld] at htruthful
    intro other hne
    exact (Store.loadManifest_afterSave_other hne).mp ((htruthful.success (hstatus d hd)).2.2 other hne).1
  back hsave hback hrecord := by
    intro m hm
    obtain ⟨tried, hconfig, hfails, hworld, hsome, hstatus⟩ := deployBuild_back hreplaces hsave hback.1
    obtain ⟨d, hd⟩ := Option.isSome_iff_exists.mp (by simpa [hreport, hrecord] using hsome)
    obtain ⟨hfailed, -, hrollback⟩ := hstatus d hd
    rw [(compensate_takenBack hreplaces.1 hconfig hfails hback.1).mpr hback] at hrollback
    have hself := ((h d hd).failed hfailed (.inr hrollback)).1
    -- the file is the one that was written back
    have hwritten : (deployBuild core w r f).1.config = (w.config.afterSave r.draft).afterSave (.ofSaved m) := by
      rw [hworld, ← (restoreConfig_some w r m f.restoreConfig).2 hback.2.2.1 (hback.2.2.2 m hm)]
      simp [compensate, hconfig, hm, Except.toOption]
    rw [hwritten, loadManifest_written_back (hback.2.2.2 m hm), hm] at hself
    exact Except.ok.inj hself

theorem truthful_of_sound (h : Replaces w r f → f.report = false → Sound core w r f)
    (hd : (deployBuild core w r f).2 = some d) : Truthful w r (deployBuild core w r f).1 d := by
  by_cases hreplaces : Replaces w r f
  swap
  · obtain ⟨hworld, hstatus⟩ := deployBuild_of_not_replaces core hreplaces
    rw [hworld]
    exact .refl (hstatus d hd)
  cases hsave : f.save with
  | refused =>
    obtain ⟨hworld, hstatus⟩ := deployBuild_unsaved core hreplaces (.inl hsave)
    rw [hworld]
    exact .refl (hstatus d hd)
  | write =>
    obtain ⟨hworld, hstatus⟩ := deployBuild_unsaved core hreplaces (.inr hsave)
    rw [hworld]
    exact .refl (hstatus d hd)
  | after =>
    rw [deployBuild_late core hreplaces hsave] at hd ⊢
    obtain ⟨⟨hrecord, hreport⟩, rfl⟩ : (f.record = false ∧ f.report = false) ∧
        ({ status := .failed, configApplied := false, started := false } : Deployment) = d := by simpa using hd
    exact .of_same rfl (Store.loadManifest_afterSave_same ((h hreplaces hreport).late hsave hrecord)) ⟨rfl, fun _ _ => rfl⟩
  | none =>
    by_cases hthrough : GoesThrough core w r f
    · obtain ⟨hworld, hsome, hstatus⟩ := deployBuild_through hreplaces hsave hthrough
      have hreport : f.report = false := by simpa [hd] using hsome
      obtain ⟨-, -, ⟨status, hok⟩, -⟩ := id hthrough
      obtain ⟨⟨e, he, hmanifest, hdesired, hstate⟩, hrunning, -⟩ := applied_ok hok
      rw [hworld]
      refine ⟨by simp [hstatus d hd], fun _ => ⟨w.config.loadManifest_afterSave r.draft, ?_, ?_⟩⟩
      · exact ⟨e, he, hmanifest, hdesired, fun hstart => hstate.trans (hrunning hstart)⟩
      · intro other hne
        exact ⟨(Store.loadManifest_afterSave_other hne).mpr ((h hreplaces hreport).through hsave hthrough other hne), applied_other hne⟩
    obtain ⟨tried, hconfig, hfails, hworld, hsome, hstatus⟩ := deployBuild_back hreplaces hsave hthrough
    obtain ⟨hrecord, hreport⟩ : f.record = false ∧ f.report = false := by simpa [hd] using hsome
    obtain ⟨hfailed, hattempted, hrollback⟩ := hstatus d hd
    cases hflag : (compensate core w r (w.config.loadManifest r.serverId).toOption f tried).2 with
    | false =>
      refine ⟨?_, by simp [hfailed]⟩
      rintro - (hnot | hsucceeded)
      · simp [hattempted] at hnot
      · simp [hrollback, hflag] at hsucceeded
    | true =>
      have hback := (compensate_takenBack hreplaces.1 hconfig hfails hthrough).mp hflag
      obtain ⟨hrestored, hok⟩ := (compensate_runtime hfails).1.mp hflag
      rw [hworld]
      refine .of_same hfailed ?_ ((compensate_runtime hfails).2 hrestored)
      have hsame := restoreConfig_same hreplaces.1 (hconfig ▸ hok) ((h hreplaces hreport).back hsave hback hrecord)
      simpa [compensate, hconfig] using hsame

/-- **What a deployment says.** For every saved configuration, every runtime and every pattern of failing steps, the
deployment that is returned is truthful exactly when it does not get to the file of the server, or `Sound` holds. -/
theorem deploy_truthful (core : Bool) (w : World) (r : DeployRequest) (f : Faults) :
    (∀ d, (deployBuild core w r f).2 = some d → Truthful w r (deployBuild core w r f).1 d) ↔
      (Replaces w r f → f.report = false → Sound core w r f) :=
  ⟨sound_of_truthful, fun h _ hd => truthful_of_sound h hd⟩

/-- A server with a saved configuration. -/
def savedWorld : World where
  config := ({} : Store).write "s.yaml" (.manifest { id := "s", endpoint := some "https://old.example" })

def newDraft : Draft := .ofSaved { id := "s", endpoint := some "https://new.example" }

/-- The identity cannot be recorded after the file was replaced: the deployment fails, says that it took nothing back, and
leaves the new configuration. -/
theorem replaced_not_restored : (deployBuild false savedWorld { draft := newDraft, overwrite := true } { save := .after }).2 =
        some { status := .failed, configApplied := false, started := false } ∧
      savedWorld.config.loadManifest "s" = .ok { id := "s", endpoint := some "https://old.example" } ∧
      (deployBuild false savedWorld { draft := newDraft, overwrite := true } { save := .after }).1.config.loadManifest "s" =
        .ok { id := "s", endpoint := some "https://new.example" } ∧
      ¬ ∀ core w r f d, (deployBuild core w r f).2 = some d → Truthful w r (deployBuild core w r f).1 d := by
  refine ⟨by decide, by decide, by decide, ?_⟩
  intro hall
  have htruthful := hall false savedWorld { draft := newDraft, overwrite := true } { save := .after }
    { status := .failed, configApplied := false, started := false } (by decide)
  have hself := (htruthful.failed rfl (.inl rfl)).1
  revert hself
  decide

end LingshuGate.Deploy

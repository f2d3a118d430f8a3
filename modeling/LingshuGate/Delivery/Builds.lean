import LingshuGate.Lib.Threads

/-!
# Builds and their cancellation (`build_deploy.py`)

| here | there |
| --- | --- |
| `BuildStatus.isTerminal` | `TERMINAL_BUILD_STATUSES` (46) |
| `runBuildJob`            | `_run_build_job` (1036): one statement of the worker |
| `cancelBuild`            | `cancel_build` (693): its read, then its write |
| `raiseIfCancelRequested` | `_raise_if_cancel_requested` (1398) |
| `Build.setStatus`        | the status of `_set_build_status`, `_update_build` (1357, 1360) |

Both sides write the status without looking at it again, so each can overwrite what the other wrote after it read:
`cancellation_lost` has one run for each. The import of a repository has the same two sides and keeps a
`cancel_requested` in its `UPDATE` (git_import_mcp.py:287). `build_final` says what the two writes must find for a
final status to be final and a cancellation to be honoured.

A worker that crashes is one that makes no further statement. Logs, steps, manifest and times are left out: nothing here
reads them.
-/

namespace LingshuGate.Builds

open Lib

inductive BuildStatus
  | queued | running | cancelRequested | success | failed | cancelled | interrupted | unsupported
  deriving DecidableEq

def BuildStatus.isTerminal : BuildStatus → Bool
  | .success | .failed | .unsupported | .cancelled | .interrupted => true
  | .queued | .running | .cancelRequested => false

/-! ## The worker -/

/-- Where the worker is. -/
inductive WorkerPc
  /-- Before the check for `interrupted`. -/
  | start
  | checkCancel
  | setRunning
  /-- The copy of the sources and the steps of the plan. -/
  | plan
  | lastCheck
  /-- The export of the artifact and the manifest. -/
  | exportArtifact
  /-- The log entry of how the build ended. -/
  | logEnd (status : BuildStatus)
  | persistSteps (status : BuildStatus)
  | update (status : BuildStatus)
  | done
  deriving DecidableEq

/-- What the worker meets at a statement. -/
inductive Met
  | ok
  /-- The status is checked on the way: before a wave of steps, or during the export. -/
  | polls
  /-- A command was stopped, or the executor confirmed a cancellation: `BuildCancelled`. -/
  | stopped
  /-- The outcome of an isolated step is unknown: `InterruptedError`. -/
  | interrupted
  /-- Any other exception. -/
  | fails
  deriving DecidableEq

/-- The row of the build, its worker, and whether a `cancel_build` has written `cancel_requested`. -/
structure Build where
  status : BuildStatus := .queued
  worker : WorkerPc := .start
  cancelWritten : Bool := false
  deriving DecidableEq

/-- `UPDATE builds SET status = ? … WHERE id = ?`. -/
def Build.setStatus (b : Build) (status : BuildStatus) : Build := { b with status := status }

/-- The worker goes on at `pc`. -/
def Build.goto (b : Build) (pc : WorkerPc) : Build := { b with worker := pc }

/-- A statement of the `try` that raises: the build ends as cancelled, interrupted or failed. -/
def Met.ending : Met → BuildStatus
  | .stopped => .cancelled
  | .interrupted => .interrupted
  | _ => .failed

/-- The build ends as cancelled if the status says so, and goes on at `pc` otherwise. -/
def raiseIfCancelRequested (b : Build) (pc : WorkerPc) : Build :=
  b.goto (if b.status = .cancelRequested then .logEnd .cancelled else pc)

/-- One statement of the worker. -/
def runBuildJob (b : Build) (met : Met) : Build :=
  match b.worker, met with
  | .start, .ok => b.goto (if b.status = .interrupted then .done else .checkCancel)
  | .checkCancel, .ok => raiseIfCancelRequested b .setRunning
  | .setRunning, .ok => (b.setStatus .running).goto .plan
  | .plan, .ok => b.goto .lastCheck
  | .plan, .polls => raiseIfCancelRequested b .plan
  | .lastCheck, .ok => raiseIfCancelRequested b .exportArtifact
  | .exportArtifact, .ok => b.goto (.logEnd .success)
  | .exportArtifact, .polls => raiseIfCancelRequested b .exportArtifact
  | .checkCancel, met | .setRunning, met | .plan, met | .lastCheck, met | .exportArtifact, met => b.goto (.logEnd met.ending)
  | .logEnd status, .ok => b.goto (.persistSteps status)
  | .persistSteps status, .ok => b.goto (.update status)
  | .update status, .ok => (b.setStatus status).goto .done
  -- outside the `try` an exception ends the worker
  | .start, _ | .logEnd _, _ | .persistSteps _, _ | .update _, _ | .done, _ => b.goto .done

/-! ## Cancelling -/

inductive CancelPc
  | read
  | write
  | done (error : Option String)
  deriving DecidableEq

def BuildStatus.text : BuildStatus → String
  | .queued => "queued" | .running => "running" | .cancelRequested => "cancel_requested" | .success => "success"
  | .failed => "failed" | .cancelled => "cancelled" | .interrupted => "interrupted" | .unsupported => "unsupported"

/-- One statement of `cancel_build`. -/
def cancelBuild (b : Build) : CancelPc → Unit → Build × CancelPc
  | .read, _ =>
    if b.status = .cancelRequested then (b, .done none)
    else if b.status = .queued ∨ b.status = .running then (b, .write)
    else (b, .done (some ("build is not cancellable: " ++ b.status.text)))
  | .write, _ => ({ b.setStatus .cancelRequested with cancelWritten := true }, .done none)
  | .done error, _ => (b, .done error)

/-! ## Runs -/

inductive Event
  | worker (met : Met)
  | cancel (e : Pool.Event CancelPc Unit)

/-- The build with the `cancel_build` calls under way. -/
abbrev Job := Pool Build CancelPc

inductive JobStep : Job → Event → Job → Prop
  | worker (w : Job) (met : Met) : JobStep w (.worker met) { w with shared := runBuildJob w.shared met }
  | cancel {w w' : Job} {e : Pool.Event CancelPc Unit} : Pool.Step (· = .read) (Pool.ofFun cancelBuild) w e w' →
    JobStep w (.cancel e) w'

/-- A build as it is recorded: queued for a worker, which may find it interrupted, or with a final status and no worker
(`_record_build`). -/
def Recorded (b : Build) : Prop :=
  b.cancelWritten = false ∧
    ((b.status = .queued ∨ b.status = .interrupted) ∧ b.worker = .start ∨ b.status.isTerminal = true ∧ b.worker = .done)

/-- What a write must find: `cancel_build` a status that is not final, and the worker no `cancel_requested` when it
writes `running` or `success`. -/
def NotOverwriting (w : Job) : Event → Prop
  | .worker .ok => w.shared.worker = .setRunning ∨ w.shared.worker = .update .success → w.shared.status ≠ .cancelRequested
  | .cancel (.act i _) => w.threads[i]? = some .write → w.shared.status.isTerminal = false
  | _ => True

def OrderedStep (w : Job) (e : Event) (w' : Job) : Prop := JobStep w e w' ∧ NotOverwriting w e

/-- The status the worker is about to write. -/
def WorkerPc.ending : WorkerPc → Option BuildStatus
  | .logEnd status | .persistSteps status | .update status => some status
  | _ => none

/-- While the status is final the worker has nothing to write, and a cancellation that was written is still there or was
answered. -/
structure Settled (b : Build) : Prop where
  worker : b.status.isTerminal = true → b.worker = .done ∨ b.status = .interrupted ∧ b.worker = .start
  cancel : b.cancelWritten = true → b.status ≠ .queued ∧ b.status ≠ .running ∧ b.status ≠ .success
  ending : ∀ st, b.worker.ending = some st → st.isTerminal = true

variable {b : Build} {w w' : Job}

theorem Recorded.settled (h : Recorded b) : Settled b := by
  obtain ⟨hcancel, h⟩ := h
  constructor
  · intro hterminal
    rcases h with ⟨hstatus | hstatus, hworker⟩ | ⟨-, hworker⟩
    · rw [hstatus] at hterminal
      cases hterminal
    · exact .inr ⟨hstatus, hworker⟩
    · exact .inl hworker
  · simp [hcancel]
  · rcases h with ⟨-, hworker⟩ | ⟨-, hworker⟩ <;> simp [hworker, WorkerPc.ending]

/-! ## What a statement of the worker does -/

theorem Met.ending_isTerminal (met : Met) : met.ending.isTerminal = true := by cases met <;> rfl

/-- The worker goes on at `pc` without writing the status. -/
structure GoesOn (b : Build) (pc : WorkerPc) : Prop where
  ending : ∀ st, pc.ending = some st → st.isTerminal = true ∨ b.worker.ending = some st
  done : b.worker = .done ∨ b.status = .interrupted ∧ b.worker = .start → pc = .done

theorem GoesOn.of_unfinished {pc : WorkerPc} (hstart : b.worker ≠ .start) (hdone : b.worker ≠ .done)
    (h : ∀ st, pc.ending = some st → st.isTerminal = true ∨ b.worker.ending = some st) : GoesOn b pc := by
  refine ⟨h, ?_⟩
  rintro (hw | ⟨-, hw⟩)
  · exact absurd hw hdone
  · exact absurd hw hstart

theorem raiseIfCancelRequested_goesOn {pc : WorkerPc} (hstart : b.worker ≠ .start) (hdone : b.worker ≠ .done)
    (hpc : pc.ending = none) : ∃ pc', raiseIfCancelRequested b pc = b.goto pc' ∧ GoesOn b pc' := by
  refine ⟨_, rfl, .of_unfinished hstart hdone ?_⟩
  intro st hst
  split at hst
  · obtain rfl := Option.some.inj hst
    exact .inl rfl
  · rw [hpc] at hst
    cases hst

/-- A statement goes on, writes `running`, or writes how the build ended. -/
theorem runBuildJob_cases (b : Build) (met : Met) : (∃ pc, runBuildJob b met = b.goto pc ∧ GoesOn b pc) ∨
    (met = .ok ∧ b.worker = .setRunning ∧ runBuildJob b met = (b.setStatus .running).goto .plan) ∨
    ∃ st, met = .ok ∧ b.worker = .update st ∧ runBuildJob b met = (b.setStatus st).goto .done := by
  have hraises : b.worker ≠ .start → b.worker ≠ .done → ∃ pc, b.goto (.logEnd met.ending) = b.goto pc ∧ GoesOn b pc := by
    intro hstart hdone
    refine ⟨_, rfl, .of_unfinished hstart hdone ?_⟩
    intro st hst
    obtain rfl := Option.some.inj hst
    exact .inl met.ending_isTerminal
  have hends : ∃ pc, b.goto .done = b.goto pc ∧ GoesOn b pc := ⟨.done, rfl, by simp [WorkerPc.ending], fun _ => rfl⟩
  have hon : ∀ pc, b.worker ≠ .start → b.worker ≠ .done →
      (∀ st, pc.ending = some st → st.isTerminal = true ∨ b.worker.ending = some st) →
      ∃ pc', b.goto pc = b.goto pc' ∧ GoesOn b pc' :=
    fun pc hstart hdone h => ⟨pc, rfl, .of_unfinished hstart hdone h⟩
  unfold runBuildJob
  split <;> rename_i hpc
  · refine .inl ⟨_, rfl, ?_, ?_⟩
    · intro st
      split <;> simp [WorkerPc.ending]
    · rintro (hdone | ⟨hinterrupted, -⟩)
      · simp [hpc] at hdone
      · simp [hinterrupted]
  · exact .inl (raiseIfCancelRequested_goesOn (by simp [hpc]) (by simp [hpc]) rfl)
  · exact .inr (.inl ⟨rfl, hpc, rfl⟩)
  · exact .inl (hon _ (by simp [hpc]) (by simp [hpc]) (by simp [WorkerPc.ending]))
  · exact .inl (raiseIfCancelRequested_goesOn (by simp [hpc]) (by simp [hpc]) rfl)
  · exact .inl (raiseIfCancelRequested_goesOn (by simp [hpc]) (by simp [hpc]) rfl)
  · exact .inl (hon _ (by simp [hpc]) (by simp [hpc]) (by simp [WorkerPc.ending, BuildStatus.isTerminal]))
  · exact .inl (raiseIfCancelRequested_goesOn (by simp [hpc]) (by simp [hpc]) rfl)
  iterate 5 exact .inl (hraises (by simp [*]) (by simp [*]))
  · exact .inl (hon _ (by simp [hpc]) (by simp [hpc]) (by simp [WorkerPc.ending, hpc]))
  · exact .inl (hon _ (by simp [hpc]) (by simp [hpc]) (by simp [WorkerPc.ending, hpc]))
  · exact .inr (.inr ⟨_, rfl, hpc, rfl⟩)
  all_goals exact .inl hends

/-- Between its start and its end the worker finds no final status. -/
theorem Settled.unfinished (h : Settled b) (hstart : b.worker ≠ .start) (hdone : b.worker ≠ .done) :
    b.status.isTerminal = false := by
  by_contra hterminal
  rcases h.worker (by simpa using hterminal) with hworker | ⟨-, hworker⟩
  · exact hdone hworker
  · exact hstart hworker

/-- A status that is neither final nor `cancel_requested` was never one of a cancelled build. -/
theorem Settled.fresh (h : Settled b) (hterminal : b.status.isTerminal = false) (hne : b.status ≠ .cancelRequested) :
    b.cancelWritten = false := by
  by_contra hwritten
  obtain ⟨hqueued, hrunning, -⟩ := h.cancel (by simpa using hwritten)
  cases hstatus : b.status <;> simp_all [BuildStatus.isTerminal]

theorem Settled.worker_step {met : Met} (h : Settled b)
    (hC : met = .ok → b.worker = .setRunning ∨ b.worker = .update .success → b.status ≠ .cancelRequested) :
    Settled (runBuildJob b met) ∧ (b.status.isTerminal = true → (runBuildJob b met).status = b.status) := by
  rcases runBuildJob_cases b met with ⟨pc, hstep, hon⟩ | ⟨hok, hpc, hstep⟩ | ⟨st, hok, hpc, hstep⟩
  · rw [hstep]
    refine ⟨⟨fun hterminal => .inl (hon.done (h.worker hterminal)), h.cancel, ?_⟩, fun _ => rfl⟩
    intro st hst
    exact (hon.ending st hst).elim id (h.ending st)
  · have hrunning := h.unfinished (by simp [hpc]) (by simp [hpc])
    have hfresh := h.fresh hrunning (hC hok (.inl hpc))
    rw [hstep]
    refine ⟨⟨?_, ?_, ?_⟩, by simp [hrunning]⟩
    · simp [Build.goto, Build.setStatus, BuildStatus.isTerminal]
    · simp [Build.goto, Build.setStatus, hfresh]
    · simp [Build.goto, WorkerPc.ending]
  have hrunning := h.unfinished (by simp [hpc]) (by simp [hpc])
  have hterminal := h.ending st (by rw [hpc]; rfl)
  rw [hstep]
  refine ⟨⟨fun _ => .inl rfl, ?_, ?_⟩, by simp [hrunning]⟩
  · intro hwritten
    refine ⟨?_, ?_, ?_⟩
    · rintro rfl
      cases hterminal
    · rintro rfl
      cases hterminal
    · rintro rfl
      have hfresh := h.fresh hrunning (hC hok (.inr hpc))
      simp [Build.goto, Build.setStatus, hfresh] at hwritten
  · simp [Build.goto, WorkerPc.ending]

theorem Settled.cancel_step {pc : CancelPc} (h : Settled b) (hC : pc = .write → b.status.isTerminal = false) :
    Settled (cancelBuild b pc ()).1 ∧ (b.status.isTerminal = true → (cancelBuild b pc ()).1.status = b.status) := by
  cases pc with
  | read =>
    have hsame : (cancelBuild b .read ()).1 = b := by
      simp only [cancelBuild]
      split
      · rfl
      · split <;> rfl
    rw [hsame]
    exact ⟨h, fun _ => rfl⟩
  | write =>
    refine ⟨⟨?_, ?_, h.ending⟩, by simp [hC rfl]⟩
    · simp [cancelBuild, Build.setStatus, BuildStatus.isTerminal]
    · simp [cancelBuild, Build.setStatus]
  | done error => exact ⟨h, fun _ => rfl⟩

theorem OrderedStep.settled {e : Event} (hs : OrderedStep w e w') (h : Settled w.shared) :
    Settled w'.shared ∧ (w.shared.status.isTerminal = true → w'.shared.status = w.shared.status) := by
  obtain ⟨hstep, hC⟩ := hs
  cases hstep with
  | worker met =>
    refine h.worker_step ?_
    rintro rfl
    exact hC
  | cancel hstep =>
    cases hstep with
    | start => exact ⟨h, fun _ => rfl⟩
    | @act i pc pc' e b' hpc hact =>
      have hC' : pc = .write → w.shared.status.isTerminal = false := by
        rintro rfl
        exact hC hpc
      have hcancel := h.cancel_step hC'
      rwa [show cancelBuild w.shared pc () = (b', pc') from hact] at hcancel

variable {tr : List Event}

theorem settled_run (h : Run OrderedStep w tr w') (hw : Settled w.shared) : Settled w'.shared :=
  h.invariant hw fun _ _ _ hI hs => (hs.settled hI).1

/-- A final status outlives every run of ordered steps. -/
theorem final_run (h : Run OrderedStep w tr w') (hw : Settled w.shared)
    (hterminal : w.shared.status.isTerminal = true) : w'.shared.status = w.shared.status := by
  have hI : Settled w'.shared ∧ w'.shared.status = w.shared.status := by
    refine @Run.invariant _ _ _ (fun t => Settled t.shared ∧ t.shared.status = w.shared.status) _ _ _ h ⟨hw, rfl⟩ ?_
    rintro t e v ⟨hsettled, hstatus⟩ hs
    obtain ⟨hsettled', hkeeps⟩ := hs.settled hsettled
    exact ⟨hsettled', (hkeeps (hstatus ▸ hterminal)).trans hstatus⟩
  exact hI.2

/-- **A final status is final and a cancellation is honoured** in every run in which no write overwrites what the other
side wrote: a build that `cancel_build` marked never has the status `success`, and a final status never changes. -/
theorem build_final {tr : List Event} (h : Run OrderedStep ⟨b, []⟩ tr w) (hb : Recorded b) :
    (w.shared.cancelWritten = true → w.shared.status ≠ .success) ∧
    (w.shared.status.isTerminal = true → ∀ tr' w', Run OrderedStep w tr' w' → w'.shared.status = w.shared.status) := by
  have hsettled : Settled w.shared := settled_run h hb.settled
  refine ⟨fun hwritten => (hsettled.cancel hwritten).2.2, ?_⟩
  intro hterminal tr' w' h'
  exact final_run h' hsettled hterminal

/-! ## Runs that lose a cancellation -/

def next (w : Job) : Event → Job
  | .worker met => { w with shared := runBuildJob w.shared met }
  | .cancel e => Pool.next cancelBuild w e

/-- The event can happen: a call starts at its read, and only a call that has started goes on. -/
def possible (w : Job) : Event → Bool
  | .worker _ => true
  | .cancel (.start pc) => pc = .read
  | .cancel (.act i _) => i < w.threads.length

theorem next_step {e : Event} (h : possible w e = true) : JobStep w e (next w e) := by
  cases e with
  | worker met => exact .worker w met
  | cancel e =>
    cases e with
    | start pc => exact .cancel (.start (of_decide_eq_true h))
    | act i e => exact .cancel (Pool.next_act (of_decide_eq_true h)).1

instance (w : Job) (e : Event) : Decidable (NotOverwriting w e) :=
  match e with
  | .worker .ok => inferInstanceAs (Decidable (_ → _))
  | .cancel (.act _ _) => inferInstanceAs (Decidable (_ → _))
  | .worker .polls | .worker .stopped | .worker .interrupted | .worker .fails => isTrue trivial
  | .cancel (.start _) => isTrue trivial

/-- The events after a call has read `running`, with its write still to come. -/
def readRunning : List Event :=
  List.replicate 3 (Event.worker .ok) ++ [Event.cancel (.start .read), .cancel (.act 0 ())]

/-- The call writes while the plan runs, and the last check finds it. -/
def cancelledInPlan : List Event := readRunning ++ [Event.cancel (.act 0 ())] ++ List.replicate 5 (Event.worker .ok)

/-- The call writes after the last check. -/
def cancelledInExport : List Event :=
  readRunning ++ List.replicate 2 (Event.worker .ok) ++ [Event.cancel (.act 0 ())] ++ List.replicate 4 (Event.worker .ok)

/-- The call writes after the end of the worker. -/
def cancelledAfterEnd : List Event := readRunning ++ List.replicate 6 (Event.worker .ok)

theorem build_final_cancelled : ∃ w : Job, Run OrderedStep ⟨{}, []⟩ cancelledInPlan w ∧
    w.shared = ⟨.cancelled, .done, true⟩ ∧ (w.shared.cancelWritten = true → w.shared.status ≠ .success) := by
  have hrun : Run OrderedStep ⟨{}, []⟩ cancelledInPlan (cancelledInPlan.foldl next ⟨{}, []⟩) := by
    refine @Run.of_guarded _ _ _ next (fun w e => possible w e && decide (NotOverwriting w e)) ?_ _ _ (by decide)
    intro w e h
    rw [Bool.and_eq_true, decide_eq_true_eq] at h
    exact ⟨next_step h.1, h.2⟩
  exact ⟨_, hrun, by decide, (build_final hrun ⟨rfl, .inl ⟨.inl rfl, rfl⟩⟩).1⟩

theorem job_run (h : guarded next possible w tr = true) : Run JobStep w tr (tr.foldl next w) :=
  Run.of_guarded (fun _ _ => next_step) h

/-- A build that was cancelled ends with `success`; and one that ended so is `cancel_requested` for good. -/
theorem cancellation_lost : Recorded {} ∧
    (∃ w : Job, Run JobStep ⟨{}, []⟩ cancelledInExport w ∧ w.shared = ⟨.success, .done, true⟩) ∧
    ∃ w w' : Job, Run JobStep ⟨{}, []⟩ cancelledAfterEnd w ∧ w.shared.status = .success ∧
      JobStep w (.cancel (.act 0 ())) w' ∧ w'.shared.status = .cancelRequested := by
  refine ⟨⟨rfl, .inl ⟨.inl rfl, rfl⟩⟩, ⟨_, job_run (by decide), by decide⟩, ?_⟩
  exact ⟨_, _, job_run (by decide), by decide, next_step (by decide), by decide⟩

end LingshuGate.Builds

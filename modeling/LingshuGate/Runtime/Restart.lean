import LingshuGate.Runtime.Server

/-!
# A stopped server stays stopped (`mcp_runtime.py`)

| here | there |
| --- | --- |
| `Request`, `.enter`, `.section` | `request_start`, `request_stop`, `request_restart` (605, 627, 632) |
| `Thread.monitor`      | `_monitor_process` (1033), after `process.wait()` |
| `Thread.health`       | the section of `_health_loop` (1058) after a probe |
| `Thread.timer`        | `_delayed_restart` (1185) |

A request holds the manager lock from its first statement to its last, so requests do not overlap: `.enter` takes the
lock and writes the desired state, `.section` is the critical section under the lock of the server and returns. The
threads take the lock of the server only.

`_delayed_restart` checks that the restart is still wanted in one critical section and calls `start_server` in the next.
A stop between the two is forgotten: `stopped_server_revived`. `stays_stopped` says what that call must find.

The checks of the health loop before its probe are left out: the section after the probe makes them again.
-/

namespace LingshuGate.Runtime

open Lib

inductive Request
  | start | stop | restart
  deriving DecidableEq

inductive TimerPc
  /-- In the loop, until the delay has passed. -/
  | sleeping
  /-- Before the last check. -/
  | due
  /-- After it: `start_server` is next. -/
  | restarting
  deriving DecidableEq

inductive Thread
  | monitor (client : Nat)
  | health (client : Nat)
  | timer (pc : TimerPc)
  | done
  deriving DecidableEq

def Spawn.thread : Spawn → Thread
  | .monitor client => .monitor client
  | .health client => .health client
  | .timer => .timer .sleeping

/-- What a section meets. -/
structure Met where
  start : StartMet := .starts true
  /-- The client does not stop. -/
  stopRaises : Bool := false
  returncode : Int := 0
  /-- The runtime was up for `reset_after_seconds`. -/
  stable : Bool := false
  /-- The probe was answered. -/
  healthy : Bool := true
  /-- The delay of the restart has passed. -/
  expired : Bool := true
  deriving DecidableEq

/-- The server, its threads and the request that holds the manager lock. `stopped` is there from the return of a
`request_stop` until the next start or restart is requested, with the number of launches at that return. -/
structure World where
  server : Server
  threads : List Thread := []
  manager : Option Request := none
  stopped : Option Nat := none
  deriving DecidableEq

/-! ## The threads -/

/-- `_maybe_reset_restart_attempts_locked` (1168). -/
def maybeResetRestartAttempts (s : Server) (stable : Bool) : Server :=
  if s.manifest.policy.enabled && s.manifest.policy.resets && stable then { s with restartAttempts := 0 } else s

def monitorProcess (s : Server) (client : Nat) (met : Met) : Server × List Spawn :=
  if s.client ≠ some client then (s, [])
  else
    let s := { s with client := none }
    if s.state = .stopped then (s, [])
    else scheduleRestartLocked (maybeResetRestartAttempts { s with state := .failed } met.stable) (some met.returncode)

/-- The thread goes on after a probe that was answered, or while failures are below the threshold. -/
def healthSection (s : Server) (client : Nat) (met : Met) : Server × Thread × List Spawn :=
  if s.client ≠ some client ∨ s.state ≠ .running then (s, .done, [])
  else if met.healthy then (maybeResetRestartAttempts { s with healthFailures := 0 } met.stable, .health client, [])
  else
    let s := { s with healthFailures := s.healthFailures + 1 }
    if s.healthFailures < s.manifest.policy.failureThreshold then (s, .health client, [])
    else
      let r := scheduleRestartLocked { s with state := .failed, client := none } none
      (r.1, .done, r.2)

/-- `not runtime.restart_scheduled or runtime.state == STOPPED or runtime.client is not None`. -/
def restartUnwanted (s : Server) : Bool := !s.restartScheduled || s.state = .stopped || s.client.isSome

def delayedRestart (core : Bool) (s : Server) (met : Met) : TimerPc → Server × Thread × List Spawn
  | .sleeping => (s, if restartUnwanted s then .done else .timer (if met.expired then .due else .sleeping), [])
  | .due => if restartUnwanted s then (s, .done, []) else ({ s with restartScheduled := false }, .timer .restarting, [])
  | .restarting =>
    let r := startServer core s false met.start
    (r.1, .done, r.2)

def threadSection (core : Bool) (s : Server) (met : Met) : Thread → Server × Thread × List Spawn
  | .monitor client =>
    let r := monitorProcess s client met
    (r.1, .done, r.2)
  | .health client => healthSection s client met
  | .timer pc => delayedRestart core s met pc
  | .done => (s, .done, [])

/-! ## The requests -/

def Request.desired : Request → Desired
  | .start | .restart => .running
  | .stop => .stopped

/-- The critical section of a request. -/
def requestSection (core : Bool) (s : Server) (met : Met) : Request → Server × List Spawn
  | .start => startServer core s true met.start
  | .stop => (stopRuntimeLocked s true met.stopRaises, [])
  | .restart =>
    let s' := stopRuntimeLocked s true met.stopRaises
    if met.stopRaises && s.client.isSome then (s', []) else startServer core s' true met.start

/-- The stop returns: its client did not raise. -/
def returnsStopped (s : Server) (met : Met) (r : Request) : Bool := r = .stop && !(met.stopRaises && s.client.isSome)

inductive Event
  | enter (r : Request)
  | section (met : Met)
  | thread (i : Nat) (met : Met)
  deriving DecidableEq

def next (core : Bool) (w : World) : Event → World
  | .enter r => { w with
      server := { w.server with desired := some r.desired }
      manager := some r
      stopped := if r = .stop then w.stopped else none }
  | .section met => match w.manager with
    | none => w
    | some r =>
      let res := requestSection core w.server met r
      { server := res.1, threads := w.threads ++ res.2.map Spawn.thread, manager := none
        stopped := if returnsStopped w.server met r then some res.1.launched else w.stopped }
  | .thread i met => match w.threads[i]? with
    | none => w
    | some t =>
      let res := threadSection core w.server met t
      { w with server := res.1, threads := w.threads.set i res.2.1 ++ res.2.2.map Spawn.thread }

/-- A request enters while nobody holds the manager lock. -/
def possible (w : World) : Event → Bool
  | .enter _ => w.manager.isNone
  | .section _ => w.manager.isSome
  | .thread i _ => i < w.threads.length

def RuntimeStep (core : Bool) (w : World) (e : Event) (w' : World) : Prop := possible w e = true ∧ next core w e = w'

/-- What the `start_server` of a delayed restart must find: a server that is not stopped, or one that is to run. -/
def NotRevived (w : World) : Event → Bool
  | .thread i _ => w.threads[i]? ≠ some (.timer .restarting) || w.server.state ≠ .stopped || w.server.desired = some .running
  | _ => true

def OrderedStep (core : Bool) (w : World) (e : Event) (w' : World) : Prop := RuntimeStep core w e w' ∧ NotRevived w e = true

/-! ## What a section leaves alone -/

variable {core : Bool} {s : Server} {met : Met} {w w' : World} {e : Event}

theorem maybeResetRestartAttempts_desired (stable : Bool) : (maybeResetRestartAttempts s stable).desired = s.desired := by
  unfold maybeResetRestartAttempts
  split <;> rfl

theorem monitorProcess_desired (client : Nat) : (monitorProcess s client met).1.desired = s.desired := by
  unfold monitorProcess
  dsimp only
  split_ifs
  · rfl
  · rfl
  · rw [scheduleRestartLocked_desired, maybeResetRestartAttempts_desired]

theorem healthSection_desired (client : Nat) : (healthSection s client met).1.desired = s.desired := by
  unfold healthSection
  dsimp only
  split_ifs
  · rfl
  · rw [maybeResetRestartAttempts_desired]
  · rfl
  · rw [scheduleRestartLocked_desired]

theorem delayedRestart_desired (pc : TimerPc) : (delayedRestart core s met pc).1.desired = s.desired := by
  cases pc with
  | sleeping => rfl
  | due =>
    simp only [delayedRestart]
    split <;> rfl
  | restarting => simp [delayedRestart]

/-- Only requests write the desired state. -/
theorem threadSection_desired (t : Thread) : (threadSection core s met t).1.desired = s.desired := by
  cases t with
  | monitor client => exact monitorProcess_desired client
  | health client => exact healthSection_desired client
  | timer pc => exact delayedRestart_desired pc
  | done => rfl

/-- Stopped, with no client and no restart to come. -/
structure Idle (s : Server) : Prop where
  state : s.state = .stopped
  client : s.client = none
  scheduled : s.restartScheduled = false

/-- A thread that is not about to restart finds nothing to do. -/
theorem Idle.threadSection (h : Idle s) {t : Thread} (ht : t ≠ .timer .restarting) : (threadSection core s met t).1 = s := by
  cases t with
  | monitor client => simp [Runtime.threadSection, monitorProcess, h.client]
  | health client => simp [Runtime.threadSection, healthSection, h.client]
  | timer pc =>
    cases pc with
    | sleeping => rfl
    | due => simp [Runtime.threadSection, delayedRestart, restartUnwanted, h.scheduled]
    | restarting => exact absurd rfl ht
  | done => rfl

/-! ## Runs -/

/-- While `stopped` is there the server is idle and nothing was launched; whoever holds the manager lock has written its
desired state. -/
structure Parked (w : World) : Prop where
  idle : ∀ n, w.stopped = some n → Idle w.server ∧ w.server.desired = some .stopped ∧ w.server.launched = n
  manager : ∀ r, w.manager = some r → w.server.desired = some r.desired ∧ (r ≠ .stop → w.stopped = none)

theorem Parked.enter {r : Request} (h : Parked w) : Parked (next core w (.enter r)) := by
  constructor
  · intro n hn
    cases r with
    | stop =>
      obtain ⟨hidle, -, hlaunched⟩ := h.idle n hn
      exact ⟨⟨hidle.state, hidle.client, hidle.scheduled⟩, rfl, hlaunched⟩
    | start | restart => cases hn
  · intro r' hr'
    obtain rfl : r = r' := Option.some.inj hr'
    exact ⟨rfl, fun hne => if_neg hne⟩

theorem Parked.section (h : Parked w) : Parked (next core w (.section met)) := by
  cases hr : w.manager with
  | none => simpa only [next, hr] using h
  | some r =>
    obtain ⟨hdesired, hnone⟩ := h.manager r hr
    simp only [next, hr]
    refine ⟨?_, by simp⟩
    intro n hn
    cases r with
    | start | restart =>
      rw [show returnsStopped w.server met _ = false by simp [returnsStopped]] at hn
      rw [if_neg (by simp), hnone (by simp)] at hn
      cases hn
    | stop =>
      by_cases hraises : (met.stopRaises && w.server.client.isSome) = true
      · -- the client of a server that is idle does not raise: it has none
        simp only [returnsStopped, hraises, Bool.not_true, Bool.and_false, Bool.false_eq_true, if_false] at hn
        obtain ⟨hidle, -⟩ := h.idle n hn
        simp [hidle.client] at hraises
      have hstopped : requestSection core w.server met .stop = (stopRuntimeLocked w.server true false, []) := by
        have hfalse : (met.stopRaises && w.server.client.isSome) = false := by simpa using hraises
        simp [requestSection, stopRuntimeLocked, hfalse]
      simp only [returnsStopped, hraises, Bool.not_false, decide_true, Bool.and_true, if_true, hstopped] at hn ⊢
      obtain ⟨hstate, hclient⟩ := @stopRuntimeLocked_stopped w.server true
      refine ⟨⟨hstate, hclient, by simp⟩, ?_, Option.some.inj hn⟩
      rw [stopRuntimeLocked_desired, hdesired]
      rfl

theorem Parked.thread {i : Nat} (h : Parked w) (hC : NotRevived w (.thread i met) = true) :
    Parked (next core w (.thread i met)) := by
  cases ht : w.threads[i]? with
  | none => simpa only [next, ht] using h
  | some t =>
    simp only [next, ht]
    constructor
    · intro n hn
      obtain ⟨hidle, hdesired, hlaunched⟩ := h.idle n hn
      have hne : t ≠ .timer .restarting := by
        rintro rfl
        simp [NotRevived, ht, hidle.state, hdesired] at hC
      simp only [hidle.threadSection hne]
      exact ⟨hidle, hdesired, hlaunched⟩
    · intro r hr
      obtain ⟨hdesired, hnone⟩ := h.manager r hr
      exact ⟨(threadSection_desired t).trans hdesired, hnone⟩

theorem OrderedStep.parked (hs : OrderedStep core w e w') (h : Parked w) : Parked w' := by
  obtain ⟨⟨-, rfl⟩, hC⟩ := hs
  cases e with
  | enter r => exact h.enter
  | «section» met => exact h.section
  | thread i met => exact h.thread hC

/-- **A stopped server stays stopped** in every run in which no delayed restart calls `start_server` on a server that is
stopped and not to run: from the return of `request_stop` until a start or restart is requested, the server is neither
starting nor running, and nothing is launched. -/
theorem stays_stopped {tr : List Event} (h : Run (OrderedStep core) ⟨s, [], none, none⟩ tr w) {n : Nat}
    (hn : w.stopped = some n) : w.server.state ≠ .starting ∧ w.server.state ≠ .running ∧ w.server.launched = n := by
  have hparked : Parked w := h.invariant ⟨by simp, by simp⟩ fun _ _ _ hI hs => hs.parked hI
  obtain ⟨hidle, -, hlaunched⟩ := hparked.idle n hn
  rw [hidle.state]
  exact ⟨by simp, by simp, hlaunched⟩

/-! ## A process that exits and is stopped -/

def restartable : Server where
  manifest := { policy := { enabled := true } }

/-- The server is started, its process exits, and its timer comes to the last check. -/
def exited : List Event := [.enter .start, .section {}, .thread 0 { returncode := 1 }, .thread 1 {}]

/-- The stop comes before the last check of the timer. -/
def stoppedInTime : List Event := exited ++ [Event.enter .stop, .section {}, .thread 1 {}, .thread 1 {}]

/-- The stop comes between the last check and the start. -/
def stoppedAfterCheck : List Event := exited ++ [Event.thread 1 {}, .enter .stop, .section {}]

theorem stays_stopped_in_time : ∃ w, Run (OrderedStep false) ⟨restartable, [], none, none⟩ stoppedInTime w ∧
    w.stopped = some 1 ∧ w.server.state ≠ .starting ∧ w.server.state ≠ .running ∧ w.server.launched = 1 := by
  have hrun : Run (OrderedStep false) ⟨restartable, [], none, none⟩ stoppedInTime
      (stoppedInTime.foldl (next false) ⟨restartable, [], none, none⟩) := by
    refine @Run.of_guarded _ _ _ (next false) (fun w e => possible w e && NotRevived w e) ?_ _ _ (by decide)
    intro w e h
    rw [Bool.and_eq_true] at h
    exact ⟨⟨h.1, rfl⟩, h.2⟩
  exact ⟨_, hrun, by decide, stays_stopped hrun (by decide)⟩

/-- The timer starts the server that `request_stop` has stopped. -/
theorem stopped_server_revived : ∃ w w', Run (RuntimeStep false) ⟨restartable, [], none, none⟩ stoppedAfterCheck w ∧
    w.stopped = some 1 ∧ w.server.state = .stopped ∧ RuntimeStep false w (.thread 1 {}) w' ∧
    w'.stopped = some 1 ∧ w'.server.state = .running ∧ w'.server.launched = 2 := by
  have hrun : Run (RuntimeStep false) ⟨restartable, [], none, none⟩ stoppedAfterCheck
      (stoppedAfterCheck.foldl (next false) ⟨restartable, [], none, none⟩) :=
    Run.of_guarded (fun _ _ h => ⟨h, rfl⟩) (by decide)
  exact ⟨_, _, hrun, by decide, by decide, ⟨by decide, rfl⟩, by decide, by decide, by decide⟩

end LingshuGate.Runtime

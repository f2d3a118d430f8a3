import LingshuGate.Lib.Run
import Mathlib.Tactic.SplitIfs

/-!
# The runtime of one server (`mcp_runtime.py`)

| here | there |
| --- | --- |
| `Manifest`, `RestartPolicy` | what the runtime reads of `McpServerManifest` (mcp_manifest.py:72, 300) |
| `Server`                    | `McpServerRuntime` (185) |
| `stopRuntimeLocked`         | `_stop_runtime_locked` (1004) |
| `exitCodeAllowsRestart`, `scheduleRestartLocked` | `_exit_code_allows_restart` (1153), `_schedule_restart_locked` (1127) |
| `connectExternalLocked`     | `_connect_external_locked` (842), called without bounds |
| `startServer`               | `start_server` (650) |

Each of these is one critical section under the lock of the server. A section that starts a thread says which
(`Spawn`). `StartMet` is what a start meets outside: the client that starts, fails or raises.

`launched` counts the calls of `client.start()` of a managed client; `nextClient` numbers the clients, so that
`runtime.client is client` compares numbers. Errors, times and tools are left out: nothing here reads them.
-/

namespace LingshuGate.Runtime

inductive ServerState
  | loaded | starting | running | failed | stopped | external | unsupported
  deriving DecidableEq

inductive Desired
  | running | stopped
  deriving DecidableEq

inductive LaunchType
  | external | managedProcess | managedContainer
  deriving DecidableEq

inductive TransportType
  | stdio | streamableHttp
  deriving DecidableEq

structure RestartPolicy where
  enabled : Bool := false
  maxAttempts : Nat := 3
  restartOnExit : Bool := true
  /-- `reset_after_seconds > 0`. -/
  resets : Bool := true
  exitCodeAllowlist : List Int := []
  exitCodeBlocklist : List Int := []
  healthCheck : Bool := false
  failureThreshold : Nat := 3
  deriving DecidableEq

structure Manifest where
  enabled : Bool := true
  autoStart : Bool := false
  launch : LaunchType := .managedProcess
  transport : TransportType := .stdio
  policy : RestartPolicy := {}
  /-- Everything else, which is only stored and compared. -/
  body : String := ""
  deriving DecidableEq

structure Server where
  manifest : Manifest
  state : ServerState := .loaded
  client : Option Nat := none
  desired : Option Desired := none
  restartScheduled : Bool := false
  restartAttempts : Nat := 0
  healthFailures : Nat := 0
  nextClient : Nat := 0
  launched : Nat := 0
  deriving DecidableEq

/-- A thread that a critical section starts. -/
inductive Spawn
  | monitor (client : Nat)
  | health (client : Nat)
  | timer
  deriving DecidableEq

/-- What a start meets: whether Docker is there, and what becomes of the client. -/
inductive StartMet
  | noDocker
  /-- The client starts and lists its tools; `process` is `client.process is not None`. -/
  | starts (process : Bool)
  /-- An exception in the `try`, after `client.start()` or before it; the client may fail to stop, too. -/
  | fails (launched stopRaises : Bool)
  /-- An exception after the state is `STARTING` and before the `try`. -/
  | raises
  deriving DecidableEq

/-- `_runtime_combination_supported` (134). -/
def runtimeCombinationSupported (m : Manifest) : Bool :=
  match m.launch with
  | .external => m.transport = .streamableHttp
  | .managedProcess => true
  | .managedContainer => m.transport = .stdio

/-- `raises`: the client does not stop, and the section ends there. -/
def stopRuntimeLocked (s : Server) (clearError raises : Bool) : Server :=
  if raises && s.client.isSome then { s with restartScheduled := false }
  else { s with
    restartScheduled := false
    client := none
    state := .stopped
    restartAttempts := if clearError then 0 else s.restartAttempts
    healthFailures := if clearError then 0 else s.healthFailures }

def exitCodeAllowsRestart (s : Server) : Option Int → Bool
  | none => true
  | some code =>
    !s.manifest.policy.exitCodeBlocklist.contains code &&
      (s.manifest.policy.exitCodeAllowlist.isEmpty || s.manifest.policy.exitCodeAllowlist.contains code)

def scheduleRestartLocked (s : Server) (returncode : Option Int) : Server × List Spawn :=
  let policy := s.manifest.policy
  if !policy.enabled || !policy.restartOnExit || !s.manifest.enabled || s.desired ≠ some .running then (s, [])
  else if s.restartScheduled then (s, [])
  else if !exitCodeAllowsRestart s returncode then (s, [])
  else if s.restartAttempts ≥ policy.maxAttempts then (s, [])
  else ({ s with restartAttempts := s.restartAttempts + 1, restartScheduled := true }, [.timer])

/-- The state after the exception of a start (741, 885). -/
def failStart (s : Server) (stopRaises : Bool) : Server :=
  { s with state := .failed, client := if stopRaises then s.client else none }

def connectExternalLocked (s : Server) (met : StartMet) : Server :=
  if s.manifest.transport ≠ .streamableHttp then { s with state := .external }
  else
    let s := { s with state := .starting }
    match met with
    | .starts _ | .noDocker => { s with state := .running, client := some s.nextClient, nextClient := s.nextClient + 1 }
    | .fails _ stopRaises => failStart { s with client := some s.nextClient, nextClient := s.nextClient + 1 } stopRaises
    | .raises => s

/-- A managed client is made, started and watched (718). -/
def launch (s : Server) (reset : Bool) (met : StartMet) : Server × List Spawn :=
  let s := { s with
    state := .starting
    restartScheduled := false
    healthFailures := 0
    restartAttempts := if reset then 0 else s.restartAttempts }
  let client := s.nextClient
  match met with
  | .starts process =>
    ({ s with state := .running, client := some client, nextClient := client + 1, launched := s.launched + 1 },
      (if process then [.monitor client] else []) ++
        (if s.manifest.policy.enabled && s.manifest.policy.healthCheck then [.health client] else []))
  | .fails launched stopRaises =>
    let s := failStart { s with
      client := some client, nextClient := client + 1, launched := if launched then s.launched + 1 else s.launched } stopRaises
    if stopRaises then (s, []) else scheduleRestartLocked s none
  | .raises | .noDocker => (s, [])

/-- `core` is `runtime_role == "core"`. -/
def startServer (core : Bool) (s : Server) (reset : Bool) (met : StartMet) : Server × List Spawn :=
  if s.state = .running ∧ s.client.isSome = true then (s, [])
  else if s.state = .starting then (s, [])
  else if !s.manifest.enabled then ({ s with state := .stopped }, [])
  else if s.manifest.launch = .external then (connectExternalLocked s met, [])
  else if core then ({ s with state := .unsupported }, [])
  else if !runtimeCombinationSupported s.manifest then ({ s with state := .unsupported }, [])
  else if s.manifest.launch = .managedContainer ∧ met = .noDocker then ({ s with state := .failed }, [])
  else launch s reset met

/-! ## What no section touches -/

variable {s : Server} {clearError raises reset core : Bool} {met : StartMet}

@[simp] theorem stopRuntimeLocked_manifest : (stopRuntimeLocked s clearError raises).manifest = s.manifest := by
  unfold stopRuntimeLocked
  split <;> rfl

@[simp] theorem stopRuntimeLocked_desired : (stopRuntimeLocked s clearError raises).desired = s.desired := by
  unfold stopRuntimeLocked
  split <;> rfl

@[simp] theorem stopRuntimeLocked_scheduled : (stopRuntimeLocked s clearError raises).restartScheduled = false := by
  unfold stopRuntimeLocked
  split <;> rfl

/-- A stop that does not raise leaves the server stopped, without a client. -/
theorem stopRuntimeLocked_stopped : (stopRuntimeLocked s clearError false).state = .stopped ∧
    (stopRuntimeLocked s clearError false).client = none := by
  simp [stopRuntimeLocked]

theorem scheduleRestartLocked_desired (code : Option Int) : (scheduleRestartLocked s code).1.desired = s.desired := by
  unfold scheduleRestartLocked
  dsimp only
  split_ifs <;> rfl

theorem scheduleRestartLocked_manifest (code : Option Int) : (scheduleRestartLocked s code).1.manifest = s.manifest := by
  unfold scheduleRestartLocked
  dsimp only
  split_ifs <;> rfl

theorem launch_desired : (launch s reset met).1.desired = s.desired := by
  unfold launch
  cases met with
  | fails launched stopRaises =>
    dsimp only
    split
    · rfl
    · rw [scheduleRestartLocked_desired]
      rfl
  | noDocker | starts | raises => rfl

theorem launch_manifest : (launch s reset met).1.manifest = s.manifest := by
  unfold launch
  cases met with
  | fails launched stopRaises =>
    dsimp only
    split
    · rfl
    · rw [scheduleRestartLocked_manifest]
      rfl
  | noDocker | starts | raises => rfl

theorem connectExternalLocked_desired : (connectExternalLocked s met).desired = s.desired := by
  unfold connectExternalLocked
  split
  · rfl
  · cases met <;> rfl

theorem connectExternalLocked_manifest : (connectExternalLocked s met).manifest = s.manifest := by
  unfold connectExternalLocked
  split
  · rfl
  · cases met <;> rfl

@[simp] theorem startServer_desired : (startServer core s reset met).1.desired = s.desired := by
  unfold startServer
  split_ifs
  any_goals rfl
  · exact connectExternalLocked_desired
  · exact launch_desired

@[simp] theorem startServer_manifest : (startServer core s reset met).1.manifest = s.manifest := by
  unfold startServer
  split_ifs
  any_goals rfl
  · exact connectExternalLocked_manifest
  · exact launch_manifest

end LingshuGate.Runtime

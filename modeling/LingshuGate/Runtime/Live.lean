import LingshuGate.Runtime.Restart
import LingshuGate.Runtime.ToolRecords

/-!
# A runtime with its tools (`mcp_runtime.py`)

| here | there |
| --- | --- |
| `Live`                    | `McpServerRuntime` (185), its tools included |
| `Scene`                   | what a critical section under `runtime.lock` reads and writes |
| `Scene.stop`              | `_stop_runtime_locked` (1004) |
| `Scene.fail`              | the `except` of a start (741, 883) |
| `Scene.register`          | `_register_mcp_tools` (1221) |
| `Scene.connectExternal`   | `_connect_external_locked` (842) |
| `Scene.launch`, `.start`  | `start_server` (650) |
| `Scene.exit`, `.health`   | the sections of `_monitor_process` (1033) and `_health_loop` (1058) |
| `Scene.refresh`           | `_refresh_server_tools_locked` (1276) |
| `Scene.recover`, `.invoke` | `_recover_expired_session_locked` (1448), `invoke_mcp_tool` (1405) |

The sections of `Runtime/Server.lean` and `Runtime/Restart.lean` with the tools of the runtime and of the registry; what
they do to the server is the same (`start_server`, `exit_server`, `health_server`).

`ended` are the clients whose `stop()` returned or whose process exited.
-/

namespace LingshuGate.Runtime

open Lib Groups

structure Live where
  server : Server
  tools : List Json := []
  /-- `connection_operation_id`. -/
  operationId : Option String := none
  ended : List Nat := []

structure Scene where
  live : Live
  registry : Registry

/-- The server this is about, and what its definitions take from a manifest. -/
structure Setting where
  serverId : String
  /-- `runtime_role == "core"`. -/
  core : Bool
  serverName : Manifest → String
  permission : Manifest → String
  /-- `check_tool_structure`. -/
  admits : Tool → Bool

def launchText : LaunchType → String
  | .external => "external"
  | .managedProcess => "managed_process"
  | .managedContainer => "managed_container"

def transportText : TransportType → String
  | .stdio => "stdio"
  | .streamableHttp => "streamable_http"

def Setting.origin (S : Setting) (m : Manifest) : Origin where
  serverId := S.serverId
  serverName := S.serverName m
  launchType := launchText m.launch
  transportType := transportText m.transport
  permission := S.permission m

/-- What a new client meets. -/
structure ClientMet where
  docker : Bool := true
  /-- The guard of a connection and the constructor return. -/
  made : Bool := true
  /-- What it lists; `none` when `client.start()` or `client.list_tools()` raises. -/
  tools : Option (List Json) := some []
  /-- `client.process is not None`. -/
  process : Bool := true
  /-- `before_replace` returns. -/
  reconciles : Bool := true
  stopRaises : Bool := false

/-- What a reconnection meets. -/
structure RecoverMet where
  tools : Option (List Json) := some []
  /-- The definition of the tool is the same as before. -/
  unchanged : Bool := true
  retryReadOnly : Bool := false
  expiresAgain : Bool := false

/-- How the call of a tool ends: with an answer or another exception, or with an expired session. -/
inductive Reply
  | returned
  | expired (met : RecoverMet)

namespace Scene

variable (S : Setting)

def server (x : Scene) : Server := x.live.server

def setServer (x : Scene) (server : Server) : Scene := { x with live := { x.live with server := server } }

/-- Whether `client.stop()` raises. -/
def raises (x : Scene) (stopRaises : Bool) : Bool := stopRaises && x.server.client.isSome

/-- The client is gone: it ended, the runtime has no tools and neither has the registry. -/
def clear (x : Scene) (server : Server) : Scene where
  live := { x.live with server := server, tools := [], ended := x.server.client.toList ++ x.live.ended }
  registry := x.registry.unregister S.serverId

def stop (x : Scene) (clearError stopRaises : Bool) : Scene :=
  let server := stopRuntimeLocked x.server clearError stopRaises
  if x.raises stopRaises then { x.setServer server with registry := x.registry.unregister S.serverId }
  else { x.clear S server with live := { (x.clear S server).live with operationId := none } }

def fail (x : Scene) (stopRaises : Bool) : Scene :=
  if x.raises stopRaises then x.setServer { x.server with state := .failed }
  else x.clear S { x.server with state := .failed, client := none }

/-- The records of the tools, published. -/
def register (x : Scene) (strict reconciles : Bool) (tools : List Json) : Option Registry := do
  let records ← mcpToolRecords (S.origin x.server.manifest) S.admits strict tools
  if strict && !reconciles then none else x.registry.replace S.admits S.serverId records

/-- `runtime.client = client`. -/
def newClient (x : Scene) : Scene :=
  x.setServer { x.server with client := some x.server.nextClient, nextClient := x.server.nextClient + 1 }

/-- `runtime.tools = tools`. -/
def setTools (x : Scene) (tools : List Json) : Scene := { x with live := { x.live with tools := tools } }

/-- The tools are there and published. -/
def serve (x : Scene) (tools : List Json) (reg : Registry) : Scene where
  live := { x.live with server := { x.server with state := .running }, tools := tools }
  registry := reg

def connecting (x : Scene) (operationId : Option String) : Scene :=
  { x with live := { x.live with server := { x.server with state := .starting }, operationId := operationId } }

/-- `strict` is `before_replace is not None`. -/
def connectExternal (x : Scene) (strict : Bool) (operationId : Option String) (met : ClientMet) : Scene :=
  if x.server.manifest.transport ≠ .streamableHttp then x.setServer { x.server with state := .external }
  else
    let x := x.connecting operationId
    if !met.made then x.fail S met.stopRaises
    else match met.tools with
      | none => x.newClient.fail S met.stopRaises
      | some tools => match x.register S strict met.reconciles tools with
        | none => (x.newClient.setTools tools).fail S met.stopRaises
        | some reg => x.newClient.serve tools reg

/-- After the `except` of a managed start. -/
def failLaunch (x : Scene) (stopRaises : Bool) : Scene × List Spawn :=
  let y := x.fail S stopRaises
  if x.raises stopRaises then (y, [])
  else
    let r := scheduleRestartLocked y.server none
    (y.setServer r.1, r.2)

def launching (x : Scene) (reset : Bool) : Scene :=
  x.setServer { x.server with
    state := .starting
    restartScheduled := false
    healthFailures := 0
    restartAttempts := if reset then 0 else x.server.restartAttempts }

/-- A managed client is made and started. -/
def newLaunch (x : Scene) : Scene := x.newClient.setServer { x.newClient.server with launched := x.server.launched + 1 }

def launch (x : Scene) (reset : Bool) (met : ClientMet) : Scene × List Spawn :=
  let x := x.launching reset
  let client := x.server.nextClient
  if !met.made then x.failLaunch S met.stopRaises
  else
    let x := x.newLaunch
    match met.tools with
    | none => x.failLaunch S met.stopRaises
    | some tools => match x.register S false true tools with
      | none => (x.setTools tools).failLaunch S met.stopRaises
      | some reg => (x.serve tools reg,
          (if met.process then [.monitor client] else []) ++
            (if x.server.manifest.policy.enabled && x.server.manifest.policy.healthCheck then [.health client] else []))

def start (x : Scene) (reset : Bool) (met : ClientMet) : Scene × List Spawn :=
  let s := x.server
  if s.state = .running ∧ s.client.isSome = true then (x, [])
  else if s.state = .starting then (x, [])
  else if !s.manifest.enabled then (x.setServer { s with state := .stopped }, [])
  else if s.manifest.launch = .external then (x.connectExternal S false none met, [])
  else if S.core then (x.setServer { s with state := .unsupported }, [])
  else if !runtimeCombinationSupported s.manifest then (x.setServer { s with state := .unsupported }, [])
  else if s.manifest.launch = .managedContainer ∧ met.docker = false then (x.setServer { s with state := .failed }, [])
  else x.launch S reset met

/-- The process of a client has exited. -/
def exit (x : Scene) (client : Nat) (met : Met) : Scene × List Spawn :=
  let x : Scene := { x with live := { x.live with ended := client :: x.live.ended } }
  if x.server.client ≠ some client then (x, [])
  else
    let x := x.clear S { x.server with client := none }
    if x.server.state = .stopped then (x, [])
    else
      let r := scheduleRestartLocked (maybeResetRestartAttempts { x.server with state := .failed } met.stable)
        (some met.returncode)
      (x.setServer r.1, r.2)

/-- How the health loop goes on. -/
inductive Health
  | goes | ends
  /-- `client_to_stop` is stopped outside the lock. -/
  | stops
  deriving DecidableEq

/-- The section after a probe. A client that is given up is not stopped yet. -/
def health (x : Scene) (client : Nat) (met : Met) : Scene × Health × List Spawn :=
  if x.server.client ≠ some client ∨ x.server.state ≠ .running then (x, .ends, [])
  else if met.healthy then
    (x.setServer (maybeResetRestartAttempts { x.server with healthFailures := 0 } met.stable), .goes, [])
  else
    let s := { x.server with healthFailures := x.server.healthFailures + 1 }
    if s.healthFailures < s.manifest.policy.failureThreshold then (x.setServer s, .goes, [])
    else
      let r := scheduleRestartLocked { s with state := .failed, client := none } none
      (⟨{ x.live with server := r.1, tools := [] }, x.registry.unregister S.serverId⟩, .stops, r.2)

/-- `tools` is what the client lists; nothing is changed where it raises. -/
def refresh (x : Scene) (tools : Option (List Json)) (reconciles : Bool) : Scene :=
  if x.server.state ≠ .running ∨ x.server.client = none then x
  else match tools with
    | none => x
    | some tools => match x.register S true reconciles tools with
      | none => x
      | some reg => x.serve tools reg

/-- The single reconnection of a client whose session expired. -/
def recover (x : Scene) (met : RecoverMet) : Scene :=
  match met.tools with
  | none => x.setServer { x.server with state := .failed }
  | some tools => match x.register S true true tools with
    | none => x.setServer { x.server with state := .failed }
    | some reg =>
      let y := x.serve tools reg
      if met.unchanged && met.retryReadOnly && met.expiresAgain then y.setServer { y.server with state := .failed } else y

def invoke (x : Scene) (reply : Reply) : Scene :=
  if x.server.state ≠ .running ∨ x.server.client = none then x
  else match reply with
    | .returned => x
    | .expired met => if x.server.manifest.launch = .external then x.recover S met else x

section Servers

variable {S : Setting} {x : Scene}

end Servers

/-! ## What a section must leave behind -/

/-- The definitions that go with the tools of a running server; there are none while it does not run. -/
def shown (x : Scene) : Option (List Tool) :=
  if x.server.state = .running then mcpToolRecords (S.origin x.server.manifest) S.admits false x.live.tools else some []

/-- The clients made for a runtime: the current one, those that ended, and those in the hands of others. -/
def Accounted (held : Nat → Prop) (x : Scene) : Prop :=
  ∀ c < x.server.nextClient, x.server.client = some c ∨ c ∈ x.live.ended ∨ held c

structure Good (held : Nat → Prop) (x : Scene) : Prop where
  client : x.server.client.isSome = true ↔ x.server.state = .running
  tools : x.shown S = some (x.registry.toolsOf S.serverId)
  transport : x.server.client.isSome = true → x.server.manifest.launch = .external → x.server.manifest.transport = .streamableHttp
  accounted : x.Accounted held

variable {S} {held : Nat → Prop} {x : Scene} {server : Server} {tools : List Json} {reg : Registry}

theorem Good.idle (h : x.Good S held) (hclient : x.server.client = none) : x.server.state ≠ .running ∧
    x.registry.toolsOf S.serverId = [] := by
  have hstate : x.server.state ≠ .running := by
    intro hrunning
    have := h.client.mpr hrunning
    simp [hclient] at this
  refine ⟨hstate, ?_⟩
  have htools := h.tools
  rw [shown, if_neg hstate] at htools
  exact (Option.some.inj htools).symm

/-- Another state of a server without a client. -/
theorem Good.setIdle (h : x.Good S held) (hclient : x.server.client = none) (hserver : server.client = none)
    (hstate : server.state ≠ .running) (hnext : server.nextClient = x.server.nextClient) : (x.setServer server).Good S held where
  client := by simp [Scene.server, Scene.setServer, hserver, hstate]
  tools := by
    rw [shown, if_neg (by exact hstate)]
    exact congrArg some (h.idle hclient).2.symm
  transport := by simp [Scene.server, Scene.setServer, hserver]
  accounted := by
    intro c hc
    have := h.accounted c (hnext ▸ hc)
    rw [hclient] at this
    simpa [Scene.server, Scene.setServer, hserver] using this

/-- What is read nowhere here is rewritten. -/
theorem Good.setServer (h : x.Good S held) (hclient : server.client = x.server.client) (hstate : server.state = x.server.state)
    (hmanifest : server.manifest = x.server.manifest) (hnext : server.nextClient = x.server.nextClient) :
    (x.setServer server).Good S held where
  client := by
    have := h.client
    rw [← hclient, ← hstate] at this
    exact this
  tools := by
    have := h.tools
    rw [shown, ← hstate, ← hmanifest] at this
    exact this
  transport := by
    have := h.transport
    rw [← hclient, ← hmanifest] at this
    exact this
  accounted := by
    have := h.accounted
    rw [Accounted, ← hclient, ← hnext] at this
    exact this

/-- The client is given up and counts as ended. -/
theorem Good.clear (h : x.Accounted held) (hclient : server.client = none) (hstate : server.state ≠ .running)
    (hnext : server.nextClient = x.server.nextClient) : (x.clear S server).Good S held where
  client := by simp [Scene.server, Scene.clear, hclient, hstate]
  tools := by
    rw [shown, if_neg (by exact hstate)]
    exact congrArg some Registry.toolsOf_unregister.symm
  transport := by simp [Scene.server, Scene.clear, hclient]
  accounted := by
    intro c hc
    rcases h c (hnext ▸ hc) with hcurrent | hended | hheld
    · exact .inr (.inl (by simp [Scene.clear, hcurrent]))
    · exact .inr (.inl (by simp [Scene.clear, hended]))
    · exact .inr (.inr hheld)

theorem Accounted.newClient (h : x.Accounted held) (hclient : x.server.client = none) : x.newClient.Accounted held := by
  intro c hc
  by_cases heq : c = x.server.nextClient
  · exact .inl (by simp [Scene.newClient, Scene.setServer, Scene.server, heq])
  have hlt : c < x.server.nextClient := by
    simp only [Scene.newClient, Scene.setServer, Scene.server] at hc heq ⊢
    omega
  rcases h c hlt with hcurrent | hrest
  · rw [hclient] at hcurrent
    cases hcurrent
  · exact .inr hrest

/-- What is published is what the tools are read as. -/
theorem register_ok {strict reconciles : Bool} (h : x.register S strict reconciles tools = some reg) :
    mcpToolRecords (S.origin x.server.manifest) S.admits false tools = some (reg.toolsOf S.serverId) := by
  obtain ⟨records, hrecords, h⟩ := Option.bind_eq_some_iff.mp h
  have hread : mcpToolRecords (S.origin x.server.manifest) S.admits false tools = some records := by
    cases strict with
    | false => exact hrecords
    | true => exact mcpToolRecords_strict hrecords
  split at h
  · cases h
  · rw [hread, Registry.toolsOf_replace h]

theorem Good.serve (h : x.Accounted held) (hclient : x.server.client.isSome = true)
    (hread : mcpToolRecords (S.origin x.server.manifest) S.admits false tools = some (reg.toolsOf S.serverId))
    (htransport : x.server.manifest.launch = .external → x.server.manifest.transport = .streamableHttp) :
    (x.serve tools reg).Good S held where
  client := by simpa [Scene.server, Scene.serve] using hclient
  tools := by
    rw [shown, if_pos (by rfl)]
    exact hread
  transport _ := htransport
  accounted := h

theorem Good.fail (h : x.Accounted held) {stopRaises : Bool} (hraises : stopRaises = false) : (x.fail S stopRaises).Good S held := by
  rw [Scene.fail, if_neg (by simp [raises, hraises])]
  exact Good.clear h rfl (by simp) rfl

/-! ## The sections -/

theorem Good.stop (h : x.Good S held) {clearError stopRaises : Bool} (hraises : x.raises stopRaises = false) :
    (x.stop S clearError stopRaises).Good S held := by
  have hstopped : stopRuntimeLocked x.server clearError stopRaises = stopRuntimeLocked x.server clearError false := by
    rw [raises] at hraises
    simp [stopRuntimeLocked, hraises]
  obtain ⟨hstate, hclient⟩ := @stopRuntimeLocked_stopped x.server clearError
  have hgood : (x.clear S (stopRuntimeLocked x.server clearError false)).Good S held :=
    Good.clear h.accounted hclient (by simp [hstate]) (by simp [stopRuntimeLocked])
  unfold Scene.stop
  dsimp only
  rw [hraises, if_neg (by simp), hstopped]
  exact ⟨hgood.client, hgood.tools, hgood.transport, hgood.accounted⟩

variable {met : ClientMet}

/-- A connection finds no client, or does not come to make one. -/
theorem Good.connectExternal (h : x.Good S held) {strict : Bool} {operationId : Option String}
    (hlaunch : x.server.manifest.launch = .external) (hclient : x.server.client = none ∨ met.made = false)
    (hraises : met.stopRaises = false) : (x.connectExternal S strict operationId met).Good S held := by
  unfold Scene.connectExternal
  split
  · next htransport =>
    have hnone : x.server.client = none := by
      rw [← Option.not_isSome_iff_eq_none]
      exact fun hsome => htransport (h.transport hsome hlaunch)
    exact h.setIdle hnone hnone (by simp) rfl
  rename_i htransport
  have hstreamable : x.server.manifest.transport = .streamableHttp := by simpa using htransport
  dsimp only
  split
  · exact Good.fail (x := x.connecting operationId) h.accounted hraises
  rename_i hmade
  have hnone : x.server.client = none := by
    rcases hclient with hnone | hmade'
    · exact hnone
    · simp [hmade'] at hmade
  have haccounted := Accounted.newClient (x := x.connecting operationId) h.accounted hnone
  split
  · exact Good.fail haccounted hraises
  · next tools _ =>
    split
    · exact Good.fail (x := (x.connecting operationId).newClient.setTools tools) haccounted hraises
    · next hregister => exact Good.serve haccounted rfl (register_ok hregister) fun _ => hstreamable

/-- A restart is scheduled: the server keeps what is read here. -/
theorem scheduleRestartLocked_kept (s : Server) (code : Option Int) : (scheduleRestartLocked s code).1.client = s.client ∧
    (scheduleRestartLocked s code).1.state = s.state ∧ (scheduleRestartLocked s code).1.manifest = s.manifest ∧
    (scheduleRestartLocked s code).1.nextClient = s.nextClient := by
  unfold scheduleRestartLocked
  dsimp only
  split_ifs <;> simp

theorem maybeResetRestartAttempts_kept (s : Server) (stable : Bool) : (maybeResetRestartAttempts s stable).client = s.client ∧
    (maybeResetRestartAttempts s stable).state = s.state ∧ (maybeResetRestartAttempts s stable).manifest = s.manifest ∧
    (maybeResetRestartAttempts s stable).nextClient = s.nextClient := by
  unfold maybeResetRestartAttempts
  split <;> simp

theorem Good.schedule (h : x.Good S held) (code : Option Int) :
    (x.setServer (scheduleRestartLocked x.server code).1).Good S held := by
  obtain ⟨hclient, hstate, hmanifest, hnext⟩ := scheduleRestartLocked_kept x.server code
  exact h.setServer hclient hstate hmanifest hnext

theorem Good.failLaunch (h : x.Accounted held) {stopRaises : Bool} (hraises : stopRaises = false) :
    (x.failLaunch S stopRaises).1.Good S held := by
  unfold Scene.failLaunch
  dsimp only
  rw [if_neg (by simp [raises, hraises])]
  exact (Good.fail h hraises).schedule none

theorem Good.launch (h : x.Good S held) {reset : Bool} (hlaunch : x.server.manifest.launch ≠ .external)
    (hclient : x.server.client = none) (hraises : met.stopRaises = false) : (x.launch S reset met).1.Good S held := by
  have haccounted : (x.launching reset).Accounted held := h.accounted
  have hnew := haccounted.newClient hclient
  unfold Scene.launch
  dsimp only
  split
  · exact Good.failLaunch haccounted hraises
  split
  · exact Good.failLaunch (x := (x.launching reset).newLaunch) hnew hraises
  · split
    · exact Good.failLaunch (x := (x.launching reset).newLaunch.setTools _) hnew hraises
    · next hregister =>
      exact Good.serve (x := (x.launching reset).newLaunch) hnew rfl (register_ok hregister) fun hext => absurd hext hlaunch

theorem Good.start (h : x.Good S held) {reset : Bool} (hraises : met.stopRaises = false) : (x.start S reset met).1.Good S held := by
  unfold Scene.start
  dsimp only
  split
  · exact h
  rename_i hrunning
  have hnone : x.server.client = none := by
    rw [← Option.not_isSome_iff_eq_none]
    exact fun hsome => hrunning ⟨h.client.mp hsome, hsome⟩
  split
  · exact h
  split
  · exact h.setIdle hnone hnone (by simp) rfl
  split
  · next hlaunch => exact h.connectExternal hlaunch (.inl hnone) hraises
  rename_i hlaunch
  split
  · exact h.setIdle hnone hnone (by simp) rfl
  · split
    · exact h.setIdle hnone hnone (by simp) rfl
    · split
      · exact h.setIdle hnone hnone (by simp) rfl
      · exact h.launch hlaunch hnone hraises

theorem Good.ended (h : x.Good S held) (client : Nat) :
    Good S held { x with live := { x.live with ended := client :: x.live.ended } } where
  client := h.client
  tools := h.tools
  transport := h.transport
  accounted c hc := by
    rcases h.accounted c hc with hcurrent | hended | hheld
    · exact .inl hcurrent
    · exact .inr (.inl (List.mem_cons_of_mem _ hended))
    · exact .inr (.inr hheld)

theorem Good.exit (h : x.Good S held) (client : Nat) (met : Met) : (x.exit S client met).1.Good S held := by
  unfold Scene.exit
  dsimp only
  split
  · exact h.ended client
  rename_i hcurrent
  have hrunning : x.server.state = .running := by
    refine h.client.mp ?_
    simp only [Scene.server, ne_eq, Decidable.not_not] at hcurrent ⊢
    simp [hcurrent]
  split
  · next hstopped =>
    -- a server with a client runs
    exact absurd (hrunning.symm.trans hstopped) (by simp)
  have haccounted := (h.ended client).accounted
  obtain ⟨hclient, hstate, -, hnext⟩ := maybeResetRestartAttempts_kept
    { x.server with client := none, state := .failed } met.stable
  have hgood : (Scene.clear S { x with live := { x.live with ended := client :: x.live.ended } }
      (maybeResetRestartAttempts { x.server with client := none, state := .failed } met.stable)).Good S held :=
    Good.clear haccounted hclient (by rw [hstate]; simp) hnext
  exact hgood.schedule (some met.returncode)

/-- The client of a health loop that gives up is in its hands. -/
theorem Good.health (h : x.Good S held) (client : Nat) (met : Met) :
    (x.health S client met).1.Good S fun c => held c ∨ ((x.health S client met).2.1 = .stops ∧ c = client) := by
  have hweaken : ∀ {y : Scene} {other : Prop}, y.Good S held → y.Good S fun c => held c ∨ (other ∧ c = client) := by
    intro y other hy
    refine ⟨hy.client, hy.tools, hy.transport, ?_⟩
    intro c hc
    rcases hy.accounted c hc with hcurrent | hended | hheld
    · exact .inl hcurrent
    · exact .inr (.inl hended)
    · exact .inr (.inr (.inl hheld))
  unfold Scene.health
  dsimp only
  split
  · exact hweaken h
  rename_i hcurrent
  simp only [not_or, ne_eq, Decidable.not_not] at hcurrent
  split
  · obtain ⟨hclient, hstate, hmanifest, hnext⟩ := maybeResetRestartAttempts_kept { x.server with healthFailures := 0 } met.stable
    exact hweaken (h.setServer hclient hstate hmanifest hnext)
  split
  · exact hweaken (h.setServer rfl rfl rfl rfl)
  obtain ⟨hclient, hstate, hmanifest, hnext⟩ := scheduleRestartLocked_kept
    { x.server with healthFailures := x.server.healthFailures + 1, state := .failed, client := none } none
  refine ⟨?_, ?_, ?_, ?_⟩
  · simp only [Scene.server] at hclient hstate ⊢
    rw [hclient, hstate]
    simp
  · rw [shown, if_neg (by simp only [Scene.server] at hstate ⊢; rw [hstate]; simp)]
    exact congrArg some Registry.toolsOf_unregister.symm
  · simp only [Scene.server] at hclient ⊢
    rw [hclient]
    simp
  intro c hc
  rcases h.accounted c (hnext ▸ hc) with hc | hended | hheld
  · rw [hcurrent.1] at hc
    exact .inr (.inr (.inr ⟨rfl, (Option.some.inj hc).symm⟩))
  · exact .inr (.inl hended)
  · exact .inr (.inr (.inl hheld))

theorem Good.refresh (h : x.Good S held) (tools : Option (List Json)) (reconciles : Bool) :
    (x.refresh S tools reconciles).Good S held := by
  unfold Scene.refresh
  split
  · exact h
  rename_i hrunning
  have hclient : x.server.client.isSome = true := by
    simp only [not_or, ne_eq, Decidable.not_not] at hrunning
    exact h.client.mpr hrunning.1
  split
  · exact h
  · split
    · exact h
    · next hregister => exact Good.serve h.accounted hclient (register_ok hregister) (h.transport hclient)

/-- The reconnection succeeds, and its session lives through the one retry. -/
def recovers (S : Setting) (x : Scene) (met : RecoverMet) : Bool :=
  (met.tools.bind (x.register S true true)).isSome && !(met.unchanged && met.retryReadOnly && met.expiresAgain)

theorem Good.recover (h : x.Good S held) (hclient : x.server.client.isSome = true) {met : RecoverMet}
    (hrecovers : x.recovers S met = true) : (x.recover S met).Good S held := by
  simp only [recovers, Bool.and_eq_true, Bool.not_eq_true'] at hrecovers
  obtain ⟨hregisters, hretry⟩ := hrecovers
  unfold Scene.recover
  split
  · next hnone => simp [hnone] at hregisters
  rename_i tools htools
  split
  · next hnone => simp [htools, hnone] at hregisters
  · next reg hregister =>
    dsimp only
    rw [hretry, if_neg (by simp)]
    exact Good.serve h.accounted hclient (register_ok hregister) (h.transport hclient)

theorem Good.invoke (h : x.Good S held) {reply : Reply}
    (hrecovers : ∀ met, reply = .expired met → x.server.manifest.launch = .external → x.server.state = .running →
      x.recovers S met = true) : (x.invoke S reply).Good S held := by
  unfold Scene.invoke
  split
  · exact h
  rename_i hrunning
  simp only [not_or, ne_eq, Decidable.not_not] at hrunning
  split
  · exact h
  · next met =>
    split
    · next hlaunch => exact h.recover (h.client.mpr hrunning.1) (hrecovers met rfl hlaunch hrunning.1)
    · exact h

end Scene

end LingshuGate.Runtime

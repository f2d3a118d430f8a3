import LingshuGate.Runtime.Live
import LingshuGate.Runtime.Manager

/-!
# The runtimes of one server under all its operations (`mcp_runtime.py`)

| here | there |
| --- | --- |
| `World.objects`, `.current` | every `McpServerRuntime` made for the server, and `_servers.get(server_id)` |
| `Event.request`      | `request_start`, `request_stop`, `request_restart` (605, 627, 632) |
| `Event.apply`        | `apply_manifest` (381), in `Stage`s |
| `Event.connect`, `.disconnect` | `connect_external_if_manifest_digest` (797), `disconnect_external_operation` (819) |
| `Event.refresh`, `.call` | `refresh_server_tools` (1250), `invoke_mcp_tool` (1405) before it waits for the lock |
| `Worker`             | the threads of `_monitor_process`, `_health_loop`, `_delayed_restart`, and the calls |

A step is one critical section under `runtime.lock`, or a statement outside of any. Requests, `apply_manifest` and the
external operations hold the lock of the manager to their end; the threads and the calls do not, and take the lock of the
runtime they looked up before, which may have been replaced meanwhile.

`runtime_agrees` is about runs that are `orderly`. `recovery_keeps_client` shows what the others do.
-/

namespace LingshuGate.Runtime.Connections

open Lib Groups

/-! ## The world -/

inductive Worker
  /-- until the process exits -/
  | monitor (runtime client : Nat)
  | health (runtime client : Nat)
  /-- the health loop after it gave its client up -/
  | stopping (runtime client : Nat)
  /-- a delayed restart in its loop, and after it -/
  | sleeping | due
  /-- with the runtime it looked up for its last check -/
  | deciding (runtime : Nat)
  | restarting
  /-- `start_server` of a delayed restart, waiting for the lock -/
  | starting (runtime : Nat)
  /-- `invoke_mcp_tool`, waiting for the lock -/
  | caller (runtime : Nat)
  | done
  deriving DecidableEq

def spawnWorker (runtime : Nat) : Spawn → Worker
  | .monitor client => .monitor runtime client
  | .health client => .health runtime client
  | .timer => .sleeping

inductive Stage
  | stopping | publishing | starting
  /-- the `except`: the registered runtime is stopped, the previous one made again and started -/
  | undoing
  | restoring (stopFailed : Bool)
  | restarting
  deriving DecidableEq

/-- `apply_manifest` under way, with the manifest and the intent of the previous runtime. -/
structure Applying where
  manifest : Manifest
  start : Bool
  previous : Option (Manifest × Desired)
  stage : Stage

/-- Who holds the lock of the manager between two sections. -/
inductive Holder
  | request (r : Request)
  | applying (a : Applying)

structure World where
  objects : List Live := []
  current : Option Nat := none
  registry : Registry := {}
  workers : List Worker := []
  holder : Option Holder := none

/-- `_new_runtime`. -/
def newRuntime (m : Manifest) (desired : Desired) : Live where
  server :=
    { manifest := m
      desired := some desired
      state := if m.launch = .external then .external else if m.enabled then .loaded else .stopped }

namespace World

/-- What a section on a runtime reads. -/
def scene (w : World) (runtime : Nat) : Option Scene := w.objects[runtime]?.map (⟨·, w.registry⟩)

/-- What it wrote. -/
def put (w : World) (runtime : Nat) (x : Scene) : World :=
  { w with objects := w.objects.set runtime x.live, registry := x.registry }

def spawn (w : World) (runtime : Nat) (spawns : List Spawn) : World :=
  { w with workers := w.workers ++ spawns.map (spawnWorker runtime) }

def setWorker (w : World) (i : Nat) (p : Worker) : World := { w with workers := w.workers.set i p }

def release (w : World) : World := { w with holder := none }

def goOn (w : World) (a : Applying) (stage : Stage) : World := { w with holder := some (.applying { a with stage := stage }) }

/-- `_servers[server_id] = _new_runtime(…)`. -/
def publish (w : World) (m : Manifest) (desired : Desired) : World :=
  { w with objects := w.objects ++ [newRuntime m desired], current := some w.objects.length }

/-- The registered runtime, if there is one. -/
def registered (w : World) : Option (Nat × Scene) := w.current.bind fun o => (w.scene o).map (o, ·)

/-- The server before anything is done, as it was loaded, or not there. -/
def initial : Option (Manifest × Desired) → World
  | none => {}
  | some (m, desired) => ({} : World).publish m desired

end World

/-! ## Steps -/

/-- What the holder of the manager lock meets. -/
structure HolderMet where
  client : ClientMet := {}
  stopRaises : Bool := false
  /-- `state_store.set` raises. -/
  intentRaises : Bool := false

structure WorkerMet where
  base : Met := {}
  client : ClientMet := {}
  reply : Reply := .returned

/-- What other servers and Gate itself do to the registry. -/
inductive Elsewhere
  | replace (serverId : String) (records : List Tool)
  | unregister (serverId : String)
  | register (tool : Tool)

inductive Event
  | request (r : Request)
  | apply (manifest : Manifest) (start : Bool)
  /-- The holder of the manager lock comes to its next section. -/
  | «section» (met : HolderMet)
  /-- `admitted`: the digest is the one expected, and `before_connect` returns. -/
  | connect (admitted : Bool) (operationId : Option String) (met : ClientMet)
  /-- `digestMatches`: the manifest is the one the operation connected. -/
  | disconnect (digestMatches : Bool) (operationId : String) (stopRaises : Bool)
  | refresh (tools : Option (List Json)) (reconciles : Bool)
  | call
  | worker (i : Nat) (met : WorkerMet)
  | elsewhere (op : Elsewhere)

variable (S : Setting)

def setDesired (x : Scene) (desired : Desired) : Scene := x.setServer { x.server with desired := some desired }

def requestScene (x : Scene) (met : HolderMet) : Request → Scene × List Spawn
  | .start => x.start S true met.client
  | .stop => (x.stop S true met.stopRaises, [])
  | .restart =>
    let y := x.stop S true met.stopRaises
    if x.raises met.stopRaises then (y, []) else y.start S true met.client

/-- The next section of `apply_manifest`. -/
def applySection (w : World) (met : HolderMet) (a : Applying) : World :=
  match a.stage with
  | .stopping => match w.registered with
    | none => w.goOn a .publishing
    | some (o, x) =>
      (w.put o (x.stop S false met.stopRaises)).goOn a (if x.raises met.stopRaises then .undoing else .publishing)
  | .publishing =>
    if met.intentRaises then w.goOn a .undoing
    else
      let w := w.publish a.manifest (desiredState a.start)
      if a.start then w.goOn a .starting else w.release
  | .starting => match w.registered with
    | none => w.release
    | some (o, x) =>
      let r := x.start S true met.client
      let w := (w.put o r.1).spawn o r.2
      if r.1.server.state = .running then w.release else w.goOn a .undoing
  | .undoing => match w.registered with
    | none => w.goOn a (.restoring false)
    | some (o, x) => (w.put o (x.stop S false met.stopRaises)).goOn a (.restoring (x.raises met.stopRaises))
  | .restoring stopFailed => match a.previous with
    | none => { w.release with current := none }
    | some (m, desired) =>
      if stopFailed then w.release
      else
        let w := w.publish m desired
        if desired = .running then w.goOn a .restarting else w.release
  | .restarting => match w.registered with
    | none => w.release
    | some (o, x) =>
      let r := x.start S true met.client
      ((w.put o r.1).spawn o r.2).release

def workerSection (w : World) (i : Nat) (met : WorkerMet) : Worker → World
  | .monitor o client => match w.scene o with
    | none => w
    | some x =>
      let r := x.exit S client met.base
      (((w.put o r.1).setWorker i .done)).spawn o r.2
  | .health o client => match w.scene o with
    | none => w
    | some x =>
      let r := x.health S client met.base
      ((w.put o r.1).setWorker i (match r.2.1 with
        | .goes => .health o client
        | .ends => .done
        | .stops => .stopping o client)).spawn o r.2.2
  | .stopping o client => match w.scene o with
    | none => w
    | some x =>
      if met.base.stopRaises then w.setWorker i .done
      else (w.put o { x with live := { x.live with ended := client :: x.live.ended } }).setWorker i .done
  | .sleeping => w.setWorker i (if met.base.expired then .due else .done)
  | .due => w.setWorker i (match w.current with
    | none => .done
    | some o => .deciding o)
  | .deciding o => match w.scene o with
    | none => w
    | some x =>
      if restartUnwanted x.server then w.setWorker i .done
      else (w.put o (x.setServer { x.server with restartScheduled := false })).setWorker i .restarting
  | .restarting => w.setWorker i (match w.current with
    | none => .done
    | some o => .starting o)
  | .starting o => match w.scene o with
    | none => w
    | some x =>
      let r := x.start S false met.client
      ((w.put o r.1).setWorker i .done).spawn o r.2
  | .caller o => match w.scene o with
    | none => w
    | some x => (w.put o (x.invoke S met.reply)).setWorker i .done
  | .done => w

def elsewhereSection (w : World) : Elsewhere → World
  | .replace serverId records => match w.registry.replace S.admits serverId records with
    | none => w
    | some reg => { w with registry := reg }
  | .unregister serverId => { w with registry := w.registry.unregister serverId }
  | .register tool => match w.registry.register S.admits tool with
    | none => w
    | some reg => { w with registry := reg }

/-- The section of a connection, and of the end of one. -/
def connectScene (x : Scene) (admitted : Bool) (operationId : Option String) (met : ClientMet) : Scene :=
  if x.server.manifest.launch ≠ .external ∨ admitted = false then x
  else (setDesired x .running).connectExternal S true operationId met

def disconnectScene (x : Scene) (digestMatches : Bool) (operationId : String) (stopRaises : Bool) : Scene :=
  if digestMatches = false ∨ x.live.operationId ≠ some operationId then x
  else if x.server.client.isSome && x.server.manifest.launch ≠ .external then x
  else (setDesired x .stopped).stop S false stopRaises

/-- A section on the registered runtime; without one, `KeyError`. -/
def World.onRegistered (w : World) (f : Scene → Scene) : World :=
  match w.registered with
  | none => w
  | some (o, x) => w.put o (f x)

def next (w : World) : Event → World
  | .request r => match w.registered with
    | none => w
    | some (o, x) => { w.put o (setDesired x r.desired) with holder := some (.request r) }
  | .apply manifest start =>
    let previous := w.registered.map fun ox => (ox.2.server.manifest,
      ox.2.server.desired.getD (desiredState ox.2.server.manifest.autoStart))
    { w with holder := some (.applying ⟨manifest, start, previous, if previous.isSome then .stopping else .publishing⟩) }
  | .section met => match w.holder with
    | none => w
    | some (.applying a) => applySection S w met a
    | some (.request r) => match w.registered with
      | none => w.release
      | some (o, x) =>
        let res := requestScene S x met r
        ((w.put o res.1).spawn o res.2).release
  | .connect admitted operationId met => w.onRegistered (connectScene S · admitted operationId met)
  | .disconnect digestMatches operationId stopRaises => w.onRegistered (disconnectScene S · digestMatches operationId stopRaises)
  | .refresh tools reconciles => w.onRegistered (Scene.refresh S · tools reconciles)
  | .call => match w.current with
    | none => w
    | some o => { w with workers := w.workers ++ [.caller o] }
  | .worker i met => match w.workers[i]? with
    | none => w
    | some p => workerSection S w i met p
  | .elsewhere op => elsewhereSection S w op

def Elsewhere.foreign : Elsewhere → Bool
  | .replace serverId _ | .unregister serverId => serverId ≠ S.serverId
  | .register tool => !ofServer S.serverId tool

/-- The operations of the manager wait for its lock. -/
def possible (w : World) : Event → Bool
  | .request _ | .apply _ _ | .connect .. | .disconnect .. | .refresh .. => w.holder.isNone
  | .section _ => w.holder.isSome
  | .call => true
  | .worker i _ => i < w.workers.length
  | .elsewhere op => op.foreign S

def ServerStep (w : World) (e : Event) (w' : World) : Prop := possible S w e = true ∧ next S w e = w'

/-! ## Orderly steps -/

/-- The registered runtime has no client. -/
def World.unconnected (w : World) : Bool := w.registered.all fun ox => ox.2.server.client.isNone

/-- The registered runtime is about to be replaced or dropped. -/
def World.replaces (w : World) (met : HolderMet) : Bool :=
  match w.holder with
  | some (.applying a) => match a.stage with
    | .publishing => !met.intentRaises
    | .restoring stopFailed => a.previous.isNone || !stopFailed
    | _ => false
  | _ => false

/-- The session expired and the call finds the server running: its recovery succeeds. -/
def replyOrderly (x : Scene) : Reply → Bool
  | .returned => true
  | .expired met => x.server.state ≠ .running || x.server.manifest.launch ≠ .external || x.recovers S met

/-- No `stop()` raises, no recovery of a session fails, no connection is made over another, a runtime is replaced while it
has no client, and a delayed restart starts the runtime that is registered. -/
def orderly (w : World) : Event → Bool
  | .connect _ _ met => (w.unconnected || !met.made) && !met.stopRaises
  | .disconnect _ _ stopRaises => !stopRaises
  | .section met => !met.stopRaises && !met.client.stopRaises && (!w.replaces met || w.unconnected)
  | .worker i met => match w.workers[i]? with
    | some (.starting o) => w.current = some o && !met.client.stopRaises
    | some (.stopping ..) => !met.base.stopRaises
    | some (.caller o) => (w.scene o).all (replyOrderly S · met.reply)
    | _ => true
  | _ => true

def OrderlyStep (w : World) (e : Event) (w' : World) : Prop := ServerStep S w e w' ∧ orderly S w e = true

end LingshuGate.Runtime.Connections

import LingshuGate.Lib.Acts
import LingshuGate.Lib.Threads
import LingshuGate.Connector.Protocol

/-!
# The relay (`connector_relay.py`)

| here | there |
| --- | --- |
| `AgentConnection`, `SavedSession` | the classes (34, 52) |
| `Relay`, `World`           | what `__init__` fixes, and the state of `ConnectorRelay` (61) |
| `bearer`, `consumer`       | `bearer` (84), `consumer` (91) |
| `prune`, `reserve`, `session`, `forget` | the methods (97, 102, 110, 118) |
| `AgentTask.act`            | `agent` (130) |
| `admission`, `dispatch`, `dispatchGuard`, `resume` | `forward` (179) up to its first await, from the last chunk to the lock, in the lock, after the reply |
| `finish`                   | the `finally` of `forward` (305) |
| `Forward.act`              | `forward`, and the timeout of `RelayBoundary` around it (349) |
| `Maintain.act`             | `maintain` (338), and `status` (318) as far as it prunes |

A coroutine runs without interruption from one await to the next, and each such segment is one step. Objects that are shared or
compared with `is` live in a heap and are held by reference. The clock counts milliseconds and is read once in a segment; the
token is what `secrets` gives in it, which was never given before.

A task that waits for the lock takes it in a step of its own once it is free, in any order. What happens to an await is a
`Happening`: it may be done, or raise an exception that the coroutine handles, or end the coroutine by a cancellation or another
exception.
-/

namespace LingshuGate.Connector

open Lib

/-- A reference to a connection or to a session. -/
abbrev Ref := Nat

/-! ## The state -/

inductive Future
  | pending
  | result (reply : RelayResponse)
  /-- `RelayFailure("connector_disconnected_result_unknown", forwarded=True)` -/
  | disconnected

/-- `future.set_exception(…)` of one that is not done. -/
def Future.abandon : Future → Future
  | .pending => .disconnected
  | done => done

structure AgentConnection where
  identity : ConnectorIdentity := ⟨"", []⟩
  targets : Dict String String := ∅
  generation : String := ""
  pending : Dict String Future := ∅
  pendingOwners : Dict String (String × String) := ∅
  /-- `send_lock.locked()` -/
  locked : Bool := false
  lastSeen : Nat := 0

structure SavedSession where
  consumer : String := ""
  target : String := ""
  revision : String := ""
  generation : String := ""
  upstream : String := ""
  deadline : Nat := 0

/-- A frame that was passed to `send_json`, and the call that did. -/
structure Sent where
  call : Nat
  connection : Ref
  frame : RelayRequest

structure World where
  clock : Nat := 0
  /-- What `secrets` has given. -/
  issued : List String := []
  heap : Ref → AgentConnection := fun _ => {}
  /-- The next free reference. -/
  allocated : Nat := 0
  saved : Ref → SavedSession := fun _ => {}
  allocatedSessions : Nat := 0
  connections : Dict String Ref := ∅
  targets : Dict String Ref := ∅
  sessions : Dict String Ref := ∅
  reservations : Dict String Nat := ∅
  handshakes : Int := 0
  wire : List Sent := []
  /-- The number of calls so far. -/
  calls : Nat := 0

structure Relay where
  agents : Dict String ConnectorIdentity
  agentHashes : Dict String String
  consumers : Dict String ConnectorIdentity
  /-- `hashlib.sha256(value).hexdigest()` -/
  sha256 : String → String
  json : JsonReader

inductive Fault
  /-- `RelayFailure(code, status, forwarded=forwarded)` -/
  | relay (code : String) (status : Nat := 503) (forwarded : Bool := false)
  /-- `ServiceConfigError`, `TimeoutError`, `ValueError`, `RuntimeError` or `OSError`. -/
  | exchange
  /-- Any other exception, or a cancellation. -/
  | other

/-! ## Synchronous methods -/

def bearerToken (headers : List (String × String)) : Except Fault String :=
  match headers.filter fun kv => kv.1.toLower = "authorization" with
  | [(_, value)] =>
    if Py.startsWith value "Bearer " && 39 ≤ value.length && value.length ≤ 4103 &&
        (value.toList.drop 7).all (fun c => 33 ≤ c.toNat && c.toNat ≤ 126) then
      .ok (String.ofList (value.toList.drop 7))
    else .error (.relay "connector_authentication_required" 401)
  | _ => .error (.relay "connector_authentication_required" 401)

namespace Relay

variable (relay : Relay)

def bearer (headers : List (String × String)) : Except Fault String := (bearerToken headers).map relay.sha256

def consumer (headers : List (String × String)) : Except Fault ConnectorIdentity := do
  expect (relay.consumers.get (← relay.bearer headers)) (.relay "connector_authentication_required" 401)

end Relay

namespace World

def prune (w : World) : World := { w with sessions := w.sessions.delete fun kv => decide ((w.saved kv.2).deadline ≤ w.clock) }

/-- The saved sessions of a consumer. -/
def occupied (w : World) (consumer : String) : Nat := w.sessions.rows.countP fun kv => (w.saved kv.2).consumer = consumer

def totalReserved (w : World) : Nat := w.reservations.sum

def reserve (consumer : String) (w : World) : Except Fault World :=
  let reserved := (w.reservations.get consumer).getD 0
  if 32 ≤ w.occupied consumer + reserved || 1024 ≤ w.sessions.rows.length + w.totalReserved then
    .error (.relay "connector_session_capacity" 429)
  else .ok { w with reservations := w.reservations.set consumer (reserved + 1) }

/-- The end of a reservation (311-316). -/
def release (consumer : String) (w : World) : World :=
  match w.reservations.get consumer with
  | none => w
  | some n => { w with reservations := if n - 1 = 0 then w.reservations.pop consumer else w.reservations.set consumer (n - 1) }

/-- One connection changes. -/
def edit (w : World) (k : Ref) (f : AgentConnection → AgentConnection) : World :=
  { w with heap := Function.update w.heap k (f (w.heap k)) }

def editSession (w : World) (s : Ref) (f : SavedSession → SavedSession) : World :=
  { w with saved := Function.update w.saved s (f (w.saved s)) }

def forget (k : Ref) (w : World) : World :=
  let c := w.heap k
  let connections := if w.connections.get c.identity.id = some k then w.connections.pop c.identity.id else w.connections
  let targets := c.targets.keys.foldl (fun d t => if d.get t = some k then d.pop t else d) w.targets
  let sessions := w.sessions.delete fun kv => decide ((w.saved kv.2).generation = c.generation)
  { w with connections, targets, sessions }.edit k fun c => { c with pending := c.pending.mapValues Future.abandon }

/-- `sum(len(c.pending) for c in self.connections.values())` -/
def totalPending (w : World) : Nat := (w.connections.rows.map fun kv => (w.heap kv.2).pending.rows.length).sum

/-- There is no room for another request (196, 228). -/
def busy (w : World) (k : Ref) : Bool := inFlight ≤ (w.heap k).pending.rows.length || 64 ≤ w.totalPending

end World

/-! ## `agent` -/

/-- What a segment reads of the clocks and of `secrets`. -/
structure Reading where
  elapsed : Nat := 0
  /-- `int(time.time() * 1000)` -/
  wall : Nat := 0
  token : String

inductive Happening
  /-- What was awaited is done; a coroutine starts. -/
  | done
  | text (raw : String)
  | chunk (bytes : Bytes) (last : Bool)
  /-- An exception that the coroutine handles. -/
  | raises
  /-- The deadline of `asyncio.timeout_at`. -/
  | lapses
  /-- The timeout of `RelayBoundary`. -/
  | boundary
  /-- A cancellation, or an exception that the coroutine does not handle. -/
  | leaves

abbrev Event := Reading × Happening

inductive AgentTask
  | called (headers : List (String × String))
  | accepting (identity : ConnectorIdentity)
  | greeting (identity : ConnectorIdentity)
  /-- Registered; waits for the lock to send `HelloAck` or a `heartbeat_ack`. -/
  | queued (k : Ref)
  | sending (k : Ref)
  | listening (k : Ref)
  /-- Awaits `websocket.close`. -/
  | closing (reserved : Bool) (connection : Option Ref)
  | ended

namespace AgentTask

/-- Line 134 to the first await. -/
def admission (relay : Relay) (w : World) (headers : List (String × String)) : Except Fault ConnectorIdentity := do
  let supplied ← relay.bearer headers
  let identity ← match headers.filter fun kv => kv.1 = "x-gate-agent-id" with
    | [(_, id)] => expect (relay.agents.get id) (.relay "connector_authentication_required" 401)
    | _ => .error (.relay "connector_authentication_required" 401)
  require (relay.agentHashes.get identity.id = some supplied) (.relay "connector_authentication_required" 401)
  require (!(w.connections.has identity.id || 32 ≤ w.handshakes)) (.relay "connector_agent_already_connected_or_busy" 409)
  return identity

/-- What `hello` must meet to be registered (145-148). -/
def greet (relay : Relay) (w : World) (identity : ConnectorIdentity) (raw : String) : Except Fault Hello := do
  let hello ← (parseFrame relay.json raw Hello.validate 16384).mapError fun _ => Fault.exchange
  require (hello.targets.keys.all fun t => decide (t ∈ identity.targets)) (.relay "connector_target_not_allowed" 403)
  require (!(w.connections.has identity.id || hello.targets.keys.any w.targets.has)) (.relay "connector_target_already_connected" 409)
  return hello

/-- The registration (149-153). -/
def register (identity : ConnectorIdentity) (hello : Hello) (generation : String) (w : World) : World :=
  let k := w.allocated
  { w with
    heap := Function.update w.heap k { identity, targets := hello.targets, generation, lastSeen := w.clock }
    allocated := k + 1
    connections := w.connections.set identity.id k
    targets := w.targets.update (Dict.fromKeys hello.targets.keys k)
    handshakes := w.handshakes - 1 }

/-- A reply completes the request it names, if that is still open (166-169). -/
def settle (reply : RelayResponse) (c : AgentConnection) : AgentConnection :=
  match c.pending.get reply.requestId with
  | some .pending => { c with pending := c.pending.set reply.requestId (.result reply) }
  | _ => c

/-- The place holds a handshake, `reserved` in the source. -/
def handshaking : AgentTask → Bool
  | accepting _ | greeting _ | closing true _ => true
  | _ => false

/-- The connection that the task has registered. -/
def connection : AgentTask → Option Ref
  | queued k | sending k | listening k | closing _ (some k) => some k
  | _ => none

/-- `async with self.send_lock` is left. -/
def unlock (p : AgentTask) (w : World) : World :=
  match p with
  | sending k => w.edit k ({ · with locked := false })
  | _ => w

/-- The `finally` (173-177). -/
def finish (p : AgentTask) (w : World) : World :=
  let w := if p.handshaking then { w with handshakes := w.handshakes - 1 } else w
  p.connection.elim w (World.forget · w)

/-- The `except` of the listed exceptions, up to the await of `close` (170-172). -/
def refuse (p : AgentTask) (w : World) : World × AgentTask := (p.unlock w, closing p.handshaking p.connection)

/-- One frame of a registered agent (157-169). -/
def receive (relay : Relay) (w : World) (k : Ref) (raw : String) : World × AgentTask :=
  if frameBytes < raw.length then refuse (listening k) w
  else if raw = "\x7b\"kind\":\"heartbeat\"\x7d" then (w.edit k ({ · with lastSeen := w.clock }), queued k)
  else match parseFrame relay.json raw RelayResponse.validate with
    | .error _ => refuse (listening k) w
    | .ok reply => (w.edit k fun c => { settle reply c with lastSeen := w.clock }, listening k)

def act (relay : Relay) (w : World) (p : AgentTask) (r : Reading) (h : Happening) : World × AgentTask :=
  match p, h with
  | ended, _ => (w, ended)
  | p, .leaves => (p.finish (p.unlock w), ended)
  | closing reserved connection, _ => ((closing reserved connection).finish w, ended)
  | p, .raises => refuse p w
  | called headers, .done =>
    match admission relay w headers with
    | .ok identity => ({ w with handshakes := w.handshakes + 1 }, accepting identity)
    | .error _ => refuse (called headers) w
  | accepting identity, .done => (w, greeting identity)
  | greeting identity, .text raw =>
    match greet relay w identity raw with
    | .ok hello => (register identity hello r.token w, queued w.allocated)
    | .error _ => refuse (greeting identity) w
  | queued k, .done => if (w.heap k).locked then (w, queued k) else (w.edit k ({ · with locked := true }), sending k)
  | sending k, .done => ((sending k).unlock w, listening k)
  | listening k, .text raw => receive relay w k raw
  | p, _ => (w, p)

end AgentTask

/-! ## `forward` -/

structure Request where
  headers : List (String × String)
  target : String
  method : Method

structure Admitted where
  consumer : ConnectorIdentity
  target : String
  connection : Ref
  headers : Dict String String

/-- `headers.pop("mcp-session-id", "")` -/
def Admitted.handle (a : Admitted) : String := (a.headers.get "mcp-session-id").getD ""

/-- A request whose frame is built. -/
structure Call where
  consumer : ConnectorIdentity
  target : String
  connection : Ref
  handle : String
  saved : Option Ref
  frame : RelayRequest

inductive Answer
  | response (status : Nat) (headers : Dict String String) (body : Bytes)
  /-- The answer to a DELETE that the upstream does not support (276). -/
  | deleteUnsupported
  | failure (code : String) (forwarded : Bool) (status : Nat)
  /-- No answer of the relay: an exception has left it. -/
  | raised

inductive Stage
  | called
  | reading (a : Admitted) (body : Bytes)
  /-- In `pending`; waits for the lock. -/
  | queued (c : Call)
  /-- Inside `send_json`. -/
  | sending (c : Call)
  | awaiting (c : Call)
  | ended (answer : Answer)

structure Forward where
  request : Request
  number : Nat := 0
  deadline : Nat := 0
  boundary : Nat := 0
  forwarded : Bool := false
  /-- `state["connector_dispatched"]` -/
  dispatched : Bool := false
  reserved : Bool := false
  stage : Stage := .called

/-- The request that the call has in `pending`. -/
def Stage.call : Stage → Option Call
  | .queued c | .sending c | .awaiting c => some c
  | _ => none

def Stage.consumer : Stage → Option ConnectorIdentity
  | .reading a _ => some a.consumer
  | .queued c | .sending c | .awaiting c => some c.consumer
  | _ => none

def Stage.live : Stage → Bool
  | .ended _ => false
  | _ => true

/-- What a segment of `forward` works on: the state of the relay, and its own locals. -/
structure Segment where
  world : World
  locals : Forward

namespace Segment

abbrev Act := Lib.Act Fault Segment

/-- A method of the relay that may raise. -/
def call (f : World → Except Fault World) : Act Unit := fun s =>
  match f s.world with
  | .ok w => .ok () { s with world := w }
  | .error e => .error e s

def change (f : World → World) : Act Unit := modify fun s => { s with world := f s.world }

end Segment

/-- Lines 189-200: nothing is changed before the body is read. -/
def admission (relay : Relay) (w : World) (request : Request) : Except Fault Admitted := do
  let consumer ← relay.consumer request.headers
  require (request.target ∈ consumer.targets) (.relay "connector_target_unavailable" 404)
  let connection ← expect (w.targets.get request.target) (.relay "connector_target_offline" 503)
  require (!w.busy connection) (.relay "connector_busy" 429)
  let headers ← (filteredHeaders requestHeaders request.headers).mapError fun _ => Fault.exchange
  require (((request.headers.find? (·.1 = "content-encoding")).map (·.2)).getD "identity" = "identity")
    (.relay "connector_content_encoding_unsupported" 415)
  return { consumer, target := request.target, connection, headers }

def unavailable : Fault := .relay "connector_session_unavailable" 404

/-- `session(handle, consumer, target, connection)`, after its `prune`. -/
def World.session (w : World) (handle consumer target : String) (k : Ref) : Except Fault Ref := do
  let s ← expect (w.sessions.get handle) unavailable
  let saved := w.saved s
  require (saved.consumer = consumer && saved.target = target && saved.generation = (w.heap k).generation &&
    some saved.revision = (w.heap k).targets.get target) unavailable
  return s

/-- Line 207. -/
def lookup (a : Admitted) : Segment.Act (Option Ref) :=
  if a.handle = "" then pure none
  else do
    Segment.change World.prune
    return some (← Act.ofExcept ((← get).world.session a.handle a.consumer.id a.target a.connection))

/-- A call that opens a session keeps a place for it (219-221). -/
def keepPlace (a : Admitted) (saved : Option Ref) (rpc : Rpc) : Segment.Act Unit :=
  if saved.isNone && rpc.method ∈ ["initialize", "server/discover"] then do
    Segment.change World.prune
    Segment.call (World.reserve a.consumer.id)
    modify fun s => { s with locals := { s.locals with reserved := true } }
  else pure ()

/-- Lines 213-221. -/
def checkPost (relay : Relay) (headers : Dict String String) (body : Bytes) : Except Fault Rpc := do
  require (mediaType (headers.get "content-type") = "application/json") (.relay "connector_json_required" 415)
  let rpc ← (requestRpc relay.json body).mapError fun _ => Fault.exchange
  require (((headers.get "mcp-method").getD rpc.method) = rpc.method) (.relay "connector_method_header_mismatch" 400)
  return rpc

/-- A DELETE takes the session it names out of the map, another call may keep a place for one (208-221). -/
def claimSession (relay : Relay) (a : Admitted) (headers : Dict String String) (saved : Option Ref) (body : Bytes) :
    Segment.Act Unit := do
  match (← get).locals.request.method with
  | .delete =>
    Act.require (saved.isSome && body.isEmpty) unavailable
    Segment.change fun w => { w with sessions := w.sessions.pop a.handle }
  | .post => keepPlace a saved (← Act.ofExcept (checkPost relay headers body))

/-- The admission just before the request is registered (226-229), and the revision its frame names. -/
def recheck (w : World) (target : String) (k : Ref) : Except Fault String := do
  require (w.targets.get target = some k) (.relay "connector_target_offline")
  require (!w.busy k) (.relay "connector_busy" 429)
  expect ((w.heap k).targets.get target) .other

/-- `connection.pending[request_id] = future`, and its owner (232-233). -/
def World.enqueue (k : Ref) (requestId : String) (owner : String × String) (w : World) : World :=
  w.edit k fun c =>
    { c with pending := c.pending.set requestId .pending, pendingOwners := c.pendingOwners.set requestId owner }

/-- From the end of the body to the lock (206-260). -/
def dispatch (relay : Relay) (r : Reading) (a : Admitted) (body : Bytes) : Segment.Act Call := do
  let headers := a.headers.pop "mcp-session-id"
  let saved ← lookup a
  claimSession relay a headers saved body
  let s ← get
  let headers := saved.elim headers fun ref => headers.set "mcp-session-id" (s.world.saved ref).upstream
  let revision ← Act.ofExcept (recheck s.world a.target a.connection)
  Segment.change (World.enqueue a.connection r.token (a.consumer.id, a.target))
  return {
    consumer := a.consumer, target := a.target, connection := a.connection, handle := a.handle, saved
    frame := {
      requestId := r.token, targetId := a.target, revision, method := s.locals.request.method, timeoutMs := 60000
      expiresAtMs := r.wall + max 1 (s.locals.deadline - s.world.clock), headers, body := encodeBody body } }

/-- The session of a call that is no DELETE (244, 250, 291). -/
def Call.active (c : Call) : Option Ref := if c.frame.method = .delete then none else c.saved

/-- What `dispatch_guard` checks (242-249); the milliseconds that remain. -/
def guardChecks (w : World) (deadline : Nat) (c : Call) : Except Fault Nat := do
  require (w.targets.get c.target = some c.connection) (.relay "connector_target_offline")
  require (c.active.all fun s => decide (w.sessions.get c.handle = some s ∧ w.clock < (w.saved s).deadline)) unavailable
  require (1 ≤ deadline - w.clock) (.relay "connector_dispatch_deadline")
  return deadline - w.clock

/-- The frame as it is sent (254-255). -/
def Call.wired (c : Call) (r : Reading) (remaining : Nat) : Call :=
  { c with frame := { c.frame with timeoutMs := min 60000 remaining, expiresAtMs := r.wall + remaining } }

/-- `dispatch_guard`, and the call of `send_json` (240-257, 48). -/
def dispatchGuard (r : Reading) (c : Call) : Segment.Act Call := do
  let s ← get
  let remaining ← Act.ofExcept (guardChecks s.world s.locals.deadline c)
  Segment.change fun w => c.active.elim w fun s => w.editSession s ({ · with deadline := w.clock + sessionTtl })
  modify fun s => { s with locals := { s.locals with forwarded := true, dispatched := true } }
  let c := c.wired r remaining
  Segment.change fun w => { w with wire := w.wire ++ [⟨s.locals.number, c.connection, c.frame⟩] }
  return c

structure Reply where
  headers : Dict String String
  body : Bytes
  upstream : Option String

/-- What is read of a reply (264-270). -/
def readReply (reply : RelayResponse) : Except Fault Reply := do
  let headers ← (filteredHeaders responseHeaders reply.headers.rows).mapError fun _ => Fault.exchange
  require (headers.rows.length = reply.headers.rows.length) .exchange
  let body ← (decodeBody reply.body responseBytes).mapError fun _ => Fault.exchange
  let upstream := (headers.get "mcp-session-id").filter (· ≠ "")
  require (upstream.all fun u => u.length ≤ 512 && u.toList.all fun c => 33 ≤ c.toNat && c.toNat ≤ 126) .exchange
  return { headers := headers.pop "mcp-session-id", body, upstream }

/-- `self.sessions[handle] = SavedSession(…)` (285). -/
def World.openSession (handle : String) (session : SavedSession) (w : World) : World :=
  { w with
    saved := Function.update w.saved w.allocatedSessions session
    allocatedSessions := w.allocatedSessions + 1
    sessions := w.sessions.set handle w.allocatedSessions }

/-- The session of a successful reply; the handle that the consumer is given (278-290). -/
def keepUpstream (r : Reading) (c : Call) (upstream : String) : Segment.Act String := do
  let s ← get
  match c.saved with
  | some saved =>
    Act.require (s.world.sessions.get c.handle = some saved) (.relay "connector_session_unavailable" 404 true)
    Segment.change fun w => w.editSession saved ({ · with upstream, deadline := w.clock + sessionTtl })
    return c.handle
  | none =>
    Act.require s.locals.reserved .exchange
    let connection := s.world.heap c.connection
    let revision ← Act.ofExcept (expect (connection.targets.get c.target) .other)
    Segment.change (World.openSession r.token {
      consumer := c.consumer.id, target := c.target, revision, generation := connection.generation, upstream
      deadline := s.world.clock + sessionTtl })
    return r.token

/-- The headers of the answer, with the handle where the reply names an upstream session (278-290). -/
def answerHeaders (r : Reading) (c : Call) (status : Nat) (read : Reply) : Segment.Act (Dict String String) :=
  match read.upstream with
  | some upstream =>
    if status < 300 then do
      return read.headers.set "mcp-session-id" (← keepUpstream r c upstream)
    else pure read.headers
  | none => pure read.headers

/-- A call that was answered is activity of its session, or its end (291-295). -/
def World.touchSession (c : Call) (status : Nat) (w : World) : World :=
  match c.active with
  | none => w
  | some s =>
    if w.sessions.get c.handle = some s then
      if status = 404 then { w with sessions := w.sessions.pop c.handle }
      else w.editSession s ({ · with deadline := w.clock + sessionTtl })
    else w

/-- Lines 262-296. -/
def resume (r : Reading) (c : Call) (reply : RelayResponse) : Segment.Act Answer := do
  Act.require ((← get).world.targets.get c.target = some c.connection) (.relay "connector_disconnected_result_unknown" 503 true)
  let read ← Act.ofExcept (readReply reply)
  if c.frame.method = .delete then
    return if reply.status = 405 then .deleteUnsupported else .response reply.status read.headers read.body
  else
    let headers ← answerHeaders r c reply.status read
    Segment.change (World.touchSession c reply.status)
    return .response reply.status headers read.body

/-- The answer of the `except` clauses (297-304). -/
def Fault.answer (forwarded : Bool) : Fault → Answer
  | .relay code status unknown => .failure code (forwarded || unknown) status
  | .exchange => .failure "connector_exchange_failed" forwarded (if forwarded then 502 else 400)
  | .other => .raised

/-- `async with self.send_lock` is left. -/
def Segment.unlock (s : Segment) : Segment :=
  match s.locals.stage with
  | .sending c => { s with world := s.world.edit c.connection ({ · with locked := false }) }
  | _ => s

/-- `connection.pending.pop(request_id, None)`, and its owner (307-308). -/
def World.dismiss (k : Ref) (requestId : String) (w : World) : World :=
  w.edit k fun c => { c with pending := c.pending.pop requestId, pendingOwners := c.pendingOwners.pop requestId }

/-- The `finally` (305-316). -/
def Segment.finish (answer : Answer) (s : Segment) : Segment :=
  let s := s.unlock
  let w := s.locals.stage.call.elim s.world fun c => s.world.dismiss c.connection c.frame.requestId
  let w := if s.locals.reserved then s.locals.stage.consumer.elim w fun consumer => w.release consumer.id else w
  { world := w, locals := { s.locals with stage := .ended answer } }

/-- A segment that ends the call, or brings it to another place. -/
def Segment.settle {α : Type} (next : α → Segment → Segment) : EStateM.Result Fault Segment α → Segment
  | .ok a s => next a s
  | .error e s => s.finish (e.answer s.locals.forwarded)

def Segment.goto (stage : Stage) (s : Segment) : Segment := { s with locals := { s.locals with stage } }

namespace Forward

/-- The answer of `RelayBoundary` to its timeout (384). -/
def boundaryAnswer (f : Forward) : Answer := .failure "connector_deadline_exceeded" f.dispatched 504

/-- Line 182, with the deadline of `RelayBoundary` (372). -/
def begin' (w : World) (f : Forward) : Segment where
  world := { w with calls := w.calls + 1 }
  locals := { f with number := w.calls, boundary := w.clock + 65000, deadline := min (w.clock + 60000) (w.clock + 65000) }

def step (relay : Relay) (r : Reading) (h : Happening) (s : Segment) : Segment :=
  let f := s.locals
  let fail (e : Fault) : Segment := s.finish (e.answer f.forwarded)
  match f.stage, h with
  | .ended _, _ => s
  | .called, .done =>
    let s := begin' s.world f
    match admission relay s.world f.request with
    | .ok a => s.goto (.reading a [])
    | .error e => s.finish (e.answer false)
  | .called, _ => s
  | _, .leaves => s.finish .raised
  | _, .boundary => if f.boundary ≤ s.world.clock then s.finish f.boundaryAnswer else s
  | .reading a body, .chunk bytes last =>
    let body := body ++ bytes
    if requestBytes < body.length then fail (.relay "connector_request_size_limit" 413)
    else if last then .settle (fun c s => s.goto (.queued c)) (dispatch relay r a body s)
    else s.goto (.reading a body)
  | .reading .., _ => s
  | _, .lapses => if f.deadline ≤ s.world.clock then fail .exchange else s
  | .queued c, .done =>
    if (s.world.heap c.connection).locked then s
    else
      -- the guard runs inside the lock, so that its failure leaves it again
      let s : Segment := { s with world := s.world.edit c.connection ({ · with locked := true }) }
      .settle (fun c s => s.goto (.sending c)) (dispatchGuard r c (s.goto (.sending c)))
  | .sending c, .done => s.unlock.goto (.awaiting c)
  | .sending _, .raises => fail .exchange
  | .awaiting c, .done =>
    match (s.world.heap c.connection).pending.get c.frame.requestId with
    | some (.result reply) => .settle (fun answer s => s.finish answer) (resume r c reply s)
    | some .disconnected => fail (.relay "connector_disconnected_result_unknown" 503 true)
    | _ => s
  | _, _ => s

def act (relay : Relay) (w : World) (f : Forward) (r : Reading) (h : Happening) : World × Forward :=
  let s := step relay r h ⟨w, f⟩
  (s.world, s.locals)

end Forward

/-! ## `maintain` and `status` -/

inductive Maintain
  | sleeping
  /-- The connections of the snapshot that are still to be looked at. -/
  | sweeping (rest : List Ref)
  /-- A request for the status; the next. -/
  | status

def Maintain.act (w : World) (p : Maintain) (h : Happening) : World × Maintain :=
  match p, h with
  | .sleeping, .done => (w.prune, .sweeping (w.connections.rows.map (·.2)))
  | .sweeping [], .done => (w, .sleeping)
  | .sweeping (k :: rest), .done =>
    if (w.heap k).lastSeen + 35000 < w.clock then (w.forget k, .sweeping rest) else (w, .sweeping rest)
  | .status, .done => (w.prune, .status)
  | p, _ => (w, p)

/-! ## The relay as it runs -/

inductive Task
  | agent (p : AgentTask)
  | forward (f : Forward)
  | maintain (p : Maintain)

/-- A task as it begins. -/
def Task.starts : Task → Prop
  | .agent p => ∃ headers, p = .called headers
  | .forward f => ∃ request, f = { request }
  | .maintain p => p = .sleeping ∨ p = .status

def Task.act (relay : Relay) (w : World) (p : Task) (r : Reading) (h : Happening) : World × Task :=
  match p with
  | .agent p => ((p.act relay w r h).1, .agent (p.act relay w r h).2)
  | .forward f => ((f.act relay w r h).1, .forward (f.act relay w r h).2)
  | .maintain p => ((p.act w h).1, .maintain (p.act w h).2)

/-- Time has passed, and `secrets` gives a token. -/
def World.advance (r : Reading) (w : World) : World := { w with clock := w.clock + r.elapsed, issued := r.token :: w.issued }

/-- One segment; a token that was given before is not given again. -/
def Relay.segment (relay : Relay) (w : World) (p : Task) (e : Event) : World × Task :=
  if e.1.token ∈ w.issued then (w, p) else p.act relay (w.advance e.1) e.1 e.2

abbrev Serving := Pool World Task

def Relay.Step (relay : Relay) : Serving → Pool.Event Task Event → Serving → Prop :=
  Pool.Step Task.starts (Pool.ofFun relay.segment)

def Relay.starting : Serving := ⟨{}, []⟩

end LingshuGate.Connector

import LingshuGate.Runtime.Outcomes
import LingshuGate.Lib.Threads

/-!
# Requests and responses over stdio (`mcp_stdio_client.py`)

| here | there |
| --- | --- |
| `request`            | `StdioMcpClient.request` (319): one read, one write or one locked section |
| `readStdout`         | `_read_stdout` (481), with `_set_fatal_protocol_error` (597) |
| `launch`             | `start` (102) up to the thread that reads stdout |
| `stopping`, `clearing`, `interrupting` | `stop` (436) |
| `concluded`, `asObject` | how `request` reads its response (395 to 421) |

A generation is the number of a start, and names its process. The queue of a request is named by the request: ids are
given out once. What the child writes is any list of lines. `discover` and the `stop` after its failure are calls like
any other.

`_read_stdout` hands a waiter every object with its id. A request of the server with that id, or an object with neither
`result` nor `error`, is taken for the response: `ping_taken_for_result`. The client over HTTP checks that there is
exactly one of the two (mcp_http_client.py:350). A request that finds no process when it takes one, between a `stop` and
a `start`, fails with its entry left behind: `entry_left_behind`. `responses_matched` says what holds when neither
happens.

Logging, redaction and the writes to the child are left out: nothing here reads them.
-/

namespace LingshuGate.Stdio

open Lib

/-! ## Messages -/

/-- `type(message.get("id")) is int`. -/
def responseId (message : Json) : Option Int :=
  match message.get? "id" with
  | some (.int n) => some n
  | _ => none

/-- A JSON-RPC response: no `method`, and exactly one of `result` and `error`. -/
def isResponse (message : Json) : Bool :=
  (message.get? "method").isNone && ((message.get? "result").isSome != (message.get? "error").isSome)

/-- `result if isinstance(result, dict) else {"result": result}`. -/
def asObject (result : Json) : Json := if result.isObject then result else .obj [("result", result)]

/-- How a call of `request` ended. -/
inductive Ended
  | returned (result : Json)
  | rpcError (error : Json)
  | timeout
  | exited
  | fatal
  | notDispatched
  | notRunning
  /-- `None` has no `poll`. -/
  | noProcess

def concluded (response : Json) : Ended :=
  match response.get? "error" with
  | some error => .rpcError error
  | none => .returned (asObject ((response.get? "result").getD .null))

/-! ## The client and its threads -/

inductive Target
  | waiter (id : Nat)
  | outcome (handle : Nat)
  deriving DecidableEq

/-- `sent` is every message read from a child so far, with the start it belongs to; `delivered` says which of them went
where. Nothing of the client reads the two. -/
structure Client where
  process : Option Nat := none
  generation : Nat := 0
  fatal : Bool := false
  stdoutClosed : Option Nat := none
  responses : Int → Option Nat := fun _ => none
  queues : Nat → Option Json := fun _ => none
  outcomes : OutcomeStore := {}
  ids : Nat := 1
  sent : List (Nat × Json) := []
  delivered : List (Nat × Target) := []

structure Call where
  process : Option Nat
  generation : Nat
  id : Nat
  method : String
  deriving DecidableEq

/-- The checks of the loop, in their order. -/
inductive LoopPc
  | fatal | poll | clock | get
  deriving DecidableEq

inductive RequestPc
  | entering (method : String)
  | takingProcess (method : String)
  | takingGeneration (method : String) (process : Option Nat)
  | takingId (method : String) (process : Option Nat) (generation : Nat)
  | registering (c : Call)
  | writing (c : Call)
  | unregistering (c : Call)
  | loop (at_ : LoopPc) (c : Call)
  | failing (c : Call)
  | leaving (c : Call)
  | expiring (c : Call)
  | refused
  | ended (c : Call) (how : Ended)

inductive ReaderPc
  | reading
  /-- Before the locked section for this message, the `number`th that was sent. -/
  | matching (number : Nat) (message : Json)
  | oversized
  | closing
  | closed

inductive Thread
  | request (pc : RequestPc)
  | launching
  | swapping
  | reader (generation : Nat) (pc : ReaderPc)
  | stopping
  | clearing
  | interrupting
  | outcome (handle : Nat)
  | done

inductive Line
  | oversized
  /-- Empty, or no JSON. -/
  | skipped
  | value (message : Json)

/-- What a statement meets. -/
structure Met where
  /-- `process.poll()` is not `None`. -/
  exited : Bool := false
  /-- The deadline has passed. -/
  expired : Bool := false
  /-- `Popen` or the write raises. -/
  raises : Bool := false
  decodes : Bool := true
  now : Nat := 0
  /-- The next line of stdout; `none` at its end. -/
  line : Option Line := none

section Statements

variable (encode : Json → Nat → Except String Nat) (limits : OutcomeLimits)

/-- `if self._responses.get(request_id) is response_queue: self._responses.pop(request_id, None)`. -/
def Client.popOwn (x : Client) (id : Nat) : Client :=
  if x.responses id = some id then { x with responses := Function.update x.responses id none } else x

def Client.take (x : Client) (id : Nat) : Client := { x with queues := Function.update x.queues id none }

/-- The locked section at the deadline: the reader shares the lock, so it delivers to the waiter or completes what is
retained here. -/
def Client.expire (x : Client) (c : Call) (now : Nat) : Client :=
  let outcomes := x.outcomes.retain limits now c.id c.generation c.id c.method
  { x.popOwn c.id with
    outcomes :=
      if c.generation ≠ x.generation ∨ x.stdoutClosed = some c.generation then outcomes.interruptGeneration now c.generation
      else outcomes }

def request (x : Client) (met : Met) : RequestPc → Client × RequestPc
  | .entering method =>
    if x.process.isNone || met.exited || x.fatal then (x, .refused) else (x, .takingProcess method)
  | .takingProcess method => (x, .takingGeneration method x.process)
  | .takingGeneration method process => (x, .takingId method process x.generation)
  | .takingId method process generation =>
    ({ x with ids := x.ids + 1 }, .registering ⟨process, generation, x.ids, method⟩)
  | .registering c => ({ x with responses := Function.update x.responses c.id (some c.id) }, .writing c)
  | .writing c =>
    if met.raises || x.process.isNone || c.generation ≠ x.generation then (x, .unregistering c) else (x, .loop .fatal c)
  | .unregistering c => (x.popOwn c.id, .ended c .notDispatched)
  | .loop .fatal c => if x.fatal then (x, .failing c) else (x, .loop .poll c)
  | .loop .poll c =>
    if c.process.isNone then (x, .ended c .noProcess)
    else if met.exited || c.generation ≠ x.generation then (x, .leaving c)
    else (x, .loop .clock c)
  | .loop .clock c => if met.expired then (x, .expiring c) else (x, .loop .get c)
  | .loop .get c => match x.queues c.id with
    | some response => (x.take c.id, .ended c (concluded response))
    | none => (x, .loop .fatal c)
  | .failing c => (x.popOwn c.id, .ended c .fatal)
  | .leaving c => match x.queues c.id with
    | some response => (x.take c.id, .ended c (concluded response))
    | none => (x.popOwn c.id, .ended c .exited)
  | .expiring c => match x.queues c.id with
    | some response => (x.take c.id, .ended c (concluded response))
    | none => (x.expire limits c met.now, .ended c .timeout)
  | .refused => (x, .refused)
  | .ended c how => (x, .ended c how)

/-- The locked section for one message with an `id`. A full queue raises, which ends the thread. -/
def deliver (x : Client) (generation number : Nat) (message : Json) (now : Nat) : Client × ReaderPc :=
  match responseId message with
  | none => (x, .reading)
  | some i =>
    if generation ≠ x.generation then (x, .reading)
    else match x.responses i with
      | some q =>
        let x := { x with responses := Function.update x.responses i none }
        if (x.queues q).isSome then (x, .closed)
        else ({ x with
          queues := Function.update x.queues q (some message)
          delivered := x.delivered ++ [(number, .waiter q)] }, .reading)
      | none =>
        let r := x.outcomes.complete encode limits now generation i message
        ({ x with
          outcomes := r.1
          delivered := x.delivered ++ (r.2.map fun handle => (number, Target.outcome handle)).toList }, .reading)

def readStdout (x : Client) (met : Met) (generation : Nat) : ReaderPc → Client × ReaderPc
  | .reading => match met.line with
    | none => (x, .closing)
    | some line =>
      let x' := match line with
        | .value message => { x with sent := x.sent ++ [(generation, message)] }
        | _ => x
      if generation ≠ x.generation then (x', .closing)
      else match line with
        | .oversized => (x', .oversized)
        | .skipped => (x', .reading)
        | .value message => (x', if (message.get? "id").isSome then .matching x.sent.length message else .reading)
  | .matching number message => deliver encode limits x generation number message met.now
  | .oversized => (if generation ≠ x.generation then x else { x with fatal := true }, .closing)
  | .closing =>
    ({ x with
      stdoutClosed := if generation = x.generation then some generation else x.stdoutClosed
      outcomes := x.outcomes.interruptGeneration met.now generation }, .closed)
  | .closed => (x, .closed)

/-- The locked section of `start`: the thread goes on as the reader of the new process. -/
def swap (x : Client) (now : Nat) : Client × Thread :=
  ({ x with
    outcomes := x.outcomes.interruptGeneration now x.generation
    generation := x.generation + 1
    fatal := false
    stdoutClosed := none
    responses := fun _ => none
    process := some (x.generation + 1) }, .reader (x.generation + 1) .reading)

def statement (x : Client) (t : Thread) (met : Met) : Client × Thread :=
  match t with
  | .request pc => ((request limits x met pc).1, .request (request limits x met pc).2)
  | .launching => if x.process.isSome && !met.exited || met.raises then (x, .done) else (x, .swapping)
  | .swapping => swap x met.now
  | .reader generation pc =>
    ((readStdout encode limits x met generation pc).1, .reader generation (readStdout encode limits x met generation pc).2)
  | .stopping => if x.process.isNone then (x, .done) else (x, .clearing)
  | .clearing => ({ x with process := none }, .interrupting)
  | .interrupting => ({ x with outcomes := x.outcomes.interruptGeneration met.now x.generation }, .done)
  | .outcome handle => ({ x with outcomes := x.outcomes.get met.now handle met.decodes }, .done)
  | .done => (x, .done)

/-- A call of the client. -/
def begins : Thread → Bool
  | .request (.entering _) | .launching | .stopping | .outcome _ => true
  | _ => false

def ClientStep : Pool Client Thread → Pool.Event Thread Met → Pool Client Thread → Prop :=
  Pool.Step (begins · = true) (Pool.ofFun (statement encode limits))

/-- What a statement must find: an object that goes to a waiter is a response, or carries an error; and a request that
takes the process finds one. -/
def orderly (x : Client) : Thread → Bool
  | .reader generation (.matching _ message) => match responseId message with
    | none => true
    | some i =>
      generation ≠ x.generation || (x.responses i).isNone || isResponse message || (message.get? "error").isSome
  | .request (.takingProcess _) => x.process.isSome
  | _ => true

def OrderlyStep : Pool Client Thread → Pool.Event Thread Met → Pool Client Thread → Prop :=
  Pool.Step (begins · = true) fun x t met x' t' =>
    Pool.ofFun (statement encode limits) x t met x' t' ∧ orderly x t = true

end Statements

/-- What the client promises of its requests and of what the children sent. -/
structure Matched (w : Pool Client Thread) : Prop where
  /-- What is returned was the result of a response with the id of the request, from the process of its start. -/
  returned : ∀ c v, .request (.ended c (.returned v)) ∈ w.threads → ∃ message result,
    (c.generation, message) ∈ w.shared.sent ∧ isResponse message = true ∧ responseId message = some c.id ∧
      message.get? "result" = some result ∧ v = asObject result
  /-- What a queue or a retained outcome holds was delivered to it. -/
  queued : ∀ id message, w.shared.queues id = some message → ∃ number generation,
    w.shared.sent[number]? = some (generation, message) ∧ (number, .waiter id) ∈ w.shared.delivered
  retained : ∀ o ∈ w.shared.outcomes.entries, ∀ message, o.response = some message → ∃ number,
    w.shared.sent[number]? = some (o.generation, message) ∧ responseId message = some o.requestId ∧
      (number, .outcome o.handle) ∈ w.shared.delivered
  once : ∀ number t t', (number, t) ∈ w.shared.delivered → (number, t') ∈ w.shared.delivered → t = t'
  /-- A timeout or an exit is reported only where nothing was put in the queue. -/
  kept : ∀ c how, .request (.ended c how) ∈ w.threads → how = .timeout ∨ how = .exited →
    ∀ number, (number, .waiter c.id) ∉ w.shared.delivered
  cleared : ∀ c how, .request (.ended c how) ∈ w.threads → ∀ i, w.shared.responses i ≠ some c.id

end LingshuGate.Stdio

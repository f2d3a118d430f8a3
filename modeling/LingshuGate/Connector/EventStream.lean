import LingshuGate.Connector.Protocol
import LingshuGate.Lib.Framing
import LingshuGate.Lib.Lines

/-!
# The reply in an event stream (`connector_protocol.py`)

| here | there |
| --- | --- |
| `SseReply`       | `SseReply` (connector_protocol.py:233) |
| `SseReply.settle`, `SseReply.loop` | the loop of `feed` (251-264), one line end a turn |
| `SseReply.line`  | the body of the loop after the line is cut off (265-280) |
| `SseReply.feed`  | `feed` (245) |
| `feedAll`        | feeding chunks until a reply is found or something is raised |

The upstream sends its answer as an event stream, and the chunks of the body are cut anywhere. `batchReply` reads the whole
body at once: the lines, the events that a blank line ends, and the first event that is the reply. What `feed` has still to
read is `pending`, and a feed leaves that as it is.
-/

namespace LingshuGate.Connector

open Lib
open Lib.Lines (isEnd dropLf split search after)

/-! ## The code -/

/-- `line.decode("utf-8")`; `none` is the `UnicodeDecodeError`. -/
def decodeUtf8 (line : Bytes) : Option String := String.fromUTF8? ⟨line.toArray⟩

/-- `text.removeprefix("\ufeff")`. -/
def removeBom (text : String) : String :=
  if text.toList.head? = some '\ufeff' then String.ofList text.toList.tail else text

/-- The data of a line that is not blank, when it has the field. -/
def dataField (text : String) : List String :=
  if Py.startsWith text "data:" then
    [String.ofList (text.toList.drop (if Py.startsWith text "data: " then 6 else 5))]
  else []

/-- What is done with the data of an event: `json.loads`, `bounded`, `response_matches`. -/
def eventReply (json : JsonReader) (id : RpcId) (data : List String) : Except Raised (Option Bytes) := do
  let raw := Framing.utf8 ("\n".intercalate data)
  let value ← json.bytes raw
  bounded value 100000
  return if responseMatches value id then some raw else none

structure SseReply where
  requestId : RpcId
  buffer : Bytes := []
  data : List String := []
  total : Nat := 0
  events : Nat := 0
  skipLf : Bool := false
  firstLine : Bool := true
  scanOffset : Nat := 0

def eventLimit : Raised := .service "connector_sse_event_limit"

def SseReply.line (json : JsonReader) (s : SseReply) (line : Bytes) : Except Raised (Option Bytes × SseReply) := do
  let decoded ← expect (decodeUtf8 line) .value
  let text := if s.firstLine then removeBom decoded else decoded
  let s := { s with firstLine := false }
  if text = "" then
    let s := { s with events := s.events + 1 }
    require (s.events ≤ 4096) eventLimit
    if s.data = [] then return (none, s)
    else
      let reply ← eventReply json s.requestId s.data
      return (reply, { s with data := [] })
  else return (none, { s with data := s.data ++ dataField text })

/-- `if self.skip_lf and self.buffer: …`. -/
def SseReply.settle (s : SseReply) : SseReply :=
  if s.skipLf && !s.buffer.isEmpty then { s with buffer := dropLf true s.buffer, skipLf := false } else s

/-- The `while` loop; each turn but the last takes a line end off the buffer, so more turns than bytes are enough. -/
def SseReply.loop (json : JsonReader) : Nat → SseReply → Except Raised (Option Bytes × SseReply)
  | 0, s => .ok (none, s)
  | turns + 1, s =>
    let s := s.settle
    match search s.buffer s.scanOffset with
    | none => .ok (none, { s with scanOffset := s.buffer.length })
    | some i =>
      let cut := { s with skipLf := s.buffer[i]? = some 13, buffer := s.buffer.drop (i + 1), scanOffset := 0 }
      match cut.line json (s.buffer.take i) with
      | .error e => .error e
      | .ok (some raw, s') => .ok (some raw, s')
      | .ok (none, s') => loop json turns s'

def SseReply.feed (json : JsonReader) (s : SseReply) (chunk : Bytes) : Except Raised (Option Bytes × SseReply) := do
  require (s.total + chunk.length ≤ responseBytes) (.service "connector_response_size_limit")
  let s := { s with total := s.total + chunk.length, buffer := s.buffer ++ chunk }
  s.loop json (s.buffer.length + 1)

def feedAll (json : JsonReader) (s : SseReply) : List Bytes → Except Raised (Option Bytes)
  | [] => .ok none
  | chunk :: chunks =>
    match s.feed json chunk with
    | .error e => .error e
    | .ok (some raw, _) => .ok (some raw)
    | .ok (none, s') => feedAll json s' chunks

/-! ## The whole body at once -/

/-- The lines as texts, without a byte order mark before the first. -/
def texts (lines : List Bytes) : List (Option String) :=
  match lines with
  | [] => []
  | first :: rest => (decodeUtf8 first).map removeBom :: rest.map decodeUtf8

/-- The data of each event that a blank line ends. A line that is no UTF-8 ends the reading. -/
def eventsOf : List String → List (Option String) → List (Option (List String))
  | _, [] => []
  | _, none :: _ => [none]
  | data, some text :: rest => if text = "" then some data :: eventsOf [] rest else eventsOf (data ++ dataField text) rest

/-- The first event that is the reply, of at most `limit` events. -/
def firstReply (json : JsonReader) (id : RpcId) : Option Nat → List (Option (List String)) → Except Raised (Option Bytes)
  | _, [] => .ok none
  | _, none :: _ => .error .value
  | some 0, some _ :: _ => .error eventLimit
  | limit, some data :: rest =>
    if data = [] then firstReply json id (limit.map (· - 1)) rest
    else
      match eventReply json id data with
      | .error e => .error e
      | .ok (some raw) => .ok (some raw)
      | .ok none => firstReply json id (limit.map (· - 1)) rest

def batchReply (json : JsonReader) (id : RpcId) (limit : Option Nat) (body : Bytes) : Except Raised (Option Bytes) :=
  firstReply json id limit (eventsOf [] (texts (split [] body)))

/-! ## What is still to be read -/

/-- The texts of the lines to come: the mark is taken off the first line only. -/
def textsFrom (first : Bool) (lines : List Bytes) : List (Option String) :=
  if first then texts lines else lines.map decodeUtf8

/-- The answer for the lines to come. -/
def SseReply.answer (json : JsonReader) (s : SseReply) (lines : List Bytes) : Except Raised (Option Bytes) :=
  firstReply json s.requestId (some (4096 - s.events)) (eventsOf s.data (textsFrom s.firstLine lines))

/-- The answer when `future` follows. -/
def SseReply.pending (json : JsonReader) (s : SseReply) (future : Bytes) : Except Raised (Option Bytes) :=
  s.answer json (after s.skipLf (s.buffer ++ future))

variable {json : JsonReader} {s s' : SseReply} {future : Bytes}

theorem textsFrom_cons (first : Bool) (line : Bytes) (lines : List Bytes) : textsFrom first (line :: lines) =
    (decodeUtf8 line).map (fun decoded => if first then removeBom decoded else decoded) :: textsFrom false lines := by
  cases first with
  | true => rfl
  | false =>
    simp only [textsFrom, Bool.false_eq_true, if_false, List.map_cons]
    cases decodeUtf8 line with
    | none | some text => rfl

/-- What one line does to the answer. -/
theorem answer_line (hevents : s.events ≤ 4096) (line : Bytes) (lines : List Bytes) : match s.line json line with
    | .error e => s.answer json (line :: lines) = .error e
    | .ok (some raw, _) => s.answer json (line :: lines) = .ok (some raw)
    | .ok (none, s') => s.answer json (line :: lines) = s'.answer json lines ∧ s'.events ≤ 4096 ∧ s'.total = s.total ∧
        s'.buffer = s.buffer ∧ s'.skipLf = s.skipLf ∧ s'.scanOffset = s.scanOffset := by
  unfold SseReply.line SseReply.answer
  rw [textsFrom_cons]
  cases hdecode : decodeUtf8 line with
  | none => rfl
  | some decoded =>
    simp only [expect, Option.map_some, bind, Except.bind]
    generalize (if s.firstLine = true then removeBom decoded else decoded) = text
    by_cases hblank : text = ""
    · simp only [if_pos hblank, eventsOf]
      by_cases hlimit : s.events + 1 ≤ 4096
      · obtain ⟨left, hleft⟩ : ∃ left, 4096 - s.events = left + 1 := ⟨4096 - s.events - 1, by omega⟩
        have hnext : 4096 - (s.events + 1) = left := by omega
        simp only [require, hlimit, decide_true, if_true, hleft]
        by_cases hdata : s.data = []
        · simp only [if_pos hdata, pure, Except.pure, firstReply, hnext, Option.map_some, Nat.add_sub_cancel]
          exact ⟨by rw [hdata], hlimit, trivial, trivial, trivial, trivial⟩
        simp only [if_neg hdata, firstReply]
        cases hreply : eventReply json s.requestId s.data with
        | error e => rfl
        | ok reply =>
          cases reply with
          | some raw => rfl
          | none =>
            simp only [pure, Except.pure, hnext, Option.map_some, Nat.add_sub_cancel]
            exact ⟨trivial, hlimit, trivial, trivial, trivial, trivial⟩
      · have hleft : 4096 - s.events = 0 := by omega
        simp only [require, hlimit, decide_false, Bool.false_eq_true, if_false, hleft, firstReply]
    · simp only [if_neg hblank, eventsOf, pure, Except.pure]
      exact ⟨trivial, hevents, trivial, trivial, trivial, trivial⟩

/-- The buffer of a reader in its loop: the bytes scanned hold no line end, and a CR is remembered at the start only. -/
structure Scanned (s : SseReply) : Prop where
  clean : ∀ b ∈ s.buffer.take s.scanOffset, isEnd b = false
  start : s.skipLf = true → s.scanOffset = 0
  events : s.events ≤ 4096

/-- A reader that waits for more. -/
structure Waiting (s : SseReply) : Prop where
  clean : ∀ b ∈ s.buffer, isEnd b = false
  scanned : s.scanOffset = s.buffer.length
  start : s.skipLf = true → s.buffer = []
  events : s.events ≤ 4096

theorem Scanned.settle (h : Scanned s) : Scanned s.settle ∧ (s.settle.skipLf = true → s.settle.buffer = []) ∧
    s.settle.total = s.total ∧ s.settle.buffer.length ≤ s.buffer.length ∧
      ∀ future, s.settle.pending json future = s.pending json future := by
  unfold SseReply.settle
  by_cases hskip : (s.skipLf && !s.buffer.isEmpty) = true
  · rw [if_pos hskip]
    obtain ⟨hcr, hne⟩ : s.skipLf = true ∧ s.buffer ≠ [] := by simpa using hskip
    refine ⟨⟨?_, nofun, h.events⟩, nofun, rfl, ?_, ?_⟩
    · intro b hb
      simp [h.start hcr] at hb
    · cases hbuffer : s.buffer with
      | nil => exact absurd hbuffer hne
      | cons b rest =>
        simp only [dropLf]
        split
        · simp
        · exact le_refl _
    · intro future
      simp only [SseReply.pending, after, hcr, Lines.dropLf_append hne, Lines.dropLf_false]
      rfl
  · rw [if_neg hskip]
    refine ⟨h, ?_, rfl, le_refl _, fun _ => rfl⟩
    intro hcr
    simpa [hcr] using hskip

/-- The loop finds what is pending, or leaves it. -/
theorem loop_spec {turns : Nat} (h : Scanned s) (hturns : s.buffer.length < turns) : match s.loop json turns with
    | .error e => ∀ future, s.pending json future = .error e
    | .ok (some raw, _) => ∀ future, s.pending json future = .ok (some raw)
    | .ok (none, s') => Waiting s' ∧ s'.total = s.total ∧ ∀ future, s.pending json future = s'.pending json future := by
  induction turns generalizing s with
  | zero => omega
  | succ turns ih =>
    obtain ⟨hsettled, hstart, htotal, hlength, hsame⟩ := @Scanned.settle json s h
    simp only [SseReply.loop]
    generalize s.settle = t at hsettled hstart htotal hlength hsame ⊢
    cases hsearch : search t.buffer t.scanOffset with
    | none =>
      have hclean := Lines.after_no_end hsearch hsettled.clean
      exact ⟨⟨hclean, rfl, hstart, hsettled.events⟩, htotal, fun future => (hsame future).symm⟩
    | some i =>
      -- a line end has been found, so the buffer is not empty and no LF is to be skipped
      have hskip : t.skipLf = false := by
        cases hcr : t.skipLf with
        | false => rfl
        | true =>
          rw [hstart hcr] at hsearch
          simp [search] at hsearch
      obtain ⟨hi, -⟩ := Lines.after_end hsearch hsettled.clean []
      have hcut : ∀ future, s.pending json future =
          SseReply.answer json { t with skipLf := t.buffer[i]? = some 13, buffer := t.buffer.drop (i + 1), scanOffset := 0 }
            (t.buffer.take i :: after (t.buffer[i]? = some 13) (t.buffer.drop (i + 1) ++ future)) := by
        intro future
        rw [← hsame future, SseReply.pending, hskip, (Lines.after_end hsearch hsettled.clean future).2]
        rfl
      have hline := fun lines => @answer_line json { t with skipLf := t.buffer[i]? = some 13, buffer := t.buffer.drop (i + 1), scanOffset := 0 }
        hsettled.events (t.buffer.take i) lines
      simp only
      cases hread : SseReply.line json { t with skipLf := t.buffer[i]? = some 13, buffer := t.buffer.drop (i + 1), scanOffset := 0 }
          (t.buffer.take i) with
      | error e =>
        rw [hread] at hline
        exact fun future => (hcut future).trans (hline _)
      | ok read =>
        obtain ⟨reply, s'⟩ := read
        cases reply with
        | some raw =>
          rw [hread] at hline
          exact fun future => (hcut future).trans (hline _)
        | none =>
          rw [hread] at hline
          simp only at hline
          obtain ⟨-, hevents, htotal', hbuffer, hskip', hoffset⟩ := hline []
          have hscanned : Scanned s' := ⟨by simp [hoffset], fun _ => hoffset, hevents⟩
          have hshort : s'.buffer.length < turns := by
            rw [hbuffer, List.length_drop]
            omega
          have hnext : ∀ future, s.pending json future = s'.pending json future := by
            intro future
            rw [hcut future, (hline _).1, SseReply.pending, hbuffer, hskip']
          have hrest := ih hscanned hshort
          simp only
          cases hloop : s'.loop json turns with
          | error e =>
            rw [hloop] at hrest
            exact fun future => (hnext future).trans (hrest future)
          | ok found =>
            obtain ⟨reply, s''⟩ := found
            rw [hloop] at hrest
            cases reply with
            | some raw => exact fun future => (hnext future).trans (hrest future)
            | none =>
              obtain ⟨hwaiting, htotal'', hlast⟩ := hrest
              exact ⟨hwaiting, htotal''.trans (htotal'.trans htotal), fun future => (hnext future).trans (hlast future)⟩

/-- A feed finds what is pending, or leaves it. -/
theorem feed_spec (h : Waiting s) (chunk : Bytes) (hsize : s.total + chunk.length ≤ responseBytes) : match s.feed json chunk with
    | .error e => ∀ future, s.pending json (chunk ++ future) = .error e
    | .ok (some raw, _) => ∀ future, s.pending json (chunk ++ future) = .ok (some raw)
    | .ok (none, s') => Waiting s' ∧ s'.total = s.total + chunk.length ∧
        ∀ future, s.pending json (chunk ++ future) = s'.pending json future := by
  have hscanned : Scanned { s with total := s.total + chunk.length, buffer := s.buffer ++ chunk } := by
    refine ⟨?_, ?_, h.events⟩
    · rw [h.scanned, List.take_left]
      exact h.clean
    · intro hcr
      rw [h.scanned, h.start hcr]
      rfl
  have hsame : ∀ future, s.pending json (chunk ++ future) =
      SseReply.pending json { s with total := s.total + chunk.length, buffer := s.buffer ++ chunk } future := by
    intro future
    simp only [SseReply.pending, List.append_assoc]
    rfl
  have hloop := @loop_spec json _ ((s.buffer ++ chunk).length + 1) hscanned (by simp)
  simp only [SseReply.feed, require, hsize, decide_true, if_true, bind, Except.bind, hsame]
  exact hloop

/-- At the end of the body nothing is pending. -/
theorem Waiting.pending_nil (h : Waiting s) : s.pending json [] = .ok none := by
  have hno : after s.skipLf (s.buffer ++ []) = [] := by
    rw [List.append_nil, after]
    refine Lines.split_eq_nil ?_
    intro b hb
    refine h.clean b ?_
    revert hb
    cases s.buffer with
    | nil => exact id
    | cons c rest =>
      simp only [dropLf]
      split
      · exact List.mem_cons_of_mem c
      · exact id
  rw [SseReply.pending, hno, SseReply.answer]
  cases hfirst : s.firstLine with
  | true | false => rfl

/-- The chunks are read to what their concatenation leaves. -/
theorem feedAll_spec {chunks : List Bytes} (h : Waiting s) (hsize : s.total + chunks.flatten.length ≤ responseBytes) :
    feedAll json s chunks = s.pending json chunks.flatten := by
  induction chunks generalizing s with
  | nil => exact h.pending_nil.symm
  | cons chunk chunks ih =>
    rw [List.flatten_cons, List.length_append] at hsize
    have hfeed := @feed_spec json s h chunk (by omega)
    rw [List.flatten_cons]
    simp only [feedAll]
    cases hread : s.feed json chunk with
    | error e =>
      rw [hread] at hfeed
      exact (hfeed _).symm
    | ok read =>
      obtain ⟨reply, s'⟩ := read
      rw [hread] at hfeed
      cases reply with
      | some raw => exact (hfeed _).symm
      | none =>
        obtain ⟨hwaiting, htotal, hnext⟩ := hfeed
        rw [hnext]
        exact ih hwaiting (by omega)

/-- **The reply does not depend on how the body is cut.** Fed in any chunks, a body of at most `RESPONSE_BYTES` bytes gives what
the reading of the whole body gives with the limit of 4096 events: the same reply, none, or the same error. -/
theorem reply_of_chunks (json : JsonReader) (id : RpcId) (chunks : List Bytes) (hsize : chunks.flatten.length ≤ responseBytes) :
    feedAll json { requestId := id } chunks = batchReply json id (some 4096) chunks.flatten := by
  have hstart : Waiting { requestId := id } := ⟨nofun, rfl, nofun, Nat.zero_le 4096⟩
  rw [feedAll_spec hstart (by simpa using hsize)]
  simp only [SseReply.pending, SseReply.answer, after, Lines.dropLf_false, batchReply, textsFrom, if_true]
  rfl

/-- A reader of JSON for which every text is the reply to `1`. -/
def alwaysReply : JsonReader where
  text := fun _ => .error .value
  bytes := fun _ => .ok (.obj [("jsonrpc", .str "2.0"), ("id", .int 1), ("result", .null)])

/-- `data: x`, a blank line, cut between the CR and the LF. -/
theorem reply_of_chunks_cut : feedAll alwaysReply { requestId := .int 1 } [[100, 97, 116, 97, 58, 32, 120, 13], [10, 13], [10]] =
    batchReply alwaysReply (.int 1) (some 4096) [100, 97, 116, 97, 58, 32, 120, 13, 10, 13, 10] :=
  reply_of_chunks alwaysReply (.int 1) [[100, 97, 116, 97, 58, 32, 120, 13], [10, 13], [10]] (by decide)

/-! ## Without the limit -/

theorem split_blank (n : Nat) (rest : Bytes) : split [] (List.replicate n 10 ++ rest) = List.replicate n [] ++ split [] rest := by
  induction n with
  | zero => rfl
  | succ n ih =>
    have hend : isEnd 10 = true := by decide
    rw [List.replicate_succ, List.cons_append, Lines.split_cons_end hend, List.replicate_succ, List.cons_append, ← ih]
    simp

theorem texts_blank (n : Nat) (lines : List Bytes) :
    texts (List.replicate (n + 1) [] ++ lines) = List.replicate (n + 1) (some "") ++ lines.map decodeUtf8 := by
  have hblank : decodeUtf8 [] = some "" := by decide
  have hbom : removeBom "" = "" := by decide
  simp [List.replicate_succ, texts, hblank, hbom]

theorem events_blank (n : Nat) (lines : List (Option String)) :
    eventsOf [] (List.replicate n (some "") ++ lines) = List.replicate n (some []) ++ eventsOf [] lines := by
  induction n with
  | zero => rfl
  | succ n ih => simp [List.replicate_succ, eventsOf, ih]

theorem firstReply_blank (n : Nat) (id : RpcId) (events : List (Option (List String))) :
    firstReply json id none (List.replicate n (some []) ++ events) = firstReply json id none events := by
  induction n with
  | zero => rfl
  | succ n ih => simpa [List.replicate_succ, firstReply] using ih

theorem firstReply_limit {n limit : Nat} (hlimit : limit < n) (id : RpcId) (events : List (Option (List String))) :
    firstReply json id (some limit) (List.replicate n (some []) ++ events) = .error eventLimit := by
  induction n generalizing limit with
  | zero => omega
  | succ n ih =>
    rw [List.replicate_succ, List.cons_append]
    cases limit with
    | zero => rfl
    | succ limit => simpa [firstReply] using ih (by omega)

/-- 4097 blank lines, and then the reply. -/
def lateReply : Bytes := List.replicate 4097 10 ++ [100, 97, 116, 97, 58, 32, 120, 10, 10]

/-- A reader without a limit finds the reply that comes after 4097 events; fed as one chunk, the body is refused. -/
theorem late_reply_refused : lateReply.length ≤ responseBytes ∧ batchReply alwaysReply (.int 1) none lateReply = .ok (some [120]) ∧
      feedAll alwaysReply { requestId := .int 1 } [lateReply] = .error eventLimit := by
  have hlength : lateReply.length = 4106 := by
    rw [lateReply, List.length_append, List.length_replicate]
    rfl
  have hevents : eventsOf [] (texts (split [] lateReply)) = List.replicate 4097 (some []) ++ [some ["x"]] := by
    rw [lateReply, split_blank, texts_blank, events_blank]
    congr 1
  refine ⟨by rw [hlength]; decide, ?_, ?_⟩
  · rw [batchReply, hevents, firstReply_blank]
    decide
  · have hstart : Waiting { requestId := .int 1 } := ⟨nofun, rfl, nofun, Nat.zero_le 4096⟩
    rw [feedAll_spec hstart (by simp [hlength, responseBytes])]
    simp only [SseReply.pending, SseReply.answer, after, textsFrom, if_true, List.flatten_cons, List.flatten_nil, List.append_nil,
      List.nil_append, Lines.dropLf_false, hevents]
    exact firstReply_limit (by omega) _ _

end LingshuGate.Connector

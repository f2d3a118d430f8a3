import LingshuGate.Lib.Asked
import LingshuGate.Runtime.Server

/-!
# Handing a tool call to a client (`mcp_runtime.py`)

| here | there |
| --- | --- |
| `guardedToolCall`          | `_guarded_tool_call` (mcp_runtime.py:80) |
| `invokeMcpTool`            | `invoke_mcp_tool` (1404) |
| `recoverExpiredSession`    | `_recover_expired_session_locked` (1448) |
| `invokeForUser`            | `_invoke_mcp_tool_for_user` (1580) |
| `invokeMcpToolForUser`     | `invoke_mcp_tool_for_user` (1548) |

Whatever is not the runtime's own code is asked: the guards, the client, the registry, the stores. What is answered may depend on
everything that happened before, and every question is an event with its answer, so a theorem about the events of a call is
about every behaviour of them. `not_replayed` is about these events.

A client gets the arguments once with each `call_tool`; what it sends is sent once (`_post_with_context` drops an expired session
and raises). The lock of the service is held, or the call is the user's own session. Logs, telemetry and the reader of a late
outcome are left out; they raise nothing.
-/

namespace LingshuGate.ToolCalls

open Lib Asking
open LingshuGate.Runtime (ServerState LaunchType TransportType)

/-- What is raised. All but `interrupt` are caught by `except Exception`. -/
inductive Raise
  | sessionExpired
  | credentialBinding
  | execution (code : String)
  | error
  | interrupt
  deriving DecidableEq

def Raise.isException (raised : Raise) : Bool := raised ≠ .interrupt

variable (Args Tool Result : Type)

/-- What was asked, and what was raised or answered. -/
inductive Event
  | prepareArguments (prepared : Except Raise Args)
  | dispatchGuard (answer : Except Raise Unit)
  | argumentsGuard (arguments : Args) (answer : Except Raise Unit)
  | dispatchStarted (answer : Except Raise Unit)
  | callTool (arguments : Args) (raised : Option Raise)
  | start (answer : Except Raise Unit)
  | listTools (answer : Except Raise (List Tool))
  | replaceTools (answer : Except Raise Unit)
  | resolveSlots (answer : Except Raise (List String))
  | stop (answer : Except Raise Unit)
  | markUsed (answer : Except Raise Unit)
  | auditSnapshot (answer : Except Raise Unit)

abbrev History := List (Event Args Tool)

/-- The arguments of a request that are functions, each `None` or given. -/
structure Callbacks where
  dispatchGuard : Option (History Args Tool → Except Raise Unit) := none
  argumentsGuard : Option (History Args Tool → Args → Except Raise Unit) := none
  dispatchStarted : Option (History Args Tool → Except Raise Unit) := none
  auditSnapshot : Option (History Args Tool → Except Raise Unit) := none

/-- Everything else that is asked. -/
structure Surroundings where
  callTool : History Args Tool → Args → Except Raise Result
  start : History Args Tool → Except Raise Unit
  listTools : History Args Tool → Except Raise (List Tool)
  /-- `_mcp_tool_records`, strict, and `replace_by_metadata` -/
  replaceTools : History Args Tool → List Tool → Except Raise Unit
  stop : History Args Tool → Except Raise Unit
  markUsed : History Args Tool → Except Raise Unit
  /-- `resolve_slots`: the required slots without a value; no store is `none` -/
  resolveSlots : Option (History Args Tool → Except Raise (List String))
  /-- `prepare_tool_arguments`; no store is `none` -/
  prepareArguments : Option (History Args Tool → Args → Except Raise Args)
  /-- `"fileRef" in arguments` -/
  hasFileRef : Args → Bool
  /-- `tool.get("name") == tool_name` -/
  named : Tool → Bool
  /-- `==` of two definitions -/
  same : Tool → Tool → Bool

/-- The runtime of the service. -/
structure Service where
  state : ServerState
  /-- `isinstance(runtime.client, StreamableHttpMcpClient)`; `none` is no client -/
  streamable : Option Bool
  launch : LaunchType
  transport : TransportType
  tools : List Tool
  /-- `manifest.user_credentials` is not empty -/
  hasSlots : Bool
  /-- a slot of the call has a value -/
  usesSlots : Bool := true

variable {Args Tool Result}

abbrev Call (Args Tool : Type) := Asking Raise (Event Args Tool) (Service Tool)

def setState (state : ServerState) : Call Args Tool Unit := modifyState fun service => { service with state }

def setTools (tools : List Tool) : Call Args Tool Unit := modifyState fun service => { service with tools }

def raisedOf {α : Type} : Except Raise α → Option Raise
  | .ok _ => none
  | .error raised => some raised

variable (env : Surroundings Args Tool Result) (callbacks : Callbacks Args Tool)

/-- `_guarded_tool_call`. -/
def guardedToolCall (arguments : Args) : Call Args Tool Result := do
  askIf callbacks.dispatchGuard .dispatchGuard
  askIf (callbacks.argumentsGuard.map fun check history => check history arguments) (.argumentsGuard arguments)
  askIf callbacks.dispatchStarted .dispatchStarted
  ask (env.callTool · arguments) fun answer => .callTool arguments (raisedOf answer)

/-- `old_tool is None or old_tool != new_tool`, the other way round. -/
def unchanged (before after : List Tool) : Bool :=
  match before.find? env.named, after.find? env.named with
  | some old, some new => env.same old new
  | _, _ => false

/-- `_recover_expired_session_locked`. -/
def recoverExpiredSession (arguments : Args) (retryReadOnly : Bool) : Call Args Tool Result := do
  let service ← getState
  Act.require (service.streamable = some true) .sessionExpired
  setState .starting
  let tools ← tryCatch (do
      ask env.start .start
      let tools ← ask env.listTools .listTools
      ask (env.replaceTools · tools) .replaceTools
      setTools tools
      return tools)
    fun raised =>
      if raised.isException then do
        setState .failed
        throw (.execution "mcp_session_reconnect_failed")
      else throw raised
  setState .running
  Act.require (unchanged env service.tools tools) (.execution "mcp_tool_changed_after_reconnect")
  Act.require retryReadOnly (.execution "mcp_session_reconnected_not_replayed")
  tryCatch (guardedToolCall env callbacks arguments) fun raised =>
    if raised = .sessionExpired then do
      setState .failed
      throw (.execution "mcp_session_reconnect_failed")
    else throw raised

/-- `invoke_mcp_tool`. -/
def invokeMcpTool (arguments : Args) (retryReadOnly : Bool) : Call Args Tool Result := do
  let service ← getState
  Act.require (service.state = .running && service.streamable.isSome) .error
  tryCatch (guardedToolCall env callbacks arguments) fun raised =>
    if raised = .sessionExpired ∧ service.launch = .external then recoverExpiredSession env callbacks arguments retryReadOnly
    else throw raised

/-- The session of a user: the first call, and one more where its session has expired. -/
def userSession (previous : List Tool) (arguments : Args) (retryReadOnly : Bool) : Call Args Tool Result :=
  tryCatch (guardedToolCall env callbacks arguments) fun raised =>
    if raised = .sessionExpired then do
      let tools ← tryCatch (do
          ask env.start .start
          ask env.listTools .listTools)
        fun raised => throw (if raised.isException then .execution "mcp_session_reconnect_failed" else raised)
      Act.require (unchanged env previous tools) (.execution "mcp_tool_changed_after_reconnect")
      Act.require retryReadOnly (.execution "mcp_session_reconnected_not_replayed")
      tryCatch (guardedToolCall env callbacks arguments) fun raised =>
        throw (if raised = .sessionExpired then .execution "mcp_session_reconnect_failed" else raised)
    else throw raised

/-- The `finally` of a user's session: `stop`, and `mark_used` where a session has started with a value. -/
def cleanup (used : Bool) : Call Args Tool Unit :=
  afterwards (ask env.stop .stop) (if used then ask env.markUsed .markUsed else pure ())
    fun _ => if used then ask env.markUsed .markUsed else pure ()

/-- A reference to a file becomes a path. -/
def prepareArguments (service : Service Tool) (arguments : Args) : Call Args Tool Args :=
  if env.hasFileRef arguments then
    match env.prepareArguments with
    | none => throw .error
    | some prepare => do
      Act.require (service.launch = .managedProcess) .error
      ask (prepare · arguments) .prepareArguments
  else pure arguments

/-- The required slots without a value. -/
def missingSlots : Call Args Tool (List String) :=
  match env.resolveSlots with
  | none => throw .credentialBinding
  | some resolve => ask resolve .resolveSlots

/-- `_invoke_mcp_tool_for_user`, from where the arguments are prepared. -/
def invokePrepared (service : Service Tool) (prepared : Args) (retryReadOnly : Bool) : Call Args Tool Result :=
  if !service.hasSlots then
    invokeMcpTool env callbacks prepared retryReadOnly
  else do
    Act.require (service.launch = .external && service.transport = .streamableHttp) .credentialBinding
    let missing ← missingSlots env
    Act.require (missing = []) .credentialBinding
    afterwards (ask env.start .start) (pure ()) fun _ => cleanup env false
    afterwards (userSession env callbacks service.tools prepared retryReadOnly) (cleanup env service.usesSlots)
      fun _ => cleanup env service.usesSlots

/-- `_invoke_mcp_tool_for_user`. -/
def invokeForUser (arguments : Args) (retryReadOnly : Bool) : Call Args Tool Result := do
  let service ← getState
  Act.require (service.state = .running && service.streamable.isSome) .error
  let prepared ← prepareArguments env service arguments
  invokePrepared env callbacks service prepared retryReadOnly

/-- `invoke_mcp_tool_for_user`. -/
def invokeMcpToolForUser (arguments : Args) (retryReadOnly : Bool) : Call Args Tool Result :=
  afterwards (invokeForUser env callbacks arguments retryReadOnly) (askIf callbacks.auditSnapshot .auditSnapshot) fun raised =>
    if raised.isException && raised ≠ .credentialBinding then askIf callbacks.auditSnapshot .auditSnapshot else pure ()

/-! ## The events of a call -/

variable {env callbacks}

def Event.call : Event Args Tool → Option (Args × Option Raise)
  | .callTool arguments raised => some (arguments, raised)
  | _ => none

/-- The times the tool call was handed over, each with what was raised. -/
def calls (events : History Args Tool) : List (Args × Option Raise) := events.filterMap Event.call

@[simp] theorem calls_append (a b : History Args Tool) : calls (a ++ b) = calls a ++ calls b := List.filterMap_append

/-- The guards that are given, passed, in their order. -/
def guards (callbacks : Callbacks Args Tool) (arguments : Args) : History Args Tool :=
  (callbacks.dispatchGuard.map fun _ => .dispatchGuard (.ok ())).toList ++
    (callbacks.argumentsGuard.map fun _ => .argumentsGuard arguments (.ok ())).toList ++
    (callbacks.dispatchStarted.map fun _ => .dispatchStarted (.ok ())).toList

/-- Every hand-over is of these arguments, and right after all guards have passed them. -/
def Guarded (callbacks : Callbacks Args Tool) (arguments : Args) (events : History Args Tool) : Prop :=
  ∀ before arguments' raised after, events = before ++ .callTool arguments' raised :: after →
    arguments' = arguments ∧ guards callbacks arguments <:+ before

/-- The first hand-over ended with an expired session, the tool was listed again as it was before, and then came one more. -/
def Replayed (env : Surroundings Args Tool Result) (tools : List Tool) (retryReadOnly : Bool) (arguments : Args)
    (events : History Args Tool) : Prop :=
  retryReadOnly = true ∧ ∃ first middle second listed raised, events = first ++ middle ++ second ∧
    calls first = [(arguments, some .sessionExpired)] ∧ calls middle = [] ∧ .listTools (.ok listed) ∈ middle ∧
      unchanged env tools listed = true ∧ calls second = [(arguments, raised)]

/-- What a call may have done. -/
structure NotReplayed (env : Surroundings Args Tool Result) (callbacks : Callbacks Args Tool) (tools : List Tool) (retryReadOnly : Bool)
    (arguments : Args) (events : History Args Tool) : Prop where
  guarded : Guarded callbacks arguments events
  once : (calls events).length ≤ 1 ∨ Replayed env tools retryReadOnly arguments events

variable {events : History Args Tool}

variable {arguments : Args}

theorem guarded_quiet (h : calls events = []) : Guarded callbacks arguments events := by
  intro before arguments' raised after heq
  rw [heq, calls_append] at h
  simp [calls, Event.call] at h

theorem guarded_append {a b : History Args Tool} (ha : Guarded callbacks arguments a)
    (hb : Guarded callbacks arguments b) : Guarded callbacks arguments (a ++ b) := by
  intro before arguments' raised after heq
  rcases List.append_eq_append_iff.mp heq with ⟨rest, hbefore, hrest⟩ | ⟨rest, ha', hrest⟩
  · obtain ⟨harguments, hguards⟩ := hb rest arguments' raised after hrest
    exact ⟨harguments, hbefore ▸ hguards.trans (List.suffix_append _ _)⟩
  cases rest with
  | nil =>
    obtain ⟨harguments, hguards⟩ := hb [] arguments' raised after hrest.symm
    exact ⟨harguments, hguards.trans (List.nil_suffix)⟩
  | cons event rest =>
    obtain ⟨rfl, -⟩ := List.cons.inj hrest
    exact ha before arguments' raised rest ha'

theorem calls_guards (arguments : Args) : calls (guards callbacks arguments) = [] := by
  unfold guards
  cases callbacks.dispatchGuard <;> cases callbacks.argumentsGuard <;> cases callbacks.dispatchStarted <;> rfl

theorem guarded_call (arguments : Args) (raised : Option Raise) :
    Guarded callbacks arguments (guards callbacks arguments ++ [Event.callTool arguments raised]) := by
  intro before arguments' raised' after heq
  rcases List.eq_nil_or_concat after with rfl | ⟨front, event, rfl⟩
  · obtain ⟨hbefore, hevent⟩ := List.append_inj' heq rfl
    cases hevent
    exact ⟨rfl, hbefore ▸ List.suffix_refl _⟩
  rw [List.concat_eq_append, ← List.cons_append, ← List.append_assoc] at heq
  obtain ⟨hguards, -⟩ := List.append_inj' heq rfl
  have hnone : calls (guards callbacks arguments) = [] := calls_guards arguments
  rw [hguards, calls_append] at hnone
  simp [calls, Event.call] at hnone

/-! ## One attempt -/

/-- What `_guarded_tool_call` adds: no hand-over and an exception, or the guards and one hand-over with its outcome. -/
def Attempt (callbacks : Callbacks Args Tool) (arguments : Args) (events : History Args Tool) (raised : Option Raise) : Prop :=
  calls events = [] ∧ raised.isSome = true ∨ events = guards callbacks arguments ++ [Event.callTool arguments raised]

variable {world : World (Event Args Tool) (Service Tool)}

theorem askIf_leaves (answer : Option (History Args Tool → Except Raise Unit)) (event : Except Raise Unit → Event Args Tool) :
    Leaves (askIf answer event) world fun new result s => s = world.state ∧ ((∃ raised, result = .error raised ∧ new = [event result]) ∨
      result = .ok () ∧ new = (answer.map fun _ => event (.ok ())).toList) := by
  unfold askIf
  cases answer with
  | none => exact Leaves.pure ⟨rfl, .inr ⟨rfl, rfl⟩⟩
  | some answer =>
    refine Leaves.ask ⟨rfl, ?_⟩
    cases hanswer : answer world.history with
    | ok _ => exact .inr ⟨rfl, rfl⟩
    | error raised => exact .inl ⟨raised, rfl, rfl⟩

theorem guardedToolCall_leaves (world : World (Event Args Tool) (Service Tool)) (arguments : Args) :
    Leaves (guardedToolCall env callbacks arguments) world fun new result s =>
      s = world.state ∧ Attempt callbacks arguments new (raisedOf result) := by
  have hfirst : calls (callbacks.dispatchGuard.map fun _ => (.dispatchGuard (.ok ()) : Event Args Tool)).toList = [] := by
    cases callbacks.dispatchGuard <;> rfl
  have hsecond : calls ((callbacks.argumentsGuard.map fun check history => check history arguments).map
      fun _ => (.argumentsGuard arguments (.ok ()) : Event Args Tool)).toList = [] := by
    cases callbacks.argumentsGuard <;> rfl
  have hguards : guards callbacks arguments = (callbacks.dispatchGuard.map fun _ => .dispatchGuard (.ok ())).toList ++
      (((callbacks.argumentsGuard.map fun check history => check history arguments).map fun _ => .argumentsGuard arguments (.ok ())).toList ++
        (callbacks.dispatchStarted.map fun _ => .dispatchStarted (.ok ())).toList) := by
    rw [guards, List.append_assoc, Option.map_map]
    rfl
  refine Leaves.bind (askIf_leaves _ _) ?_ ?_
  · rintro new e s ⟨rfl, ⟨raised, -, rfl⟩ | ⟨hok, -⟩⟩
    · exact ⟨rfl, .inl ⟨rfl, rfl⟩⟩
    · cases hok
  rintro new ⟨⟩ s ⟨rfl, ⟨raised, herror, -⟩ | ⟨-, rfl⟩⟩
  · cases herror
  refine Leaves.bind (askIf_leaves _ _) ?_ ?_
  · rintro new e s ⟨rfl, ⟨raised, -, rfl⟩ | ⟨hok, -⟩⟩
    · exact ⟨rfl, .inl ⟨by rw [calls_append, hfirst]; rfl, rfl⟩⟩
    · cases hok
  rintro new ⟨⟩ s ⟨rfl, ⟨raised, herror, -⟩ | ⟨-, rfl⟩⟩
  · cases herror
  refine Leaves.bind (askIf_leaves _ _) ?_ ?_
  · rintro new e s ⟨rfl, ⟨raised, -, rfl⟩ | ⟨hok, -⟩⟩
    · exact ⟨rfl, .inl ⟨by rw [calls_append, calls_append, hfirst, hsecond]; rfl, rfl⟩⟩
    · cases hok
  rintro new ⟨⟩ s ⟨rfl, ⟨raised, herror, -⟩ | ⟨-, rfl⟩⟩
  · cases herror
  refine Leaves.ask ⟨rfl, .inr ?_⟩
  rw [hguards]
  simp only [List.append_assoc]

variable {raised : Option Raise}

theorem attempt_calls
    (h : Attempt callbacks arguments events raised) : calls events = [] ∨ calls events = [(arguments, raised)] := by
  rcases h with ⟨hquiet, -⟩ | rfl
  · exact .inl hquiet
  · refine .inr ?_
    rw [calls_append, calls_guards]
    rfl

theorem attempt_guarded (h : Attempt callbacks arguments events raised) : Guarded callbacks arguments events := by
  rcases h with ⟨hquiet, -⟩ | rfl
  · exact guarded_quiet hquiet
  · exact guarded_call arguments raised

/-! ## After an expired session -/

/-- What a recovery adds: no hand-over, or one after the tool was listed again as it was before. -/
structure Recovered (env : Surroundings Args Tool Result) (callbacks : Callbacks Args Tool) (tools : List Tool) (retryReadOnly : Bool)
    (arguments : Args) (events : History Args Tool) : Prop where
  guarded : Guarded callbacks arguments events
  once : calls events = [] ∨ retryReadOnly = true ∧ ∃ middle second listed raised, events = middle ++ second ∧ calls middle = [] ∧
    .listTools (.ok listed) ∈ middle ∧ unchanged env tools listed = true ∧ calls second = [(arguments, raised)]

variable {tools : List Tool} {retryReadOnly : Bool} {arguments : Args}

theorem recovered_quiet (h : calls events = []) : Recovered env callbacks tools retryReadOnly arguments events :=
  ⟨guarded_quiet h, .inl h⟩

theorem recovered_attempt {middle second : History Args Tool} {listed : List Tool} (hretry : retryReadOnly = true)
    (hmiddle : calls middle = []) (hlisted : .listTools (.ok listed) ∈ middle) (hsame : unchanged env tools listed = true)
    (hsecond : Attempt callbacks arguments second raised) :
    Recovered env callbacks tools retryReadOnly arguments (middle ++ second) := by
  refine ⟨guarded_append (guarded_quiet hmiddle) (attempt_guarded hsecond), ?_⟩
  rcases attempt_calls hsecond with hnone | hone
  · exact .inl (by rw [calls_append, hmiddle, hnone]; rfl)
  · exact .inr ⟨hretry, middle, second, listed, raised, rfl, hmiddle, hlisted, hsame, hone⟩

theorem recovered_append {events after : History Args Tool} (hafter : calls after = [])
    (h : Recovered env callbacks tools retryReadOnly arguments events) :
    Recovered env callbacks tools retryReadOnly arguments (events ++ after) := by
  refine ⟨guarded_append h.guarded (guarded_quiet hafter), ?_⟩
  rcases h.once with hquiet | ⟨hretry, middle, second, listed, raised, rfl, hmiddle, hlisted, hsame, hsecond⟩
  · exact .inl (by rw [calls_append, hquiet, hafter]; rfl)
  · refine .inr ⟨hretry, middle, second ++ after, listed, raised, List.append_assoc _ _ _, hmiddle, hlisted, hsame, ?_⟩
    rw [calls_append, hsecond, hafter]
    rfl

theorem notReplayed_attempt (h : Attempt callbacks arguments events raised) :
    NotReplayed env callbacks tools retryReadOnly arguments events := by
  refine ⟨attempt_guarded h, .inl ?_⟩
  rcases attempt_calls h with hnone | hone
  · simp [hnone]
  · simp [hone]

theorem notReplayed_recovered {first rest : History Args Tool} (hfirst : Attempt callbacks arguments first (some .sessionExpired))
    (hrest : Recovered env callbacks tools retryReadOnly arguments rest) :
    NotReplayed env callbacks tools retryReadOnly arguments (first ++ rest) := by
  refine ⟨guarded_append (attempt_guarded hfirst) hrest.guarded, ?_⟩
  rcases attempt_calls hfirst with hnone | hone
  · refine .inl ?_
    rcases hrest.once with hquiet | ⟨-, middle, second, listed, raised, rfl, hmiddle, -, -, hsecond⟩
    · simp [hnone, hquiet]
    · simp [hnone, hmiddle, hsecond]
  · rcases hrest.once with hquiet | ⟨hretry, middle, second, listed, raised, rfl, hmiddle, hlisted, hsame, hsecond⟩
    · exact .inl (by simp [hone, hquiet])
    · exact .inr ⟨hretry, first, middle, second, listed, raised, (List.append_assoc _ _ _).symm, hone, hmiddle, hlisted, hsame, hsecond⟩

/-! Events without a hand-over before and after change nothing. -/

theorem notReplayed_before {before events : History Args Tool} (hbefore : calls before = [])
    (h : NotReplayed env callbacks tools retryReadOnly arguments events) :
    NotReplayed env callbacks tools retryReadOnly arguments (before ++ events) := by
  refine ⟨guarded_append (guarded_quiet hbefore) h.guarded, ?_⟩
  rcases h.once with honce | ⟨hretry, first, middle, second, listed, raised, rfl, hfirst, hmiddle, hlisted, hsame, hsecond⟩
  · exact .inl (by simpa [hbefore] using honce)
  · refine .inr ⟨hretry, before ++ first, middle, second, listed, raised, by simp, ?_, hmiddle, hlisted, hsame, hsecond⟩
    rw [calls_append, hbefore, hfirst]
    rfl

theorem notReplayed_after {events after : History Args Tool} (hafter : calls after = [])
    (h : NotReplayed env callbacks tools retryReadOnly arguments events) :
    NotReplayed env callbacks tools retryReadOnly arguments (events ++ after) := by
  refine ⟨guarded_append h.guarded (guarded_quiet hafter), ?_⟩
  rcases h.once with honce | ⟨hretry, first, middle, second, listed, raised, rfl, hfirst, hmiddle, hlisted, hsame, hsecond⟩
  · exact .inl (by simpa [hafter] using honce)
  · refine .inr ⟨hretry, first, middle, second ++ after, listed, raised, by simp, hfirst, hmiddle, hlisted, hsame, ?_⟩
    rw [calls_append, hsecond, hafter]
    rfl

/-- The tool lists of a new session: no hand-over, and the list that is returned is the one that was answered. -/
def Relisted (events : History Args Tool) (result : Except Raise (List Tool)) : Prop :=
  calls events = [] ∧ ∀ listed, result = .ok listed → .listTools (.ok listed) ∈ events

theorem ask_leaves {α : Type} (answer : History Args Tool → Except Raise α) (event : Except Raise α → Event Args Tool) :
    Leaves (ask answer event) world fun new result _ => new = [event result] := Leaves.ask rfl

theorem relist_leaves {rest : List Tool → Call Args Tool (List Tool)}
    (hrest : ∀ listed world', Leaves (rest listed) world' fun new result _ => calls new = [] ∧ ∀ tools, result = .ok tools → tools = listed) :
    Leaves (ask env.start .start >>= fun _ => ask env.listTools .listTools >>= rest) world fun new result _ => Relisted new result := by
  refine Leaves.bind (ask_leaves _ _) ?_ ?_
  · rintro new e s rfl
    exact ⟨rfl, fun _ h => nomatch h⟩
  rintro new ⟨⟩ s rfl
  refine Leaves.bind (ask_leaves _ _) ?_ ?_
  · rintro new e s rfl
    exact ⟨rfl, fun _ h => nomatch h⟩
  rintro new listed s rfl
  refine (hrest listed _).imp ?_
  rintro more result s' ⟨hquiet, hresult⟩
  refine ⟨by rw [calls_append, calls_append, hquiet]; rfl, ?_⟩
  rintro tools rfl
  rw [hresult tools rfl]
  simp

/-- The checks after a list, and the second attempt. -/
theorem retry_leaves {before : History Args Tool} {listed : List Tool}
    {handler : Raise → Call Args Tool Result} (hquiet : calls before = []) (hlisted : .listTools (.ok listed) ∈ before)
    (hhandler : ∀ raised world', Leaves (handler raised) world' fun new _ _ => calls new = []) :
    Leaves (do
        Act.require (unchanged env tools listed) (.execution "mcp_tool_changed_after_reconnect")
        Act.require retryReadOnly (.execution "mcp_session_reconnected_not_replayed")
        tryCatch (guardedToolCall env callbacks arguments) handler) world fun new _ _ =>
      Recovered env callbacks tools retryReadOnly arguments (before ++ new) := by
  have hstop : ∀ new : History Args Tool, new = [] → Recovered env callbacks tools retryReadOnly arguments (before ++ new) := by
    rintro new rfl
    exact recovered_quiet (by simpa using hquiet)
  refine Leaves.bind (Leaves.require (P := fun new result _ => new = [] ∧ (result = .ok () → unchanged env tools listed = true))
    (fun hsame => ⟨rfl, fun _ => hsame⟩) fun _ => ⟨rfl, fun h => nomatch h⟩) (fun new e s h => hstop new h.1) ?_
  rintro new ⟨⟩ s ⟨rfl, hsame⟩
  refine Leaves.bind (Leaves.require (P := fun new result _ => new = [] ∧ (result = .ok () → retryReadOnly = true))
    (fun hretry => ⟨rfl, fun _ => hretry⟩) fun _ => ⟨rfl, fun h => nomatch h⟩) (fun new e s h => hstop new h.1) ?_
  rintro new ⟨⟩ s ⟨rfl, hretry⟩
  refine Leaves.tryCatch (guardedToolCall_leaves _ _) ?_ ?_
  · rintro new a s ⟨-, hattempt⟩
    exact recovered_attempt (hretry rfl) hquiet hlisted (hsame rfl) hattempt
  rintro new raised s ⟨-, hattempt⟩
  refine (hhandler raised _).imp ?_
  intro more result s' hmore
  have hrecovered := recovered_append hmore (recovered_attempt (hretry rfl) hquiet hlisted (hsame rfl) hattempt)
  rwa [List.append_assoc] at hrecovered

theorem throw_leaves {α : Type} (raised : Raise) :
    Leaves (throw raised : Call Args Tool α) world fun new result _ => new = [] ∧ result = .error raised := Leaves.throw ⟨rfl, rfl⟩

theorem getState_leaves (world : World (Event Args Tool) (Service Tool)) :
    Leaves (getState : Call Args Tool (Service Tool)) world fun new result s => new = [] ∧ result = .ok world.state ∧ s = world.state :=
  Leaves.getState ⟨rfl, rfl, rfl⟩

theorem require_leaves (world : World (Event Args Tool) (Service Tool)) (condition : Bool) (raised : Raise) :
    Leaves (Act.require condition raised : Call Args Tool Unit) world fun new _ s => new = [] ∧ s = world.state :=
  Leaves.require (fun _ => ⟨rfl, rfl⟩) fun _ => ⟨rfl, rfl⟩

theorem failed_leaves {α : Type} {world : World (Event Args Tool) (Service Tool)} (raised : Raise) :
    Leaves (do
      setState .failed
      throw raised : Call Args Tool α) world fun new result _ => new = [] ∧ result = .error raised :=
  Leaves.bind (Leaves.modifyState (P := fun new result _ => new = [] ∧ result = .ok ()) ⟨rfl, rfl⟩) (fun _ _ _ h => nomatch h.2)
    fun new _ _ h => by
      obtain rfl := h.1
      exact throw_leaves raised

/-- Reconnecting and listing, in the way of a shared session. -/
theorem recoverExpiredSession_leaves (world : World (Event Args Tool) (Service Tool)) :
    Leaves (recoverExpiredSession env callbacks arguments retryReadOnly) world fun new _ _ =>
      Recovered env callbacks world.state.tools retryReadOnly arguments new := by
  refine Leaves.bind (getState_leaves world) ?_ ?_
  · rintro new e s ⟨-, hok, -⟩
    cases hok
  rintro new service s ⟨rfl, hok, rfl⟩
  cases hok
  refine Leaves.bind (require_leaves _ _ _) ?_ ?_
  · rintro new e s ⟨rfl, -⟩
    exact recovered_quiet rfl
  rintro new ⟨⟩ s ⟨rfl, -⟩
  refine Leaves.bind (Leaves.modifyState (P := fun new _ _ => new = []) rfl) ?_ ?_
  · rintro new e s rfl
    exact recovered_quiet rfl
  rintro new ⟨⟩ s rfl
  refine Leaves.bind (P := fun new result _ => Relisted new result) (Leaves.tryCatch (relist_leaves ?_) ?_ ?_) ?_ ?_
  · intro listed world'
    refine Leaves.bind (ask_leaves _ _) ?_ ?_
    · rintro new e s rfl
      exact ⟨rfl, fun _ h => nomatch h⟩
    rintro new ⟨⟩ s rfl
    refine Leaves.bind (Leaves.modifyState (P := fun new _ _ => new = []) rfl) ?_ ?_
    · rintro new e s rfl
      exact ⟨rfl, fun _ h => nomatch h⟩
    rintro new ⟨⟩ s rfl
    exact Leaves.pure ⟨rfl, fun _ h => (Except.ok.inj h).symm⟩
  · exact fun _ _ _ h => h
  · rintro new raised s ⟨hquiet, -⟩
    split
    · refine (failed_leaves _).imp ?_
      rintro more result s' ⟨rfl, rfl⟩
      exact ⟨by simpa using hquiet, fun _ h => nomatch h⟩
    · refine (throw_leaves _).imp ?_
      rintro more result s' ⟨rfl, rfl⟩
      exact ⟨by simpa using hquiet, fun _ h => nomatch h⟩
  · rintro new e s ⟨hquiet, -⟩
    exact recovered_quiet hquiet
  rintro new listed s ⟨hquiet, hlisted⟩
  refine Leaves.bind (Leaves.modifyState (P := fun new _ _ => new = []) rfl) ?_ ?_
  · rintro more e s rfl
    exact recovered_quiet (by simpa using hquiet)
  rintro more ⟨⟩ s rfl
  refine retry_leaves hquiet (hlisted listed rfl) ?_
  intro raised world'
  split
  · refine (failed_leaves _).imp ?_
    rintro more result s' ⟨rfl, -⟩
    rfl
  · refine (throw_leaves _).imp ?_
    rintro more result s' ⟨rfl, -⟩
    rfl

/-! ## The two ways of a call -/

theorem notReplayed_quiet (h : calls events = []) :
    NotReplayed env callbacks tools retryReadOnly arguments events := ⟨guarded_quiet h, .inl (by simp [h])⟩

theorem invokeMcpTool_leaves (world : World (Event Args Tool) (Service Tool)) :
    Leaves (invokeMcpTool env callbacks arguments retryReadOnly) world fun new _ _ =>
      NotReplayed env callbacks world.state.tools retryReadOnly arguments new := by
  refine Leaves.bind (getState_leaves world) ?_ ?_
  · rintro new e s ⟨-, hok, -⟩
    cases hok
  rintro new service s ⟨rfl, hok, rfl⟩
  cases hok
  refine Leaves.bind (require_leaves _ _ _) ?_ ?_
  · rintro new e s ⟨rfl, -⟩
    exact notReplayed_quiet rfl
  rintro new ⟨⟩ s ⟨rfl, rfl⟩
  refine Leaves.tryCatch (guardedToolCall_leaves _ _) (fun new a s h => notReplayed_attempt h.2) ?_
  rintro new raised s ⟨rfl, hattempt⟩
  split
  · rename_i hexpired
    rw [hexpired.1] at hattempt
    refine (recoverExpiredSession_leaves _).imp ?_
    intro more result s' hrecovered
    exact (notReplayed_recovered hattempt hrecovered :
      NotReplayed env callbacks world.state.tools retryReadOnly arguments (new ++ more))
  · refine (throw_leaves _).imp ?_
    rintro more result s' ⟨rfl, -⟩
    rw [List.append_nil]
    exact notReplayed_attempt hattempt

/-- The session of a user. -/
theorem userSession_leaves (world : World (Event Args Tool) (Service Tool)) :
    Leaves (userSession env callbacks tools arguments retryReadOnly) world fun new _ _ =>
      NotReplayed env callbacks tools retryReadOnly arguments new := by
  refine Leaves.tryCatch (guardedToolCall_leaves _ _) (fun new a s h => notReplayed_attempt h.2) ?_
  rintro new raised s ⟨-, hattempt⟩
  split
  · rename_i hexpired
    rw [hexpired] at hattempt
    refine Leaves.bind (P := fun new result _ => Relisted new result) (Leaves.tryCatch (P := fun new result _ => Relisted new result) ?_ ?_ ?_) ?_ ?_
    · refine Leaves.bind (ask_leaves _ _) ?_ ?_
      · rintro new e s rfl
        exact ⟨rfl, fun _ h => nomatch h⟩
      rintro new ⟨⟩ s rfl
      refine (ask_leaves _ _).imp ?_
      rintro more result s' rfl
      refine ⟨rfl, ?_⟩
      rintro listed rfl
      simp
    · exact fun _ _ _ h => h
    · rintro new e s ⟨hquiet, -⟩
      refine (throw_leaves _).imp ?_
      rintro more result s' ⟨rfl, rfl⟩
      exact ⟨by simpa using hquiet, fun _ h => nomatch h⟩
    · rintro more e s ⟨hquiet, -⟩
      exact notReplayed_recovered hattempt (recovered_quiet hquiet)
    rintro more listed s ⟨hquiet, hlisted⟩
    refine (retry_leaves hquiet (hlisted listed rfl) ?_).imp fun more' result s' h => notReplayed_recovered hattempt h
    intro raised' world'
    refine (throw_leaves _).imp ?_
    rintro more' result s' ⟨rfl, -⟩
    rfl
  · refine (throw_leaves _).imp ?_
    rintro more result s' ⟨rfl, -⟩
    rw [List.append_nil]
    exact notReplayed_attempt hattempt

/-- What is done afterwards hands nothing over. -/
theorem afterwards_leaves {α : Type} {x : Call Args Tool α} {onOk : Call Args Tool Unit} {onError : Raise → Call Args Tool Unit}
    {P : History Args Tool → Prop} (hx : Leaves x world fun new _ _ => P new)
    (hclosed : ∀ new more, P new → calls more = [] → P (new ++ more))
    (hok : ∀ world', Leaves onOk world' fun new _ _ => calls new = [])
    (herror : ∀ raised world', Leaves (onError raised) world' fun new _ _ => calls new = []) :
    Leaves (afterwards x onOk onError) world fun new _ _ => P new := by
  refine Leaves.afterwards hx ?_ ?_
  · intro new a s hnew
    refine Leaves.bind (hok _) (fun more _ _ hmore => hclosed new more hnew hmore) ?_
    intro more _ s' hmore
    refine Leaves.pure ?_
    rw [List.append_nil]
    exact hclosed new more hnew hmore
  intro new raised s hnew
  refine Leaves.bind (herror raised _) (fun more _ _ hmore => hclosed new more hnew hmore) ?_
  intro more _ s' hmore
  refine Leaves.throw ?_
  rw [List.append_nil]
  exact hclosed new more hnew hmore

theorem calls_closed (new more : History Args Tool) (hnew : calls new = []) (hmore : calls more = []) : calls (new ++ more) = [] := by
  rw [calls_append, hnew, hmore]
  rfl

theorem cleanup_leaves (world : World (Event Args Tool) (Service Tool)) (used : Bool) :
    Leaves (cleanup env used) world fun new _ _ => calls new = [] := by
  have hused : ∀ world', Leaves (if used then ask env.markUsed .markUsed else pure () : Call Args Tool Unit) world'
      fun new _ _ => calls new = [] := by
    intro world'
    split
    · refine (ask_leaves _ _).imp ?_
      rintro new result s rfl
      rfl
    · exact Leaves.pure rfl
  refine afterwards_leaves ((ask_leaves _ _).imp ?_) calls_closed hused fun _ => hused
  rintro new result s rfl
  rfl

/-- The arguments that a user's call works with: its own, or what became of its file reference. -/
def Prepared (env : Surroundings Args Tool Result) (arguments prepared : Args) (events : History Args Tool) : Prop :=
  env.hasFileRef arguments = false ∧ prepared = arguments ∨
    env.hasFileRef arguments = true ∧ .prepareArguments (.ok prepared) ∈ events

/-- What a user's call may have done. -/
def UserNotReplayed (env : Surroundings Args Tool Result) (callbacks : Callbacks Args Tool) (tools : List Tool) (retryReadOnly : Bool)
    (arguments : Args) (events : History Args Tool) : Prop :=
  calls events = [] ∨ ∃ prepared, Prepared env arguments prepared events ∧
    NotReplayed env callbacks tools retryReadOnly prepared events

theorem userNotReplayed_closed (new more : History Args Tool) (hnew : UserNotReplayed env callbacks tools retryReadOnly arguments new)
    (hmore : calls more = []) : UserNotReplayed env callbacks tools retryReadOnly arguments (new ++ more) := by
  rcases hnew with hquiet | ⟨prepared, hprepared, hnot⟩
  · exact .inl (calls_closed new more hquiet hmore)
  · refine .inr ⟨prepared, hprepared.imp_right fun h => ⟨h.1, List.mem_append_left _ h.2⟩, ?_⟩
    exact notReplayed_after hmore hnot

theorem missingSlots_leaves (world : World (Event Args Tool) (Service Tool)) :
    Leaves (missingSlots env) world fun new _ _ => calls new = [] := by
  unfold missingSlots
  split
  · exact Leaves.throw rfl
  · refine (ask_leaves _ _).imp ?_
    rintro new result s rfl
    rfl

theorem prepareArguments_leaves (history : History Args Tool) (service : Service Tool) :
    Leaves (prepareArguments env service arguments) ⟨history, service⟩ fun new result s => s = service ∧ calls new = [] ∧
      ∀ prepared, result = .ok prepared → Prepared env arguments prepared new := by
  unfold prepareArguments
  split
  · rename_i href
    split
    · exact Leaves.throw ⟨rfl, rfl, fun _ h => nomatch h⟩
    refine Leaves.bind (require_leaves _ _ _) ?_ ?_
    · rintro new e s ⟨rfl, rfl⟩
      exact ⟨rfl, rfl, fun _ h => nomatch h⟩
    rintro new ⟨⟩ s ⟨rfl, rfl⟩
    refine Leaves.ask ⟨rfl, rfl, ?_⟩
    intro prepared hprepared
    rw [hprepared]
    exact .inr ⟨href, List.mem_singleton_self _⟩
  rename_i href
  refine Leaves.pure ⟨rfl, rfl, ?_⟩
  rintro prepared hprepared
  cases hprepared
  exact .inl ⟨by simpa using href, rfl⟩

theorem invokePrepared_leaves {prepared : Args} (history : History Args Tool) (service : Service Tool) :
    Leaves (invokePrepared env callbacks service prepared retryReadOnly) ⟨history, service⟩ fun new _ _ =>
      NotReplayed env callbacks service.tools retryReadOnly prepared new := by
  unfold invokePrepared
  split
  · exact invokeMcpTool_leaves _
  refine Leaves.bind (require_leaves _ _ _) ?_ ?_
  · rintro new e s ⟨rfl, -⟩
    exact notReplayed_quiet rfl
  rintro new ⟨⟩ s ⟨rfl, -⟩
  refine Leaves.bind (missingSlots_leaves _) (fun new _ _ h => notReplayed_quiet h) ?_
  intro first missing s hfirst
  refine Leaves.bind (require_leaves _ _ _) ?_ ?_
  · rintro new e s ⟨rfl, -⟩
    exact notReplayed_quiet (by simpa using hfirst)
  rintro new ⟨⟩ s ⟨rfl, -⟩
  refine Leaves.bind (P := fun new _ _ => calls new = []) (afterwards_leaves ((ask_leaves _ _).imp ?_) calls_closed ?_ ?_) ?_ ?_
  · rintro new result s rfl
    rfl
  · exact fun _ => Leaves.pure rfl
  · exact fun _ world' => cleanup_leaves world' false
  · rintro new e s hquiet
    exact notReplayed_quiet (by simp [hfirst, hquiet])
  intro second _ s hsecond
  refine (afterwards_leaves (userSession_leaves _) ?_ (fun world' => cleanup_leaves world' _) fun _ world' => cleanup_leaves world' _).imp ?_
  · intro new more hnew hmore
    exact notReplayed_after hmore hnew
  · intro new result s' hnew
    have hbefore : calls (first ++ second) = [] := calls_closed first second hfirst hsecond
    have hall := notReplayed_before hbefore hnew
    rwa [List.append_assoc] at hall

theorem invokeForUser_leaves (world : World (Event Args Tool) (Service Tool)) :
    Leaves (invokeForUser env callbacks arguments retryReadOnly) world fun new _ _ =>
      UserNotReplayed env callbacks world.state.tools retryReadOnly arguments new := by
  refine Leaves.bind (getState_leaves world) ?_ ?_
  · rintro new e s ⟨-, hok, -⟩
    cases hok
  rintro new service s ⟨rfl, hok, rfl⟩
  cases hok
  refine Leaves.bind (require_leaves _ _ _) ?_ ?_
  · rintro new e s ⟨rfl, -⟩
    exact .inl rfl
  rintro new ⟨⟩ s ⟨rfl, rfl⟩
  refine Leaves.bind (prepareArguments_leaves _ world.state) (fun new _ _ h => .inl h.2.1) ?_
  rintro before prepared s ⟨rfl, hquiet, hprepared⟩
  refine (invokePrepared_leaves _ world.state).imp ?_
  intro new result s hnew
  refine .inr ⟨prepared, ?_, (notReplayed_before hquiet hnew :
    NotReplayed env callbacks world.state.tools retryReadOnly prepared (before ++ new))⟩
  exact (hprepared prepared rfl).imp_right fun h => ⟨h.1, List.mem_append_left new h.2⟩

/-- **A tool call is not replayed.** Whatever the guards, the client and the stores do, a call hands the tool call over at most
once, or a second time where the first attempt ended with an expired session, `retry_read_only` is set and the tool is listed after
the reconnect as it was before; and right before each hand-over the guards have passed the same prepared arguments. -/
theorem not_replayed (env : Surroundings Args Tool Result) (callbacks : Callbacks Args Tool) (arguments : Args) (retryReadOnly : Bool)
    (world : World (Event Args Tool) (Service Tool)) :
    (Leaves (invokeMcpTool env callbacks arguments retryReadOnly) world fun events _ _ =>
      NotReplayed env callbacks world.state.tools retryReadOnly arguments events) ∧
    Leaves (invokeMcpToolForUser env callbacks arguments retryReadOnly) world fun events _ _ =>
      UserNotReplayed env callbacks world.state.tools retryReadOnly arguments events := by
  refine ⟨invokeMcpTool_leaves world, ?_⟩
  have haudit : ∀ world', Leaves (askIf callbacks.auditSnapshot .auditSnapshot : Call Args Tool Unit) world'
      fun new _ _ => calls new = [] := by
    intro world'
    refine (askIf_leaves _ _).imp ?_
    rintro new result s ⟨-, ⟨raised, -, rfl⟩ | ⟨-, rfl⟩⟩
    · rfl
    · cases callbacks.auditSnapshot <;> rfl
  refine afterwards_leaves (invokeForUser_leaves world) userNotReplayed_closed haudit ?_
  intro raised world'
  split
  · exact haudit world'
  · exact Leaves.pure rfl

end LingshuGate.ToolCalls

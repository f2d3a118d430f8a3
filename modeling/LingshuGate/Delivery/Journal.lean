import LingshuGate.Lib.Json
import LingshuGate.Lib.Threads

/-!
# The journal of delivery operations (`project_delivery_mcp.py`)

| here | there |
| --- | --- |
| `ToolError`           | `ToolExecutionError`, its `to_payload` (registry.py:84) |
| `Row`                 | `mcp_idempotent_operations` (database.py:405) |
| `reserveOperation`    | `_reserve_operation` (613): one transaction |
| `settle`, `settles`   | `_complete_operation` (725), `_fail_operation` (768) |
| `runIdempotent`       | `_run_idempotent` (778): what a call does between two transactions |

The calls share an actor, a tool and an idempotency key, so there is at most one row. `journal_once` says what the row
is for: the action starts at most once, whatever the interleaving, and how the first call ended is what every later one
is told. An action that outlives its lease finds the row `failed` and cannot complete it.

A replayed error has no empty code, message or next action: `replayError` fills them in.

Results and details are JSON objects; `_canonical_json` and `_safe_json_loads` are not visible in one that was stored.
A call that crashes makes no further statement. The resource of a row is left out: nothing here reads it.
-/

namespace LingshuGate.Delivery

open Lib

/-- `dict[str, Any]`. -/
abbrev Dict := List (String × Json)

/-- `d[key] = value`. -/
def Dict.set (d : Dict) (key : String) (value : Json) : Dict :=
  if d.any (·.1 = key) then d.map fun kv => if kv.1 = key then (key, value) else kv else d ++ [(key, value)]

/-- `d.setdefault(key, value)`. -/
def Dict.setDefault (d : Dict) (key : String) (value : Json) : Dict :=
  if d.any (·.1 = key) then d else d ++ [(key, value)]

structure ToolError where
  code : String
  message : String
  retryable : Bool := false
  nextAction : String := ""
  details : Dict := []

/-- `status`, with the `result_json` or `error_json` it comes with. -/
inductive OperationStatus
  | pending
  | succeeded (result : Dict)
  | failed (error : ToolError)

def OperationStatus.isPending : OperationStatus → Bool
  | .pending => true
  | _ => false

def OperationStatus.text : OperationStatus → String
  | .pending => "pending" | .succeeded _ => "succeeded" | .failed _ => "failed"

structure Row where
  id : String
  requestDigest : String
  status : OperationStatus := .pending
  updatedAt : String

/-! ## The errors -/

def conflict (toolId operationId : String) : ToolError where
  code := "idempotency_conflict"
  message := "同一幂等键已绑定到不同请求"
  nextAction := "生成新的 idempotency_key，并重新确认本次操作摘要。"
  details := [("operation_id", .str operationId), ("tool_id", .str toolId)]

def inProgress (toolId operationId : String) : ToolError where
  code := "operation_in_progress"
  message := "同一幂等请求正在处理中"
  retryable := true
  nextAction := "稍后使用相同参数和幂等键重试。"
  details := [("operation_id", .str operationId), ("tool_id", .str toolId)]

def interrupted (toolId operationId lastUpdatedAt : String) : ToolError where
  code := "operation_interrupted"
  message := "先前的同幂等操作已超出租约，完成状态无法安全确认"
  nextAction :=
    "先查询对应上传、构建、部署或服务状态；确认副作用未生效后，使用新的 idempotency_key 重试。原幂等键不会自动重放。"
  details := [("operation_id", .str operationId), ("tool_id", .str toolId),
    ("last_updated_at", if lastUpdatedAt = "" then .null else .str lastUpdatedAt), ("lease_seconds", .int 1800),
    ("completion_state", .str "unknown")]

def completionConflict (operationId operationStatus : String) : ToolError where
  code := "operation_completion_conflict"
  message := "操作执行结束，但幂等记录已不再处于 pending 状态"
  nextAction := "查询相关资源状态；不要用原幂等键自动重放副作用。"
  details := [("operation_id", .str operationId), ("operation_status", .str operationStatus)]

def internalError (operationId errorType : String) : ToolError where
  code := "internal_error"
  message := "Gate 在处理操作时发生内部错误"
  nextAction := "查看 Gate 服务端审计日志后，使用新的幂等键重试。"
  details := [("operation_id", .str operationId), ("error_type", .str errorType)]

/-- `error.get(...) or default`. -/
def orDefault (text default : String) : String := if text = "" then default else text

/-- The error a later call raises for a recorded one (669). -/
def replayError (e : ToolError) : ToolError :=
  { e with
    code := orDefault e.code "operation_failed"
    message := orDefault e.message "先前的同幂等请求已经失败"
    nextAction := orDefault e.nextAction "使用新的幂等键重试。" }

/-- The recorded result with the two fields of a replay (663). -/
def replayResult (result : Dict) (correlationId : String) : Dict :=
  Dict.set (Dict.set result "idempotent_replay" (.bool true)) "replay_correlation_id" (.str correlationId)

/-! ## The transactions -/

/-- What `_reserve_operation` returns: nothing to replay, a result, or an error. -/
inductive Reservation
  | granted (operationId : String)
  | replayed (result : Dict)
  | refused (error : ToolError)

/-- `not last_updated_at or last_updated_at <= lease_cutoff`. -/
def leaseExpired (updatedAt cutoff : String) : Bool := updatedAt = "" || updatedAt ≤ cutoff

/-- `operationId`, `now` and `cutoff` are the new id and the two times read from the clock. -/
def reserveOperation (toolId digest correlationId operationId now cutoff : String) : Option Row → Option Row × Reservation
  | none => (some ⟨operationId, digest, .pending, now⟩, .granted operationId)
  | some row =>
    if row.requestDigest ≠ digest then (some row, .refused (conflict toolId row.id))
    else match row.status with
      | .succeeded result => (some row, .replayed (replayResult result correlationId))
      | .failed error => (some row, .refused (replayError error))
      | .pending =>
        if leaseExpired row.updatedAt cutoff then
          let error := interrupted toolId row.id row.updatedAt
          (some { row with status := .failed error, updatedAt := now }, .refused error)
        else (some row, .refused (inProgress toolId row.id))

/-- `UPDATE … SET status = ?, …, updated_at = ? WHERE id = ? AND status = 'pending'`. -/
def settle (operationId now : String) (status : OperationStatus) : Option Row → Option Row
  | some row => if row.id = operationId ∧ row.status.isPending = true then some { row with status := status, updatedAt := now }
    else some row
  | none => none

/-- `updated.rowcount = 1` of `settle`. -/
def settles (operationId : String) : Option Row → Bool
  | some row => row.id = operationId && row.status.isPending
  | none => false

/-- The status `_complete_operation` finds instead of `pending`. -/
def currentStatus (operationId : String) : Option Row → String
  | some row => if row.id = operationId then row.status.text else "missing"
  | none => "missing"

/-! ## A call -/

/-- How a call ends: a result, the error of a tool, or another exception. -/
inductive Outcome
  | returned (result : Dict)
  | raised (error : ToolError)
  | crashed (errorType : String)

/-- Where a call is. -/
inductive CallPc
  | reserve
  /-- The reservation is granted, the action not started. -/
  | granted (operationId : String)
  | acting (operationId : String)
  | complete (operationId : String) (result : Dict)
  | fail (operationId : String) (error : ToolError)
  | done (outcome : Outcome)

structure Call where
  requestDigest : String
  correlationId : String
  pc : CallPc := .reserve

/-- What a call meets. -/
inductive Met
  /-- The transaction commits; the new id and the two times. -/
  | commits (operationId now cutoff : String)
  /-- The action returns. -/
  | returns (result : Dict)
  /-- The action raises a `ToolExecutionError`. -/
  | raises (error : ToolError)
  /-- Another exception, of the action or of the database: the transaction is rolled back. -/
  | fails (errorType : String)

/-- The row, and how often the action was started. -/
structure Journal where
  row : Option Row := none
  started : Nat := 0

def Call.goto (c : Call) (pc : CallPc) : Call := { c with pc := pc }

/-- The result as it is recorded and returned. -/
def named (c : Call) (operationId : String) (result : Dict) : Dict :=
  Dict.setDefault (Dict.setDefault result "operation_id" (.str operationId)) "correlation_id" (.str c.correlationId)

def Reservation.next : Reservation → CallPc
  | .granted operationId => .granted operationId
  | .replayed result => .done (.returned result)
  | .refused error => .done (.raised error)

/-- One transaction of a call, or one move of its action. -/
def runIdempotent (toolId : String) (j : Journal) (c : Call) (met : Met) : Journal × Call :=
  match c.pc, met with
  | .reserve, .commits operationId now cutoff =>
    let r := reserveOperation toolId c.requestDigest c.correlationId operationId now cutoff j.row
    ({ j with row := r.1 }, c.goto r.2.next)
  | .granted operationId, .commits _ _ _ => ({ j with started := j.started + 1 }, c.goto (.acting operationId))
  | .acting operationId, .returns result => (j, c.goto (.complete operationId (named c operationId result)))
  | .acting operationId, .raises error => (j, c.goto (.fail operationId error))
  | .complete operationId result, .commits _ now _ =>
    if settles operationId j.row then
      ({ j with row := settle operationId now (.succeeded result) j.row }, c.goto (.done (.returned result)))
    else (j, c.goto (.fail operationId (completionConflict operationId (currentStatus operationId j.row))))
  | .fail operationId error, .commits _ now _ =>
    ({ j with row := settle operationId now (.failed error) j.row }, c.goto (.done (.raised error)))
  | .acting operationId, .fails errorType | .complete operationId _, .fails errorType =>
    (j, c.goto (.fail operationId (internalError operationId errorType)))
  | .reserve, .fails errorType | .fail _ _, .fails errorType => (j, c.goto (.done (.crashed errorType)))
  | _, _ => (j, c)

/-! ## Runs -/

abbrev Calls := Pool Journal Call

def Call.fresh (c : Call) : Prop := c.pc = .reserve

def JournalStep (toolId : String) : Calls → Pool.Event Call Met → Calls → Prop :=
  Pool.Step Call.fresh (Pool.ofFun (runIdempotent toolId))

variable {toolId : String} {j j' : Journal} {c c' : Call} {met : Met} {w w' : Calls}

/-! ## At most once -/

/-- The starts, and the one that is still to be granted. -/
def starts (j : Journal) : Nat := j.started + if j.row.isNone then 1 else 0

/-- A granted reservation is a start to come. -/
def Call.grants (c : Call) : Nat :=
  match c.pc with
  | .granted _ => 1
  | _ => 0

theorem reserveOperation_some (digest correlationId operationId now cutoff : String) (row : Row) :
    (reserveOperation toolId digest correlationId operationId now cutoff (some row)).1.isNone = false ∧
      ∀ id, (reserveOperation toolId digest correlationId operationId now cutoff (some row)).2 ≠ .granted id := by
  simp only [reserveOperation]
  split
  · simp
  · split
    · simp
    · simp
    · split <;> simp

theorem settle_isNone (operationId now : String) (status : OperationStatus) (row : Option Row) :
    (settle operationId now status row).isNone = row.isNone := by
  cases row with
  | none => rfl
  | some row =>
    simp only [settle]
    split <;> rfl

theorem Reservation.grants_next {r : Reservation} (h : ∀ id, r ≠ .granted id) : (c.goto r.next).grants = 0 := by
  cases r with
  | granted id => exact absurd rfl (h id)
  | replayed | refused => rfl

/-- A move reserves, starts the action, settles the row, or changes nothing but the call. -/
theorem runIdempotent_cases (h : runIdempotent toolId j c met = (j', c')) : (∃ operationId now cutoff, c.pc = .reserve ∧
      j' = { j with row := (reserveOperation toolId c.requestDigest c.correlationId operationId now cutoff j.row).1 } ∧
      c' = c.goto (reserveOperation toolId c.requestDigest c.correlationId operationId now cutoff j.row).2.next) ∨
    (c.grants = 1 ∧ c'.grants = 0 ∧ j' = { j with started := j.started + 1 }) ∨
    (c'.grants = 0 ∧ ∃ operationId now status, j' = { j with row := settle operationId now status j.row }) ∨
    (c'.grants ≤ c.grants ∧ j' = j) := by
  unfold runIdempotent at h
  split at h <;> rename_i hpc
  · cases h
    exact .inl ⟨_, _, _, hpc, rfl, rfl⟩
  · cases h
    exact .inr (.inl ⟨by simp [Call.grants, hpc], rfl, rfl⟩)
  · cases h
    exact .inr (.inr (.inr ⟨Nat.zero_le _, rfl⟩))
  · cases h
    exact .inr (.inr (.inr ⟨Nat.zero_le _, rfl⟩))
  · split at h
    · cases h
      exact .inr (.inr (.inl ⟨rfl, _, _, _, rfl⟩))
    · cases h
      exact .inr (.inr (.inr ⟨Nat.zero_le _, rfl⟩))
  · cases h
    exact .inr (.inr (.inl ⟨rfl, _, _, _, rfl⟩))
  iterate 4
    · cases h
      exact .inr (.inr (.inr ⟨Nat.zero_le _, rfl⟩))
  · cases h
    exact .inr (.inr (.inr ⟨Nat.le_refl _, rfl⟩))

/-- No move of a call makes a start out of nothing. -/
theorem runIdempotent_budget (h : runIdempotent toolId j c met = (j', c')) : starts j' + c'.grants ≤ starts j + c.grants := by
  rcases runIdempotent_cases h with ⟨id, now, cutoff, hpc, rfl, rfl⟩ | ⟨hc, hc', rfl⟩ | ⟨hc', id, now, status, rfl⟩ | ⟨hle, rfl⟩
  · cases hrow : j.row with
    | none => simp [starts, hrow, reserveOperation, Reservation.next, Call.goto, Call.grants]
    | some row =>
      obtain ⟨hsome, hrefused⟩ := @reserveOperation_some toolId c.requestDigest c.correlationId id now cutoff row
      rw [Reservation.grants_next hrefused]
      simp [starts, hrow, hsome]
  · simp only [starts]
    omega
  · simp only [starts, settle_isNone]
    omega
  · omega

variable {tr : List (Pool.Event Call Met)}

/-- At most one start is made, and none where the row is already there. -/
theorem started_le {row₀ : Option Row}
    (h : Run (JournalStep toolId) ⟨{ row := row₀ }, []⟩ tr w) : w.shared.started ≤ if row₀.isNone then 1 else 0 := by
  have hle : starts w.shared ≤ starts { row := row₀ } + Pool.total Call.grants (⟨{ row := row₀ }, []⟩ : Calls) := by
    refine Pool.budget h ?_ fun _ _ _ _ _ => runIdempotent_budget
    intro c hc
    simp [Call.grants, show c.pc = .reserve from hc]
  simp only [starts, Pool.total, List.map_nil, List.sum_nil] at hle
  omega

/-! ## What becomes of the row -/

/-- The row is still there, for the same request, and once settled it is the same. -/
def Kept (r r' : Option Row) : Prop :=
  ∀ row, r = some row → ∃ row', r' = some row' ∧ row'.id = row.id ∧ row'.requestDigest = row.requestDigest ∧
    (row.status.isPending = false → row' = row)

theorem Kept.refl (r : Option Row) : Kept r r := fun row hrow => ⟨row, hrow, rfl, rfl, fun _ => rfl⟩

theorem Kept.trans {r s t : Option Row} (h : Kept r s) (h' : Kept s t) : Kept r t := by
  intro row hrow
  obtain ⟨row', hrow', hid, hdigest, hsettled⟩ := h row hrow
  obtain ⟨row'', hrow'', hid', hdigest', hsettled'⟩ := h' row' hrow'
  refine ⟨row'', hrow'', hid'.trans hid, hdigest'.trans hdigest, ?_⟩
  intro hpending
  obtain rfl := hsettled hpending
  exact hsettled' hpending

theorem settle_kept (operationId now : String) (status : OperationStatus) (r : Option Row) :
    Kept r (settle operationId now status r) := by
  rintro row rfl
  simp only [settle]
  split
  · rename_i hpending
    exact ⟨_, rfl, rfl, rfl, fun h => by simp [hpending.2] at h⟩
  · exact ⟨row, rfl, rfl, rfl, fun _ => rfl⟩

theorem reserveOperation_kept (digest correlationId operationId now cutoff : String) (r : Option Row) :
    Kept r (reserveOperation toolId digest correlationId operationId now cutoff r).1 := by
  rintro row rfl
  simp only [reserveOperation]
  split
  · exact ⟨row, rfl, rfl, rfl, fun _ => rfl⟩
  split
  · exact ⟨row, rfl, rfl, rfl, fun _ => rfl⟩
  · exact ⟨row, rfl, rfl, rfl, fun _ => rfl⟩
  · rename_i hstatus
    split
    · exact ⟨_, rfl, rfl, rfl, fun h => by simp [hstatus, OperationStatus.isPending] at h⟩
    · exact ⟨row, rfl, rfl, rfl, fun _ => rfl⟩

theorem runIdempotent_kept (h : runIdempotent toolId j c met = (j', c')) : Kept j.row j'.row := by
  rcases runIdempotent_cases h with ⟨id, now, cutoff, -, rfl, -⟩ | ⟨-, -, rfl⟩ | ⟨-, id, now, status, rfl⟩ | ⟨-, rfl⟩
  · exact reserveOperation_kept _ _ _ _ _ _
  · exact .refl _
  · exact settle_kept _ _ _ _
  · exact .refl _

theorem kept_run (h : Run (JournalStep toolId) w tr w') : Kept w.shared.row w'.shared.row := by
  refine @Run.rel _ _ _ (fun _ => True) (fun v v' => Kept v.shared.row v'.shared.row) _ _ _ h trivial (fun _ _ _ _ _ => trivial)
    (fun _ => .refl _) (fun _ _ _ => Kept.trans) ?_
  intro t e v _ hs
  cases hs with
  | start => exact .refl _
  | act _ hact => exact runIdempotent_kept hact

/-! ## What a call finds -/

/-- What a call is told that reserves when the row is there: it starts nothing and changes nothing. -/
structure Told (toolId : String) (j : Journal) (row : Row) (c : Call) (operationId now cutoff : String) : Prop where
  conflict : c.requestDigest ≠ row.requestDigest →
    runIdempotent toolId j c (.commits operationId now cutoff) = (j, c.goto (.done (.raised (conflict toolId row.id))))
  succeeded : ∀ result, c.requestDigest = row.requestDigest → row.status = .succeeded result →
    runIdempotent toolId j c (.commits operationId now cutoff) =
      (j, c.goto (.done (.returned (replayResult result c.correlationId))))
  failed : ∀ error, c.requestDigest = row.requestDigest → row.status = .failed error →
    runIdempotent toolId j c (.commits operationId now cutoff) = (j, c.goto (.done (.raised (replayError error))))

theorem told {row : Row} (hrow : j.row = some row) (hc : c.fresh) (operationId now cutoff : String) :
    Told toolId j row c operationId now cutoff := by
  obtain ⟨r, started⟩ := j
  obtain rfl : r = some row := hrow
  obtain ⟨digest, correlationId, pc⟩ := c
  obtain rfl : pc = .reserve := hc
  constructor
  · intro hne
    have hne' : row.requestDigest ≠ digest := fun h => hne h.symm
    simp [runIdempotent, reserveOperation, hne', Reservation.next]
  · rintro result rfl hstatus
    simp [runIdempotent, reserveOperation, hstatus, Reservation.next]
  · rintro error rfl hstatus
    simp [runIdempotent, reserveOperation, hstatus, Reservation.next]

/-- **At most once.** However calls with one key interleave, crash and fail: the action is started at most once, and not
at all where the row is already there. A call for another request is refused; once the row is settled it never changes,
and every call for the same request is told how the first one ended. -/
theorem journal_once {row₀ : Option Row}
    (h : Run (JournalStep toolId) ⟨{ row := row₀ }, []⟩ tr w) :
    w.shared.started ≤ (if row₀.isNone then 1 else 0) ∧
    ∀ row, w.shared.row = some row →
      (∀ c : Call, c.fresh → ∀ operationId now cutoff, Told toolId w.shared row c operationId now cutoff) ∧
      ∀ tr' w', Run (JournalStep toolId) w tr' w' → ∃ row', w'.shared.row = some row' ∧ row'.id = row.id ∧
        row'.requestDigest = row.requestDigest ∧ (row.status.isPending = false → row' = row) := by
  refine ⟨started_le h, ?_⟩
  intro row hrow
  refine ⟨fun c hc operationId now cutoff => told hrow hc operationId now cutoff, ?_⟩
  intro tr' w' h'
  exact kept_run h' row hrow

/-! ## A build that fails -/

/-- What `gate_build_create` raises while the executor reconciles its jobs (adapters/native_executor/executor.py:71). -/
def executorUnavailable : ToolError where
  code := "safe_executor_unavailable"
  message := "Native isolated execution boundary is unavailable"
  details := [("missing", .arr [.str "job_reconciliation_in_progress"])]

def firstCall : Call := { requestDigest := "d", correlationId := "c1" }

def secondCall : Call := { requestDigest := "d", correlationId := "c2" }

/-- A first call whose action fails; then a second one, up to its reservation. -/
def failedOnce : List (Pool.Event Call Met) :=
  [.start firstCall, .act 0 (.commits "op" "t1" ""), .act 0 (.commits "" "t2" ""), .act 0 (.raises executorUnavailable),
    .act 0 (.commits "" "t3" ""), .start secondCall]

/-- The journal and the calls after `failedOnce`. -/
def afterFailure : Calls :=
  ⟨⟨some ⟨"op", "d", .failed executorUnavailable, "t3"⟩, 1⟩, [firstCall.goto (.done (.raised executorUnavailable)), secondCall]⟩

theorem failedOnce_run (toolId : String) : Run (JournalStep toolId) ⟨{}, []⟩ failedOnce afterFailure := by
  have hrun : Run (fun w e w' => JournalStep toolId w e w' ∧ True) ⟨{}, []⟩ failedOnce
      (Pool.play (runIdempotent toolId) ⟨{}, []⟩ failedOnce) := by
    refine Pool.play_run ?_ (Pool.along_true _)
    simp [failedOnce, Pool.Playable, Call.fresh, firstCall, secondCall]
  exact hrun.mono fun _ _ _ hs => hs.1

theorem journal_once_failed : afterFailure.shared.started ≤ 1 ∧
    runIdempotent "gate_build_create" afterFailure.shared secondCall (.commits "" "t4" "") =
      (afterFailure.shared, secondCall.goto (.done (.raised (replayError executorUnavailable)))) := by
  obtain ⟨hstarted, hrow⟩ := journal_once (failedOnce_run "gate_build_create")
  exact ⟨hstarted, ((hrow _ rfl).1 secondCall rfl "" "t4" "").failed _ rfl rfl⟩

/-- The second call is told another next action than the one recorded: none was. -/
theorem replayed_error_differs : Run (JournalStep "gate_build_create") ⟨{}, []⟩ failedOnce afterFailure ∧
    afterFailure.shared.row.map Row.status = some (.failed executorUnavailable) ∧
    ∃ error, (runIdempotent "gate_build_create" afterFailure.shared secondCall (.commits "" "t4" "")).2.pc =
      .done (.raised error) ∧ error ≠ executorUnavailable := by
  refine ⟨failedOnce_run _, rfl, _, rfl, ?_⟩
  intro h
  have hnext : "使用新的幂等键重试。" = "" := congrArg ToolError.nextAction h
  exact absurd hnext (by decide)

end LingshuGate.Delivery

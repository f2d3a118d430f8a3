import Mathlib.Data.List.Sort
import LingshuGate.Delivery.Builds

/-!
# The log of a build and who reads it (`build_deploy.py`, `project_delivery_mcp.py`)

| here | there |
| --- | --- |
| `nextBuildLogSequence` | `_next_build_log_sequence` (build_deploy.py:1394) |
| `insertBuildLog`       | `_insert_build_log` (1368) |
| `listBuildLogs`        | `list_build_logs` (265) with `after_sequence` |
| `worker`               | `_run_build_job` (1036): its status, and each log entry in two statements |
| `cancelBuild`          | `cancel_build` (693) to its log entry |
| `client`               | `build_status` (project_delivery_mcp.py:1918), the status and then the rows, polled with the `next_sequence` it returned |

A sequence number is read by one statement and inserted by another, and the table does not ask it to be new. Two writers that read
the same maximum insert the same number, and a client that has seen the first of the two rows never gets the other:
`row_skipped`. A cancellation that was let in before the build ended may insert its row after a client was told that nothing
follows. `logs_complete` is what holds when neither happens.

Commands, results and times of the entries are left out, and so is what lets a status be written: nothing here reads them.
-/

namespace LingshuGate.BuildLogs

open Lib
open Builds (BuildStatus)

structure Row where
  id : Nat
  sequence : Int
  message : String
  deriving DecidableEq

/-- `told`: a client was told that the status is final. Nothing of the code reads it. -/
structure Build where
  status : BuildStatus := .queued
  rows : List Row
  told : Bool := false

/-- `int(row["max_sequence"] or 0) + 1` -/
def nextBuildLogSequence (rows : List Row) : Int := ((rows.map (·.sequence)).max?.getD 0) + 1

def insertBuildLog (b : Build) (sequence : Int) (message : String) : Build :=
  { b with rows := b.rows ++ [⟨b.rows.length, sequence, message⟩] }

/-- `ORDER BY sequence ASC LIMIT ?` -/
def listBuildLogs (rows : List Row) (limit : Nat) (afterSequence : Int) : List Row :=
  ((rows.filter fun row => afterSequence < row.sequence).insertionSort (·.sequence ≤ ·.sequence)).take (max 1 (min limit 1000))

/-! ## The threads -/

inductive WorkerPc
  | running
  | inserting (message : String) (sequence : Int)
  | done
  deriving DecidableEq

inductive CancelPc
  | read
  | write
  | readMax
  | inserting (sequence : Int)
  | done
  deriving DecidableEq

/-- A client with its `after_sequence` and what it has been given. -/
inductive ClientPc
  | idle (cursor : Int) (received : List Row)
  /-- Between the two reads of a poll. -/
  | polling (terminal : Bool) (logLimit : Nat) (cursor : Int) (received : List Row)
  /-- The build is terminal and `has_more` is false. -/
  | finished (received : List Row)
  deriving DecidableEq

inductive Thread
  | worker (pc : WorkerPc)
  | cancel (pc : CancelPc)
  | client (pc : ClientPc)
  deriving DecidableEq

/-- What a statement meets. -/
inductive Met
  | log (message : String)
  | status (status : BuildStatus)
  | poll (logLimit : Nat)
  | ok

/-- The final status follows the last entry. -/
def worker (b : Build) : WorkerPc → Met → Build × WorkerPc
  | .running, .log message => (b, .inserting message (nextBuildLogSequence b.rows))
  | .running, .status status => ({ b with status := status }, if status.isTerminal then .done else .running)
  | .running, _ => (b, .running)
  | .inserting message sequence, _ => (insertBuildLog b sequence message, .running)
  | .done, _ => (b, .done)

def cancelMessage : String := "Cancel requested. Any running command and its process group will be stopped."

def cancelBuild (b : Build) : CancelPc → Build × CancelPc
  | .read => (b, if b.status = .queued ∨ b.status = .running then .write else .done)
  | .write => ({ b with status := .cancelRequested }, .readMax)
  | .readMax => (b, .inserting (nextBuildLogSequence b.rows))
  | .inserting sequence => (insertBuildLog b sequence cancelMessage, .done)
  | .done => (b, .done)

/-- The second read of a poll, with `has_more` and `next_sequence`. -/
def answered (rows : List Row) (terminal : Bool) (logLimit : Nat) (cursor : Int) (received : List Row) : ClientPc :=
  let found := listBuildLogs rows (logLimit + 1) cursor
  let page := found.take logLimit
  if terminal && !(logLimit < found.length) then .finished (received ++ page)
  else .idle ((page.getLast?.map (·.sequence)).getD cursor) (received ++ page)

/-- `log_limit: int = Field(default=100, ge=1, le=200)` -/
def client (b : Build) : ClientPc → Met → Build × ClientPc
  | .idle cursor received, .poll logLimit =>
    if 1 ≤ logLimit ∧ logLimit ≤ 200 then
      ({ b with told := b.told || b.status.isTerminal }, .polling b.status.isTerminal logLimit cursor received)
    else (b, .idle cursor received)
  | .idle cursor received, _ => (b, .idle cursor received)
  | .polling terminal logLimit cursor received, _ => (b, answered b.rows terminal logLimit cursor received)
  | .finished received, _ => (b, .finished received)

def statement (b : Build) (t : Thread) (met : Met) : Build × Thread :=
  match t with
  | .worker pc => ((worker b pc met).1, .worker (worker b pc met).2)
  | .cancel pc => ((cancelBuild b pc).1, .cancel (cancelBuild b pc).2)
  | .client pc => ((client b pc met).1, .client (client b pc met).2)

/-- The cancellations and the clients come while the build is under way. -/
def begins : Thread → Bool
  | .cancel .read => true
  | .client (.idle cursor received) => cursor = -1 && received = []
  | _ => false

/-- The build as `create_build` hands it to the worker. -/
def queued (preflight plan queue : String) : Pool Build Thread where
  shared := { rows := [⟨0, 0, preflight⟩, ⟨1, 1, plan⟩, ⟨2, 2, queue⟩] }
  threads := [.worker .running]

def LogStep : Pool Build Thread → Pool.Event Thread Met → Pool Build Thread → Prop :=
  Pool.Step (begins · = true) (Pool.ofFun statement)

/-- The number that a thread is about to insert. -/
def Thread.inserts : Thread → Option Int
  | .worker (.inserting _ sequence) => some sequence
  | .cancel (.inserting sequence) => some sequence
  | _ => none

/-- What an insertion must find: no row with its number or a later one, and no client that was told the build is over. -/
def Orderly (b : Build) (t : Thread) : Prop :=
  ∀ sequence, t.inserts = some sequence → (∀ row ∈ b.rows, row.sequence < sequence) ∧ b.told = false

def OrderlyStep : Pool Build Thread → Pool.Event Thread Met → Pool Build Thread → Prop :=
  Pool.Step (begins · = true) fun b t met b' t' => Pool.ofFun statement b t met b' t' ∧ Orderly b t

/-! ## Pages -/

variable {rows received : List Row} {b b' : Build} {cursor : Int}

/-- The rows in the order of their numbers, each with its own. -/
structure Numbered (rows : List Row) : Prop where
  increasing : rows.Pairwise (·.sequence < ·.sequence)
  nonneg : ∀ row ∈ rows, 0 ≤ row.sequence

/-- The rows up to the cursor. -/
def upTo (rows : List Row) (cursor : Int) : List Row := rows.filter fun row => row.sequence ≤ cursor

/-- The rows after it. -/
def past (rows : List Row) (cursor : Int) : List Row := rows.filter fun row => cursor < row.sequence

theorem listBuildLogs_eq (h : Numbered rows) {limit : Nat} (hone : 1 ≤ limit) (hmax : limit ≤ 1000) :
    listBuildLogs rows limit cursor = (past rows cursor).take limit := by
  have hsorted : (past rows cursor).Pairwise (·.sequence ≤ ·.sequence) :=
    (h.increasing.filter _).imp fun hlt => Int.le_of_lt hlt
  have hlimit : max 1 (min limit 1000) = limit := by omega
  rw [listBuildLogs, hlimit]
  exact congrArg (List.take limit) hsorted.insertionSort_eq

theorem upTo_append_past (h : rows.Pairwise (·.sequence < ·.sequence)) (cursor : Int) : upTo rows cursor ++ past rows cursor = rows := by
  induction rows with
  | nil => rfl
  | cons row rest ih =>
    obtain ⟨hfirst, hrest⟩ := List.pairwise_cons.mp h
    by_cases hle : row.sequence ≤ cursor
    · have hnot : ¬cursor < row.sequence := Int.not_lt.mpr hle
      have hup : upTo (row :: rest) cursor = row :: upTo rest cursor := List.filter_cons_of_pos (by simpa using hle)
      have hpast : past (row :: rest) cursor = past rest cursor := List.filter_cons_of_neg (by simpa using hle)
      rw [hup, hpast, List.cons_append, ih hrest]
    have hup : upTo (row :: rest) cursor = [] := by
      refine List.filter_eq_nil_iff.mpr ?_
      intro other hmem
      simp only [decide_eq_true_eq]
      rcases List.mem_cons.mp hmem with rfl | hmem
      · exact hle
      · have := hfirst other hmem
        omega
    have hpast : past (row :: rest) cursor = row :: rest := by
      refine List.filter_eq_self.mpr ?_
      intro other hmem
      simp only [decide_eq_true_eq]
      rcases List.mem_cons.mp hmem with rfl | hmem
      · omega
      · have := hfirst other hmem
        omega
    rw [hup, hpast]
    rfl

/-- A list in order, cut behind its last taken element. -/
theorem filter_take (h : rows.Pairwise (·.sequence < ·.sequence)) {n : Nat} {last : Row} (hlast : (rows.take n).getLast? = some last) :
    upTo rows last.sequence = rows.take n := by
  have hsplit : rows.Pairwise (·.sequence < ·.sequence) := h
  rw [← List.take_append_drop n rows, List.pairwise_append] at hsplit
  obtain ⟨htake, -, hcross⟩ := hsplit
  have hmem : last ∈ rows.take n := List.mem_of_getLast? hlast
  obtain ⟨start, hstart⟩ := List.getLast?_eq_some_iff.mp hlast
  have hkept : (rows.take n).filter (fun row => row.sequence ≤ last.sequence) = rows.take n := by
    refine List.filter_eq_self.mpr ?_
    intro row hrow
    simp only [decide_eq_true_eq]
    rw [hstart] at hrow htake
    rcases List.mem_append.mp hrow with hrow | hrow
    · exact Int.le_of_lt ((List.pairwise_append.mp htake).2.2 row hrow last (List.mem_singleton_self _))
    · rw [List.mem_singleton.mp hrow]
  have hdropped : (rows.drop n).filter (fun row => row.sequence ≤ last.sequence) = [] := by
    refine List.filter_eq_nil_iff.mpr ?_
    intro row hrow
    simp only [decide_eq_true_eq]
    have := hcross last hmem row hrow
    omega
  conv_lhs => rw [upTo, ← List.take_append_drop n rows, List.filter_append, hkept, hdropped, List.append_nil]

/-- A page moves the cursor behind its rows. -/
theorem upTo_page (h : rows.Pairwise (·.sequence < ·.sequence)) (n : Nat) :
    upTo rows ((((past rows cursor).take n).getLast?.map (·.sequence)).getD cursor) = upTo rows cursor ++ (past rows cursor).take n := by
  cases hlast : ((past rows cursor).take n).getLast? with
  | none =>
    rw [List.getLast?_eq_none_iff.mp hlast, List.append_nil]
    rfl
  | some last =>
    have hmem : last ∈ past rows cursor := List.mem_of_mem_take (List.mem_of_getLast? hlast)
    have hafter : cursor < last.sequence := by simpa using (List.mem_filter.mp hmem).2
    have hbefore : (upTo rows cursor).filter (fun row => row.sequence ≤ last.sequence) = upTo rows cursor := by
      refine List.filter_eq_self.mpr ?_
      intro row hrow
      have hle : row.sequence ≤ cursor := by simpa using (List.mem_filter.mp hrow).2
      simp only [decide_eq_true_eq]
      omega
    have hpast := filter_take (h.filter _ : (past rows cursor).Pairwise _) hlast
    rw [Option.map_some, Option.getD_some]
    conv_lhs => rw [← upTo_append_past h cursor, upTo, List.filter_append, hbefore]
    exact congrArg _ hpast

/-! ## What the threads know -/

/-- A client has been given the rows up to its cursor, which is at a row or before all. -/
structure Reads (rows : List Row) (cursor : Int) (received : List Row) : Prop where
  received : received = upTo rows cursor
  cursor : cursor = -1 ∨ ∃ row ∈ rows, row.sequence = cursor

def Thread.Local (b : Build) : Thread → Prop
  | .worker (.inserting _ sequence) => 0 ≤ sequence
  | .cancel (.inserting sequence) => 0 ≤ sequence
  | .client (.idle cursor received) => Reads b.rows cursor received
  | .client (.polling terminal logLimit cursor received) =>
    Reads b.rows cursor received ∧ (1 ≤ logLimit ∧ logLimit ≤ 200) ∧ (terminal = true → b.told = true)
  | .client (.finished received) => b.told = true ∧ received = b.rows
  | _ => True

theorem nextBuildLogSequence_nonneg (h : Numbered rows) : 0 ≤ nextBuildLogSequence rows := by
  rw [nextBuildLogSequence]
  cases hmax : (rows.map (·.sequence)).max? with
  | none =>
    simp only [Option.getD_none]
    omega
  | some m =>
    obtain ⟨row, hrow, rfl⟩ := List.mem_map.mp (List.max?_mem hmax)
    have := h.nonneg row hrow
    simp only [Option.getD_some]
    omega

theorem Numbered.insert {row : Row} (h : Numbered rows) (hnonneg : 0 ≤ row.sequence) (hlast : ∀ r ∈ rows, r.sequence < row.sequence) :
    Numbered (rows ++ [row]) where
  increasing := by
    refine List.pairwise_append.mpr ⟨h.increasing, List.pairwise_singleton _ _, ?_⟩
    intro r hr new hnew
    rw [List.mem_singleton.mp hnew]
    exact hlast r hr
  nonneg := by
    intro r hr
    rcases List.mem_append.mp hr with hr | hr
    · exact h.nonneg r hr
    · rw [List.mem_singleton.mp hr]
      exact hnonneg

/-- A row behind all others is behind every cursor. -/
theorem Reads.insert {row : Row} (h : Reads rows cursor received) (hnonneg : 0 ≤ row.sequence)
    (hlast : ∀ r ∈ rows, r.sequence < row.sequence) : Reads (rows ++ [row]) cursor received := by
  have hbehind : cursor < row.sequence := by
    rcases h.cursor with rfl | ⟨r, hr, rfl⟩
    · omega
    · exact hlast r hr
  refine ⟨?_, ?_⟩
  · have hnone : [row].filter (fun r => r.sequence ≤ cursor) = [] := by
      simp only [List.filter_cons, List.filter_nil, decide_eq_true_eq]
      rw [if_neg (by omega)]
    rw [upTo, List.filter_append, hnone, List.append_nil]
    exact h.received
  · rcases h.cursor with hstart | ⟨r, hr, hcursor⟩
    · exact .inl hstart
    · exact .inr ⟨r, List.mem_append_left _ hr, hcursor⟩

/-- What the second read of a poll leaves its client. -/
theorem answered_local {terminal : Bool} {logLimit : Nat} (h : Numbered b.rows)
    (hclient : (Thread.client (.polling terminal logLimit cursor received)).Local b) :
    (Thread.client (answered b.rows terminal logLimit cursor received)).Local b := by
  obtain ⟨hreads, ⟨hone, hmax⟩, htold⟩ := hclient
  have hfound : listBuildLogs b.rows (logLimit + 1) cursor = (past b.rows cursor).take (logLimit + 1) :=
    listBuildLogs_eq h (by omega) (by omega)
  have hpage : ((past b.rows cursor).take (logLimit + 1)).take logLimit = (past b.rows cursor).take logLimit := by
    rw [List.take_take, Nat.min_eq_left (Nat.le_succ logLimit)]
  rw [answered, hfound, hpage]
  by_cases hend : (terminal && !decide (logLimit < ((past b.rows cursor).take (logLimit + 1)).length)) = true
  · -- all that is past the cursor is on this page
    obtain ⟨hterminal, hlast⟩ : terminal = true ∧ _ := by simpa using hend
    have hall : (past b.rows cursor).take logLimit = past b.rows cursor := List.take_of_length_le (by omega)
    rw [if_pos hend, hall, hreads.received]
    exact ⟨htold hterminal, upTo_append_past h.increasing cursor⟩
  rw [if_neg hend, hreads.received]
  refine ⟨(upTo_page h.increasing logLimit).symm, ?_⟩
  cases hlast : ((past b.rows cursor).take logLimit).getLast? with
  | none => exact hreads.cursor
  | some last =>
    refine .inr ⟨last, ?_, rfl⟩
    exact List.mem_of_mem_filter (List.mem_of_mem_take (List.mem_of_getLast? hlast))

variable {t : Thread} {met : Met}

/-- What a statement does to the rows and to what clients were told: nothing, or a row is inserted behind all others. -/
theorem statement_rows (ht : t.Local b) (horderly : Orderly b t) :
    (statement b t met).1.rows = b.rows ∧ (b.told = true → (statement b t met).1.told = true) ∨
    ∃ row, 0 ≤ row.sequence ∧ (∀ r ∈ b.rows, r.sequence < row.sequence) ∧ b.told = false ∧
      (statement b t met).1.rows = b.rows ++ [row] := by
  cases t with
  | worker pc =>
    cases pc with
    | running => cases met <;> exact .inl ⟨rfl, id⟩
    | inserting message sequence =>
      obtain ⟨hlast, htold⟩ := horderly sequence rfl
      exact .inr ⟨⟨_, sequence, message⟩, ht, hlast, htold, rfl⟩
    | done => exact .inl ⟨rfl, id⟩
  | cancel pc =>
    cases pc with
    | inserting sequence =>
      obtain ⟨hlast, htold⟩ := horderly sequence rfl
      exact .inr ⟨⟨_, sequence, cancelMessage⟩, ht, hlast, htold, rfl⟩
    | read | write | readMax | done => exact .inl ⟨rfl, id⟩
  | client pc =>
    refine .inl ?_
    cases pc with
    | idle cursor received =>
      cases met with
      | poll logLimit =>
        simp only [statement, client]
        split
        · exact ⟨rfl, fun htold => by simp [htold]⟩
        · exact ⟨rfl, id⟩
      | log | status | ok => exact ⟨rfl, id⟩
    | polling | finished => exact ⟨rfl, id⟩

theorem statement_numbered (h : Numbered b.rows) (ht : t.Local b) (horderly : Orderly b t) :
    Numbered (statement b t met).1.rows := by
  rcases @statement_rows b t met ht horderly with ⟨hsame, -⟩ | ⟨row, hnonneg, hlast, -, hrows⟩
  · rw [hsame]
    exact h
  · rw [hrows]
    exact h.insert hnonneg hlast

/-- What a statement leaves to every other thread. -/
theorem statement_others {t other : Thread} (ht : t.Local b) (hother : other.Local b) (horderly : Orderly b t) :
    other.Local (statement b t met).1 := by
  rcases @statement_rows b t met ht horderly with ⟨hsame, htold⟩ | ⟨row, hnonneg, hlast, hnot, hrows⟩
  · cases other with
    | worker pc | cancel pc => cases pc <;> exact hother
    | client pc =>
      cases pc with
      | idle cursor received =>
        simp only [Thread.Local] at hother ⊢
        rw [hsame]
        exact hother
      | polling terminal logLimit cursor received =>
        obtain ⟨hreads, hlimit, hterminal⟩ := hother
        simp only [Thread.Local]
        rw [hsame]
        exact ⟨hreads, hlimit, fun hend => htold (hterminal hend)⟩
      | finished received =>
        obtain ⟨hend, hreceived⟩ := hother
        simp only [Thread.Local]
        rw [hsame]
        exact ⟨htold hend, hreceived⟩
  cases other with
  | worker pc | cancel pc => cases pc <;> exact hother
  | client pc =>
    cases pc with
    | idle cursor received =>
      simp only [Thread.Local] at hother ⊢
      rw [hrows]
      exact Reads.insert hother hnonneg hlast
    | polling terminal logLimit cursor received =>
      obtain ⟨hreads, hlimit, hterminal⟩ := hother
      simp only [Thread.Local]
      rw [hrows]
      refine ⟨hreads.insert hnonneg hlast, hlimit, ?_⟩
      intro hend
      rw [hterminal hend] at hnot
      cases hnot
    | finished received =>
      rw [hother.1] at hnot
      cases hnot

/-- What a statement leaves its own thread. -/
theorem statement_own (h : Numbered b.rows) (ht : t.Local b) : (statement b t met).2.Local (statement b t met).1 := by
  cases t with
  | worker pc =>
    cases pc with
    | running =>
      cases met with
      | log message => exact nextBuildLogSequence_nonneg h
      | status status =>
        simp only [statement, worker]
        split <;> trivial
      | poll | ok => trivial
    | inserting | done => trivial
  | cancel pc =>
    cases pc with
    | read =>
      simp only [statement, cancelBuild]
      split <;> trivial
    | readMax => exact nextBuildLogSequence_nonneg h
    | write | inserting | done => trivial
  | client pc =>
    cases pc with
    | idle cursor received =>
      cases met with
      | poll logLimit =>
        simp only [statement, client]
        split
        · refine ⟨ht, by assumption, ?_⟩
          intro hterminal
          simp [hterminal]
        · exact ht
      | log | status | ok => exact ht
    | polling terminal logLimit cursor received => exact answered_local h ht
    | finished received => exact ht

/-- **No row is lost.** In every run whose insertions find no row with their number or a later one, and no client that was told
the build is over, a client that was told so has each row of the log, once and nothing else. -/
theorem logs_complete {preflight plan queue : String} {tr : List (Pool.Event Thread Met)} {w : Pool Build Thread}
    (h : Run OrderlyStep (queued preflight plan queue) tr w) {received : List Row}
    (hfinished : .client (.finished received) ∈ w.threads) : received.Perm w.shared.rows ∧ received.Nodup := by
  have hstart : Pool.Holds (fun b => Numbered b.rows) (fun b t => t.Local b) (queued preflight plan queue) := by
    refine ⟨⟨?_, ?_⟩, ?_⟩
    · simp [queued]
    · simp [queued]
    · simp [queued, Thread.Local]
  have hholds : Pool.Holds (fun b => Numbered b.rows) (fun b t => t.Local b) w := by
    refine Pool.invariant h hstart ?_ ?_ ?_
    · intro b t hb hbegins
      cases t with
      | worker pc => cases hbegins
      | cancel pc => cases pc <;> trivial
      | client pc =>
        cases pc with
        | idle cursor received =>
          obtain ⟨rfl, rfl⟩ : cursor = -1 ∧ received = [] := by simpa [begins] using hbegins
          refine ⟨(List.filter_eq_nil_iff.mpr ?_).symm, .inl rfl⟩
          intro row hrow
          have := hb.nonneg row hrow
          simp only [decide_eq_true_eq]
          omega
        | polling | finished => cases hbegins
    · rintro b t met b' t' hb ht ⟨hact, horderly⟩
      obtain ⟨rfl, rfl⟩ := Prod.mk.inj hact
      exact ⟨statement_numbered hb ht horderly, statement_own hb ht⟩
    · rintro b t met b' t' other - ht hother ⟨hact, horderly⟩
      obtain ⟨rfl, -⟩ := Prod.mk.inj hact
      exact statement_others ht hother horderly
  obtain ⟨-, rfl⟩ := hholds.2 _ hfinished
  refine ⟨List.Perm.refl _, hholds.1.increasing.imp ?_⟩
  rintro row other hlt rfl
  exact Int.lt_irrefl _ hlt

/-! ## Runs that lose a row -/

def orderly (b : Build) (t : Thread) : Bool :=
  t.inserts.all fun sequence => b.rows.all (·.sequence < sequence) && !b.told

theorem orderly_iff : orderly b t = true ↔ Orderly b t := by
  cases hinserts : t.inserts with
  | none | some sequence => simp [orderly, Orderly, hinserts]

variable {w : Pool Build Thread} {tr : List (Pool.Event Thread Met)}

theorem log_run (h : guarded (Pool.next statement) (Pool.possible begins fun _ _ => true) w tr = true) :
    Run LogStep w tr (tr.foldl (Pool.next statement) w) := Pool.run_of_guarded (fun _ h => h) (fun _ _ _ _ => rfl) h

theorem orderly_run (h : guarded (Pool.next statement) (Pool.possible begins orderly) w tr = true) :
    Run OrderlyStep w tr (tr.foldl (Pool.next statement) w) :=
  Pool.run_of_guarded (fun _ h => h) (fun _ _ _ h => ⟨rfl, orderly_iff.mp h⟩) h

/-- The worker writes an entry between the two pages of a client, and ends. -/
def pages : List (Pool.Event Thread Met) :=
  [.start (.client (.idle (-1) [])), .act 1 (.poll 2), .act 1 .ok, .act 0 (.log "Build started."), .act 0 .ok, .act 0 (.status .success),
    .act 1 (.poll 2), .act 1 .ok]

theorem logs_complete_pages : ∃ w received, Run OrderlyStep (queued "" "" "") pages w ∧
    Thread.client (.finished received) ∈ w.threads ∧ received.Perm w.shared.rows ∧ received.Nodup := by
  have hrun : Run OrderlyStep (queued "" "" "") pages (pages.foldl (Pool.next statement) (queued "" "" "")) :=
    orderly_run (by decide)
  have hfinished : Thread.client (.finished [⟨0, 0, ""⟩, ⟨1, 1, ""⟩, ⟨2, 2, ""⟩, ⟨3, 3, "Build started."⟩]) ∈
      (pages.foldl (Pool.next statement) (queued "" "" "")).threads := List.mem_of_getElem? (i := 1) (by decide)
  exact ⟨_, _, hrun, hfinished, logs_complete hrun hfinished⟩

/-- The cancellation and the worker read the same maximum; a client polls between their insertions. -/
def sameNumber : List (Pool.Event Thread Met) :=
  [.start (.cancel .read), .start (.client (.idle (-1) [])), .act 1 .ok, .act 1 .ok, .act 1 .ok, .act 0 (.log "Running install."), .act 1 .ok,
    .act 2 (.poll 100), .act 2 .ok, .act 0 .ok, .act 0 (.status .cancelled), .act 2 (.poll 100), .act 2 .ok]

/-- The second row with the number of the cursor is never read. -/
theorem row_skipped : ¬ ∀ preflight plan queue tr w received, Run LogStep (queued preflight plan queue) tr w →
    Thread.client (.finished received) ∈ w.threads → received.Perm w.shared.rows ∧ received.Nodup := by
  intro h
  have hrun : Run LogStep (queued "" "" "") sameNumber (sameNumber.foldl (Pool.next statement) (queued "" "" "")) :=
    log_run (by decide)
  have hfinished : Thread.client (.finished [⟨0, 0, ""⟩, ⟨1, 1, ""⟩, ⟨2, 2, ""⟩, ⟨3, 3, cancelMessage⟩]) ∈
      (sameNumber.foldl (Pool.next statement) (queued "" "" "")).threads := List.mem_of_getElem? (i := 2) (by decide)
  obtain ⟨hperm, -⟩ := h "" "" "" sameNumber _ _ hrun hfinished
  have hlength : ((sameNumber.foldl (Pool.next statement) (queued "" "" "")).shared.rows).length = 5 := by decide
  exact absurd (hperm.length_eq.trans hlength) (by decide)

end LingshuGate.BuildLogs

import LingshuGate.Lib.Table
import LingshuGate.Lib.Threads

/-!
# Retention policy and cleanup jobs (`retention_store.py`)

| here | there |
| --- | --- |
| `savePolicy`   | `save_policy` (53): one session |
| `takePreview`, `countRows`, `storePreview` | `preview` (82): the read of the policy, of each count, the store in memory |
| `insertJob`    | `enqueue` (104): its session; before it the preview is looked up, after it the preview is dropped |
| `cancel`       | `cancel` (135) |
| `runBatch`     | `run_batch` (142): its session |
| `retryFailure` | `retry_failure` (177): its session |
| `Policy.valid` | `validate` (43) |

Instants are microseconds; an ISO text in UTC is ordered as its instant. `julianday` is the function of the database that
the comparisons go through, a parameter; a text it does not read gives no instant. The policy a caller sends has its four
keys: the routes build it so.

A call that raises in a session leaves the database as it was. Previews are in memory: `restart` drops them. The rest of
the program writes rows: `insertRow`. The clock never goes back: `advance`.

What a job was made from (`origin`, `inForce`) and which rows went (`deleted`) are recorded and never read.
-/

namespace LingshuGate.Retention

open Lib

inductive TableName
  | logs | events | invocationAudits
  deriving DecidableEq

def tables : List TableName := [.logs, .events, .invocationAudits]

inductive PayloadMode
  | metadataOnly | redacted
  deriving DecidableEq

structure Policy where
  logsDays : Int
  eventsDays : Int
  invocationAuditsDays : Int
  payloadMode : PayloadMode
  deriving DecidableEq

def Policy.days (p : Policy) : TableName → Int
  | .logs => p.logsDays
  | .events => p.eventsDays
  | .invocationAudits => p.invocationAuditsDays

def Policy.valid (p : Policy) : Bool := tables.all fun t => decide (1 ≤ p.days t ∧ p.days t ≤ 3650)

/-- Some table is to be kept for less long. -/
def Policy.shortens (values current : Policy) : Bool := tables.any fun t => values.days t < current.days t

def day : Int := 86400000000
def previewLifetime : Int := 300000000
def leaseTime : Int := 30000000
def retryDelay : Int := 5000000

structure Preview where
  id : Nat
  revision : Int
  policy : Policy
  cutoffs : TableName → Int
  counts : TableName → Nat := fun _ => 0
  expiresAt : Int
  shortened : List TableName := []

inductive JobState
  | queued | running | retry | cancelled | succeeded | failed
  deriving DecidableEq

def JobState.isActive : JobState → Bool
  | .queued | .running | .retry => true
  | .cancelled | .succeeded | .failed => false

structure Job where
  id : Nat
  policyRevision : Int
  cutoffs : TableName → Int
  state : JobState := .queued
  counts : TableName → Nat := fun _ => 0
  createdAt : Int
  cancelRequested : Bool := false
  attempts : Nat := 0
  retryAt : Int := 0
  errorCode : Option String := none
  actorId : String
  /-- The preview it was made from, and the policy in force then. -/
  origin : Preview
  inForce : Policy

structure Row where
  id : String
  created : Option Int
  deriving DecidableEq

/-- A row that `run_batch` deleted for a job, with the revision of the policy in force. -/
structure Deletion where
  job : Nat
  table : TableName
  row : Row
  revision : Int
  deriving DecidableEq

structure Lease where
  owner : Option String := none
  expiresAt : Int := 0
  deriving DecidableEq

structure Store where
  revision : Int := 1
  policy : Policy := ⟨7, 7, 7, .metadataOnly⟩
  jobs : Table Job Job.id := ∅
  lease : Lease := {}
  rows : TableName → Table Row Row.id := fun _ => ∅
  previews : List Preview := []
  now : Int
  deleted : List Deletion := []

structure SaveRequest where
  expectedRevision : Int
  values : Policy
  previewId : Option Nat := none
  confirmed : Bool := false
  deriving DecidableEq

namespace Store

/-! ## The policy and its previews -/

/-- `self._previews.get(preview_id)`. -/
def findPreview (s : Store) (id : Nat) : Option Preview := s.previews.find? (·.id = id)

/-- A confirmation for exactly these values. -/
def confirms (s : Store) (r : SaveRequest) : Bool :=
  r.confirmed && match r.previewId.bind s.findPreview with
  | none => false
  | some p => p.revision = r.expectedRevision && p.policy = r.values && s.now < p.expiresAt

def savePolicy (s : Store) (r : SaveRequest) : Except String Store :=
  if !r.values.valid then .error "retention days must be 1..3650"
  else if s.revision ≠ r.expectedRevision then .error "policy_revision_changed"
  else if r.values.shortens s.policy && !s.confirms r then .error "shortening_confirmation_required"
  else .ok { s with revision := s.revision + 1, policy := r.values }

def takePreview (s : Store) (values : Option Policy) (instant : Int) (id : Nat) : Except String Preview :=
  let selected := values.getD s.policy
  if !selected.valid then .error "retention days must be 1..3650"
  else .ok {
    id, revision := s.revision, policy := selected
    cutoffs := fun t => instant - selected.days t * day
    expiresAt := instant + previewLifetime
    shortened := tables.filter fun t => selected.days t < s.policy.days t }

/-- `julianday(created_at) < julianday(?)`, which is not true of a `NULL`. -/
def olderThan (julianday : Int → Int) (cutoff : Int) (row : Row) : Bool :=
  match row.created with
  | some created => julianday created < julianday cutoff
  | none => false

def countRows (julianday : Int → Int) (s : Store) (p : Preview) (t : TableName) : Preview :=
  { p with counts := Function.update p.counts t ((s.rows t).count (olderThan julianday (p.cutoffs t))) }

def storePreview (s : Store) (p : Preview) (instant : Int) : Store :=
  let kept := s.previews.filter fun q => instant < q.expiresAt
  let kept := if 256 ≤ kept.length then kept.tail else kept
  { s with previews := kept.filter (·.id ≠ p.id) ++ [p] }

/-! ## Jobs -/

def insertJob (s : Store) (p : Preview) (revision : Int) (actor : String) (instant : Int) (id : Nat) : Except String Store :=
  if s.revision ≠ revision then .error "policy_revision_changed"
  else if s.policy ≠ p.policy then .error "save_policy_then_preview_again"
  else if s.jobs.rows.any (·.state.isActive) then .error "cleanup_already_active"
  else match s.jobs.insert {
      id, policyRevision := revision, cutoffs := p.cutoffs, createdAt := instant, actorId := actor
      origin := p, inForce := s.policy } with
    | none => .error "UNIQUE constraint failed: retention_jobs.id"
    | some jobs => .ok { s with jobs }

def updateJob (s : Store) (id : Nat) (f : Job → Job) (hf : ∀ j, (f j).id = j.id) : Store :=
  { s with jobs := s.jobs.update (·.id = id) f hf }

def cancel (s : Store) (id : Nat) : Store :=
  let cancelled := fun j : Job => { j with cancelRequested := true, state := .cancelled }
  { s with jobs := s.jobs.update (fun j => j.id = id && j.state.isActive) cancelled fun _ => rfl }

def release (s : Store) : Store := { s with lease := {} }

/-- Somebody else holds the lease. -/
def leased (s : Store) (owner : String) (timestamp : Int) : Bool :=
  s.lease.owner ≠ none && s.lease.owner ≠ some owner && timestamp < s.lease.expiresAt

/-- The active job to go on with, by `created_at` and id. -/
def dueJob (s : Store) (timestamp : Int) : Option Job :=
  ((s.jobs.rows.filter fun j => j.state.isActive && decide (j.retryAt ≤ timestamp)).insertionSort
    fun a b => a.createdAt < b.createdAt ∨ a.createdAt = b.createdAt ∧ a.id ≤ b.id).head?

section Batch

variable (julianday : Int → Int)

/-- The ids of the oldest rows before the cutoff, by `julianday(created_at)` and id. -/
def batch (s : Store) (t : TableName) (cutoff : Int) (batchSize : Nat) : List String :=
  ((((s.rows t).rows.filter (olderThan julianday cutoff)).insertionSort fun a b =>
    (a.created.map julianday).getD 0 < (b.created.map julianday).getD 0 ∨
      (a.created.map julianday).getD 0 = (b.created.map julianday).getD 0 ∧ a.id ≤ b.id).take batchSize).map (·.id)

/-- `DELETE FROM … WHERE id IN (…)`, and the counts of the job with what it returned. -/
def deleteBatch (s : Store) (job : Job) (t : TableName) (ids : List String) : Store :=
  let gone := (s.rows t).rows.filter fun r => ids.contains r.id
  let counts := Function.update job.counts t (job.counts t + gone.length)
  { s.updateJob job.id (fun j => { j with counts }) (fun _ => rfl) with
    rows := Function.update s.rows t ((s.rows t).delete fun r => ids.contains r.id)
    deleted := s.deleted ++ gone.map fun row => ⟨job.id, t, row, s.revision⟩ }

/-- The loop over the tables: it returns after the first that lost rows. -/
def sweep (s : Store) (job : Job) (batchSize : Nat) : List TableName → Store
  | [] => (s.updateJob job.id (fun j => { j with state := .succeeded }) fun _ => rfl).release
  | t :: rest =>
    let ids := s.batch julianday t (job.cutoffs t) batchSize
    if (s.rows t).count (fun r => ids.contains r.id) = 0 then s.sweep job batchSize rest else s.deleteBatch job t ids

def runBatch (s : Store) (owner : String) (batchSize : Nat) (timestamp : Int) : Store :=
  if s.leased owner timestamp then s
  else match s.dueJob timestamp with
    | none => if s.lease.owner = some owner then s.release else s
    | some job =>
      if job.cancelRequested || s.revision ≠ job.policyRevision then
        (s.updateJob job.id (fun j => { j with state := .cancelled, errorCode := some "policy_changed_or_cancelled" })
          fun _ => rfl).release
      else
        let s := { s with lease := ⟨some owner, timestamp + leaseTime⟩ }
        let s := s.updateJob job.id (fun j => { j with state := .running, errorCode := none }) fun _ => rfl
        s.sweep julianday job batchSize tables

end Batch

def retryFailure (s : Store) (owner : String) (instant : Int) : Store :=
  if s.leased owner instant then s
  else match s.dueJob instant with
    | none => s.release
    | some job =>
      (s.updateJob job.id (fun j => { j with
        attempts := j.attempts + 1
        state := if 2 ≤ j.attempts then .failed else .retry
        retryAt := instant + retryDelay
        errorCode := some "cleanup_batch_failed" }) fun _ => rfl).release

end Store

/-! ## Calls -/

inductive Thread
  | savePolicy (r : SaveRequest)
  | preview (values : Option Policy)
  | reading (values : Option Policy) (instant : Int)
  | counting (p : Preview) (instant : Int) (todo : List TableName)
  | storing (p : Preview) (instant : Int)
  | enqueue (previewId : Nat) (revision : Int) (actor : String)
  | inserting (p : Preview) (revision : Int) (actor : String) (instant : Int)
  | dropping (previewId : Nat)
  | cancel (job : Nat)
  | runBatch (owner : String) (batchSize : Nat)
  | running (owner : String) (batchSize : Nat) (instant : Int)
  | retryFailure (owner : String)
  | retrying (owner : String) (instant : Int)
  | insertRow (t : TableName) (row : Row)
  | advance (d : Nat)
  | restart
  | done (error : Option String)

/-- What a statement meets: an id that `uuid4` made, or a failure. -/
structure Met where
  uuid : Nat := 0
  raises : Bool := false

/-- A call that starts. -/
def begins : Thread → Bool
  | .savePolicy _ | .preview _ | .enqueue _ _ _ | .cancel _ | .runBatch _ _ | .retryFailure _ | .insertRow _ _ | .advance _
  | .restart => true
  | .reading _ _ | .counting _ _ _ | .storing _ _ | .inserting _ _ _ _ | .dropping _ | .running _ _ _ | .retrying _ _
  | .done _ => false

/-- A session that raises leaves the store as it was. -/
def Store.commit (s : Store) (r : Except String Store) (next : Thread) : Store × Thread :=
  match r with
  | .ok s' => (s', next)
  | .error code => (s, .done (some code))

def statement (julianday : Int → Int) (s : Store) (t : Thread) (met : Met) : Store × Thread :=
  if met.raises then (s, .done (some "database error"))
  else match t with
  | .savePolicy r => s.commit (s.savePolicy r) (.done none)
  | .preview values => (s, .reading values s.now)
  | .reading values instant => match s.takePreview values instant met.uuid with
    | .ok p => (s, .counting p instant tables)
    | .error code => (s, .done (some code))
  | .counting p instant (t :: todo) => (s, .counting (s.countRows julianday p t) instant todo)
  | .counting p instant [] => (s, .storing p instant)
  | .storing p instant => (s.storePreview p instant, .done none)
  | .enqueue previewId revision actor => match s.findPreview previewId with
    | some p =>
      if p.expiresAt ≤ s.now || p.revision ≠ revision then (s, .done (some "preview_expired_or_changed"))
      else (s, .inserting p revision actor s.now)
    | none => (s, .done (some "preview_expired_or_changed"))
  | .inserting p revision actor instant => s.commit (s.insertJob p revision actor instant met.uuid) (.dropping p.id)
  | .dropping previewId => ({ s with previews := s.previews.filter (·.id ≠ previewId) }, .done none)
  | .cancel job => (s.cancel job, .done none)
  | .runBatch owner batchSize =>
    if batchSize < 1 ∨ 1000 < batchSize then (s, .done (some "batch_size must be 1..1000")) else (s, .running owner batchSize s.now)
  | .running owner batchSize instant => (s.runBatch julianday owner batchSize instant, .done none)
  | .retryFailure owner => (s, .retrying owner s.now)
  | .retrying owner instant => (s.retryFailure owner instant, .done none)
  | .insertRow t row => match (s.rows t).insert row with
    | some rows => ({ s with rows := Function.update s.rows t rows }, .done none)
    | none => (s, .done (some "UNIQUE constraint failed"))
  | .advance d => ({ s with now := s.now + d }, .done none)
  | .restart => ({ s with previews := [] }, .done none)
  | .done error => (s, .done error)

def RetentionStep (julianday : Int → Int) : Pool Store Thread → Pool.Event Thread Met → Pool Store Thread → Prop :=
  Pool.Step (begins · = true) (Pool.ofFun (statement julianday))

end LingshuGate.Retention

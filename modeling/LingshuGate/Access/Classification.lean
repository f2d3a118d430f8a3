import Mathlib.Data.List.Nodup
import LingshuGate.Lib.Run
import LingshuGate.Access.Schema

/-!
# The life of a tool classification (`access_control.py`, `tool_catalog.py`)

| here | there |
| --- | --- |
| `Record`               | a row of `mcp_tool_classifications` (database.py:281) |
| `syncTools`            | `_synchronize_tools` (access_control.py:720) |
| `catalogSynchronize`   | the session of `ToolCatalog.synchronize` (tool_catalog.py:160-166) |
| `setRecord`            | the `UPDATE` of `set_classification` (access_control.py:1051) |
| `confirm`              | `confirm_classifications` (access_control.py:1075), one `BEGIN IMMEDIATE` transaction |
| `selectPublishable`, `publishRecord` | the `SELECT` and the `UPDATE`s of `publish_classifications` (access_control.py:1207) |
| `retireRecord`, `reappearRecord` | the `UPDATE`s of `reconcile_server_tools` (access_control.py:917, 949) |

Every `database.execute`, `query_one`, `query_all` and every session block is one transaction. An operation of
several transactions is a `Task` between two of them: it holds what the operation has already read, and
`Event.resume` runs its next transaction, in any order with everything else. A `reviews` list records, for
each time a reviewer sets or confirms an access, the fingerprint that the row had at that moment; no operation
reads it.
-/

namespace LingshuGate.Classifications

open AccessControl (Status)

/-- The column `source`. -/
inductive Origin where
  | rule | annotation | manual
  deriving DecidableEq

/-- `evidence["lifecycle"]["status"]`. -/
inductive Lifecycle where
  | unrecorded | active | retired
  deriving DecidableEq

structure Record where
  id : String
  serverId : String
  toolId : String
  toolName : String
  fingerprint : String
  suggestedAccess : Access
  effectiveAccess : Access
  status : Status
  source : Origin
  lifecycle : Lifecycle := .unrecorded
  reviewedBy : Option String := none
  reviewedAt : Option Int := none
  deriving DecidableEq

/-- A definition as discovery sees it: `_server_id`, `_tool_fingerprint`, `_suggest_tool`, and the `uuid4()` that
an insertion would take. -/
structure Version where
  serverId : String
  toolId : String
  toolName : String
  fingerprint : String
  suggestedAccess : Access
  source : Origin
  newId : String
  deriving DecidableEq

/-- A reviewer set or confirmed `access` on the row, whose fingerprint then was `fingerprint`. -/
structure Review where
  id : String
  access : Access
  fingerprint : String
  deriving DecidableEq

structure Store where
  records : List Record := []
  /-- newest first -/
  reviews : List Review := []
  deriving DecidableEq

/-- `WHERE server_id = ? AND tool_id = ?`. -/
def Store.find (s : Store) (serverId toolId : String) : Option Record :=
  s.records.find? fun r => r.serverId = serverId && r.toolId = toolId

/-- `UPDATE … WHERE …`. -/
def Store.update (s : Store) (cond : Record → Bool) (f : Record → Record) : Store :=
  { s with records := s.records.map fun r => if cond r then f r else r }

/-- An update by which a reviewer decides the access of row `id`. -/
def Store.review (s : Store) (id : String) (access : Access) (f : Record → Record) : Store where
  records := s.records.map fun r => if r.id = id then f r else r
  reviews := match s.records.find? (·.id = id) with
    | some r => ⟨id, access, r.fingerprint⟩ :: s.reviews
    | none => s.reviews

def lastReview (s : Store) (id : String) : Option Review := s.reviews.find? (·.id = id)

/-! ## Discovery -/

def invalidate (v : Version) (r : Record) : Record :=
  { r with
    toolName := v.toolName, fingerprint := v.fingerprint, suggestedAccess := v.suggestedAccess
    effectiveAccess := .unknown, status := .stale, source := v.source, lifecycle := .unrecorded }

def resuggest (v : Version) (r : Record) : Record :=
  { r with toolName := v.toolName, suggestedAccess := v.suggestedAccess, source := v.source }

def discovered (v : Version) : Record where
  id := v.newId
  serverId := v.serverId
  toolId := v.toolId
  toolName := v.toolName
  fingerprint := v.fingerprint
  suggestedAccess := v.suggestedAccess
  effectiveAccess := .unknown
  status := .pending
  source := v.source

/-- One definition of the loop; `none` is the `IntegrityError` of a taken primary key. `existing_rows` is
refreshed after each write of the same transaction, so it is the current row. -/
def syncOne (s : Store) (v : Version) : Option Store :=
  match s.find v.serverId v.toolId with
  | none =>
    if s.records.any (·.id = v.newId) then none else some { s with records := s.records ++ [discovered v] }
  | some existing =>
    if existing.fingerprint = v.fingerprint ∧ (existing.status = .published ∨ existing.source = .manual) then some s
    else if existing.fingerprint ≠ v.fingerprint then some (s.update (·.id = existing.id) (invalidate v))
    else some (s.update (·.id = existing.id) (resuggest v))

/-- `_synchronize_tools`. -/
def syncTools (s : Store) (versions : List Version) : Option Store := versions.foldlM syncOne s

/-- The retirement `UPDATE` of the catalog. -/
def catalogRetire (s : Store) (toolId : String) : Store :=
  s.update (·.toolId = toolId) fun r => { r with status := .stale, effectiveAccess := .unknown }

def catalogSynchronize (s : Store) (retired : List String) (versions : List Version) : Option Store :=
  syncTools (retired.foldl catalogRetire s) versions

def retireRecord (s : Store) (serverId toolId : String) : Store :=
  s.update (fun r => r.serverId = serverId && r.toolId = toolId) fun r =>
    { r with suggestedAccess := .unknown, effectiveAccess := .unknown, status := .stale
             lifecycle := .retired, reviewedAt := none }

def reappearRecord (s : Store) (serverId toolId : String) : Store :=
  s.update (fun r => r.serverId = serverId && r.toolId = toolId) fun r =>
    { r with effectiveAccess := .unknown, status := .stale, lifecycle := .active, reviewedAt := none }

/-! ## Review -/

def setRecord (s : Store) (id : String) (access : Access) (reviewer : String) : Store :=
  s.review id access fun r =>
    { r with effectiveAccess := access, status := .pending, source := .manual
             reviewedBy := some reviewer, reviewedAt := none }

/-- An item of `confirm_classifications`. -/
structure ConfirmItem where
  serverId : String
  toolId : String
  expectedFingerprint : String
  deriving DecidableEq

/-- `targets`: blank fields and two fingerprints for one tool are errors, a repeated item is one target. -/
def confirmTargets : List ConfirmItem → List ConfirmItem → Option (List ConfirmItem)
  | [], targets => some targets
  | item :: rest, targets =>
    let target : ConfirmItem :=
      ⟨Lib.Py.strip item.serverId, Lib.Py.strip item.toolId, Lib.Py.strip item.expectedFingerprint⟩
    if target.serverId = "" ∨ target.toolId = "" ∨ target.expectedFingerprint = "" then none
    else match targets.find? fun t => t.serverId = target.serverId && t.toolId = target.toolId with
      | some previous =>
        if previous.expectedFingerprint ≠ target.expectedFingerprint then none else confirmTargets rest targets
      | none => confirmTargets rest (targets ++ [target])

/-- The validation loop: the row must exist and still have the expected fingerprint. -/
def confirmLookup (s : Store) (target : ConfirmItem) : Option Record :=
  match s.find target.serverId target.toolId with
  | none => none
  | some r => if r.fingerprint = target.expectedFingerprint then some r else none

/-- The access a confirmation takes: the effective one, else the suggested one. -/
def confirmedAccess (r : Record) : Option Access :=
  if r.effectiveAccess.usable then some r.effectiveAccess
  else if r.suggestedAccess.usable then some r.suggestedAccess
  else none

/-- The writing loop, for one row read by the validation. -/
def confirmRecord (publish : Bool) (reviewer : String) (now : Int) (s : Store) (row : Record) : Store :=
  if row.status = .published then s
  else match confirmedAccess row with
    | none => s
    | some access => s.review row.id access fun r =>
        { r with effectiveAccess := access, status := if publish then .published else .pending, source := .manual
                 reviewedBy := some reviewer, reviewedAt := if publish then some now else none }

/-- `confirm_classifications`; `none` is a raised error, which rolls everything back. -/
def confirm (s : Store) (items : List ConfirmItem) (publish : Bool) (reviewer : String) (now : Int) : Option Store :=
  if items = [] ∨ items.length > 500 then none
  else do
    let targets ← confirmTargets items []
    let rows ← targets.mapM (confirmLookup s)
    return rows.foldl (confirmRecord publish reviewer now) s

/-- The `SELECT id` of `publish_classifications`. -/
def selectPublishable (s : Store) (serverId : Option String) (toolIds : List String) : List String :=
  let ids := toolIds.filter (· ≠ "")
  (s.records.filter fun r => r.effectiveAccess.usable && (match serverId with
      | some server => server = "" || r.serverId = server
      | none => true) &&
    (ids.isEmpty || ids.contains r.toolId)).map Record.id

def markPublished (reviewer : String) (now : Int) (r : Record) : Record :=
  { r with status := .published, reviewedBy := some reviewer, reviewedAt := some now }

/-- One `UPDATE … SET status = 'published' … WHERE id = ?`. -/
def publishRecord (s : Store) (id reviewer : String) (now : Int) : Store :=
  s.update (·.id = id) (markPublished reviewer now)

/-! ## Interleaving -/

/-- What an operation holds between two of its transactions. -/
inductive Task where
  /-- `set_classification` has read the row -/
  | set (id : String) (access : Access) (reviewer : String)
  /-- `publish_classifications` has selected these rows -/
  | publish (ids : List String) (reviewer : String) (now : Int)
  /-- `reconcile_server_tools` has read `before` -/
  | reconcileSync (serverId : String) (versions : List Version) (before : List Record)
  /-- `reconcile_server_tools` has synchronized; these rows are still to be retired, these to reappear -/
  | reconcileWrites (serverId : String) (retired reappeared : List String)
  deriving DecidableEq

structure World where
  store : Store := {}
  tasks : List Task := []
  deriving DecidableEq

inductive Event where
  | synchronize (versions : List Version)
  | catalogSynchronize (retired : List String) (versions : List Version)
  | setClassification (serverId toolId : String) (access : Access) (reviewer : String)
  | confirmClassifications (items : List ConfirmItem) (publish : Bool) (reviewer : String) (now : Int)
  | publishClassifications (serverId : Option String) (toolIds : List String) (reviewer : String) (now : Int)
  | reconcileServerTools (serverId : String) (versions : List Version)
  /-- the next transaction of a task -/
  | resume (task : Nat)
  deriving DecidableEq

/-- Tools of `before` that the list no longer has, and that are not recorded as retired. -/
def retiredIds (versions : List Version) (before : List Record) : List String :=
  (before.filter fun r => r.lifecycle ≠ .retired && !versions.any (·.toolId = r.toolId)).map Record.toolId

/-- Listed tools that `before` records as retired. -/
def reappearedIds (versions : List Version) (before : List Record) : List String :=
  (versions.filter fun v => before.any fun r => r.toolId = v.toolId && r.lifecycle = .retired).map Version.toolId

/-- One transaction of a task: the store after it, and what is left of the task. -/
def Task.advance (s : Store) : Task → Store × Option Task
  | .set id access reviewer => (setRecord s id access reviewer, none)
  | .publish [] _ _ => (s, none)
  | .publish (id :: ids) reviewer now => (publishRecord s id reviewer now, some (.publish ids reviewer now))
  | .reconcileSync serverId versions before =>
    match syncTools s versions with
    | none => (s, none)
    | some s' => (s', some (.reconcileWrites serverId (retiredIds versions before) (reappearedIds versions before)))
  | .reconcileWrites serverId (toolId :: retired) reappeared =>
    (retireRecord s serverId toolId, some (.reconcileWrites serverId retired reappeared))
  | .reconcileWrites serverId [] (toolId :: reappeared) =>
    (reappearRecord s serverId toolId, some (.reconcileWrites serverId [] reappeared))
  | .reconcileWrites _ [] [] => (s, none)

/-- One transaction. A raised error leaves the store as it was. -/
def step (w : World) : Event → World
  | .synchronize versions => { w with store := (syncTools w.store versions).getD w.store }
  | .catalogSynchronize retired versions =>
    { w with store := (catalogSynchronize w.store retired versions).getD w.store }
  | .setClassification serverId toolId access reviewer =>
    match access, w.store.find serverId toolId with
    | .none, _ => w
    | _, none => w
    | _, some r => { w with tasks := w.tasks ++ [.set r.id access reviewer] }
  | .confirmClassifications items publish reviewer now =>
    { w with store := (confirm w.store items publish reviewer now).getD w.store }
  | .publishClassifications serverId toolIds reviewer now =>
    { w with tasks := w.tasks ++ [.publish (selectPublishable w.store serverId toolIds) reviewer now] }
  | .reconcileServerTools serverId versions =>
    if versions.any (·.serverId ≠ serverId) then w
    else { w with tasks := w.tasks ++ [.reconcileSync serverId versions (w.store.records.filter (·.serverId = serverId))] }
  | .resume i =>
    match w.tasks[i]? with
    | none => w
    | some task =>
      match task.advance w.store with
      | (s, none) => { store := s, tasks := w.tasks.eraseIdx i }
      | (s, some rest) => { store := s, tasks := w.tasks.set i rest }

/-! ## The invariant -/

structure Inv (s : Store) : Prop where
  ids : (s.records.map Record.id).Nodup
  /-- a usable access is the reviewer's last word, on the fingerprint the row still has -/
  reviewed : ∀ r ∈ s.records, r.effectiveAccess.usable = true → lastReview s r.id = some ⟨r.id, r.effectiveAccess, r.fingerprint⟩
  published : ∀ r ∈ s.records, r.status = .published → r.effectiveAccess.usable = true

theorem inv_empty : Inv {} := ⟨by simp, by simp, by simp⟩

variable {s s' : Store}

theorem map_ids {g : Record → Record} (hg : ∀ r, (g r).id = r.id) (records : List Record) :
    (records.map g).map Record.id = records.map Record.id := by
  rw [List.map_map]
  exact List.map_congr_left fun r _ => hg r

/-- What every write but a review and a publication does to a row: it keeps the decision, or withdraws it. -/
structure Tightens (r r' : Record) : Prop where
  id : r'.id = r.id
  decision : (r'.fingerprint = r.fingerprint ∧ r'.effectiveAccess = r.effectiveAccess ∧ r'.status = r.status) ∨
    (r'.effectiveAccess = .unknown ∧ r'.status = .stale)

theorem Tightens.refl (r : Record) : Tightens r r := ⟨rfl, .inl ⟨rfl, rfl, rfl⟩⟩

theorem Inv.update {cond : Record → Bool} {f : Record → Record} (h : Inv s) (hf : ∀ r, Tightens r (f r)) :
    Inv (s.update cond f) := by
  have hg : ∀ r, Tightens r (if cond r then f r else r) := by
    intro r
    split
    · exact hf r
    · exact .refl r
  refine ⟨?_, ?_, ?_⟩
  · rw [Store.update, map_ids fun r => (hg r).id]
    exact h.ids
  · intro r' hr' husable
    obtain ⟨r, hr, rfl⟩ := List.mem_map.mp hr'
    rcases (hg r).decision with ⟨hfp, hacc, -⟩ | ⟨hacc, -⟩
    · rw [(hg r).id, hfp, hacc]
      exact h.reviewed r hr (hacc ▸ husable)
    · simp [hacc, Access.usable] at husable
  intro r' hr' hstatus
  obtain ⟨r, hr, rfl⟩ := List.mem_map.mp hr'
  rcases (hg r).decision with ⟨-, hacc, hst⟩ | ⟨-, hst⟩
  · rw [hacc]
    exact h.published r hr (hst ▸ hstatus)
  · rw [hst] at hstatus
    cases hstatus

/-- The reviewer's write on row `id`. -/
structure Decides (access : Access) (f : Record → Record) : Prop where
  id : ∀ r, (f r).id = r.id
  fingerprint : ∀ r, (f r).fingerprint = r.fingerprint
  effective : ∀ r, (f r).effectiveAccess = access
  published : ∀ r, (f r).status = .published → access.usable = true

variable {access : Access}

theorem Inv.review {id : String} {f : Record → Record} (h : Inv s) (hf : Decides access f) : Inv (s.review id access f) := by
  have hid : ∀ r : Record, (if r.id = id then f r else r).id = r.id := by
    intro r
    split
    · exact hf.id r
    · rfl
  refine ⟨?_, ?_, ?_⟩
  · rw [Store.review, map_ids hid]
    exact h.ids
  · intro r' hr' husable
    obtain ⟨r, hr, rfl⟩ := List.mem_map.mp hr'
    rw [hid, lastReview, Store.review]
    by_cases hrid : r.id = id
    · -- the row under review is the only one with its id
      have hfind : s.records.find? (·.id = id) = some r := by
        obtain ⟨r₁, hr₁⟩ := Option.isSome_iff_exists.mp
          (List.find?_isSome.mpr ⟨r, hr, decide_eq_true hrid⟩ : (s.records.find? (·.id = id)).isSome)
        have hid₁ : r₁.id = id := by simpa using List.find?_some hr₁
        rw [hr₁, List.inj_on_of_nodup_map h.ids (List.mem_of_find?_eq_some hr₁) hr (hid₁.trans hrid.symm)]
      simp [hfind, hrid, hf.effective, hf.fingerprint]
    simp only [if_neg hrid] at husable ⊢
    cases s.records.find? (·.id = id) with
    | none => exact h.reviewed r hr husable
    | some r₁ =>
      rw [List.find?_cons_of_neg (by simpa using Ne.symm hrid)]
      exact h.reviewed r hr husable
  intro r' hr' hstatus
  obtain ⟨r, hr, rfl⟩ := List.mem_map.mp hr'
  by_cases hrid : r.id = id
  · simp only [if_pos hrid] at hstatus ⊢
    rw [hf.effective]
    exact hf.published r hstatus
  · simp only [if_neg hrid] at hstatus ⊢
    exact h.published r hr hstatus

/-! ## Each transaction keeps it -/

theorem Inv.syncOne {v : Version} (h : Inv s) (hs : syncOne s v = some s') : Inv s' := by
  unfold Classifications.syncOne at hs
  split at hs
  · split at hs
    · cases hs
    rename_i hfresh
    injection hs with hs
    subst hs
    simp only [List.any_eq_true, decide_eq_true_eq, not_exists, not_and] at hfresh
    refine ⟨?_, ?_, ?_⟩
    · rw [List.map_append, List.nodup_append]
      refine ⟨h.ids, by simp, ?_⟩
      intro a ha b hb
      obtain ⟨r, hr, rfl⟩ := List.mem_map.mp ha
      rw [List.map_singleton, List.mem_singleton] at hb
      subst hb
      exact hfresh r hr
    · intro r hr husable
      rcases List.mem_append.mp hr with hr | hr
      · exact h.reviewed r hr husable
      · rw [List.mem_singleton] at hr
        subst hr
        cases husable
    intro r hr hstatus
    rcases List.mem_append.mp hr with hr | hr
    · exact h.published r hr hstatus
    · rw [List.mem_singleton] at hr
      subst hr
      cases hstatus
  split at hs
  · injection hs with hs
    exact hs ▸ h
  split at hs
  · injection hs with hs
    exact hs ▸ h.update fun r => ⟨rfl, .inr ⟨rfl, rfl⟩⟩
  · injection hs with hs
    exact hs ▸ h.update fun r => ⟨rfl, .inl ⟨rfl, rfl, rfl⟩⟩

theorem Inv.syncTools {versions : List Version} (h : Inv s) (hs : syncTools s versions = some s') : Inv s' := by
  induction versions generalizing s with
  | nil =>
    injection hs with hs
    exact hs ▸ h
  | cons v versions ih =>
    simp only [Classifications.syncTools, List.foldlM_cons] at hs
    obtain ⟨s₁, h₁, hs⟩ := Option.bind_eq_some_iff.mp hs
    exact ih (h.syncOne h₁) hs

theorem Inv.catalogSynchronize {retired : List String} {versions : List Version} (h : Inv s)
    (hs : catalogSynchronize s retired versions = some s') : Inv s' := by
  refine Inv.syncTools ?_ hs
  clear hs
  induction retired generalizing s with
  | nil => exact h
  | cons toolId retired ih => exact ih (h.update fun r => ⟨rfl, .inr ⟨rfl, rfl⟩⟩)

theorem confirmedAccess_usable {r : Record} (h : confirmedAccess r = some access) : access.usable = true := by
  unfold confirmedAccess at h
  split at h
  · injection h with h
    exact h ▸ ‹_›
  split at h
  · injection h with h
    exact h ▸ ‹_›
  · cases h

theorem Inv.confirmRecord {publish : Bool} {reviewer : String} {now : Int} {row : Record} (h : Inv s) :
    Inv (confirmRecord publish reviewer now s row) := by
  unfold Classifications.confirmRecord
  split
  · exact h
  split
  · exact h
  · rename_i access haccess
    exact h.review ⟨fun _ => rfl, fun _ => rfl, fun _ => rfl, fun _ _ => confirmedAccess_usable haccess⟩

theorem Inv.confirm {items : List ConfirmItem} {publish : Bool} {reviewer : String} {now : Int} (h : Inv s)
    (hs : confirm s items publish reviewer now = some s') : Inv s' := by
  unfold Classifications.confirm at hs
  split at hs
  · cases hs
  obtain ⟨targets, -, hs⟩ := Option.bind_eq_some_iff.mp hs
  obtain ⟨rows, -, hs⟩ := Option.bind_eq_some_iff.mp hs
  injection hs with hs
  subst hs
  clear * - h
  induction rows generalizing s with
  | nil => exact h
  | cons row rows ih => exact ih h.confirmRecord

theorem Inv.setRecord {id reviewer : String} (h : Inv s) : Inv (setRecord s id access reviewer) :=
  h.review ⟨fun _ => rfl, fun _ => rfl, fun _ => rfl, fun _ hp => by cases hp⟩

/-- A publication keeps the invariant on a row whose access is still usable. -/
theorem Inv.publishRecord {id reviewer : String} {now : Int} (h : Inv s)
    (husable : ∀ r ∈ s.records, r.id = id → r.effectiveAccess.usable = true) :
    Inv (Classifications.publishRecord s id reviewer now) := by
  have hg : ∀ r : Record, (if decide (r.id = id) = true then markPublished reviewer now r else r) = r ∨
      (r.id = id ∧ (if decide (r.id = id) = true then markPublished reviewer now r else r) = markPublished reviewer now r) := by
    intro r
    by_cases hrid : r.id = id <;> simp [hrid]
  refine ⟨?_, ?_, ?_⟩
  · rw [Classifications.publishRecord, Store.update, map_ids]
    · exact h.ids
    · intro r
      rcases hg r with heq | ⟨-, heq⟩ <;> rw [heq]
      rfl
  · intro r' hr' hu
    obtain ⟨r, hr, rfl⟩ := List.mem_map.mp hr'
    rcases hg r with heq | ⟨-, heq⟩ <;> rw [heq] at hu ⊢ <;> exact h.reviewed r hr hu
  · intro r' hr' hstatus
    obtain ⟨r, hr, rfl⟩ := List.mem_map.mp hr'
    rcases hg r with heq | ⟨hrid, heq⟩ <;> rw [heq] at hstatus ⊢
    · exact h.published r hr hstatus
    · exact husable r hr hrid

/-- The rows a publication is about to write still have a usable access. -/
def PublishesUsable (w : World) : Event → Prop
  | .resume i => ∀ id ids reviewer now, w.tasks[i]? = some (.publish (id :: ids) reviewer now) →
      ∀ r ∈ w.store.records, r.id = id → r.effectiveAccess.usable = true
  | _ => True

theorem Inv.advance {task : Task} (h : Inv s) (hpub : ∀ id ids reviewer now, task = .publish (id :: ids) reviewer now →
      ∀ r ∈ s.records, r.id = id → r.effectiveAccess.usable = true) : Inv (task.advance s).1 := by
  unfold Task.advance
  split
  · exact h.setRecord
  · exact h
  · exact h.publishRecord (hpub _ _ _ _ rfl)
  · split
    · exact h
    · rename_i hs
      exact h.syncTools hs
  · exact h.update fun r => ⟨rfl, .inr ⟨rfl, rfl⟩⟩
  · exact h.update fun r => ⟨rfl, .inr ⟨rfl, rfl⟩⟩
  · exact h

theorem inv_getD {result : Option Store} (h : Inv s) (hr : ∀ s', result = some s' → Inv s') : Inv (result.getD s) := by
  cases result with
  | none => exact h
  | some s' => exact hr s' rfl

theorem inv_step {w : World} {e : Event} (h : Inv w.store) (hpub : PublishesUsable w e) : Inv (step w e).store := by
  cases e with
  | synchronize versions => exact inv_getD h fun s' hs => h.syncTools hs
  | catalogSynchronize retired versions => exact inv_getD h fun s' hs => h.catalogSynchronize hs
  | confirmClassifications items publish reviewer now => exact inv_getD h fun s' hs => h.confirm hs
  | publishClassifications serverId toolIds reviewer now => exact h
  | setClassification serverId toolId access reviewer | reconcileServerTools serverId versions =>
    simp only [step]
    split <;> exact h
  | resume i =>
    simp only [step]
    split
    · exact h
    rename_i task htask
    have hadv : Inv (task.advance w.store).1 := by
      refine h.advance ?_
      rintro id ids reviewer now rfl
      exact hpub id ids reviewer now htask
    split <;> rename_i hs <;> rw [hs] at hadv <;> exact hadv

/-- The steps whose publications find a usable access. -/
def SafeStep (w : World) (e : Event) (w' : World) : Prop := w' = step w e ∧ PublishesUsable w e

/-- **Published classifications stay usable** along every interleaving in which no publication writes a row that
was invalidated after its selection: a published row has a usable access, and the fingerprint on which a
reviewer last set or confirmed that access. -/
theorem published_stay_usable {tr : List Event} {w : World} (hrun : Lib.Run SafeStep {} tr w) :
    ∀ r ∈ w.store.records, r.status = .published → r.effectiveAccess.usable = true ∧
        lastReview w.store r.id = some ⟨r.id, r.effectiveAccess, r.fingerprint⟩ := by
  have hinv : Inv w.store := by
    refine hrun.invariant (I := fun w => Inv w.store) inv_empty ?_
    rintro w₁ e w₂ h ⟨rfl, hpub⟩
    exact inv_step h hpub
  intro r hr hstatus
  have husable := hinv.published r hr hstatus
  exact ⟨husable, hinv.reviewed r hr husable⟩

/-- The world after a trace from the empty table. -/
def runOf (tr : List Event) : World := tr.foldl step {}

/-- Tool `list` of server `files`, first under fingerprint `f1`, then changed to `f2`. -/
def listVersion (fingerprint : String) : Version := ⟨"files", "list", "list", fingerprint, .read, .rule, "row1"⟩

/-- The tool is discovered and confirmed, and a publication has selected it. -/
def selectedTrace : List Event :=
  [.synchronize [listVersion "f1"], .confirmClassifications [⟨"files", "list", "f1"⟩] false "alice" 1,
    .publishClassifications none [] "alice" 2]

theorem published_stay_usable_list : ∃ r ∈ (runOf (selectedTrace ++ [Event.resume 0])).store.records, r.status = .published ∧
      r.effectiveAccess.usable = true ∧ lastReview (runOf (selectedTrace ++ [Event.resume 0])).store r.id =
          some ⟨r.id, r.effectiveAccess, r.fingerprint⟩ := by
  have hselected : Lib.Run SafeStep {} selectedTrace (runOf selectedTrace) := by
    refine .cons ⟨rfl, trivial⟩ (.cons ⟨rfl, trivial⟩ (.cons ⟨rfl, trivial⟩ ?_))
    exact .nil _
  have husable : ∀ r ∈ (runOf selectedTrace).store.records, r.effectiveAccess.usable = true := by decide +kernel
  have hresume : SafeStep (runOf selectedTrace) (.resume 0) (runOf (selectedTrace ++ [Event.resume 0])) :=
    ⟨rfl, fun _ _ _ _ _ r hr _ => husable r hr⟩
  obtain ⟨r, hr, hpublished⟩ : ∃ r ∈ (runOf (selectedTrace ++ [Event.resume 0])).store.records, r.status = .published := by
    decide +kernel
  exact ⟨r, hr, hpublished, published_stay_usable (hselected.snoc hresume) r hr hpublished⟩

/-- The tool changes between the selection and the write: the row ends published and unusable, on a fingerprint
no reviewer has seen. -/
theorem published_unusable_after_change :
    Lib.Run (fun w e w' => w' = step w e) {} (selectedTrace ++ [Event.synchronize [listVersion "f2"], .resume 0])
        (runOf (selectedTrace ++ [Event.synchronize [listVersion "f2"], .resume 0])) ∧
      ∃ r ∈ (runOf (selectedTrace ++ [Event.synchronize [listVersion "f2"], .resume 0])).store.records,
        r.status = .published ∧ r.effectiveAccess.usable = false ∧
          lastReview (runOf (selectedTrace ++ [Event.synchronize [listVersion "f2"], .resume 0])).store r.id ≠
            some ⟨r.id, r.effectiveAccess, r.fingerprint⟩ := by
  constructor
  · refine .cons rfl (.cons rfl (.cons rfl (.cons rfl (.cons rfl ?_))))
    exact .nil _
  · decide +kernel

end LingshuGate.Classifications

import Mathlib
import LingshuGate.Retention.Store

/-!
# Retention deletes only what was confirmed (`retention_store.py`)

What a session can do to the policy and the jobs is one of the four cases of `Changes`: a new policy, a new job where no
job is active, a move of an active job, a batch of an active job. Everything else is read off these four: at most one
job is active, a job that is over stays as it is, its counts are the rows it deleted, and each of these rows was older
than the cutoff that its preview showed.
-/

namespace LingshuGate.Retention

open Lib

variable {julianday : Int → Int} {s s' : Store} {met : Met}

/-- The cutoffs are those of the policy of the preview, at the instant it was taken. -/
def Preview.Computed (p : Preview) : Prop := ∀ t, p.cutoffs t = p.expiresAt - previewLifetime - p.policy.days t * day

/-- The job was made from a preview of the policy in force. -/
structure Job.Made (j : Job) : Prop where
  cutoffs : j.cutoffs = j.origin.cutoffs
  policy : j.origin.policy = j.inForce
  revision : j.origin.revision = j.policyRevision
  computed : j.origin.Computed

/-- Nothing of the job changed but its state and what comes with it. -/
structure Job.Same (j k : Job) : Prop where
  id : k.id = j.id
  cutoffs : k.cutoffs = j.cutoffs
  revision : k.policyRevision = j.policyRevision
  origin : k.origin = j.origin
  inForce : k.inForce = j.inForce

theorem Job.Same.made {j k : Job} (h : j.Same k) (hj : j.Made) : k.Made where
  cutoffs := by rw [h.cutoffs, h.origin, hj.cutoffs]
  policy := by rw [h.origin, h.inForce, hj.policy]
  revision := by rw [h.origin, h.revision, hj.revision]
  computed := h.origin ▸ hj.computed

/-! ## What a session can do -/

inductive Changes (julianday : Int → Int) (s s' : Store) : Prop
  /-- Active jobs move, the others stay as they are. -/
  | moved (g : Job → Job) (rows : s'.jobs.rows = s.jobs.rows.map g)
      (keeps : ∀ j ∈ s.jobs, g j = j ∨ j.state.isActive = true ∧ j.Same (g j) ∧ (g j).counts = j.counts)
      (deleted : s'.deleted = s.deleted) (policy : s'.policy = s.policy) (revision : s'.revision = s.revision)
  | saved (r : SaveRequest) (confirmed : r.values.shortens s.policy = true → s.confirms r = true)
      (expected : s.revision = r.expectedRevision) (eq : s' = { s with revision := s.revision + 1, policy := r.values })
  | enqueued (j : Job) (idle : ∀ k ∈ s.jobs, k.state.isActive = false) (jobs : s.jobs.insert j = some s'.jobs) (made : j.Made)
      (counts : j.counts = fun _ => 0) (deleted : s'.deleted = s.deleted) (policy : s'.policy = s.policy)
      (revision : s'.revision = s.revision)
  /-- A batch of one table for the active job of the policy in force. -/
  | swept (job : Job) (t : TableName) (gone : List Row) (g : Job → Job) (mem : job ∈ s.jobs) (active : job.state.isActive = true)
      (current : s.revision = job.policyRevision) (rows : s'.jobs.rows = s.jobs.rows.map g)
      (keeps : ∀ j ∈ s.jobs, j.id ≠ job.id → g j = j) (same : job.Same (g job))
      (counts : (g job).counts = Function.update job.counts t (job.counts t + gone.length))
      (older : ∀ r ∈ gone, Store.olderThan julianday (job.cutoffs t) r = true)
      (deleted : s'.deleted = s.deleted ++ gone.map fun row => ⟨job.id, t, row, s.revision⟩)
      (policy : s'.policy = s.policy) (revision : s'.revision = s.revision)

theorem Changes.unchanged (hjobs : s'.jobs = s.jobs) (hdeleted : s'.deleted = s.deleted) (hpolicy : s'.policy = s.policy)
    (hrevision : s'.revision = s.revision) : Changes julianday s s' := by
  refine .moved id ?_ (fun _ _ => .inl rfl) hdeleted hpolicy hrevision
  rw [hjobs, List.map_id]

/-- One active job, found by its id, moves. -/
theorem Changes.of_update {job : Job} {f : Job → Job} {hf : ∀ j, (f j).id = j.id} {lease : Lease} (hmem : job ∈ s.jobs)
    (hactive : job.state.isActive = true) (hsame : ∀ j, j.Same (f j) ∧ (f j).counts = j.counts) :
    Changes julianday s { s.updateJob job.id f hf with lease } := by
  refine .moved (fun j => if decide (j.id = job.id) then f j else j) rfl ?_ rfl rfl rfl
  intro j hj
  simp only [decide_eq_true_eq]
  split_ifs with hid
  · obtain rfl := Table.eq_of_key hj hmem hid
    exact .inr ⟨hactive, hsame j⟩
  · exact .inl rfl

variable {r : SaveRequest}

theorem savePolicy_changes (h : s.savePolicy r = .ok s') : Changes julianday s s' := by
  unfold Store.savePolicy at h
  split_ifs at h with hvalid hrevision hshortens
  refine .saved r ?_ (by simpa using hrevision) (Except.ok.inj h).symm
  intro hs
  simpa [hs] using hshortens

variable {p : Preview}

theorem insertJob_changes {revision instant : Int} {actor : String} {id : Nat} (hp : p.Computed)
    (hrevision : p.revision = revision) (h : s.insertJob p revision actor instant id = .ok s') : Changes julianday s s' := by
  unfold Store.insertJob at h
  split_ifs at h with hcurrent hpolicy hactive
  split at h
  · cases h
  rename_i jobs hinsert
  cases h
  refine .enqueued _ ?_ hinsert ⟨rfl, (by simpa using hpolicy : s.policy = p.policy).symm, hrevision, hp⟩ rfl rfl rfl rfl
  intro k hk
  simpa using List.any_eq_false.mp (by simpa using hactive) k hk

theorem cancel_changes (id : Nat) : Changes julianday s (s.cancel id) := by
  refine .moved _ rfl ?_ rfl rfl rfl
  intro j _
  split_ifs with hcond
  · simp only [Bool.and_eq_true, decide_eq_true_eq] at hcond
    exact .inr ⟨hcond.2, ⟨rfl, rfl, rfl, rfl, rfl⟩, rfl⟩
  · exact .inl rfl

theorem mem_of_dueJob {timestamp : Int} {job : Job} (h : s.dueJob timestamp = some job) :
    job ∈ s.jobs ∧ job.state.isActive = true := by
  have hmem := List.mem_of_mem_head? h
  rw [List.mem_insertionSort, List.mem_filter, Bool.and_eq_true] at hmem
  exact ⟨hmem.1, hmem.2.1⟩

/-- A row whose id is in the batch is one that the batch was made of. -/
theorem olderThan_of_batch {t : TableName} {cutoff : Int} {batchSize : Nat} {r : Row} (hr : r ∈ s.rows t)
    (h : (s.batch julianday t cutoff batchSize).contains r.id = true) : Store.olderThan julianday cutoff r = true := by
  simp only [Store.batch, List.contains_iff_mem, List.mem_map] at h
  obtain ⟨r', hr', hid⟩ := h
  have hr'' := List.mem_of_mem_take hr'
  rw [List.mem_insertionSort, List.mem_filter] at hr''
  obtain rfl := Table.eq_of_key (hr''.1 : r' ∈ s.rows t) hr hid
  exact hr''.2

/-- The loop over the tables, for a job that was just set running. -/
theorem sweep_changes {job : Job} {owner : String} {until_ : Int} (hmem : job ∈ s.jobs) (hactive : job.state.isActive = true)
    (hcurrent : s.revision = job.policyRevision) (batchSize : Nat) (todo : List TableName) :
    Changes julianday s (({ s with lease := ⟨some owner, until_⟩ }.updateJob job.id
      (fun j => { j with state := .running, errorCode := none }) fun _ => rfl).sweep julianday job batchSize todo) := by
  induction todo with
  | nil =>
    refine .moved (fun j => if j.id = job.id then { j with state := .succeeded, errorCode := none } else j) ?_ ?_ rfl rfl rfl
    · simp only [Store.sweep, Store.updateJob, Store.release, Table.update, List.map_map, decide_eq_true_eq]
      refine List.map_congr_left ?_
      intro j _
      simp only [Function.comp_apply]
      split_ifs <;> rfl
    intro j hj
    split_ifs with hid
    · obtain rfl := Table.eq_of_key hj hmem hid
      exact .inr ⟨hactive, ⟨rfl, rfl, rfl, rfl, rfl⟩, rfl⟩
    · exact .inl rfl
  | cons t rest ih =>
    unfold Store.sweep
    dsimp only
    split
    · exact ih
    generalize hids : Store.batch julianday _ t _ batchSize = ids
    refine .swept job t ((s.rows t).rows.filter fun r => ids.contains r.id)
      (fun j => if j.id = job.id then
        { j with state := .running, errorCode := none, counts := Function.update job.counts t (job.counts t +
          ((s.rows t).rows.filter fun r => ids.contains r.id).length) } else j) hmem hactive hcurrent ?_ ?_ ?_ ?_ ?_ rfl rfl rfl
    · simp only [Store.deleteBatch, Store.updateJob, Table.update, List.map_map, decide_eq_true_eq]
      refine List.map_congr_left ?_
      intro j _
      simp only [Function.comp_apply]
      split_ifs <;> rfl
    · intro j _ hne
      exact if_neg hne
    · simp only [if_true]
      exact ⟨rfl, rfl, rfl, rfl, rfl⟩
    · simp only [if_true]
    · intro r hr
      obtain ⟨hr, hin⟩ := List.mem_filter.mp hr
      exact olderThan_of_batch (s := { s with lease := ⟨some owner, until_⟩ }.updateJob job.id
        (fun j => { j with state := .running, errorCode := none }) fun _ => rfl) hr (hids ▸ hin)

theorem runBatch_changes (owner : String) (batchSize : Nat) (timestamp : Int) :
    Changes julianday s (s.runBatch julianday owner batchSize timestamp) := by
  unfold Store.runBatch
  split
  · exact .unchanged rfl rfl rfl rfl
  split
  · split <;> exact .unchanged rfl rfl rfl rfl
  rename_i job hdue
  obtain ⟨hmem, hactive⟩ := mem_of_dueJob hdue
  split
  · exact .of_update hmem hactive fun j => ⟨⟨rfl, rfl, rfl, rfl, rfl⟩, rfl⟩
  rename_i hcurrent
  have hrevision : s.revision = job.policyRevision := by
    simp only [Bool.or_eq_true, decide_eq_true_eq, not_or, not_not] at hcurrent
    exact hcurrent.2
  exact sweep_changes hmem hactive hrevision batchSize tables

theorem retryFailure_changes (owner : String) (instant : Int) : Changes julianday s (s.retryFailure owner instant) := by
  unfold Store.retryFailure
  split
  · exact .unchanged rfl rfl rfl rfl
  split
  · exact .unchanged rfl rfl rfl rfl
  · next job hdue =>
    obtain ⟨hmem, hactive⟩ := mem_of_dueJob hdue
    exact .of_update hmem hactive fun j => ⟨⟨rfl, rfl, rfl, rfl, rfl⟩, rfl⟩

/-! ## What holds of the store -/

/-- How many rows of a table went for a job. -/
def Store.deletedFor (s : Store) (id : Nat) (t : TableName) : Nat :=
  s.deleted.countP fun d => d.job = id && d.table = t

structure Sound (julianday : Int → Int) (s : Store) : Prop where
  active : ∀ j ∈ s.jobs, ∀ k ∈ s.jobs, j.state.isActive = true → k.state.isActive = true → j = k
  made : ∀ j ∈ s.jobs, j.Made
  counted : ∀ j ∈ s.jobs, ∀ t, j.counts t = s.deletedFor j.id t
  older : ∀ d ∈ s.deleted, ∃ j ∈ s.jobs, j.id = d.job ∧ j.policyRevision = d.revision ∧
    Store.olderThan julianday (j.cutoffs d.table) d.row = true

variable {g : Job → Job}

theorem mem_of_map {k : Job} (h : s'.jobs.rows = s.jobs.rows.map g) (hk : k ∈ s'.jobs) : ∃ j ∈ s.jobs, g j = k := by
  rw [Table.mem_def, h] at hk
  exact List.mem_map.mp hk

variable {j : Job}

theorem mem_map_of (h : s'.jobs.rows = s.jobs.rows.map g) (hj : j ∈ s.jobs) : g j ∈ s'.jobs := by
  rw [Table.mem_def, h]
  exact List.mem_map_of_mem hj

theorem same_of_keeps (hkeeps : ∀ j ∈ s.jobs, g j = j ∨ j.state.isActive = true ∧ j.Same (g j))
    (hj : j ∈ s.jobs) : j.Same (g j) := by
  rcases hkeeps j hj with hsame | ⟨-, hsame⟩
  · rw [hsame]
    exact ⟨rfl, rfl, rfl, rfl, rfl⟩
  · exact hsame

section Moved

variable {g : Job → Job} (hs : Sound julianday s) (hrows : s'.jobs.rows = s.jobs.rows.map g)
  (hkeeps : ∀ j ∈ s.jobs, g j = j ∨ j.state.isActive = true ∧ j.Same (g j))

include hs hrows hkeeps

/-- A move makes no job active that was not. -/
theorem active_of_keeps : ∀ j ∈ s'.jobs, ∀ k ∈ s'.jobs, j.state.isActive = true → k.state.isActive = true → j = k := by
  have hwas : ∀ j ∈ s.jobs, (g j).state.isActive = true → j.state.isActive = true := by
    intro j hj hactive
    rcases hkeeps j hj with hsame | ⟨hbefore, -⟩
    · exact hsame ▸ hactive
    · exact hbefore
  intro j hj k hk hja hka
  obtain ⟨a, ha, rfl⟩ := mem_of_map hrows hj
  obtain ⟨b, hb, rfl⟩ := mem_of_map hrows hk
  rw [hs.active a ha b hb (hwas a ha hja) (hwas b hb hka)]

theorem made_of_keeps : ∀ j ∈ s'.jobs, j.Made := by
  intro j hj
  obtain ⟨a, ha, rfl⟩ := mem_of_map hrows hj
  exact (same_of_keeps hkeeps ha).made (hs.made a ha)

theorem older_of_keeps {d : Deletion} (hd : d ∈ s.deleted) : ∃ j ∈ s'.jobs, j.id = d.job ∧ j.policyRevision = d.revision ∧
    Store.olderThan julianday (j.cutoffs d.table) d.row = true := by
  obtain ⟨j, hj, hid, hrevision, holder⟩ := hs.older d hd
  have hsame := same_of_keeps hkeeps hj
  refine ⟨g j, mem_map_of hrows hj, hsame.id.trans hid, hsame.revision.trans hrevision, ?_⟩
  rw [hsame.cutoffs]
  exact holder

end Moved

theorem countP_batch (s : Store) (job : Job) (t t' : TableName) (gone : List Row) (id : Nat) :
    (gone.map fun row => (⟨job.id, t, row, s.revision⟩ : Deletion)).countP (fun d => d.job = id && d.table = t') =
      if job.id = id ∧ t = t' then gone.length else 0 := by
  rw [List.countP_map]
  split_ifs with h
  · obtain ⟨rfl, rfl⟩ := h
    simp [Function.comp_def]
  · refine List.countP_eq_zero.mpr ?_
    intro r _
    simpa [Function.comp_def] using h

theorem Changes.sound (h : Changes julianday s s') (hs : Sound julianday s) : Sound julianday s' := by
  cases h with
  | moved g rows keeps deleted policy revision =>
    have hkeeps : ∀ j ∈ s.jobs, g j = j ∨ j.state.isActive = true ∧ j.Same (g j) :=
      fun j hj => (keeps j hj).imp_right fun h => ⟨h.1, h.2.1⟩
    refine ⟨active_of_keeps hs rows hkeeps, made_of_keeps hs rows hkeeps, ?_, ?_⟩
    · intro k hk t
      obtain ⟨j, hj, rfl⟩ := mem_of_map rows hk
      have hcounts : (g j).counts = j.counts := by
        rcases keeps j hj with h | ⟨-, -, h⟩
        · rw [h]
        · exact h
      rw [hcounts, (same_of_keeps hkeeps hj).id, hs.counted j hj t, Store.deletedFor, Store.deletedFor, deleted]
    · intro d hd
      rw [deleted] at hd
      exact older_of_keeps hs rows hkeeps hd
  | saved r confirmed expected eq =>
    subst eq
    exact ⟨hs.active, hs.made, hs.counted, hs.older⟩
  | enqueued j idle jobs made counts deleted policy revision =>
    have hmem : ∀ k, k ∈ s'.jobs ↔ k ∈ s.jobs ∨ k = j := fun k => Table.mem_insert jobs
    have hnew : ∀ k ∈ s.jobs, k.id ≠ j.id := (Table.insert_eq_some jobs).2
    refine ⟨?_, ?_, ?_, ?_⟩
    · intro a ha b hb haa hba
      rcases (hmem a).mp ha with ha | rfl <;> rcases (hmem b).mp hb with hb | rfl
      · rw [idle a ha] at haa
        cases haa
      · rw [idle a ha] at haa
        cases haa
      · rw [idle b hb] at hba
        cases hba
      · rfl
    · intro k hk
      rcases (hmem k).mp hk with hk | rfl
      · exact hs.made k hk
      · exact made
    · intro k hk t
      rw [Store.deletedFor, deleted]
      rcases (hmem k).mp hk with hk | rfl
      · exact hs.counted k hk t
      -- what was deleted so far was deleted for other jobs
      rw [counts]
      refine (List.countP_eq_zero.mpr ?_).symm
      intro d hd hcond
      obtain ⟨i, hi, hid, -⟩ := hs.older d hd
      rw [Bool.and_eq_true, decide_eq_true_eq] at hcond
      exact hnew i hi (hid.trans hcond.1)
    · intro d hd
      rw [deleted] at hd
      obtain ⟨i, hi, hrest⟩ := hs.older d hd
      exact ⟨i, (hmem i).mpr (.inl hi), hrest⟩
  | swept job t gone g mem active current rows keeps same counts older deleted policy revision =>
    have hkeeps : ∀ j ∈ s.jobs, g j = j ∨ j.state.isActive = true ∧ j.Same (g j) := by
      intro j hj
      by_cases hid : j.id = job.id
      · obtain rfl := Table.eq_of_key hj mem hid
        exact .inr ⟨active, same⟩
      · exact .inl (keeps j hj hid)
    refine ⟨active_of_keeps hs rows hkeeps, made_of_keeps hs rows hkeeps, ?_, ?_⟩
    · intro k hk t'
      obtain ⟨j, hj, rfl⟩ := mem_of_map rows hk
      rw [Store.deletedFor, deleted, List.countP_append, countP_batch, (same_of_keeps hkeeps hj).id]
      have hcounted := hs.counted j hj t'
      rw [Store.deletedFor] at hcounted
      rw [← hcounted]
      by_cases hid : j.id = job.id
      · obtain rfl := Table.eq_of_key hj mem hid
        rw [counts, Function.update_apply]
        split_ifs with htt' hand hand
        · rw [htt']
        · exact absurd ⟨rfl, htt'.symm⟩ hand
        · exact absurd hand.2.symm htt'
        · rfl
      · rw [keeps j hj hid, if_neg fun h => hid h.1.symm, Nat.add_zero]
    intro d hd
    rw [deleted] at hd
    rcases List.mem_append.mp hd with hd | hd
    · exact older_of_keeps hs rows hkeeps hd
    · obtain ⟨r, hr, rfl⟩ := List.mem_map.mp hd
      refine ⟨g job, mem_map_of rows mem, same.id, same.revision.trans current.symm, ?_⟩
      rw [same.cutoffs]
      exact older r hr

/-- A job that is over stays as it is, and no row goes for it. -/
theorem Changes.final (h : Changes julianday s s') (hj : j ∈ s.jobs) (hfinal : j.state.isActive = false) :
    j ∈ s'.jobs ∧ ∀ t, s'.deletedFor j.id t = s.deletedFor j.id t := by
  cases h with
  | moved g rows keeps deleted policy revision =>
    have hsame : g j = j := by
      rcases keeps j hj with h | ⟨h, -⟩
      · exact h
      · rw [hfinal] at h
        cases h
    refine ⟨hsame ▸ mem_map_of rows hj, ?_⟩
    intro t
    rw [Store.deletedFor, Store.deletedFor, deleted]
  | saved r confirmed expected eq =>
    subst eq
    exact ⟨hj, fun _ => rfl⟩
  | enqueued k idle jobs made counts deleted policy revision =>
    refine ⟨(Table.mem_insert jobs).mpr (.inl hj), ?_⟩
    intro t
    rw [Store.deletedFor, Store.deletedFor, deleted]
  | swept job t gone g mem active current rows keeps same counts older deleted policy revision =>
    have hne : j.id ≠ job.id := by
      intro hid
      obtain rfl := Table.eq_of_key hj mem hid
      rw [hfinal] at active
      cases active
    refine ⟨keeps j hj hne ▸ mem_map_of rows hj, ?_⟩
    intro t'
    rw [Store.deletedFor, Store.deletedFor, deleted, List.countP_append, countP_batch, if_neg fun h => hne h.1.symm, Nat.add_zero]

/-! ## One statement of a call -/

/-- A preview that a call holds was computed, and is the one that was asked for. -/
def Thread.Local : Thread → Prop
  | .counting p _ _ | .storing p _ => p.Computed
  | .inserting p revision _ _ => p.Computed ∧ p.revision = revision
  | _ => True

structure Sane (julianday : Int → Int) (s : Store) : Prop extends Sound julianday s where
  previews : ∀ p ∈ s.previews, p.Computed

theorem takePreview_computed {values : Option Policy} {instant : Int} {id : Nat}
    (h : s.takePreview values instant id = .ok p) : p.Computed := by
  unfold Store.takePreview at h
  dsimp only at h
  split_ifs at h
  cases h
  intro t
  simp only [Int.add_sub_cancel]

theorem storePreview_computed {instant : Int} (hs : ∀ q ∈ s.previews, q.Computed) (hp : p.Computed) :
    ∀ q ∈ (s.storePreview p instant).previews, q.Computed := by
  intro q hq
  simp only [Store.storePreview, List.mem_append, List.mem_singleton] at hq
  rcases hq with hq | rfl
  · have hkept := List.mem_of_mem_filter hq
    split_ifs at hkept
    · exact hs q (List.mem_of_mem_filter (List.mem_of_mem_tail hkept))
    · exact hs q (List.mem_of_mem_filter hkept)
  · exact hp

/-- What one statement of a call leaves: one of the four changes, and previews that were computed. -/
structure Leaves (julianday : Int → Int) (s : Store) (r : Store × Thread) : Prop where
  changes : Changes julianday s r.1
  previews : ∀ p ∈ r.1.previews, p.Computed
  call : r.2.Local

variable {t : Thread}

theorem Leaves.same (hs : Sane julianday s) (ht : t.Local) : Leaves julianday s (s, t) :=
  ⟨.unchanged rfl rfl rfl rfl, hs.previews, ht⟩

theorem Leaves.commit {r : Except String Store} {next : Thread} (hs : Sane julianday s) (hnext : next.Local)
    (hr : ∀ s', r = .ok s' → Changes julianday s s' ∧ s'.previews = s.previews) : Leaves julianday s (s.commit r next) := by
  cases r with
  | error code => exact .same hs trivial
  | ok s' =>
    obtain ⟨hchanges, hpreviews⟩ := hr s' rfl
    refine ⟨hchanges, ?_, hnext⟩
    show ∀ p ∈ s'.previews, p.Computed
    rw [hpreviews]
    exact hs.previews

theorem savePolicy_previews (h : s.savePolicy r = .ok s') : s'.previews = s.previews := by
  unfold Store.savePolicy at h
  split_ifs at h
  cases h
  rfl

theorem insertJob_keeps {revision instant : Int} {actor : String} {id : Nat}
    (h : s.insertJob p revision actor instant id = .ok s') :
    s'.previews = s.previews ∧ s'.policy = s.policy ∧ s'.rows = s.rows ∧ s'.deleted = s.deleted := by
  unfold Store.insertJob at h
  split_ifs at h
  split at h
  · cases h
  · cases h
    exact ⟨rfl, rfl, rfl, rfl⟩

theorem sweep_keeps (job : Job) (batchSize : Nat) (todo : List TableName) :
    (s.sweep julianday job batchSize todo).previews = s.previews ∧ (s.sweep julianday job batchSize todo).policy = s.policy := by
  induction todo with
  | nil => exact ⟨rfl, rfl⟩
  | cons t rest ih =>
    unfold Store.sweep
    dsimp only
    split
    · exact ih
    · exact ⟨rfl, rfl⟩

theorem runBatch_keeps (owner : String) (batchSize : Nat) (timestamp : Int) :
    (s.runBatch julianday owner batchSize timestamp).previews = s.previews ∧
      (s.runBatch julianday owner batchSize timestamp).policy = s.policy := by
  unfold Store.runBatch
  split
  · exact ⟨rfl, rfl⟩
  split
  · split <;> exact ⟨rfl, rfl⟩
  · split
    · exact ⟨rfl, rfl⟩
    · exact sweep_keeps _ _ _

theorem retryFailure_keeps (owner : String) (instant : Int) :
    (s.retryFailure owner instant).previews = s.previews ∧ (s.retryFailure owner instant).policy = s.policy ∧
      (s.retryFailure owner instant).rows = s.rows ∧ (s.retryFailure owner instant).deleted = s.deleted := by
  unfold Store.retryFailure
  split
  · exact ⟨rfl, rfl, rfl, rfl⟩
  · split <;> exact ⟨rfl, rfl, rfl, rfl⟩

theorem statement_leaves (hs : Sane julianday s) (ht : t.Local) : Leaves julianday s (statement julianday s t met) := by
  unfold statement
  split
  · exact .same hs trivial
  cases t with
  | savePolicy r => exact .commit hs trivial fun s' h => ⟨savePolicy_changes h, savePolicy_previews h⟩
  | preview values => exact .same hs trivial
  | reading values instant =>
    cases hp : s.takePreview values instant met.uuid with
    | error code =>
      simp only [hp]
      exact .same hs trivial
    | ok p =>
      simp only [hp]
      exact .same hs (takePreview_computed hp)
  | counting p instant todo =>
    cases todo with
    | nil | cons t todo => exact .same hs ht
  | storing p instant => exact ⟨.unchanged rfl rfl rfl rfl, storePreview_computed hs.previews ht, trivial⟩
  | enqueue previewId revision actor =>
    cases hfind : s.findPreview previewId with
    | none =>
      simp only [hfind]
      exact .same hs trivial
    | some p =>
      simp only [hfind]
      split
      · exact .same hs trivial
      · next hcond =>
        simp only [Bool.or_eq_true, decide_eq_true_eq, not_or, not_not] at hcond
        exact .same hs ⟨hs.previews p (List.mem_of_find?_eq_some hfind), hcond.2⟩
  | inserting p revision actor instant =>
    exact .commit hs trivial fun s' h => ⟨insertJob_changes ht.1 ht.2 h, (insertJob_keeps h).1⟩
  | dropping previewId =>
    exact ⟨.unchanged rfl rfl rfl rfl, fun p hp => hs.previews p (List.mem_of_mem_filter hp), trivial⟩
  | cancel job => exact ⟨cancel_changes job, hs.previews, trivial⟩
  | runBatch owner batchSize =>
    dsimp only
    split <;> exact .same hs trivial
  | running owner batchSize instant =>
    refine ⟨runBatch_changes owner batchSize instant, ?_, trivial⟩
    rw [(runBatch_keeps owner batchSize instant).1]
    exact hs.previews
  | retryFailure owner => exact .same hs trivial
  | retrying owner instant =>
    refine ⟨retryFailure_changes owner instant, ?_, trivial⟩
    rw [(retryFailure_keeps owner instant).1]
    exact hs.previews
  | insertRow t row =>
    dsimp only
    split
    · exact ⟨.unchanged rfl rfl rfl rfl, hs.previews, trivial⟩
    · exact .same hs trivial
  | advance d => exact ⟨.unchanged rfl rfl rfl rfl, hs.previews, trivial⟩
  | restart => exact ⟨.unchanged rfl rfl rfl rfl, by simp, trivial⟩
  | done error => exact .same hs trivial

/-- Only `save_policy` changes the policy. -/
theorem statement_policy (h : (statement julianday s t met).1.policy ≠ s.policy) :
    ∃ r, t = .savePolicy r ∧ s.savePolicy r = .ok (statement julianday s t met).1 := by
  unfold statement at h ⊢
  split at h
  · exact absurd rfl h
  rename_i hraises
  simp only [if_neg hraises]
  cases t with
  | savePolicy r =>
    refine ⟨r, rfl, ?_⟩
    cases hsave : s.savePolicy r with
    | error code =>
      simp only [hsave, Store.commit] at h
      exact absurd rfl h
    | ok s' => simp only [hsave, Store.commit]
  | reading values instant =>
    dsimp only at h
    split at h <;> exact absurd rfl h
  | counting p instant todo => cases todo <;> exact absurd rfl h
  | enqueue previewId revision actor =>
    dsimp only at h
    split at h
    · split at h <;> exact absurd rfl h
    · exact absurd rfl h
  | inserting p revision actor instant =>
    cases hinsert : s.insertJob p revision actor instant met.uuid with
    | error code =>
      simp only [hinsert, Store.commit] at h
      exact absurd rfl h
    | ok s' =>
      simp only [hinsert, Store.commit] at h
      exact absurd (insertJob_keeps hinsert).2.1 h
  | runBatch owner batchSize =>
    dsimp only at h
    split at h <;> exact absurd rfl h
  | running owner batchSize instant => exact absurd (runBatch_keeps owner batchSize instant).2 h
  | retrying owner instant => exact absurd (retryFailure_keeps owner instant).2.1 h
  | insertRow t row =>
    dsimp only at h
    split at h <;> exact absurd rfl h
  | preview | storing | dropping | cancel | retryFailure | advance | restart | done => exact absurd rfl h

/-! ## Rows that go -/

/-- The deletions that are recorded are those of the rows that go, each once, with the revision in force. -/
def Accounted (s s' : Store) : Prop :=
  ∃ gone, s'.deleted = s.deleted ++ gone ∧ gone.Nodup ∧ (∀ d ∈ gone, d.revision = s.revision) ∧
    ∀ t r, (∃ d ∈ gone, d.table = t ∧ d.row = r) ↔ r ∈ s.rows t ∧ r ∉ s'.rows t

theorem Accounted.of_kept (hdeleted : s'.deleted = s.deleted) (hrows : ∀ t, ∀ r ∈ s.rows t, r ∈ s'.rows t) : Accounted s s' :=
  ⟨[], by simp [hdeleted], List.nodup_nil, by simp, fun t r => by simpa using hrows t r⟩

theorem Accounted.of_rows (hdeleted : s'.deleted = s.deleted) (h : s'.rows = s.rows) : Accounted s s' :=
  .of_kept hdeleted fun _ _ hr => h ▸ hr

theorem sweep_accounted (job : Job) (batchSize : Nat) (todo : List TableName) :
    Accounted s (s.sweep julianday job batchSize todo) := by
  induction todo with
  | nil => exact .of_rows rfl rfl
  | cons t rest ih =>
    unfold Store.sweep
    dsimp only
    split
    · exact ih
    generalize s.batch julianday t (job.cutoffs t) batchSize = ids
    refine ⟨_, rfl, ?_, ?_, fun t' r => ?_⟩
    · refine ((s.rows t).nodup.of_map.sublist List.filter_sublist).map ?_
      intro r r' heq
      exact congrArg Deletion.row heq
    · intro d hd
      obtain ⟨r, -, rfl⟩ := List.mem_map.mp hd
      rfl
    by_cases htt' : t' = t
    · subst htt'
      simp only [Store.deleteBatch, Function.update_self, Table.mem_delete]
      constructor
      · rintro ⟨d, hd, -, rfl⟩
        obtain ⟨r, hr, rfl⟩ := List.mem_map.mp hd
        obtain ⟨hmem, hin⟩ := List.mem_filter.mp hr
        exact ⟨hmem, fun hleft => Bool.true_eq_false_eq_False (hin.symm.trans hleft.2)⟩
      · rintro ⟨hr, hnot⟩
        have hin : ids.contains r.id = true := by simpa [hr] using hnot
        exact ⟨_, List.mem_map.mpr ⟨r, List.mem_filter.mpr ⟨hr, hin⟩, rfl⟩, rfl, rfl⟩
    simp only [Store.deleteBatch, Function.update_of_ne htt']
    refine iff_of_false ?_ fun hboth => hboth.2 hboth.1
    rintro ⟨d, hd, rfl, -⟩
    obtain ⟨r, -, rfl⟩ := List.mem_map.mp hd
    exact htt' rfl

theorem runBatch_accounted (owner : String) (batchSize : Nat) (timestamp : Int) :
    Accounted s (s.runBatch julianday owner batchSize timestamp) := by
  unfold Store.runBatch
  split
  · exact .of_rows rfl rfl
  split
  · split <;> exact .of_rows rfl rfl
  rename_i job _
  split
  · exact .of_rows rfl rfl
  · exact sweep_accounted (s := { s with lease := ⟨some owner, timestamp + leaseTime⟩ }.updateJob job.id
      (fun j => { j with state := .running, errorCode := none }) fun _ => rfl) job batchSize tables

theorem statement_accounted (t : Thread) : Accounted s (statement julianday s t met).1 := by
  unfold statement
  split
  · exact .of_rows rfl rfl
  cases t with
  | savePolicy r =>
    cases hsave : s.savePolicy r with
    | error code => exact .of_rows (by simp [hsave, Store.commit]) (by simp [hsave, Store.commit])
    | ok s' =>
      simp only [hsave, Store.commit]
      unfold Store.savePolicy at hsave
      split_ifs at hsave
      cases hsave
      exact .of_rows rfl rfl
  | reading values instant =>
    dsimp only
    split <;> exact .of_rows rfl rfl
  | counting p instant todo => cases todo <;> exact .of_rows rfl rfl
  | enqueue previewId revision actor =>
    dsimp only
    split
    · split <;> exact .of_rows rfl rfl
    · exact .of_rows rfl rfl
  | inserting p revision actor instant =>
    cases hinsert : s.insertJob p revision actor instant met.uuid with
    | error code => exact .of_rows (by simp [hinsert, Store.commit]) (by simp [hinsert, Store.commit])
    | ok s' =>
      simp only [hinsert, Store.commit]
      exact .of_rows (insertJob_keeps hinsert).2.2.2 (insertJob_keeps hinsert).2.2.1
  | runBatch owner batchSize =>
    dsimp only
    split <;> exact .of_rows rfl rfl
  | running owner batchSize instant => exact runBatch_accounted owner batchSize instant
  | retrying owner instant => exact .of_rows (retryFailure_keeps owner instant).2.2.2 (retryFailure_keeps owner instant).2.2.1
  | insertRow t row =>
    dsimp only
    split
    · next rows hinsert =>
      refine .of_kept rfl fun t' r hr => ?_
      by_cases htt' : t' = t
      · subst htt'
        simp only [Function.update_self]
        exact (Table.mem_insert hinsert).mpr (.inl hr)
      · simpa only [Function.update_of_ne htt'] using hr
    · exact .of_rows rfl rfl
  | preview | storing | dropping | cancel | retryFailure | advance | restart | done => exact .of_rows rfl rfl

/-! ## Every run -/

variable {w w' : Pool Store Thread} {tr : List (Pool.Event Thread Met)}

theorem sane_run (h : Run (RetentionStep julianday) w tr w') (hw : Sane julianday w.shared ∧ ∀ t ∈ w.threads, t.Local) :
    Sane julianday w'.shared ∧ ∀ t ∈ w'.threads, t.Local := by
  refine Pool.invariant (G := Sane julianday) (L := fun _ => Thread.Local) h hw ?_ ?_ ?_
  · intro s t _ ht
    cases t <;> trivial
  · intro s t met s' t' hs ht hstep
    obtain ⟨rfl, rfl⟩ := Prod.mk.inj hstep
    obtain ⟨hchanges, hpreviews, hcall⟩ := statement_leaves hs ht
    exact ⟨⟨hchanges.sound hs.toSound, hpreviews⟩, hcall⟩
  · intro s t met s' t' u _ _ hu _
    exact hu

/-- What a step of a run does to the store. -/
theorem RetentionStep.changes {e : Pool.Event Thread Met} (hs : RetentionStep julianday w e w')
    (hw : Sane julianday w.shared ∧ ∀ t ∈ w.threads, t.Local) : Changes julianday w.shared w'.shared := by
  cases hs with
  | start _ => exact .unchanged rfl rfl rfl rfl
  | act hget hstep =>
    obtain ⟨rfl, rfl⟩ := Prod.mk.inj hstep
    exact (statement_leaves hw.1 (hw.2 _ (List.mem_of_getElem? hget))).changes

theorem final_run (h : Run (RetentionStep julianday) w tr w') (hw : Sane julianday w.shared ∧ ∀ t ∈ w.threads, t.Local)
    (hj : j ∈ w.shared.jobs) (hfinal : j.state.isActive = false) :
    j ∈ w'.shared.jobs ∧ ∀ t, w'.shared.deletedFor j.id t = w.shared.deletedFor j.id t := by
  have hI : (Sane julianday w'.shared ∧ ∀ t ∈ w'.threads, t.Local) ∧
      j ∈ w'.shared.jobs ∧ ∀ t, w'.shared.deletedFor j.id t = w.shared.deletedFor j.id t := by
    refine h.invariant (I := fun v => (Sane julianday v.shared ∧ ∀ t ∈ v.threads, t.Local) ∧
      j ∈ v.shared.jobs ∧ ∀ t, v.shared.deletedFor j.id t = w.shared.deletedFor j.id t) ⟨hw, hj, fun _ => rfl⟩ ?_
    rintro u e v ⟨hu, hju, hcount⟩ hs
    obtain ⟨hjv, hsame⟩ := (hs.changes hu).final hju hfinal
    exact ⟨sane_run ((Run.nil u).snoc hs) hu, hjv, fun t => (hsame t).trans (hcount t)⟩
  exact hI.2

/-- A confirmation of these values for the policy in force, not yet expired. -/
structure ConfirmedBy (s : Store) (r : SaveRequest) (p : Preview) : Prop where
  confirmed : r.confirmed = true
  stored : p ∈ s.previews
  named : r.previewId = some p.id
  policy : p.policy = r.values
  revision : p.revision = s.revision
  unexpired : s.now < p.expiresAt

theorem confirmedBy_of_confirms (h : s.confirms r = true) (hrevision : s.revision = r.expectedRevision) :
    ∃ p, ConfirmedBy s r p := by
  unfold Store.confirms at h
  rw [Bool.and_eq_true] at h
  obtain ⟨hconfirmed, h⟩ := h
  split at h
  · cases h
  rename_i p hfind
  obtain ⟨id, hid, hfind⟩ := Option.bind_eq_some_iff.mp hfind
  simp only [Bool.and_eq_true, decide_eq_true_eq] at h
  have hpid : p.id = id := by simpa using List.find?_some hfind
  exact ⟨p, hconfirmed, List.mem_of_find?_eq_some hfind, hpid ▸ hid, h.1.2, h.1.1.trans hrevision.symm, h.2⟩

/-- Days go down only where `save_policy` was given the confirmation it asks for. -/
theorem shortened_confirmed {e : Pool.Event Thread Met} {t : TableName} (hs : RetentionStep julianday w e w')
    (hless : w'.shared.policy.days t < w.shared.policy.days t) :
    ∃ i met r p, e = .act i met ∧ w.threads[i]? = some (.savePolicy r) ∧ ConfirmedBy w.shared r p ∧ w'.shared.policy = r.values := by
  cases hs with
  | start _ => exact absurd hless (Int.lt_irrefl _)
  | @act i u u' met s' hget hstep =>
    have hpolicy : s'.policy ≠ w.shared.policy := by
      intro heq
      rw [show (⟨s', w.threads.set i u'⟩ : Pool Store Thread).shared.policy = w.shared.policy from heq] at hless
      exact Int.lt_irrefl _ hless
    have hstep : statement julianday w.shared u met = (s', u') := hstep
    have honly := @statement_policy julianday w.shared met u
    rw [hstep] at honly
    obtain ⟨r, rfl, hsave⟩ := honly hpolicy
    unfold Store.savePolicy at hsave
    split_ifs at hsave with hvalid hrevision hshortens
    obtain rfl := Except.ok.inj hsave
    have hrev : w.shared.revision = r.expectedRevision := by simpa using hrevision
    have hshort : r.values.shortens w.shared.policy = true :=
      List.any_eq_true.mpr ⟨t, by cases t <;> simp [tables], decide_eq_true hless⟩
    obtain ⟨p, hp⟩ := confirmedBy_of_confirms (by simpa [hshort] using hshortens) hrev
    exact ⟨i, met, r, p, rfl, hget, hp, rfl⟩

/-- The store before any call: no previews and no jobs. -/
structure Initial (s : Store) : Prop where
  jobs : s.jobs = ∅
  deleted : s.deleted = []
  previews : s.previews = []

theorem Initial.sane (h : Initial s) : Sane julianday s := by
  refine ⟨⟨?_, ?_, ?_, ?_⟩, ?_⟩
  · simp [h.jobs]
  · simp [h.jobs]
  · simp [h.jobs]
  · simp [h.deleted]
  · simp [h.previews]

/-- **Retention deletes only what was confirmed.** In every run: at most one job is active; a row that goes is recorded,
and was older than the cutoff of a preview of the policy in force when its job was enqueued, with the revision still in
force; a job that is over stays as it is and deletes nothing more; its counts are the rows it deleted; and days go down
only by a `save_policy` confirmed with an unexpired preview of the same revision. -/
theorem retention_confirmed (hjulianday : Monotone julianday) (hs : Initial s) (h : Run (RetentionStep julianday) ⟨s, []⟩ tr w) :
    (∀ j ∈ w.shared.jobs, ∀ k ∈ w.shared.jobs, j.state.isActive = true → k.state.isActive = true → j = k) ∧
    (∀ e w', RetentionStep julianday w e w' → Accounted w.shared w'.shared) ∧
    (∀ d ∈ w.shared.deleted, ∃ j ∈ w.shared.jobs, j.id = d.job ∧ j.origin.policy = j.inForce ∧
      j.origin.revision = d.revision ∧ j.origin.Computed ∧
        ∃ created, d.row.created = some created ∧ created < j.origin.cutoffs d.table) ∧
    (∀ j ∈ w.shared.jobs, j.state.isActive = false → ∀ tr' w', Run (RetentionStep julianday) w tr' w' →
      j ∈ w'.shared.jobs ∧ ∀ t, w'.shared.deletedFor j.id t = w.shared.deletedFor j.id t) ∧
    (∀ j ∈ w.shared.jobs, ∀ t, j.counts t = w.shared.deletedFor j.id t) ∧
    (∀ e w' t, RetentionStep julianday w e w' → w'.shared.policy.days t < w.shared.policy.days t →
      ∃ i met r p, e = .act i met ∧ w.threads[i]? = some (.savePolicy r) ∧ ConfirmedBy w.shared r p ∧
        w'.shared.policy = r.values) := by
  have hsane := sane_run h ⟨hs.sane, by simp⟩
  refine ⟨hsane.1.active, ?_, ?_, ?_, hsane.1.counted, ?_⟩
  · intro e w' hstep
    cases hstep with
    | start _ => exact .of_rows rfl rfl
    | act _ hstep =>
      obtain ⟨rfl, rfl⟩ := Prod.mk.inj hstep
      exact statement_accounted _
  · intro d hd
    obtain ⟨j, hj, hid, hrevision, holder⟩ := hsane.1.older d hd
    have hmade := hsane.1.made j hj
    refine ⟨j, hj, hid, hmade.policy, hmade.revision.trans hrevision, hmade.computed, ?_⟩
    unfold Store.olderThan at holder
    split at holder
    · next created hcreated =>
      refine ⟨created, hcreated, ?_⟩
      rw [← hmade.cutoffs]
      exact hjulianday.reflect_lt (of_decide_eq_true holder)
    · cases holder
  · intro j hj hfinal tr' w' h'
    exact final_run h' hsane hj hfinal
  · intro e w' t hstep hless
    exact shortened_confirmed hstep hless

/-! ## A job that deletes one row -/

theorem retention_run (h : guarded (Pool.next (statement julianday)) (Pool.possible begins fun _ _ => true) w tr = true) :
    Run (RetentionStep julianday) w tr (tr.foldl (Pool.next (statement julianday)) w) :=
  Pool.run_of_guarded (fun _ h => h) (fun _ _ _ _ => rfl) h

/-- A row is written, a preview is taken and confirmed, and a worker runs a batch. -/
def oneSweep : List (Pool.Event Thread Met) :=
  [Pool.Event.start (.insertRow .logs ⟨"a", some 0⟩), .act 0 ({} : Met), .start (.preview none)] ++
    List.replicate 7 (Pool.Event.act 1 ({ uuid := 5 } : Met)) ++
    [Pool.Event.start (.enqueue 5 1 "admin"), .act 2 ({} : Met), .act 2 { uuid := 7 }, .act 2 {}, .start (.runBatch "worker" 200),
      .act 3 {}, .act 3 {}]

theorem retention_confirmed_sweep : ∃ w, Run (RetentionStep id) ⟨{ now := 8 * day }, []⟩ oneSweep w ∧
    w.shared.deleted = [⟨7, .logs, ⟨"a", some 0⟩, 1⟩] ∧
    ∀ d ∈ w.shared.deleted, ∃ j ∈ w.shared.jobs, j.id = d.job ∧ j.origin.policy = j.inForce ∧
      j.origin.revision = d.revision ∧ j.origin.Computed ∧
        ∃ created, d.row.created = some created ∧ created < j.origin.cutoffs d.table := by
  have hrun : Run (RetentionStep id) ⟨{ now := 8 * day }, []⟩ oneSweep
      (oneSweep.foldl (Pool.next (statement id)) ⟨{ now := 8 * day }, []⟩) := retention_run (by decide +kernel)
  exact ⟨_, hrun, by decide +kernel, (retention_confirmed monotone_id ⟨rfl, rfl, rfl⟩ hrun).2.2.1⟩

end LingshuGate.Retention

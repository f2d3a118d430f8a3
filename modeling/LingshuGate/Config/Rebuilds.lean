import LingshuGate.Config.Save

/-!
# A configuration that is deleted and created again (`mcp_configuration.py`, `http_mcp_configuration.py`)

| here | there |
| --- | --- |
| `invalidateInstances`, `removeMemberships` | `invalidate_instances`, `remove_instance_memberships` (persistence/mcp_groups.py:131, 152) |
| `reconcileTools`         | `reconcile_server_tools` with no definitions (access_control.py:876) |
| `cleanupDeletedMetadata` | `cleanup_deleted_metadata` (mcp_configuration.py:340), `retire_deleted_tools` (main.py:206) |
| `delete`, `create`       | `McpConfigurationService.delete` (280), `.create` (169) |
| `unreconciledDeletion`   | `_unreconciled_deletion` (http_mcp_configuration.py:29) |
| `runDelete`, `runCreate` | `run_http_configuration` (132) |
| `finish`, `interrupt`    | the end of `_run`, `_interrupt_unfinished` (external_mcp_configuration.py:547, 168) |

All of it is about one server. A deletion unlinks the file first; its credential values, memberships and published
classifications are cleaned by later transactions. Who creates the server again finishes an unfinished cleanup only as an
operation of `http_v1` that finds the deletion as the latest one recorded.

`removals` counts how often a deletion has removed the file. What is recorded carries the count of its time, so a smaller
one is of before the last removal; `settled` says of that removal whether it was cleaned up after. The lock of the configurations is held by each `delete`, `create`, `run` and group edit.
What of an operation raises or crashes is in its `…Met`; a crash does not compensate and does not write the row.
-/

namespace LingshuGate.Rebuilds

open Lib
open Config (Store Draft Fault)

/-! ## What is kept for a server -/

/-- A row of `mcp_group_members`. -/
structure Member where
  active : Bool
  since : Nat
  deriving DecidableEq

/-- A row of `mcp_tool_classifications`. -/
structure Tool where
  id : String
  /-- The count when it was published, while it is. -/
  published : Option Nat := none
  /-- `evidence["lifecycle"]["status"] == "retired"`. -/
  retired : Bool := false
  deriving DecidableEq

inductive Mode
  | create | delete
  deriving DecidableEq

inductive Status
  | queued | running | success
  /-- The terminal ones but `success`. -/
  | ended
  deriving DecidableEq

/-- A row of `external_mcp_config_operations` with an `http_v1` plan for the server. -/
structure Row where
  id : String
  mode : Mode
  status : Status := .queued
  /-- `requires_reconciliation` of `result_json`. -/
  reconcile : Bool := false
  /-- Its thread is in `_threads`. -/
  live : Bool := true
  deriving DecidableEq

structure World where
  config : Store := {}
  /-- `user_downstream_credentials`, by user and slot. -/
  bindings : String × String → Option Nat := fun _ => none
  members : String → Option Member := fun _ => none
  tools : List Tool := []
  /-- Newest first. -/
  rows : List Row := []
  removals : Nat := 0
  /-- A `create` succeeded after the last removal. -/
  rebuilt : Bool := false
  /-- After the last removal a cleanup has finished that passed over no published classification of before. Nothing reads it. -/
  settled : Bool := true

/-! ## Cleaning up -/

def World.invalidateInstances (w : World) : World :=
  { w with members := fun g => (w.members g).map fun m => { m with active := false } }

def World.removeMemberships (w : World) : World := { w with members := fun _ => none }

/-- What is marked as retired is passed over. -/
def Tool.retire (t : Tool) : Tool := if t.retired then t else { t with published := none, retired := true }

/-- `done` are the rows it comes to before it fails. -/
def World.reconcileTools (w : World) (done : Option (List String)) : World :=
  { w with tools := w.tools.map fun t => if done.all (t.id ∈ ·) then t.retire else t }

def World.deleteServerBindings (w : World) : World := { w with bindings := fun _ => none }

/-- No classification that was published before the last removal is marked as retired. -/
def World.unmarked (w : World) : Bool := w.tools.all fun t => !t.retired || t.published.all (w.removals ≤ ·)

structure CleanupMet where
  members : Bool := false
  /-- It fails here, after these rows. -/
  tools : Option (List String) := none
  bindings : Bool := false

/-- The flag is whether it finished. -/
def World.cleanupDeletedMetadata (w : World) (memberships : Bool) (f : CleanupMet) : World × Bool :=
  if memberships && f.members then (w, false)
  else
    let settled := w.unmarked
    let w := (if memberships then w.removeMemberships else w).reconcileTools f.tools
    if f.tools.isSome || f.bindings then (w, false) else ({ w.deleteServerBindings with settled }, true)

/-! ## The service -/

inductive Outcome
  | returned | raised
  /-- `McpConfigPartialError` -/
  | partly
  | crashed
  deriving DecidableEq

/-- What stops an operation is an exception or a crash. -/
def stopped (crashed : Bool) (otherwise : Outcome) : Outcome := if crashed then .crashed else otherwise

structure DeleteMet where
  invalidate : Bool := false
  remove : Bool := false
  delete : Fault := .none
  cleanup : CleanupMet := {}
  crashed : Bool := false

/-- The file is gone. -/
def World.removed (w : World) (config : Store) : World :=
  { w with config, removals := w.removals + 1, rebuilt := false, settled := false }

def delete (serverId : String) (w : World) (memberships : Bool) (f : DeleteMet) : World × Outcome :=
  match w.config.loadManifest serverId with
  | .error _ => (w, .raised)
  | .ok _ =>
    if f.invalidate then (w, stopped f.crashed .raised)
    else if f.remove then (w.invalidateInstances, stopped f.crashed .raised)
    else match w.config.deleteConfig serverId f.delete with
      | .refused => (w.invalidateInstances, stopped f.crashed .raised)
      | .replaced config => (w.invalidateInstances.removed config, stopped f.crashed .partly)
      | .saved config => match (w.invalidateInstances.removed config).cleanupDeletedMetadata memberships f.cleanup with
        | (w, true) => (w, .returned)
        | (w, false) => (w, stopped f.crashed .partly)

structure Create (serverId : String) where
  draft : Draft
  same : draft.manifest.id = serverId
  userId : String
  /-- Of `user_credential_values`. -/
  slots : List String := []
  policyWrites : Bool := false

structure CreateMet where
  invalid : Bool := false
  save : Fault := .none
  /-- What fails after the file is replaced is raised as `McpConfigPartialError`. -/
  saveReported : Bool := false
  /-- The scopes or the runtime. -/
  apply : Bool := false
  /-- It fails after this many values. -/
  values : Option Nat := none
  rollback : Fault := .none
  crashed : Bool := false

def World.saveBinding (w : World) (userId slot : String) : World :=
  { w with bindings := Function.update w.bindings (userId, slot) (some w.removals) }

/-- `_save_user_credentials`. -/
def World.saveValues (w : World) (userId : String) (slots : List String) : World :=
  slots.foldl (fun w slot => w.saveBinding userId slot) w

section Server

variable {serverId : String}

/-- The `except`. -/
def World.rollBack (w : World) (r : Create serverId) (f : CreateMet) : World × Outcome :=
  if f.crashed then (w, .crashed)
  else if r.policyWrites then (w, .partly)
  else match w.config.deleteConfig r.draft.manifest.id f.rollback with
    | .refused => (w, .raised)
    | .replaced config | .saved config => ({ w with config }, .raised)

def create (w : World) (r : Create serverId) (f : CreateMet) : World × Outcome :=
  if f.invalid then (w, stopped f.crashed .raised)
  else match w.config.saveConfig r.draft none false f.save with
    | .refused => (w, stopped f.crashed .raised)
    | .replaced config => ({ w with config }, stopped f.crashed (if f.saveReported then .partly else .raised))
    | .saved config =>
      if f.apply then World.rollBack { w with config } r f
      else match f.values with
        | some n => (World.saveValues { w with config } r.userId (r.slots.take n)).rollBack r f
        | none => ({ World.saveValues { w with config } r.userId r.slots with rebuilt := true }, .returned)

/-! ## The operations of `http_v1` -/

def unreconciledDeletion (rows : List Row) : Bool :=
  (rows.find? fun r => r.status = .success || r.reconcile).any fun r => r.status ≠ .success && r.mode = .delete

/-- How an operation ends, before its row is written. -/
inductive End
  | success
  | failed (reconcile : Bool)
  | crashed
  deriving DecidableEq

structure RunMet where
  /-- The authority, the digests, the trust plan, the removal from the runtime. -/
  refused : Bool := false
  delete : DeleteMet := {}
  cleanup : CleanupMet := {}
  /-- What is between the cleanup and the `create`. -/
  prepare : Bool := false
  create : CreateMet := {}
  /-- What comes after the `delete` or the `create`. -/
  later : Bool := false
  /-- What stops it outside of `delete` and `create` is a crash. -/
  crashed : Bool := false

def ended (crashed reconcile : Bool) : End := if crashed then .crashed else .failed reconcile

def runDelete (serverId : String) (w : World) (f : RunMet) : World × End :=
  if f.refused then (w, ended f.crashed false)
  else match delete serverId w true f.delete with
    | (w, .returned) => (w, if f.later then ended f.crashed false else .success)
    | (w, .raised) => (w, .failed false)
    | (w, .partly) => (w, .failed true)
    | (w, .crashed) => (w, .crashed)

/-- The cleanup of a deletion that did not finish its own. -/
def World.reconcileDeletion (w : World) (f : CleanupMet) : World × Bool :=
  if unreconciledDeletion w.rows then w.cleanupDeletedMetadata true f else (w, true)

/-- Its request has no credential values. -/
def Create.http (r : Create serverId) : Create serverId := { r with slots := [] }

def runCreate (w : World) (r : Create serverId) (f : RunMet) : World × End :=
  if f.refused || (w.config.findPath serverId).isSome then (w, ended f.crashed false)
  else match w.reconcileDeletion f.cleanup with
    | (w, false) => (w, ended f.crashed false)
    | (w, true) =>
      if f.prepare then (w, ended f.crashed false)
      else match create w r.http f.create with
        | (w, .returned) => (w, if f.later then ended f.crashed true else .success)
        | (w, .raised) => (w, .failed (w.config.findPath serverId).isSome)
        | (w, .partly) => (w, .failed true)
        | (w, .crashed) => (w, .crashed)

def World.setRow (w : World) (id : String) (f : Row → Row) : World :=
  { w with rows := w.rows.map fun r => if r.id = id then f r else r }

/-- The process ends, and its threads. -/
def World.crash (w : World) : World := { w with rows := w.rows.map fun r => { r with live := false } }

/-- The row of an operation is written, unless that fails or the process crashed. -/
def World.finish (w : World) (id : String) (unwritten : Bool) : End → World
  | .crashed => (w.setRow id fun r => { r with status := .running }).crash
  | .success => w.setRow id fun r =>
    if unwritten then { r with status := .running, live := false } else { r with status := .success, live := false }
  | .failed reconcile => w.setRow id fun r =>
    if unwritten then { r with status := .running, live := false } else { r with status := .ended, reconcile, live := false }

def Row.interrupt (r : Row) : Row :=
  if (r.status = .queued || r.status = .running) && !r.live then { r with status := .ended, reconcile := true } else r

/-! ## Everything that happens -/

/-- What discovery, reviewers and the catalog do to a classification. -/
inductive ToolChange
  | discovered | reviewed | published | retired | reappeared | stale
  deriving DecidableEq

def Tool.change (removals : Nat) (t : Tool) : ToolChange → Tool
  | .discovered => { t with published := none, retired := false }
  | .reviewed | .stale => { t with published := none }
  | .published => { t with published := some removals }
  | .retired => t.retire
  | .reappeared => { t with published := none, retired := false }

inductive Event (serverId : String)
  | delete (memberships : Bool) (f : DeleteMet)
  | create (r : Create serverId) (f : CreateMet)
  | reserve (id : String) (mode : Mode)
  | run (id : String) (r : Create serverId) (f : RunMet) (unwritten : Bool)
  | interrupt (id : String)
  | crash
  | bind (userId slot : String)
  | unbind (userId slot : String)
  | join (group : String)
  | leave (group : String)
  | discover (toolId : String)
  | tool (toolId : String) (change : ToolChange)

def next (w : World) : Event serverId → World
  | .delete memberships f => (delete serverId w memberships f).1
  | .create r f => (create w r f).1
  | .reserve id mode => if w.rows.any (·.id = id) then w else { w with rows := ⟨id, mode, .queued, false, true⟩ :: w.rows }
  | .run id r f unwritten => match w.rows.find? fun row => row.id = id && row.status = .queued && row.live with
    | none => w
    | some row => match row.mode with
      | .delete => let (w', e) := runDelete serverId w f; w'.finish id unwritten e
      | .create => let (w', e) := runCreate w r f; w'.finish id unwritten e
  | .interrupt id => w.setRow id Row.interrupt
  | .crash => w.crash
  | .bind userId slot => w.saveBinding userId slot
  | .unbind userId slot => { w with bindings := Function.update w.bindings (userId, slot) none }
  | .join group => { w with members := Function.update w.members group (some ⟨true, w.removals⟩) }
  | .leave group => { w with members := Function.update w.members group none }
  | .discover toolId => if w.tools.any (·.id = toolId) then w else { w with tools := w.tools ++ [{ id := toolId }] }
  | .tool toolId change => { w with tools := w.tools.map fun t => if t.id = toolId then t.change w.removals change else t }

end Server

/-! ## What a new server must not have -/

/-- Nothing is there of before the last removal. -/
structure Fresh (w : World) : Prop where
  bindings : ∀ key n, w.bindings key = some n → w.removals ≤ n
  members : ∀ group m, w.members group = some m → m.active = true → w.removals ≤ m.since
  tools : ∀ t ∈ w.tools, ∀ n, t.published = some n → w.removals ≤ n

/-- A step under which a new server inherits nothing. A creation cleans nothing, but the one of an operation that finds the deletion. -/
def Kept {serverId : String} (w : World) : Event serverId → Prop
  | .create _ _ => w.settled = true
  | .run id _ _ _ => ∀ row, w.rows.find? (fun row => row.id = id && row.status = .queued && row.live) = some row →
    row.mode = .create → w.settled = true ∨ (unreconciledDeletion w.rows = true ∧ w.unmarked = true)
  | _ => True

/-! ## What a step records -/

/-- What is in `w'` was in `w`, or is recorded now. -/
structure Adds (w w' : World) : Prop where
  removals : w'.removals = w.removals
  bindings : ∀ key n, w'.bindings key = some n → w.bindings key = some n ∨ w.removals ≤ n
  members : ∀ group m, w'.members group = some m → m.active = true → w.members group = some m ∨ w.removals ≤ m.since
  tools : ∀ t' ∈ w'.tools, ∀ n, t'.published = some n → (∃ t ∈ w.tools, t.published = some n) ∨ w.removals ≤ n

/-- No membership of before the last removal is active. -/
def MembersFresh (w : World) : Prop := ∀ group m, w.members group = some m → m.active = true → w.removals ≤ m.since

/-- No value and no published classification is there of before the last removal. -/
structure Cleaned (w : World) : Prop where
  bindings : ∀ key n, w.bindings key = some n → w.removals ≤ n
  tools : ∀ t ∈ w.tools, ∀ n, t.published = some n → w.removals ≤ n

/-- What is settled was so, or has been cleaned. -/
def Settles (w w' : World) : Prop := w'.settled = true → w.settled = true ∨ Cleaned w'

theorem Settles.of_eq {w w' : World} (h : w'.settled = w.settled) : Settles w w' := fun hw => .inl (h.symm.trans hw)

namespace Adds

variable {w w' w'' : World}

theorem refl (w : World) : Adds w w :=
  ⟨rfl, fun _ _ h => .inl h, fun _ _ h _ => .inl h, fun t ht _ h => .inl ⟨t, ht, h⟩⟩

theorem trans (h : Adds w w') (h' : Adds w' w'') : Adds w w'' := by
  refine ⟨h'.removals.trans h.removals, fun key n hn => ?_, fun group m hm hactive => ?_, fun t ht n hn => ?_⟩
  · rcases h'.bindings key n hn with hold | hnew
    · exact h.bindings key n hold
    · exact .inr (h.removals ▸ hnew)
  · rcases h'.members group m hm hactive with hold | hnew
    · exact h.members group m hold hactive
    · exact .inr (h.removals ▸ hnew)
  · rcases h'.tools t ht n hn with ⟨t', ht', hold⟩ | hnew
    · exact h.tools t' ht' n hold
    · exact .inr (h.removals ▸ hnew)

theorem cleaned (h : Adds w w') (hw : Cleaned w) : Cleaned w' := by
  refine ⟨fun key n hn => ?_, fun t ht n hn => ?_⟩ <;> rw [h.removals]
  · exact (h.bindings key n hn).elim (hw.bindings key n) id
  · exact (h.tools t ht n hn).elim (fun ⟨t', ht', hold⟩ => hw.tools t' ht' n hold) id

theorem settles (h : Adds w' w'') (hsettled : w''.settled = w'.settled) (hw : Settles w w') : Settles w w'' := fun hw'' =>
  (hw (hsettled.symm.trans hw'')).imp_right h.cleaned

theorem membersFresh (h : Adds w w') (hw : MembersFresh w) : MembersFresh w' := by
  intro group m hm hactive
  rw [h.removals]
  exact (h.members group m hm hactive).elim (hw group m · hactive) id

/-- What changes none of the records. -/
theorem of_eq (hr : w'.removals = w.removals) (hb : w'.bindings = w.bindings) (hm : w'.members = w.members)
    (ht : w'.tools = w.tools) : Adds w w' :=
  ⟨hr, fun _ _ h => .inl (hb ▸ h), fun _ _ h _ => .inl (hm ▸ h), fun t h _ hn => .inl ⟨t, ht ▸ h, hn⟩⟩

/-- A change of the classifications that publishes nothing but now. -/
theorem of_map {f : Tool → Tool} (hf : ∀ t n, (f t).published = some n → t.published = some n ∨ w.removals ≤ n) :
    Adds w { w with tools := w.tools.map f } := by
  refine ⟨rfl, fun _ _ h => .inl h, fun _ _ h _ => .inl h, ?_⟩
  intro t' ht' n hn
  obtain ⟨t, ht, rfl⟩ := List.mem_map.mp ht'
  exact (hf t n hn).imp_left fun hold => ⟨t, ht, hold⟩

end Adds

theorem Tool.retire_published {t : Tool} {n : Nat} (h : t.retire.published = some n) : t.retired = true ∧ t.published = some n := by
  unfold Tool.retire at h
  split at h
  · next hretired => exact ⟨hretired, h⟩
  · cases h

theorem Tool.change_published {t : Tool} {change : ToolChange} {removals n : Nat}
    (h : (t.change removals change).published = some n) : t.published = some n ∨ removals ≤ n := by
  cases change with
  | discovered | reviewed | stale | reappeared => cases h
  | published => exact .inr (Nat.le_of_eq (Option.some.inj h))
  | retired => exact .inl (Tool.retire_published h).2

variable {serverId : String} {w w' : World}

theorem saveBinding_adds (w : World) (userId slot : String) : Adds w (w.saveBinding userId slot) := by
  refine ⟨rfl, fun key n h => ?_, fun _ _ h _ => .inl h, fun t ht _ h => .inl ⟨t, ht, h⟩⟩
  by_cases hkey : key = (userId, slot)
  · subst hkey
    simp only [World.saveBinding, Function.update_self] at h
    exact .inr (Nat.le_of_eq (Option.some.inj h))
  · simp only [World.saveBinding, Function.update_of_ne hkey] at h
    exact .inl h

theorem saveValues_adds (w : World) (userId : String) (slots : List String) :
    Adds w (w.saveValues userId slots) ∧ (w.saveValues userId slots).rebuilt = w.rebuilt ∧
      (w.saveValues userId slots).settled = w.settled := by
  induction slots generalizing w with
  | nil => exact ⟨.refl w, rfl, rfl⟩
  | cons slot slots ih =>
    obtain ⟨hadds, hkeeps⟩ := ih (w.saveBinding userId slot)
    exact ⟨(saveBinding_adds w userId slot).trans hadds, hkeeps⟩

variable {memberships : Bool} {f : CleanupMet}

/-- A finished cleanup leaves no value, and only the classifications that it passes over. -/
theorem cleanup_finished (h : w.cleanupDeletedMetadata memberships f = (w', true)) :
    (∀ key, w'.bindings key = none) ∧ w'.tools = w.tools.map Tool.retire ∧ w'.removals = w.removals ∧ w'.settled = w.unmarked := by
  unfold World.cleanupDeletedMetadata at h
  split at h
  · cases h
  dsimp only at h
  split at h
  · cases h
  rename_i hfailed
  have hall : f.tools = none := by
    cases htools : f.tools with
    | none => rfl
    | some ids => simp [htools] at hfailed
  obtain ⟨rfl, -⟩ := Prod.mk.inj h
  refine ⟨fun _ => rfl, ?_, ?_, rfl⟩
  · cases memberships <;> simp [World.deleteServerBindings, World.reconcileTools, World.removeMemberships, hall]
  · cases memberships <;> rfl

/-- What it passes over is published and marked as retired. -/
theorem cleanup_cleaned (h : w.cleanupDeletedMetadata memberships f = (w', true)) (hunmarked : w.unmarked = true) : Cleaned w' := by
  obtain ⟨hbindings, htools, hremovals, -⟩ := cleanup_finished h
  refine ⟨fun key n hn => ?_, fun t' ht' n hn => ?_⟩
  · rw [hbindings] at hn
    cases hn
  rw [htools] at ht'
  obtain ⟨t, ht, rfl⟩ := List.mem_map.mp ht'
  obtain ⟨hretired, hold⟩ := Tool.retire_published hn
  have hmark := List.all_eq_true.mp hunmarked t ht
  rw [hremovals]
  simpa [hretired, hold] using hmark

theorem cleanup_adds (w : World) (memberships : Bool) (f : CleanupMet) :
    Adds w (w.cleanupDeletedMetadata memberships f).1 ∧ (w.cleanupDeletedMetadata memberships f).1.rebuilt = w.rebuilt ∧
      Settles w (w.cleanupDeletedMetadata memberships f).1 := by
  have hmembers : Adds w (if memberships then w.removeMemberships else w) := by
    split
    · exact ⟨rfl, fun _ _ h => .inl h, nofun, fun t ht _ h => .inl ⟨t, ht, h⟩⟩
    · exact .refl w
  have htools : ∀ w : World, Adds w (w.reconcileTools f.tools) := by
    intro w
    refine Adds.of_map fun t n h => .inl ?_
    split at h
    · exact (Tool.retire_published h).2
    · exact h
  have hbindings : ∀ (w : World) (settled : Bool), Adds w { w.deleteServerBindings with settled } := fun w settled =>
    ⟨rfl, nofun, fun _ _ h _ => .inl h, fun t ht _ h => .inl ⟨t, ht, h⟩⟩
  have hsettles : Settles w (w.cleanupDeletedMetadata memberships f).1 := by
    rcases hcleanup : w.cleanupDeletedMetadata memberships f with ⟨w', finished⟩
    cases finished with
    | true =>
      intro hsettled
      exact .inr (cleanup_cleaned hcleanup ((cleanup_finished hcleanup).2.2.2.symm.trans hsettled))
    | false =>
      refine .of_eq ?_
      unfold World.cleanupDeletedMetadata at hcleanup
      split at hcleanup
      · cases hcleanup
        rfl
      dsimp only at hcleanup
      split at hcleanup
      · cases hcleanup
        cases memberships <;> rfl
      · cases hcleanup
  refine ⟨?_, ?_, hsettles⟩ <;> unfold World.cleanupDeletedMetadata
  · split
    · exact .refl w
    · dsimp only
      split
      · exact hmembers.trans (htools _)
      · exact (hmembers.trans (htools _)).trans (hbindings _ _)
  · split
    · rfl
    · dsimp only
      split <;> cases memberships <;> rfl

/-! ## What the operations do -/

/-- What a step does to the records: it adds to them, it removes the file, or it creates the server. -/
inductive Effect (kept : Prop) (w w' : World) : Prop
  | adds (h : Adds w w') (hrebuilt : w'.rebuilt = w.rebuilt) (hsettles : Settles w w')
  | removes (hmembers : MembersFresh w') (hrebuilt : w'.rebuilt = false) (hsettled : w'.settled = true → Cleaned w')
  | creates (h : Adds w w') (hrebuilt : w'.rebuilt = true) (hsettles : Settles w w') (hkept : kept → w.settled = true ∨ Cleaned w')

/-- The same records. -/
structure Same (w w' : World) : Prop where
  removals : w'.removals = w.removals
  bindings : w'.bindings = w.bindings
  members : w'.members = w.members
  tools : w'.tools = w.tools
  rebuilt : w'.rebuilt = w.rebuilt
  settled : w'.settled = w.settled

theorem Same.adds (h : Same w w') : Adds w w' := .of_eq h.removals h.bindings h.members h.tools

variable {kept : Prop}

theorem Effect.same {w'' : World} (h : Effect kept w w') (hsame : Same w' w'') : Effect kept w w'' := by
  cases h with
  | adds h hrebuilt hsettles => exact .adds (h.trans hsame.adds) (hsame.rebuilt.trans hrebuilt) (hsame.adds.settles hsame.settled hsettles)
  | removes hmembers hrebuilt hsettled =>
    exact .removes (hsame.adds.membersFresh hmembers) (hsame.rebuilt.trans hrebuilt) fun hw =>
      hsame.adds.cleaned (hsettled (hsame.settled.symm.trans hw))
  | creates h hrebuilt hsettles hkept =>
    exact .creates (h.trans hsame.adds) (hsame.rebuilt.trans hrebuilt) (hsame.adds.settles hsame.settled hsettles) fun hk =>
      (hkept hk).imp_right hsame.adds.cleaned

theorem finish_same (w : World) (id : String) (unwritten : Bool) (e : End) : Same w (w.finish id unwritten e) := by
  cases e <;> exact ⟨rfl, rfl, rfl, rfl, rfl, rfl⟩

/-- The memberships are invalid before the file is removed. -/
theorem removed_membersFresh (w : World) (config : Store) : MembersFresh (w.invalidateInstances.removed config) := by
  intro group m hm hactive
  obtain ⟨m', -, rfl⟩ := Option.map_eq_some_iff.mp hm
  cases hactive

theorem stopped_ne {crashed : Bool} {otherwise : Outcome} (h : otherwise ≠ .returned) : stopped crashed otherwise ≠ .returned := by
  unfold stopped
  split
  · simp
  · exact h

/-- **A deletion that returned** leaves no value, no active membership, and only the classifications that were published while they
were marked as retired. -/
theorem delete_returned {f : DeleteMet} (h : delete serverId w memberships f = (w', .returned)) :
    (∀ key, w'.bindings key = none) ∧ MembersFresh w' ∧ w'.tools = w.tools.map Tool.retire ∧ w'.removals = w.removals + 1 ∧
      w'.settled = w.tools.all fun t => !t.retired || t.published.all (w.removals + 1 ≤ ·) := by
  unfold delete at h
  split at h
  · cases h
  split at h
  · exact absurd (Prod.mk.inj h).2 (stopped_ne (by simp))
  split at h
  · exact absurd (Prod.mk.inj h).2 (stopped_ne (by simp))
  split at h
  · exact absurd (Prod.mk.inj h).2 (stopped_ne (by simp))
  · exact absurd (Prod.mk.inj h).2 (stopped_ne (by simp))
  rename_i config _
  split at h <;> next hcleanup =>
    first
    | exact absurd (Prod.mk.inj h).2 (stopped_ne (by simp))
    | obtain ⟨rfl, -⟩ := Prod.mk.inj h
      obtain ⟨hbindings, htools, hremovals, hsettled⟩ := cleanup_finished hcleanup
      obtain ⟨hadds, -⟩ := cleanup_adds (w.invalidateInstances.removed config) memberships f.cleanup
      rw [hcleanup] at hadds
      exact ⟨hbindings, hadds.membersFresh (removed_membersFresh w config), htools, hremovals, hsettled⟩

theorem delete_effect (w : World) (memberships : Bool) (f : DeleteMet) : Effect kept w (delete serverId w memberships f).1 := by
  have hinvalidated : Adds w w.invalidateInstances := by
    refine ⟨rfl, fun _ _ h => .inl h, fun group m hm hactive => ?_, fun t ht _ h => .inl ⟨t, ht, h⟩⟩
    obtain ⟨m', -, rfl⟩ := Option.map_eq_some_iff.mp hm
    cases hactive
  have hremoved := removed_membersFresh w
  unfold delete
  split
  · exact .adds (.refl w) rfl (.of_eq rfl)
  split
  · exact .adds (.refl w) rfl (.of_eq rfl)
  split
  · exact .adds hinvalidated rfl (.of_eq rfl)
  split
  · exact .adds hinvalidated rfl (.of_eq rfl)
  · exact .removes (hremoved _) rfl (by rintro ⟨⟩)
  rename_i config _
  obtain ⟨hadds, hrebuilt, hsettles⟩ := cleanup_adds (w.invalidateInstances.removed config) memberships f.cleanup
  have heffect : Effect kept w
      ((w.invalidateInstances.removed config).cleanupDeletedMetadata memberships f.cleanup).1 := by
    refine .removes (hadds.membersFresh (hremoved config)) hrebuilt fun hsettled => ?_
    exact (hsettles hsettled).resolve_left (by rintro ⟨⟩)
  split <;> next hcleanup => rwa [hcleanup] at heffect

/-- A `create` that succeeds has saved its values, and has cleaned nothing. -/
theorem create_returned {r : Create serverId} {f : CreateMet} (h : create w r f = (w', .returned)) :
    Adds w w' ∧ w'.rebuilt = true ∧ w'.settled = w.settled := by
  have hback : ∀ {w₁ : World}, w₁.rollBack r f ≠ (w', .returned) := by
    intro w₁ hback
    unfold World.rollBack at hback
    split at hback
    · cases hback
    · split at hback
      · cases hback
      · split at hback <;> cases hback
  unfold create at h
  split at h
  · exact absurd (Prod.mk.inj h).2 (stopped_ne (by simp))
  split at h
  · exact absurd (Prod.mk.inj h).2 (stopped_ne (by simp))
  · refine absurd (Prod.mk.inj h).2 (stopped_ne ?_)
    split <;> simp
  rename_i config _
  split at h
  · exact absurd h hback
  split at h
  · exact absurd h hback
  · obtain ⟨rfl, -⟩ := Prod.mk.inj h
    obtain ⟨hadds, -, hsettled⟩ := saveValues_adds { w with config } r.userId r.slots
    have hstart : Adds w { w with config } := .of_eq rfl rfl rfl rfl
    exact ⟨(hstart.trans hadds).trans (.of_eq rfl rfl rfl rfl), rfl, hsettled⟩

/-- Another `create` leaves a file or some of its values behind. -/
theorem create_other {r : Create serverId} {f : CreateMet} {out : Outcome} (h : create w r f = (w', out)) (hout : out ≠ .returned) :
    Adds w w' ∧ w'.rebuilt = w.rebuilt ∧ w'.settled = w.settled := by
  have hback : ∀ w₁ : World, w₁.rollBack r f = (w', out) → Adds w₁ w' ∧ w'.rebuilt = w₁.rebuilt ∧ w'.settled = w₁.settled := by
    intro w₁ hback
    unfold World.rollBack at hback
    split at hback
    · cases hback
      exact ⟨.refl _, rfl, rfl⟩
    · split at hback
      · cases hback
        exact ⟨.refl _, rfl, rfl⟩
      · split at hback <;> cases hback <;> exact ⟨.of_eq rfl rfl rfl rfl, rfl, rfl⟩
  unfold create at h
  split at h
  · cases h
    exact ⟨.refl w, rfl, rfl⟩
  split at h
  · cases h
    exact ⟨.refl w, rfl, rfl⟩
  · cases h
    exact ⟨.of_eq rfl rfl rfl rfl, rfl, rfl⟩
  rename_i config _
  have hsaved : Adds w { w with config } := .of_eq rfl rfl rfl rfl
  split at h
  · obtain ⟨hadds, hkeeps⟩ := hback _ h
    exact ⟨hsaved.trans hadds, hkeeps⟩
  split at h
  · next n _ =>
    obtain ⟨hadds, hrebuilt, hsettled⟩ := hback _ h
    obtain ⟨hvalues, hrebuilt', hsettled'⟩ := saveValues_adds { w with config } r.userId (r.slots.take n)
    exact ⟨hsaved.trans (hvalues.trans hadds), hrebuilt.trans hrebuilt', hsettled.trans hsettled'⟩
  · exact absurd (Prod.mk.inj h).2.symm hout

theorem create_effect (w : World) (r : Create serverId) (f : CreateMet) : Effect (w.settled = true) w (create w r f).1 := by
  rcases hcreate : create w r f with ⟨w', out⟩
  by_cases hout : out = .returned
  · subst hout
    obtain ⟨hadds, hrebuilt, hsettled⟩ := create_returned hcreate
    exact .creates hadds hrebuilt (.of_eq hsettled) .inl
  · obtain ⟨hadds, hrebuilt, hsettled⟩ := create_other hcreate hout
    exact .adds hadds hrebuilt (.of_eq hsettled)

theorem runDelete_effect (w : World) (f : RunMet) : Effect kept w (runDelete serverId w f).1 := by
  unfold runDelete
  split
  · exact .adds (.refl w) rfl (.of_eq rfl)
  · have heffect := @delete_effect serverId kept w true f.delete
    split <;> next hdelete => rwa [hdelete] at heffect

/-- The cleanup of an unfinished deletion, and what is left for the `create`. -/
theorem reconcileDeletion_finished (h : w.reconcileDeletion f = (w', true))
    (hkept : w.settled = true ∨ (unreconciledDeletion w.rows = true ∧ w.unmarked = true)) : w.settled = true ∨ Cleaned w' := by
  unfold World.reconcileDeletion at h
  split at h
  · exact hkept.imp_right fun hmarks => cleanup_cleaned h hmarks.2
  · next hfound => exact hkept.imp_right fun hmarks => absurd hmarks.1 hfound

theorem reconcileDeletion_adds (w : World) (f : CleanupMet) :
    Adds w (w.reconcileDeletion f).1 ∧ (w.reconcileDeletion f).1.rebuilt = w.rebuilt ∧ Settles w (w.reconcileDeletion f).1 := by
  unfold World.reconcileDeletion
  split
  · exact cleanup_adds w true f
  · exact ⟨.refl w, rfl, .of_eq rfl⟩

theorem runCreate_effect (w : World) (r : Create serverId) (f : RunMet) :
    Effect (w.settled = true ∨ (unreconciledDeletion w.rows = true ∧ w.unmarked = true)) w (runCreate w r f).1 := by
  unfold runCreate
  split
  · exact .adds (.refl w) rfl (.of_eq rfl)
  obtain ⟨hadds, hrebuilt, hsettles⟩ := reconcileDeletion_adds w f.cleanup
  split
  · next w₁ hcleanup =>
    rw [hcleanup] at hadds hrebuilt hsettles
    exact .adds hadds hrebuilt hsettles
  rename_i w₁ hcleanup
  rw [hcleanup] at hadds hrebuilt hsettles
  split
  · exact .adds hadds hrebuilt hsettles
  have heffect : Effect (w.settled = true ∨ (unreconciledDeletion w.rows = true ∧ w.unmarked = true)) w
      (create w₁ r.http f.create).1 := by
    rcases hcreate : create w₁ r.http f.create with ⟨w', out⟩
    by_cases hout : out = .returned
    · subst hout
      obtain ⟨h, hnew, hsettled⟩ := create_returned hcreate
      exact .creates (hadds.trans h) hnew (h.settles hsettled hsettles) fun hkept =>
        (reconcileDeletion_finished hcleanup hkept).imp_right h.cleaned
    · obtain ⟨h, hkeeps, hsettled⟩ := create_other hcreate hout
      exact .adds (hadds.trans h) (hkeeps.trans hrebuilt) (h.settles hsettled hsettles)
  split <;> next hcreate => rwa [hcreate] at heffect

theorem next_effect (w : World) (e : Event serverId) : Effect (Kept w e) w (next w e) := by
  cases e with
  | delete memberships f => exact delete_effect w memberships f
  | create r f => exact create_effect w r f
  | reserve id mode =>
    simp only [next]
    split
    · exact .adds (.refl w) rfl (.of_eq rfl)
    · exact .adds (.of_eq rfl rfl rfl rfl) rfl (.of_eq rfl)
  | run id r f unwritten =>
    simp only [next]
    split
    · exact .adds (.refl w) rfl (.of_eq rfl)
    rename_i row hrow
    split
    · exact (runDelete_effect w f).same (finish_same _ id unwritten _)
    rename_i hmode
    have hkept : Kept w (.run id r f unwritten) ↔
        (w.settled = true ∨ (unreconciledDeletion w.rows = true ∧ w.unmarked = true)) := by
      simp [Kept, hrow, hmode]
    rw [hkept]
    exact (runCreate_effect w r f).same (finish_same _ id unwritten _)
  | interrupt id | crash => exact .adds (.of_eq rfl rfl rfl rfl) rfl (.of_eq rfl)
  | bind userId slot => exact .adds (saveBinding_adds w userId slot) rfl (.of_eq rfl)
  | unbind userId slot =>
    refine .adds ⟨rfl, fun key n hn => .inl ?_, fun _ _ h _ => .inl h, fun t ht _ h => .inl ⟨t, ht, h⟩⟩ rfl (.of_eq rfl)
    by_cases hkey : key = (userId, slot)
    · subst hkey
      simp [next] at hn
    · simpa [next, hkey] using hn
  | join group =>
    refine .adds ⟨rfl, fun _ _ h => .inl h, fun other m hm _ => ?_, fun t ht _ h => .inl ⟨t, ht, h⟩⟩ rfl (.of_eq rfl)
    by_cases hgroup : other = group
    · subst hgroup
      obtain rfl : (⟨true, w.removals⟩ : Member) = m := by simpa [next] using hm
      exact .inr (Nat.le_refl _)
    · exact .inl (by simpa [next, hgroup] using hm)
  | leave group =>
    refine .adds ⟨rfl, fun _ _ h => .inl h, fun other m hm _ => .inl ?_, fun t ht _ h => .inl ⟨t, ht, h⟩⟩ rfl (.of_eq rfl)
    by_cases hgroup : other = group
    · subst hgroup
      simp [next] at hm
    · simpa [next, hgroup] using hm
  | discover toolId =>
    simp only [next]
    split
    · exact .adds (.refl w) rfl (.of_eq rfl)
    refine .adds ⟨rfl, fun _ _ h => .inl h, fun _ _ h _ => .inl h, fun t ht n hn => ?_⟩ rfl (.of_eq rfl)
    rcases List.mem_append.mp ht with hold | hnew
    · exact .inl ⟨t, hold, hn⟩
    · obtain rfl := List.mem_singleton.mp hnew
      cases hn
  | tool toolId change =>
    refine .adds (Adds.of_map fun t n hn => ?_) rfl (.of_eq rfl)
    split at hn
    · exact Tool.change_published hn
    · exact .inl hn

/-! ## Every run -/

/-- What holds in every run whose creations meet `Kept`. -/
structure Sound (w : World) : Prop where
  members : MembersFresh w
  settled : w.settled = true → Cleaned w
  rebuilt : w.rebuilt = true → Cleaned w

theorem Sound.next (h : Sound w) {e : Event serverId} (hkept : Kept w e) : Sound (next w e) := by
  cases next_effect w e with
  | adds hadds hsame hsettles =>
    refine ⟨hadds.membersFresh h.members, fun hsettled => ?_, fun hrebuilt => hadds.cleaned (h.rebuilt (hsame.symm.trans hrebuilt))⟩
    exact (hsettles hsettled).elim (fun hw => hadds.cleaned (h.settled hw)) id
  | removes hmembers hnone hsettled => exact ⟨hmembers, hsettled, fun hrebuilt => absurd (hnone.symm.trans hrebuilt) (by simp)⟩
  | creates hadds _ _ hcleaned =>
    have hnext := (hcleaned hkept).elim (fun hw => hadds.cleaned (h.settled hw)) id
    exact ⟨hadds.membersFresh h.members, fun _ => hnext, fun _ => hnext⟩

/-- **A server that is created again inherits nothing, where the last deletion was cleaned up after.** In every run in which each
creation comes after a cleanup that finished, or finishes it itself, nothing recorded before the last removal is left once a
`create` succeeded; a deletion that returned is such a cleanup, unless a classification was published while it was marked as
retired. The memberships need no condition. -/
theorem rebuilt_inherits_nothing (serverId : String) :
    (∀ evs w, Run (fun w (e : Event serverId) w' => Kept w e ∧ next w e = w') {} evs w → w.rebuilt = true → Fresh w) ∧
      ∀ w w' memberships f, delete serverId w memberships f = (w', .returned) →
        (w'.settled = true ↔ ∀ t ∈ w.tools, t.retired = true → ∀ n, t.published = some n → w.removals < n) ∧
        (w'.settled = true → Fresh w') := by
  constructor
  · intro evs w hrun hrebuilt
    have h : Sound w := by
      refine hrun.invariant (I := Sound) ⟨nofun, fun _ => ⟨nofun, nofun⟩, fun _ => ⟨nofun, nofun⟩⟩ ?_
      rintro w e _ hsound ⟨hkept, rfl⟩
      exact hsound.next hkept
    obtain ⟨hbindings, htools⟩ := h.rebuilt hrebuilt
    exact ⟨hbindings, h.members, htools⟩
  intro w w' memberships f h
  obtain ⟨hbindings, hmembers, htools, hremovals, hsettled⟩ := delete_returned h
  have hmarks : w'.settled = true ↔ ∀ t ∈ w.tools, t.retired = true → ∀ n, t.published = some n → w.removals < n := by
    rw [hsettled, List.all_eq_true]
    refine forall₂_congr fun t ht => ?_
    cases t.retired with
    | false => simp
    | true =>
      simp only [Bool.not_true, Bool.false_or, Option.all_eq_true, decide_eq_true_eq, true_imp_iff]
      rfl
  refine ⟨hmarks, fun hw => ⟨fun key n hn => ?_, hmembers, fun t' ht' n hn => ?_⟩⟩
  · rw [hbindings] at hn
    cases hn
  rw [htools] at ht'
  obtain ⟨t, ht, rfl⟩ := List.mem_map.mp ht'
  obtain ⟨hretired, hold⟩ := Tool.retire_published hn
  rw [hremovals]
  exact hmarks.mp hw t ht hretired n hold

/-! ## A deletion that fails after the file is gone -/

def echo : Create "echo" where
  draft := .ofSaved { id := "echo" }
  same := rfl
  userId := "ada"

def unfinished : List (Event "echo") :=
  [.create echo {}, .bind "ada" "token", .delete false { cleanup := { bindings := true } }, .create echo {}]

theorem unfinished_rebuilt : (unfinished.foldl next {}).rebuilt = true ∧ (unfinished.foldl next {}).removals = 1 ∧
    (unfinished.foldl next {}).bindings ("ada", "token") = some 0 := by
  decide +kernel

/-- The new server has the credential value that was recorded for the old one. -/
theorem rebuilt_inherits_value : Run (fun w (e : Event "echo") w' => next w e = w') {} unfinished (unfinished.foldl next {}) ∧
    (unfinished.foldl next {}).rebuilt = true ∧ ¬ Fresh (unfinished.foldl next {}) := by
  obtain ⟨hrebuilt, hremovals, hbinding⟩ := unfinished_rebuilt
  refine ⟨Run.of_foldl (f := next) (fun _ _ => rfl) {} unfinished, hrebuilt, fun h => ?_⟩
  have := h.bindings _ _ hbinding
  simp [hremovals] at this

def finished : List (Event "echo") := [.create echo {}, .bind "ada" "token", .delete false {}, .create echo {}]

theorem finished_settled : (finished.foldl next {}).rebuilt = true ∧ (finished.foldl next {}).removals = 1 ∧
    ((finished.take 3).foldl next {}).settled = true := by
  decide +kernel

/-- After a deletion that finished, the next creation inherits nothing. -/
theorem rebuilt_inherits_nothing_finished :
    (finished.foldl next {}).removals = 1 ∧ (finished.foldl next {}).rebuilt = true ∧ Fresh (finished.foldl next {}) := by
  obtain ⟨hrebuilt, hremovals, hsettled⟩ := finished_settled
  refine ⟨hremovals, hrebuilt, (rebuilt_inherits_nothing "echo").1 finished _ ?_ hrebuilt⟩
  have hfirst : Kept ({} : World) (.create echo {}) := rfl
  exact ((((Run.nil _).snoc ⟨hfirst, rfl⟩).snoc ⟨trivial, rfl⟩).snoc ⟨trivial, rfl⟩).snoc ⟨hsettled, rfl⟩

end LingshuGate.Rebuilds

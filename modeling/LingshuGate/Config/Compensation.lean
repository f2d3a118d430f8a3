import Mathlib
import LingshuGate.Config.Save
import LingshuGate.Runtime.Manager

/-!
# Compensating a failed change (`application/mcp_configuration.py`)

| here | there |
| --- | --- |
| `UserBindings.save`   | `UserCredentialStore.save_binding` (user_credential_store.py:51) |
| `saveUserCredentials` | `_save_user_credentials` (372) |
| `applySaved`          | the `try` of `create` and `update` after the save (188, 247) |
| `create`, `update`    | `McpConfigurationService.create` (169), `.update` (219) |
| `delete`              | `McpConfigurationService.delete` (280) |

A change goes through three stores: the file, the runtime and the credential values of the user. Each step may raise, as
its fault says; what comes after is the `except` of the source. `changes_compensated` says when that leaves everything as
it was: the `except` of `create` and `update` takes back the file, and nothing else.

`stamp` counts the writes of credential values: a value is written anew even if it is the same. `remove_manifest` is
taken to do all or nothing. The HTTP trust store, the scopes of shared credentials and the groups are not here; their
steps raise or pass.
-/

namespace LingshuGate.ConfigChanges

open Lib
open Config (Manifest Store Draft Fault SaveResult)
open LingshuGate.Runtime (Manager Entry ApplyFaults desiredState)

/-! ## The credential values of users -/

structure UserBinding where
  value : String
  stamp : Nat
  deriving DecidableEq

/-- `user_downstream_credentials`, by user, server and slot. -/
structure UserBindings where
  rows : String × String × String → Option UserBinding := fun _ => none
  nextStamp : Nat := 0
  stamped : ∀ key b, rows key = some b → b.stamp < nextStamp := by simp

/-- Which part of `save_binding` raises. -/
inductive BindFault
  | none
  /-- nothing is written -/
  | before
  /-- the row is written, and reading it back fails -/
  | after
  deriving DecidableEq

def UserBindings.save (b : UserBindings) (key : String × String × String) (value : String) : UserBindings where
  rows := Function.update b.rows key (some ⟨value, b.nextStamp⟩)
  nextStamp := b.nextStamp + 1
  stamped := by
    intro key' row hrow
    by_cases hkey : key' = key
    · subst hkey
      rw [Function.update_self] at hrow
      obtain rfl := Option.some.inj hrow
      exact Nat.lt_succ_self _
    · rw [Function.update_of_ne hkey] at hrow
      exact Nat.lt_succ_of_lt (b.stamped key' row hrow)

/-- The values of a request, one slot after the other; the flag is whether one raises. -/
def saveUserCredentials (b : UserBindings) (userId serverId : String) :
    List (String × String) → List BindFault → UserBindings × Bool
  | [], _ => (b, false)
  | (slot, value) :: values, faults =>
    match faults.headD .none with
    | .before => (b, true)
    | .after => (b.save (userId, serverId, slot) value, true)
    | .none => saveUserCredentials (b.save (userId, serverId, slot) value) userId serverId values faults.tail

/-! ## The changes -/

structure State where
  config : Store := {}
  mgr : Manager := {}
  bindings : UserBindings := {}

/-- `McpConfigSaveRequest` with what was prepared for it. -/
structure Request where
  draft : Draft
  apply : Bool := true
  start : Bool := false
  /-- `connection_allowed` of an HTTP trust plan. -/
  plan : Option Bool := none
  userId : String
  values : List (String × String) := []
  /-- `has_policy_writes`. -/
  policyWrites : Bool := false

def Request.serverId (r : Request) : String := r.draft.manifest.id

/-- `request.apply and (http_trust_plan is None or http_trust_plan["connection_allowed"])`. -/
def Request.applies (r : Request) : Bool := r.apply && r.plan.getD true

/-- Which steps of a save raise. -/
structure Faults where
  /-- The checks before the save raise. -/
  invalid : Bool := false
  save : Fault := .none
  /-- What fails after the file is replaced is raised as `McpConfigPartialError`, with a plan. -/
  saveReported : Bool := false
  scopes : Bool := false
  apply : ApplyFaults := {}
  bindings : List BindFault := []
  /-- The disk rollback. -/
  rollback : Fault := .none

inductive Outcome
  | done
  /-- Another exception; the flag is whether it reports a rollback that failed. -/
  | raised (rollbackFailed : Bool)
  /-- `McpConfigPartialError` -/
  | partly
  deriving DecidableEq

section Changes

variable (core : Bool)

/-- The loop over the values. -/
def saveValues (s : State) (r : Request) (f : Faults) : State × Option Bool :=
  let saved := saveUserCredentials s.bindings r.userId r.serverId r.values f.bindings
  ({ s with bindings := saved.1 }, if saved.2 then some false else none)

/-- The scopes, the runtime, the values. An exception is `some`, with whether it reports a target rollback that failed. -/
def applySaved (s : State) (r : Request) (f : Faults) : State × Option Bool :=
  match s.config.loadManifest r.serverId with
  | .error _ => (s, some false)
  | .ok m =>
    if f.scopes then (s, some false)
    else if r.applies then
      match s.mgr.apply core m r.start f.apply with
      | (mgr, .ok _) => saveValues { s with mgr := mgr } r f
      | (mgr, .refused) => ({ s with mgr := mgr }, some false)
      | (mgr, .failed reported) => ({ s with mgr := mgr }, some reported)
    else saveValues s r f

/-- The checks that come before the save. -/
def Request.refused (r : Request) (f : Faults) : Bool := f.invalid || (r.start && r.plan = some false)

/-- An exception of a save that replaced the file. -/
def Request.saveRaised (r : Request) (f : Faults) : Outcome :=
  if r.plan.isSome && f.saveReported then .partly else .raised false

def create (s : State) (r : Request) (f : Faults) : State × Outcome :=
  if r.refused f then (s, .raised false)
  else match s.config.saveConfig r.draft none false f.save with
    | .refused => (s, .raised false)
    | .replaced st => ({ s with config := st }, r.saveRaised f)
    | .saved st => match applySaved core { s with config := st } r f with
      | (s', none) => (s', .done)
      | (s', some reported) =>
        if r.policyWrites then (s', .partly)
        else match s'.config.deleteConfig r.serverId f.rollback with
          | .refused => (s', .raised true)
          | .replaced st => ({ s' with config := st }, .raised true)
          | .saved st => ({ s' with config := st }, .raised reported)

/-- The saved manifest is the one that is saved again when something fails. -/
def update (s : State) (serverId : String) (r : Request) (f : Faults) : State × Outcome :=
  match s.config.loadManifest serverId with
  | .error _ => (s, .raised false)
  | .ok previous =>
    if r.refused f then (s, .raised false)
    else match s.config.saveConfig r.draft (some serverId) true f.save with
      | .refused => (s, .raised false)
      | .replaced st => ({ s with config := st }, r.saveRaised f)
      | .saved st => match applySaved core { s with config := st } r f with
        | (s', none) => (s', .done)
        | (s', some reported) =>
          if r.policyWrites then (s', .partly)
          else match s'.config.saveConfig (.ofSaved previous) (some serverId) true f.rollback with
            | .refused => (s', .raised true)
            | .replaced st => ({ s' with config := st }, .raised true)
            | .saved st => ({ s' with config := st }, .raised reported)

/-- Which steps of a deletion raise. -/
structure DeleteFaults where
  groups : Bool := false
  /-- `remove_manifest`, which then has done nothing. -/
  remove : Bool := false
  delete : Fault := .none
  restore : ApplyFaults := {}
  cleanup : Bool := false

/-- `desired_state == "running" or status == "running"`. -/
def restoreStart (e : Entry) : Bool := e.desired = .running || e.server.state = .running

def delete (s : State) (serverId : String) (f : DeleteFaults) : State × Outcome :=
  match s.config.loadManifest serverId with
  | .error _ => (s, .raised false)
  | .ok previous =>
    if f.groups || f.remove then (s, .raised false)
    else
      let removed : State := { s with mgr := (s.mgr.remove serverId false false).1 }
      match s.config.deleteConfig serverId f.delete with
      | .saved st => ({ removed with config := st }, if f.cleanup then .partly else .done)
      | .replaced st => ({ removed with config := st }, .partly)
      | .refused => match s.mgr.servers serverId with
        | none => (removed, .raised false)
        | some e => match removed.mgr.apply core previous (restoreStart e) f.restore with
          | (mgr, .ok _) => ({ removed with mgr := mgr }, .raised false)
          | (mgr, _) => ({ removed with mgr := mgr }, .raised true)

end Changes

/-! ## What is left of a change -/

/-- A raised `create` has left nothing of the server. -/
structure CreateUndone (s s' : State) (r : Request) : Prop where
  config : s'.config.findPath r.serverId = none
  runtime : s'.mgr.servers r.serverId = none
  /-- What is stored was stored before. -/
  bindings : ∀ key row, s'.bindings.rows key = some row → row.stamp < s.bindings.nextStamp

/-- A raised `update` has left the manifests and the values of the user as they were. -/
structure UpdateUndone (s s' : State) (serverId userId : String) : Prop where
  config : s'.config.loadManifest serverId = s.config.loadManifest serverId
  runtime : (s'.mgr.servers serverId).map Entry.manifest = (s.mgr.servers serverId).map Entry.manifest
  bindings : ∀ slot, s'.bindings.rows (userId, serverId, slot) = s.bindings.rows (userId, serverId, slot)

/-- So has a raised `delete`, with the desired state. -/
structure DeleteUndone (s s' : State) (serverId : String) : Prop where
  config : s'.config = s.config
  runtime : s'.mgr.holds serverId = s.mgr.holds serverId

/-- The credential values are about to be saved: the scopes are bound, and the runtime has what it is given. -/
def Request.reaches (r : Request) (core : Bool) (mgr : Manager) (m : Manifest) (f : Faults) : Bool :=
  !f.scopes && (!r.applies || match (mgr.apply core m r.start f.apply).2 with
    | .ok _ => true
    | _ => false)

/-- The first value is refused before it is written. -/
def Faults.savesNone (f : Faults) : Bool := f.bindings.headD .none = .before

/-- When a `create` that raises takes everything back. -/
structure CreateKept (core : Bool) (s : State) (r : Request) (f : Faults) : Prop where
  unconfigured : s.config.findPath r.serverId = none
  unloaded : s.mgr.servers r.serverId = none
  /-- The save does not fail after it replaced the file. -/
  file : r.refused f = false → f.save ≠ .after
  /-- No value fails after the runtime was switched, or after a value was written. -/
  values : r.refused f = false → f.save = .none → r.reaches core s.mgr (s.config.written r.draft).2 f = true →
    r.applies = false ∧ f.savesNone = true

/-- When an `update` that raises takes everything back; `previous` is the saved manifest. -/
structure UpdateKept (core : Bool) (s : State) (r : Request) (f : Faults) (previous : Manifest) : Prop where
  /-- A save that fails after it replaced the file had nothing to change. -/
  file : f.save = .after → (s.config.written r.draft).2 = previous
  /-- Nothing in the saved manifest is read as a mask of the new one. -/
  unmasked : f.save = .none → previous.preserveMasked (s.config.written r.draft).2 = previous
  values : f.save = .none → r.reaches core s.mgr (s.config.written r.draft).2 f = true → f.savesNone = true ∧
    (r.applies = true → (s.mgr.servers r.serverId).map Entry.manifest = some (s.config.written r.draft).2)

/-- When a `delete` that raises takes everything back: the runtime has the saved manifest, and runs only if it is to. -/
def DeleteKept (s : State) (serverId : String) (previous : Manifest) : Prop :=
  ∀ e, s.mgr.servers serverId = some e → e.manifest = previous ∧ (e.server.state = .running → e.desired = .running)

/-! ## The values -/

section Values

variable {b : UserBindings} {userId serverId : String} {values : List (String × String)} {faults : List BindFault}

/-- A row of this call stays one of this call. -/
theorem saveUserCredentials_recent {n : Nat} {key : String × String × String} (hnext : n ≤ b.nextStamp)
    (h : ∃ row, b.rows key = some row ∧ n ≤ row.stamp) :
    ∃ row, (saveUserCredentials b userId serverId values faults).1.rows key = some row ∧ n ≤ row.stamp := by
  have hsave : ∀ {b : UserBindings} (key' : String × String × String) (value : String), n ≤ b.nextStamp →
      (∃ row, b.rows key = some row ∧ n ≤ row.stamp) → ∃ row, (b.save key' value).rows key = some row ∧ n ≤ row.stamp := by
    intro b key' value hnext ⟨row, hrow, hle⟩
    by_cases hkey : key = key'
    · subst hkey
      exact ⟨_, Function.update_self .., hnext⟩
    · exact ⟨row, (Function.update_of_ne hkey ..).trans hrow, hle⟩
  induction values generalizing b faults with
  | nil => exact h
  | cons kv values ih =>
    simp only [saveUserCredentials]
    split
    · exact h
    · exact hsave _ _ hnext h
    · exact ih (Nat.le_succ_of_le hnext) (hsave _ _ hnext h)

/-- A loop that raises has written something, unless it was the first value that was refused. -/
theorem saveUserCredentials_raised (h : (saveUserCredentials b userId serverId values faults).2 = true) :
    (faults.headD .none = .before ∧ (saveUserCredentials b userId serverId values faults).1 = b) ∨
      (faults.headD .none ≠ .before ∧ ∃ slot row,
        (saveUserCredentials b userId serverId values faults).1.rows (userId, serverId, slot) = some row ∧ b.nextStamp ≤ row.stamp) := by
  cases values with
  | nil => cases h
  | cons kv values =>
    obtain ⟨slot, value⟩ := kv
    have hnew : ∃ row, (b.save (userId, serverId, slot) value).rows (userId, serverId, slot) = some row ∧
        b.nextStamp ≤ row.stamp := ⟨_, Function.update_self .., Nat.le_refl _⟩
    simp only [saveUserCredentials] at h ⊢
    split
    · next hfault => exact .inl ⟨hfault, rfl⟩
    · next hfault => exact .inr ⟨by rw [hfault]; simp, slot, hnew⟩
    · next hfault =>
      exact .inr ⟨by rw [hfault]; simp, slot, saveUserCredentials_recent (Nat.le_succ _) hnew⟩

end Values

/-! ## After the save -/

section Applied

variable {core : Bool} {s s' : State} {r : Request} {f : Faults} {m : Manifest}

/-- How `applySaved` may raise: before a value is saved, with the runtime as it was; or at a value. -/
inductive Failed (core : Bool) (s : State) (r : Request) (f : Faults) (m : Manifest) (s' : State) : Prop
  | early (hreaches : r.reaches core s.mgr m f = false) (hbindings : s'.bindings = s.bindings)
      (hruntime : s'.mgr.holds r.serverId = s.mgr.holds r.serverId)
  | value (hreaches : r.reaches core s.mgr m f = true)
      (hruntime : if r.applies then ∃ e, s'.mgr.servers r.serverId = some e ∧ e.manifest = m else s'.mgr = s.mgr)
      (hraised : (saveUserCredentials s.bindings r.userId r.serverId r.values f.bindings).2 = true)
      (hbindings : s'.bindings = (saveUserCredentials s.bindings r.userId r.serverId r.values f.bindings).1)

theorem saveValues_raised {reported : Bool} (h : saveValues s r f = (s', some reported)) : s'.config = s.config ∧ s'.mgr = s.mgr ∧
    (saveUserCredentials s.bindings r.userId r.serverId r.values f.bindings).2 = true ∧
    s'.bindings = (saveUserCredentials s.bindings r.userId r.serverId r.values f.bindings).1 := by
  unfold saveValues at h
  obtain ⟨rfl, hraised⟩ := Prod.mk.inj h
  refine ⟨rfl, rfl, ?_, rfl⟩
  split at hraised
  · assumption
  · cases hraised

theorem applySaved_raised (hload : s.config.loadManifest r.serverId = .ok m) (hid : m.id = r.serverId)
    (h : applySaved core s r f = (s', some false)) : s'.config = s.config ∧ Failed core s r f m s' := by
  unfold applySaved at h
  rw [hload] at h
  dsimp only at h
  split at h
  · next hscopes =>
    obtain ⟨rfl, -⟩ := Prod.mk.inj h
    exact ⟨rfl, .early (by simp [Request.reaches, hscopes]) rfl rfl⟩
  rename_i hscopes
  have hpasses : f.scopes = false := by simpa using hscopes
  split at h
  · next happlies =>
    split at h
    · next mgr status happly =>
      obtain ⟨hconfig, hmgr, hraised, hbindings⟩ := saveValues_raised h
      obtain ⟨e, he, hmanifest, -⟩ := Manager.apply_ok happly
      refine ⟨hconfig, .value (by simp [Request.reaches, hpasses, happlies, happly]) ?_ hraised hbindings⟩
      rw [if_pos happlies, hmgr, ← hid]
      exact ⟨e, he, hmanifest⟩
    · next mgr happly =>
      obtain ⟨rfl, -⟩ := Prod.mk.inj h
      refine ⟨rfl, .early (by simp [Request.reaches, hpasses, happlies, happly]) rfl ?_⟩
      exact congrArg (Manager.holds · r.serverId) (Manager.apply_refused happly)
    rename_i mgr reported happly
    obtain ⟨rfl, hreported⟩ := Prod.mk.inj h
    obtain rfl : reported = false := Option.some.inj hreported
    refine ⟨rfl, .early (by simp [Request.reaches, hpasses, happlies, happly]) rfl ?_⟩
    rw [← hid]
    exact Manager.apply_failed happly
  rename_i happlies
  have hskips : r.applies = false := by simpa using happlies
  obtain ⟨hconfig, hmgr, hraised, hbindings⟩ := saveValues_raised h
  refine ⟨hconfig, .value (by simp [Request.reaches, hpasses, hskips]) ?_ hraised hbindings⟩
  rw [if_neg happlies]
  exact hmgr

/-- The values of the user, after a value was refused. -/
theorem values_kept {b' : UserBindings} (hraised : (saveUserCredentials s.bindings r.userId r.serverId r.values f.bindings).2 = true)
    (hbindings : b' = (saveUserCredentials s.bindings r.userId r.serverId r.values f.bindings).1) :
    ((∀ key row, b'.rows key = some row → row.stamp < s.bindings.nextStamp) ↔ f.savesNone = true) ∧
      ((∀ slot, b'.rows (r.userId, r.serverId, slot) = s.bindings.rows (r.userId, r.serverId, slot)) ↔ f.savesNone = true) := by
  rcases saveUserCredentials_raised hraised with ⟨hfault, hsame⟩ | ⟨hfault, slot, row, hrow, hle⟩
  · obtain rfl : b' = s.bindings := hbindings.trans hsame
    have hnone : f.savesNone = true := decide_eq_true hfault
    exact ⟨iff_of_true s.bindings.stamped hnone, iff_of_true (fun _ => rfl) hnone⟩
  rw [← hbindings] at hrow
  have hsome : ¬ f.savesNone = true := fun h => hfault (of_decide_eq_true h)
  refine ⟨iff_of_false ?_ hsome, iff_of_false ?_ hsome⟩
  · intro hold
    exact absurd (hold _ _ hrow) (Nat.not_lt.mpr hle)
  · intro hsame
    rw [hsame slot] at hrow
    exact absurd (s.bindings.stamped _ _ hrow) (Nat.not_lt.mpr hle)

theorem holds_none {mgr mgr' : Manager} {serverId : String} (h : mgr'.holds serverId = mgr.holds serverId) :
    mgr'.servers serverId = none ↔ mgr.servers serverId = none := by
  unfold Manager.holds at h
  rw [← Option.map_eq_none_iff, h, Option.map_eq_none_iff]

theorem holds_manifest {mgr mgr' : Manager} {serverId : String} (h : mgr'.holds serverId = mgr.holds serverId) :
    (mgr'.servers serverId).map Entry.manifest = (mgr.servers serverId).map Entry.manifest := by
  have := congrArg (Option.map Prod.fst) h
  simpa [Manager.holds, Option.map_map, Function.comp_def] using this

end Applied

/-! ## The three changes -/

section Main

variable {core : Bool} {s s' : State} {r : Request} {f : Faults} {serverId : String}

/-- A save that is not refused is under the id of its manifest, and overwrites only what it may. -/
theorem saveConfig_result {st : Store} {draft : Draft} {expectedId : Option String} {overwrite : Bool} {fault : Fault} {st' : Store} :
    (st.saveConfig draft expectedId overwrite fault = .saved st' → (expectedId.all (· = draft.manifest.id) = true ∧
        ((st.findPath draft.manifest.id).isNone ∨ overwrite = true)) ∧ fault = .none ∧ st' = st.afterSave draft) ∧
      (st.saveConfig draft expectedId overwrite fault = .replaced st' → expectedId.all (· = draft.manifest.id) = true ∧
        fault = .after ∧ st' = st.afterSave draft) := by
  unfold Store.saveConfig
  split
  · rename_i hallowed
    constructor <;> intro h <;> cases fault <;> cases h
    · exact ⟨hallowed, rfl, rfl⟩
    · exact ⟨hallowed.1, rfl, rfl⟩
  · simp

/-- The saved manifest is loaded again, and has the id of the request. -/
theorem loadManifest_saved (s : State) (r : Request) :
    (s.config.afterSave r.draft).loadManifest r.serverId = .ok (s.config.written r.draft).2 ∧
      (s.config.written r.draft).2.id = r.serverId :=
  ⟨Store.loadManifest_afterSave s.config r.draft, Store.written_id s.config r.draft⟩

theorem create_undone (h : create core s r f = (s', .raised false)) (hpolicy : r.policyWrites = false) :
    CreateUndone s s' r ↔ CreateKept core s r f := by
  -- nothing was done: what is asked for was there before
  have hsame : (r.refused f = false → f.save ≠ .after ∧ f.save ≠ .none ∨ s.config.findPath r.serverId ≠ none) →
      (CreateUndone s s r ↔ CreateKept core s r f) := by
    intro hearly
    constructor
    · intro hundone
      refine ⟨hundone.config, hundone.runtime, fun hok => ?_, fun hok hsave => ?_⟩
      · rcases hearly hok with hsave | hfound
        · exact hsave.1
        · exact absurd hundone.config hfound
      · rcases hearly hok with hsave' | hfound
        · exact absurd hsave hsave'.2
        · exact absurd hundone.config hfound
    · intro hkept
      exact ⟨hkept.unconfigured, hkept.unloaded, s.bindings.stamped⟩
  unfold create at h
  split at h
  · next hrefused =>
    obtain ⟨rfl, -⟩ := Prod.mk.inj h
    exact hsame fun hok => absurd hrefused (by simp [hok])
  rename_i hrefused
  have hok : r.refused f = false := by simpa using hrefused
  split at h
  · next hsave =>
    obtain ⟨rfl, -⟩ := Prod.mk.inj h
    refine hsame fun _ => ?_
    by_cases hfree : s.config.findPath r.serverId = none
    · refine .inl ?_
      rw [Store.saveConfig_eq (by simp) (.inl (by rw [← Request.serverId, hfree]; rfl))] at hsave
      cases hfault : f.save <;> simp_all [Fault.result]
    · exact .inr hfree
  · next st hsave =>
    -- the new file is left behind
    obtain ⟨rfl, -⟩ := Prod.mk.inj h
    obtain ⟨-, hafter, rfl⟩ := saveConfig_result.2 hsave
    refine iff_of_false ?_ fun hkept => hkept.file hok hafter
    intro hundone
    have hfound : (s.config.afterSave r.draft).findPath r.serverId = some (s.config.written r.draft).1 :=
      Store.findPath_afterSave
    exact absurd (hfound.symm.trans hundone.config) (by simp)
  rename_i st hsave
  obtain ⟨⟨-, hallowed⟩, hnone, rfl⟩ := saveConfig_result.1 hsave
  have hfree : s.config.findPath r.serverId = none := by simpa [Request.serverId] using hallowed
  split at h
  · cases h
  rename_i s₁ reported happly
  rw [if_neg (by simp [hpolicy])] at h
  split at h
  · cases h
  · cases h
  rename_i st₁ hdelete
  obtain ⟨rfl, hreported⟩ := Prod.mk.inj h
  obtain rfl : reported = false := by simpa using hreported
  obtain ⟨hload, hid⟩ := loadManifest_saved s r
  obtain ⟨hconfig, hfailed⟩ := applySaved_raised hload hid happly
  have hgone : st₁.findPath r.serverId = none := by
    rw [hconfig, show ({ s with config := s.config.afterSave r.draft } : State).config = s.config.afterSave r.draft from rfl,
      Request.serverId, Store.deleteConfig_afterSave] at hdelete
    cases hrollback : f.rollback <;> simp only [hrollback, Fault.result, SaveResult.saved.injEq, reduceCtorEq] at hdelete
    subst hdelete
    rw [Store.findPath_congr (Store.contents_save_delete hfree)]
    exact hfree
  cases hfailed with
  | early hreaches hbindings hruntime =>
    have hservers := holds_none hruntime
    constructor
    · intro hundone
      refine ⟨hfree, hservers.mp hundone.runtime, fun _ => by simp [hnone], fun _ _ hr => ?_⟩
      rw [hr] at hreaches
      cases hreaches
    · intro hkept
      refine ⟨hgone, hservers.mpr hkept.unloaded, ?_⟩
      rw [show ({ s₁ with config := st₁ } : State).bindings = s.bindings from hbindings]
      exact s.bindings.stamped
  | value hreaches hruntime hraised hbindings =>
    have hvalues := (values_kept (s := s) hraised hbindings).1
    constructor
    · intro hundone
      have hskips : r.applies = false := by
        by_contra happlies
        rw [if_pos (by simpa using happlies)] at hruntime
        obtain ⟨e, he, -⟩ := hruntime
        exact absurd (he.symm.trans hundone.runtime) (by simp)
      rw [if_neg (by simp [hskips])] at hruntime
      refine ⟨hfree, ?_, fun _ => by simp [hnone], fun _ _ _ => ⟨hskips, hvalues.mp hundone.bindings⟩⟩
      have := hundone.runtime
      rwa [show ({ s₁ with config := st₁ } : State).mgr = s.mgr from hruntime] at this
    intro hkept
    obtain ⟨hskips, hsaves⟩ := hkept.values hok hnone hreaches
    rw [if_neg (by simp [hskips])] at hruntime
    refine ⟨hgone, ?_, hvalues.mpr hsaves⟩
    rw [show ({ s₁ with config := st₁ } : State).mgr = s.mgr from hruntime]
    exact hkept.unloaded

theorem update_undone (h : update core s serverId r f = (s', .raised false)) (hpolicy : r.policyWrites = false) :
    UpdateUndone s s' serverId r.userId ↔ ∀ previous, s.config.loadManifest serverId = .ok previous →
      r.serverId = serverId → r.refused f = false → UpdateKept core s r f previous := by
  have hstays : UpdateUndone s s serverId r.userId := ⟨rfl, rfl, fun _ => rfl⟩
  unfold update at h
  split at h
  · next hload =>
    obtain ⟨rfl, -⟩ := Prod.mk.inj h
    exact iff_of_true hstays fun previous hprevious => by rw [hload] at hprevious; cases hprevious
  rename_i previous hprevious
  have hone : (∀ m, s.config.loadManifest serverId = .ok m → r.serverId = serverId → r.refused f = false →
      UpdateKept core s r f m) ↔ (r.serverId = serverId → r.refused f = false → UpdateKept core s r f previous) := by
    simp [hprevious]
  rw [hone]
  split at h
  · next hrefused =>
    obtain ⟨rfl, -⟩ := Prod.mk.inj h
    exact iff_of_true hstays fun _ hok => absurd hrefused (by simp [hok])
  rename_i hrefused
  have hok : r.refused f = false := by simpa using hrefused
  have hsaves : r.serverId = serverId →
      s.config.saveConfig r.draft (some serverId) true f.save = f.save.result (s.config.afterSave r.draft) := by
    intro hid
    exact Store.saveConfig_eq (by rintro _ ⟨⟩; exact hid.symm) (.inr rfl)
  split at h
  · next hsave =>
    obtain ⟨rfl, -⟩ := Prod.mk.inj h
    refine iff_of_true hstays fun hid _ => ?_
    rw [hsaves hid] at hsave
    refine ⟨fun hfault => ?_, fun hfault => ?_, fun hfault => ?_⟩ <;> simp [hfault, Fault.result] at hsave
  · next st hsave =>
    -- the new file stays, and the runtime keeps the old manifest
    obtain ⟨rfl, -⟩ := Prod.mk.inj h
    obtain ⟨hall, hafter, rfl⟩ := saveConfig_result.2 hsave
    obtain rfl : serverId = r.serverId := of_decide_eq_true hall
    have hload := (loadManifest_saved s r).1
    constructor
    · intro hundone _ _
      refine ⟨fun _ => ?_, fun hnone => by simp [hafter] at hnone, fun hnone => by simp [hafter] at hnone⟩
      have hconfig : (Except.ok (s.config.written r.draft).2 : Except Config.LoadError Manifest) = .ok previous :=
        hload.symm.trans (hundone.config.trans hprevious)
      exact Except.ok.inj hconfig
    · intro hkept
      refine ⟨?_, rfl, fun _ => rfl⟩
      rw [hprevious, ← (hkept rfl hok).file hafter]
      exact hload
  rename_i st hsave
  obtain ⟨⟨hall, -⟩, hnone, rfl⟩ := saveConfig_result.1 hsave
  obtain rfl : serverId = r.serverId := of_decide_eq_true hall
  obtain ⟨hload, hid⟩ := loadManifest_saved s r
  split at h
  · cases h
  rename_i s₁ reported happly
  rw [if_neg (by simp [hpolicy])] at h
  split at h
  · cases h
  · cases h
  rename_i st₁ hback
  obtain ⟨rfl, hreported⟩ := Prod.mk.inj h
  obtain rfl : reported = false := by simpa using hreported
  obtain ⟨hconfig, hfailed⟩ := applySaved_raised hload hid happly
  obtain ⟨⟨hall, -⟩, -, hst₁⟩ := saveConfig_result.1 hback
  have hprevid : previous.id = r.serverId := (of_decide_eq_true hall).symm
  have hagain : st₁.loadManifest r.serverId = .ok (previous.preserveMasked (s.config.written r.draft).2) := by
    rw [hst₁]
    have hrestored := Store.loadManifest_afterSave s₁.config (.ofSaved previous)
    rw [hconfig, Store.written_afterSave hprevid] at hrestored
    rw [hconfig, ← hprevid]
    exact hrestored
  have hfile : st₁.loadManifest r.serverId = s.config.loadManifest r.serverId ↔
      previous.preserveMasked (s.config.written r.draft).2 = previous := by
    rw [hagain, hprevious]
    exact ⟨Except.ok.inj, congrArg _⟩
  have hfault : f.save ≠ .after := by simp [hnone]
  cases hfailed with
  | early hreaches hbindings hruntime =>
    constructor
    · intro hundone _ _
      exact ⟨fun hafter => absurd hafter hfault, fun _ => hfile.mp hundone.config,
        fun _ hr => by rw [hr] at hreaches; cases hreaches⟩
    · intro hkept
      refine ⟨hfile.mpr ((hkept rfl hok).unmasked hnone), holds_manifest hruntime, fun slot => ?_⟩
      rw [show ({ s₁ with config := st₁ } : State).bindings = s.bindings from hbindings]
  | value hreaches hruntime hraised hbindings =>
    have hvalues := (values_kept (s := s) hraised hbindings).2
    constructor
    · intro hundone _ _
      refine ⟨fun hafter => absurd hafter hfault, fun _ => hfile.mp hundone.config,
        fun _ _ => ⟨hvalues.mp hundone.bindings, fun happlies => ?_⟩⟩
      rw [if_pos happlies] at hruntime
      obtain ⟨e, he, hmanifest⟩ := hruntime
      have hsame := hundone.runtime
      rw [show ({ s₁ with config := st₁ } : State).mgr = s₁.mgr from rfl, he] at hsame
      rw [← hsame, Option.map_some, hmanifest]
    intro hkept
    obtain ⟨hnovalue, hloaded⟩ := (hkept rfl hok).values hnone hreaches
    refine ⟨hfile.mpr ((hkept rfl hok).unmasked hnone), ?_, hvalues.mpr hnovalue⟩
    show (s₁.mgr.servers r.serverId).map Entry.manifest = _
    by_cases happlies : r.applies = true
    · rw [if_pos happlies] at hruntime
      obtain ⟨e, he, hmanifest⟩ := hruntime
      rw [he, hloaded happlies, Option.map_some, hmanifest]
    · rw [if_neg happlies] at hruntime
      rw [hruntime]

theorem delete_undone {f : DeleteFaults} (h : delete core s serverId f = (s', .raised false)) :
    DeleteUndone s s' serverId ↔ ∀ previous, s.config.loadManifest serverId = .ok previous →
      (f.groups || f.remove) = false → DeleteKept s serverId previous := by
  have hstays : DeleteUndone s s serverId := ⟨rfl, rfl⟩
  unfold delete at h
  split at h
  · next hload =>
    obtain ⟨rfl, -⟩ := Prod.mk.inj h
    exact iff_of_true hstays fun previous hprevious => by rw [hload] at hprevious; cases hprevious
  rename_i previous hprevious
  have hone : (∀ m, s.config.loadManifest serverId = .ok m → (f.groups || f.remove) = false →
      DeleteKept s serverId m) ↔ ((f.groups || f.remove) = false → DeleteKept s serverId previous) := by
    simp [hprevious]
  rw [hone]
  split at h
  · next hrefused =>
    obtain ⟨rfl, -⟩ := Prod.mk.inj h
    exact iff_of_true hstays fun hok => absurd hrefused (by simp [hok])
  rename_i hrefused
  have hok : (f.groups || f.remove) = false := by simpa using hrefused
  have hremoved : (s.mgr.remove serverId false false).1.servers serverId = none := by
    simp [Manager.remove, Manager.stopRaises, Entry.stopRaises]
  dsimp only at h
  split at h
  · split at h <;> cases h
  · cases h
  split at h
  · next hmissing =>
    obtain ⟨rfl, -⟩ := Prod.mk.inj h
    refine iff_of_true ⟨rfl, ?_⟩ fun _ e he => by rw [hmissing] at he; cases he
    show (s.mgr.remove serverId false false).1.holds serverId = _
    unfold Manager.holds
    rw [hremoved, hmissing]
  rename_i e he
  split at h
  · next mgr status happly =>
    obtain ⟨rfl, -⟩ := Prod.mk.inj h
    have hkey : e.manifest.id = serverId := s.mgr.keyed serverId e he
    have hheld : s.mgr.holds serverId = some (e.manifest, e.desired) := by simp [Manager.holds, he]
    constructor
    · rintro ⟨-, hruntime⟩ _ e' he'
      obtain rfl : e = e' := Option.some.inj (he.symm.trans he')
      have hruntime : mgr.holds serverId = some (e.manifest, e.desired) := hruntime.trans hheld
      have hid : previous.id = serverId := by
        by_contra hother
        have hgone := Manager.apply_other happly (Ne.symm hother)
        rw [hremoved] at hgone
        simp [Manager.holds, hgone] at hruntime
      obtain ⟨e₁, he₁, hmanifest, hdesired, -⟩ := Manager.apply_ok happly
      rw [hid] at he₁
      simp only [Manager.holds, he₁, Option.map_some, Option.some.injEq, Prod.mk.injEq, hmanifest, hdesired] at hruntime
      refine ⟨hruntime.1.symm, fun hrunning => ?_⟩
      rw [← hruntime.2]
      simp [restoreStart, hrunning, desiredState]
    intro hkept
    obtain ⟨hsaved, hrunning⟩ := hkept hok e he
    obtain ⟨e₁, he₁, hmanifest, hdesired, -⟩ := Manager.apply_ok happly
    refine ⟨rfl, ?_⟩
    show mgr.holds serverId = _
    rw [← hsaved, hkey] at he₁
    have hback : desiredState (restoreStart e) = e.desired := by
      cases hdes : e.desired with
      | running => simp [restoreStart, desiredState, hdes]
      | stopped =>
        have hidle : e.server.state ≠ .running := by simpa [hdes] using hrunning
        simp [restoreStart, desiredState, hdes, hidle]
    rw [hheld]
    simp [Manager.holds, he₁, hmanifest, hdesired, hsaved, hback]
  · cases h

/-- **A change that raises is compensated exactly under its condition.** Nothing takes the runtime and the credential values
back: a `create` needs that no value fails behind a switched runtime or a written value, an `update` that the failing value
is the first and the runtime had the new manifest already. A failure between replacing the file and the `try` leaves the
new file, a mask in the saved manifest is read anew, and a `delete` gives the runtime the saved manifest, whatever it had. -/
theorem changes_compensated (core : Bool) : (∀ s s' r f, create core s r f = (s', .raised false) → r.policyWrites = false →
      (CreateUndone s s' r ↔ CreateKept core s r f)) ∧
    (∀ s s' serverId r f, update core s serverId r f = (s', .raised false) → r.policyWrites = false →
      (UpdateUndone s s' serverId r.userId ↔ ∀ previous, s.config.loadManifest serverId = .ok previous →
        r.serverId = serverId → r.refused f = false → UpdateKept core s r f previous)) ∧
    (∀ s s' serverId f, delete core s serverId f = (s', .raised false) →
      (DeleteUndone s s' serverId ↔ ∀ previous, s.config.loadManifest serverId = .ok previous →
        (f.groups || f.remove) = false → DeleteKept s serverId previous)) :=
  ⟨fun _ _ _ _ => create_undone, fun _ _ _ _ _ => update_undone, fun _ _ _ _ => delete_undone⟩

end Main

/-! ## A value that is refused -/

def echo : Manifest := { id := "echo" }

def echoRequest : Request where
  draft := .ofSaved echo
  userId := "ada"
  values := [("token", "abcd")]

/-- The configuration is saved and deleted again; the runtime keeps the server. -/
theorem create_leaves_runtime : (create true {} echoRequest { bindings := [.before] }).2 = .raised false ∧
      ¬ CreateUndone {} (create true {} echoRequest { bindings := [.before] }).1 echoRequest := by
  refine ⟨by decide +kernel, fun h => ?_⟩
  have hruntime : ((create true {} echoRequest { bindings := [.before] }).1.mgr.servers echoRequest.serverId).isNone = false := by
    decide +kernel
  rw [h.runtime] at hruntime
  cases hruntime

def echoSaved : State := { config := ({} : Store).afterSave (.ofSaved echo) }

/-- A create and an update that fail at the scopes, and a deletion that fails at the file. -/
theorem changes_compensated_scopes : (CreateUndone {} (create true {} echoRequest { scopes := true }).1 echoRequest ↔
      CreateKept true {} echoRequest { scopes := true }) ∧
    (UpdateUndone echoSaved (update true echoSaved "echo" echoRequest { scopes := true }).1 "echo" "ada" ↔
      ∀ previous, echoSaved.config.loadManifest "echo" = .ok previous → echoRequest.serverId = "echo" →
        echoRequest.refused { scopes := true } = false →
        UpdateKept true echoSaved echoRequest { scopes := true } previous) ∧
    (DeleteUndone echoSaved (delete true echoSaved "echo" { delete := .write }).1 "echo" ↔
      ∀ previous, echoSaved.config.loadManifest "echo" = .ok previous → (false || false) = false →
        DeleteKept echoSaved "echo" previous) :=
  ⟨(changes_compensated true).1 {} _ echoRequest { scopes := true } (Prod.ext rfl (by decide +kernel)) rfl,
    (changes_compensated true).2.1 echoSaved _ "echo" echoRequest { scopes := true } (Prod.ext rfl (by decide +kernel)) rfl,
    (changes_compensated true).2.2 echoSaved _ "echo" { delete := .write } (Prod.ext rfl (by decide +kernel))⟩

end LingshuGate.ConfigChanges

import LingshuGate.Config.Store

/-!
# Replacing the manifest of one server (`mcp_runtime.py`)

| here | there |
| --- | --- |
| `Entry`, `Entry.new`   | `McpServerRuntime` (185) in the manager, `_new_runtime` (558) |
| `Manager`              | `_servers`, and the intents of `mcp_runtime_state_store.py` |
| `Manager.apply`, `Manager.undo` | `apply_manifest` (381) and its `except` (441) |
| `Manager.remove`       | `remove_manifest` (536) |

`apply_manifest` undoes what it did when it fails; what fails while it undoes is reported. `apply_failed` says what the
report is worth: without one, the server has the manifest and the intent that it had.

A step that can raise has a flag that says whether it does (`ApplyFaults`). The lock of the manager is held throughout.
`start_server` and `_stop_runtime_locked` are those of `Runtime/Server.lean`.
-/

namespace LingshuGate.Runtime

/-- A registered server: it runs the manifest it was given, and has an intent. -/
structure Entry where
  manifest : Config.Manifest
  server : Server
  runs : server.manifest = manifest.runtime
  hasIntent : server.desired.isSome = true

namespace Entry

def desired (e : Entry) : Desired := e.server.desired.get e.hasIntent

def new (m : Config.Manifest) (desired : Desired) : Entry where
  manifest := m
  server :=
    { manifest := m.runtime
      desired := some desired
      state := if m.runtime.launch = .external then .external else if m.runtime.enabled then .loaded else .stopped }
  runs := rfl
  hasIntent := rfl

/-- Whether stopping the client raises. -/
def stopRaises (e : Entry) (raises : Bool) : Bool := raises && e.server.client.isSome

def stop (e : Entry) (raises : Bool) : Entry where
  manifest := e.manifest
  server := stopRuntimeLocked e.server false raises
  runs := by rw [stopRuntimeLocked_manifest, e.runs]
  hasIntent := by rw [stopRuntimeLocked_desired, e.hasIntent]

def start (core : Bool) (e : Entry) (met : StartMet) : Entry where
  manifest := e.manifest
  server := (startServer core e.server true met).1
  runs := by rw [startServer_manifest, e.runs]
  hasIntent := by rw [startServer_desired, e.hasIntent]

@[simp] theorem new_manifest (m : Config.Manifest) (d : Desired) : (new m d).manifest = m := rfl

@[simp] theorem new_desired (m : Config.Manifest) (d : Desired) : (new m d).desired = d := rfl

@[simp] theorem start_manifest (core : Bool) (e : Entry) (met : StartMet) : (e.start core met).manifest = e.manifest := rfl

@[simp] theorem start_desired (core : Bool) (e : Entry) (met : StartMet) : (e.start core met).desired = e.desired := by
  simp [desired, start]

@[simp] theorem stop_manifest (e : Entry) (raises : Bool) : (e.stop raises).manifest = e.manifest := rfl

@[simp] theorem stop_desired (e : Entry) (raises : Bool) : (e.stop raises).desired = e.desired := by
  simp [desired, stop]

end Entry

theorem keyed_empty : ∀ serverId (e : Entry), none = some e → e.manifest.id = serverId := by simp

structure Manager where
  servers : String → Option Entry := fun _ => none
  /-- `state_store`. -/
  intents : String → Option Desired := fun _ => none
  /-- `_servers[manifest.id]`. -/
  keyed : ∀ serverId e, servers serverId = some e → e.manifest.id = serverId := by first | exact LingshuGate.Runtime.keyed_empty | simp

namespace Manager

/-- Other entries are as they were, and the one of the server is its own. -/
theorem keyed_update {mgr : Manager} {serverId : String} {entry : Option Entry}
    (h : ∀ e, entry = some e → e.manifest.id = serverId) :
    ∀ id e, Function.update mgr.servers serverId entry id = some e → e.manifest.id = id := by
  intro id e he
  by_cases hid : id = serverId
  · subst hid
    rw [Function.update_self] at he
    exact h e he
  · rw [Function.update_of_ne hid] at he
    exact mgr.keyed id e he

/-- `_servers[server_id] = runtime`. -/
def put (mgr : Manager) (e : Entry) : Manager where
  servers := Function.update mgr.servers e.manifest.id (some e)
  intents := mgr.intents
  keyed := keyed_update (by rintro _ ⟨⟩; rfl)

/-- `_servers.pop(server_id, None)`. -/
def pop (mgr : Manager) (serverId : String) : Manager where
  servers := Function.update mgr.servers serverId none
  intents := mgr.intents
  keyed := keyed_update (by simp)

/-- The server is stopped, if it is there. -/
def stop (mgr : Manager) (serverId : String) (raises : Bool) : Manager where
  servers := Function.update mgr.servers serverId ((mgr.servers serverId).map (·.stop raises))
  intents := mgr.intents
  keyed := keyed_update (by
    intro e he
    obtain ⟨e', he', rfl⟩ := Option.map_eq_some_iff.mp he
    exact mgr.keyed serverId e' he')

def stopRaises (mgr : Manager) (serverId : String) (raises : Bool) : Bool :=
  (mgr.servers serverId).any (·.stopRaises raises)

def setIntent (mgr : Manager) (serverId : String) (intent : Option Desired) : Manager :=
  { mgr with intents := Function.update mgr.intents serverId intent }

/-- The manifest and the desired state of a server. -/
def holds (mgr : Manager) (serverId : String) : Option (Config.Manifest × Desired) :=
  (mgr.servers serverId).map fun e => (e.manifest, e.desired)

end Manager

/-- Which steps of `apply_manifest` raise, and what its starts meet. -/
structure ApplyFaults where
  /-- The endpoint is not permitted. -/
  refused : Bool := false
  stopPrevious : Bool := false
  setIntent : Bool := false
  start : StartMet := .starts true
  stopCurrent : Bool := false
  undoIntent : Bool := false
  restart : StartMet := .starts true

inductive ApplyResult
  | ok (status : ServerState)
  /-- `ValueError`, before anything is done. -/
  | refused
  /-- `McpTargetApplyError`; `reported` is "target rollback failed:" in its text. -/
  | failed (reported : Bool)
  deriving DecidableEq

def desiredState (start : Bool) : Desired := if start then .running else .stopped

/-- The server as it was: its manifest, its intent, and started if it is to run. -/
def Entry.restored (core : Bool) (previous : Entry) (met : StartMet) : Entry :=
  let e := Entry.new previous.manifest previous.desired
  if previous.desired = .running then e.start core met else e

/-- The `except` of `apply_manifest`; the flag is whether something failed. -/
def Manager.undo (core : Bool) (mgr : Manager) (serverId : String) (previous : Option Entry) (f : ApplyFaults) : Manager × Bool :=
  let stopFailed := mgr.stopRaises serverId f.stopCurrent
  let mgr := mgr.stop serverId f.stopCurrent
  match previous with
  | none =>
    if f.undoIntent then (mgr.pop serverId, true) else ((mgr.pop serverId).setIntent serverId none, stopFailed)
  | some e =>
    let mgr := if f.undoIntent then mgr else mgr.setIntent serverId (some e.desired)
    if stopFailed then (mgr, true)
    else
      let restored := e.restored core f.restart
      (mgr.put restored, f.undoIntent || (e.desired = .running && restored.server.state ≠ .running))

/-- The new server, started if it is to run. -/
def Entry.candidate (core : Bool) (m : Config.Manifest) (start : Bool) (met : StartMet) : Entry :=
  if start then (Entry.new m (desiredState start)).start core met else Entry.new m (desiredState start)

/-- The `try` of `apply_manifest`; `none` is an exception. -/
def Manager.replace (core : Bool) (mgr : Manager) (m : Config.Manifest) (start : Bool) (f : ApplyFaults) :
    Manager × Option ServerState :=
  let stopped := mgr.stop m.id f.stopPrevious
  if mgr.stopRaises m.id f.stopPrevious || f.setIntent then (stopped, none)
  else
    let current := Entry.candidate core m start f.start
    ((stopped.setIntent m.id (some (desiredState start))).put current,
      if start && current.server.state ≠ .running then none else some current.server.state)

def Manager.apply (core : Bool) (mgr : Manager) (m : Config.Manifest) (start : Bool) (f : ApplyFaults) : Manager × ApplyResult :=
  if f.refused then (mgr, .refused)
  else match mgr.replace core m start f with
    | (mgr', some status) => (mgr', .ok status)
    | (mgr', none) =>
      let undone := mgr'.undo core m.id (mgr.servers m.id) f
      (undone.1, .failed undone.2)

/-- `remove_manifest`; the flag is whether it raises. -/
def Manager.remove (mgr : Manager) (serverId : String) (stopFails intentFails : Bool) : Manager × Bool :=
  let stopped := mgr.stop serverId stopFails
  if mgr.stopRaises serverId stopFails then (stopped, true)
  else if intentFails then (stopped.pop serverId, true)
  else ((stopped.pop serverId).setIntent serverId none, false)

/-! ## What they leave behind -/

theorem Entry.restored_held (core : Bool) (e : Entry) (met : StartMet) :
    (e.restored core met).manifest = e.manifest ∧ (e.restored core met).desired = e.desired := by
  unfold Entry.restored
  dsimp only
  split <;> simp

theorem Entry.candidate_held (core : Bool) (m : Config.Manifest) (start : Bool) (met : StartMet) :
    (candidate core m start met).manifest = m ∧ (candidate core m start met).desired = desiredState start := by
  unfold candidate
  split <;> simp

/-- A new server has not failed yet. -/
theorem Entry.candidate_ne_failed {core : Bool} {m : Config.Manifest} {start : Bool} {met : StartMet}
    (h : start = true → (candidate core m start met).server.state = .running) :
    (candidate core m start met).server.state ≠ .failed := by
  cases start with
  | true => simp [h rfl]
  | false =>
    simp only [candidate, Bool.false_eq_true, if_false, new]
    split
    · simp
    · split <;> simp

namespace Manager

variable {core start : Bool} {mgr mgr' : Manager} {m : Config.Manifest} {serverId other : String} {f : ApplyFaults}

theorem put_self {e : Entry} (h : e.manifest.id = serverId) : (mgr.put e).servers serverId = some e := by
  simp [put, h]

@[simp] theorem put_of_ne {e : Entry} (h : other ≠ e.manifest.id) : (mgr.put e).servers other = mgr.servers other := by
  simp [put, h]

@[simp] theorem pop_self : (mgr.pop serverId).servers serverId = none := by simp [pop]

@[simp] theorem pop_of_ne (h : other ≠ serverId) : (mgr.pop serverId).servers other = mgr.servers other := by simp [pop, h]

@[simp] theorem stop_of_ne (h : other ≠ serverId) (raises : Bool) : (mgr.stop serverId raises).servers other = mgr.servers other := by
  simp [stop, h]

@[simp] theorem setIntent_servers (intent : Option Desired) : (mgr.setIntent serverId intent).servers = mgr.servers := rfl

/-- The other servers stay as they are. -/
theorem undo_other {previous : Option Entry} (hprevious : ∀ e, previous = some e → e.manifest.id = serverId)
    (h : other ≠ serverId) : (mgr.undo core serverId previous f).1.servers other = mgr.servers other := by
  unfold undo
  cases previous with
  | none =>
    dsimp only
    split <;> simp [h]
  | some e =>
    have hid : other ≠ (e.restored core f.restart).manifest.id := by
      rw [(e.restored_held core f.restart).1, hprevious e rfl]
      exact h
    dsimp only
    split <;> split <;> simp [h, hid]

/-- What was there is there again, unless a failure is reported. -/
theorem undo_holds {previous : Option Entry} (hprevious : ∀ e, previous = some e → e.manifest.id = serverId)
    (h : (mgr.undo core serverId previous f).2 = false) :
    (mgr.undo core serverId previous f).1.holds serverId = previous.map fun e => (e.manifest, e.desired) := by
  unfold undo at h ⊢
  cases previous with
  | none =>
    dsimp only at h ⊢
    split
    · rename_i hundo
      simp [hundo] at h
    · simp [holds]
  | some e =>
    obtain ⟨hmanifest, hdesired⟩ := e.restored_held core f.restart
    have hid : (e.restored core f.restart).manifest.id = serverId := by rw [hmanifest, hprevious e rfl]
    dsimp only at h ⊢
    split at h
    · cases h
    · rename_i hstop
      rw [if_neg hstop]
      simp [holds, put_self hid, hmanifest, hdesired]

theorem replace_other (core start : Bool) (mgr : Manager) (f : ApplyFaults) (h : other ≠ m.id) :
    (mgr.replace core m start f).1.servers other = mgr.servers other := by
  have hid : other ≠ (Entry.candidate core m start f.start).manifest.id := by
    rw [(Entry.candidate_held core m start f.start).1]
    exact h
  unfold replace
  dsimp only
  split <;> simp [h, hid]

theorem apply_other {result : ApplyResult} (happly : mgr.apply core m start f = (mgr', result)) (h : other ≠ m.id) :
    mgr'.servers other = mgr.servers other := by
  unfold apply at happly
  split at happly
  · cases happly
    rfl
  split at happly
  · rename_i mgr₁ status hreplace
    obtain ⟨rfl, -⟩ := Prod.mk.inj happly
    have hother := replace_other core start mgr f h
    rwa [hreplace] at hother
  · rename_i mgr₁ hreplace
    obtain ⟨rfl, -⟩ := Prod.mk.inj happly
    have hother := replace_other core start mgr f h
    rw [hreplace] at hother
    rw [undo_other (mgr.keyed m.id) h, hother]

theorem apply_refused (happly : mgr.apply core m start f = (mgr', .refused)) : mgr' = mgr := by
  unfold apply at happly
  split at happly
  · cases happly
    rfl
  · split at happly <;> cases happly

/-- A failure that is not reported as one of the undoing leaves the manifest and the intent as they were. -/
theorem apply_failed (happly : mgr.apply core m start f = (mgr', .failed false)) : mgr'.holds m.id = mgr.holds m.id := by
  unfold apply at happly
  split at happly
  · cases happly
  split at happly
  · cases happly
  · rename_i mgr₁ hreplace
    obtain ⟨rfl, hreported⟩ := Prod.mk.inj happly
    rw [undo_holds (mgr.keyed m.id) (by simpa using hreported)]
    rfl

/-- A success leaves the new manifest, in the state that was asked for. -/
theorem apply_ok {status : ServerState} (happly : mgr.apply core m start f = (mgr', .ok status)) :
    ∃ e, mgr'.servers m.id = some e ∧ e.manifest = m ∧ e.desired = desiredState start ∧ e.server.state = status ∧
      (start = true → status = .running) ∧ status ≠ .failed := by
  unfold apply at happly
  split at happly
  · cases happly
  split at happly
  · rename_i mgr₁ status₁ hreplace
    obtain ⟨rfl, hstatus⟩ := Prod.mk.inj happly
    obtain rfl : status₁ = status := by simpa using hstatus
    unfold replace at hreplace
    dsimp only at hreplace
    split at hreplace
    · cases hreplace
    obtain ⟨rfl, hstate⟩ := Prod.mk.inj hreplace
    obtain ⟨hmanifest, hdesired⟩ := Entry.candidate_held core m start f.start
    refine ⟨_, put_self (by rw [hmanifest]), hmanifest, hdesired, ?_⟩
    split at hstate
    · cases hstate
    rename_i hrunning
    obtain rfl := Option.some.inj hstate
    have hstarted : start = true → (Entry.candidate core m start f.start).server.state = .running := by
      intro hstart
      simpa [hstart] using hrunning
    exact ⟨rfl, hstarted, Entry.candidate_ne_failed hstarted⟩
  · cases happly

theorem remove_other (stopFails intentFails : Bool) (h : other ≠ serverId) :
    (mgr.remove serverId stopFails intentFails).1.servers other = mgr.servers other := by
  unfold remove
  dsimp only
  split
  · simp [h]
  · split <;> simp [h]

theorem remove_ok {stopFails intentFails : Bool} (h : (mgr.remove serverId stopFails intentFails).2 = false) :
    (mgr.remove serverId stopFails intentFails).1.servers serverId = none := by
  unfold remove at h ⊢
  dsimp only at h ⊢
  split at h
  · cases h
  · rename_i hstop
    rw [if_neg hstop]
    split <;> simp

end Manager

end LingshuGate.Runtime

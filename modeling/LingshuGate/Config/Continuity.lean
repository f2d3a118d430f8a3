import LingshuGate.Config.Save
import LingshuGate.Config.TrustRuns

/-!
# The identity of a service over whole runs (`mcp_authorization_policy.py`, `mcp_config_store.py`)

| here | there |
| --- | --- |
| `InForce` | `server_binding` finds the file of the row, with its marker (mcp_authorization_policy.py:31) |
| `FileStep` | what `_save_config`, `_record_authorization_identity`, `_delete_config`, `__init__`, `ensure_server_identity` and changes from outside do to files and identities |

A row says which file a service was saved in, and `server_binding` asks whether that file still is the one. It does not
ask which file `load_manifest` reads: that is the first one in name order that carries the id. A file from outside with
the id of another one, under a name that comes before, is loaded under the identity of the other (`further_file_loaded`).
`Clear` says which steps do not come to that; `identity_continuous` is what holds then.

From the row back to the past: a binding that is in force now was in force at every moment since it was, or was about to
be recorded by the save of the same target (`Held.back`).
-/

namespace LingshuGate.Config

open Lib

variable {st : Store} {path other serverId : String} {content : Content}

/-- A file that is found stays it while only files behind it get the id. -/
theorem Store.findPath_write_behind {f : File} (h : st.findPath serverId = some other) (hfile : st.file other = some f)
    (hid : f.content.rawId = some serverId) (hne : path ≠ other) (hbehind : content.rawId = some serverId → other ≤ path) :
    (st.write path content).findPath serverId = some other := by
  refine findPath_of_least ((file_write_of_ne (Ne.symm hne)).trans hfile) hid fun g hg hgid => ?_
  rcases mem_write.mp hg with rfl | ⟨hg, -⟩
  · exact hbehind hgid
  · exact findPath_least h hg hgid

theorem Store.findPath_unlink_other {f : File} (h : st.findPath serverId = some other) (hfile : st.file other = some f)
    (hid : f.content.rawId = some serverId) (hne : path ≠ other) : (st.unlink path).findPath serverId = some other :=
  findPath_of_least ((file_unlink_of_ne (Ne.symm hne)).trans hfile) hid fun _ hg hgid =>
    findPath_least h (mem_unlink.mp hg).1 hgid

theorem Store.loadPath_ok {m : Manifest} (h : st.loadPath path = .ok m) : ∃ marker, st.file path = some ⟨marker, .manifest m⟩ := by
  unfold loadPath at h
  split at h
  · next marker m' hfile =>
    obtain rfl := Except.ok.inj h
    exact ⟨marker, hfile⟩
  · cases h

/-- The file that a save writes is the one that is found. -/
theorem Store.findPath_save (m : Manifest) : (st.write ((st.findPath m.id).getD (m.id ++ ".yaml")) (.manifest m)).findPath m.id =
      some ((st.findPath m.id).getD (m.id ++ ".yaml")) := by
  refine findPath_write fun f hf hid => ?_
  cases hpath : st.findPath m.id with
  | none => exact absurd hid (findPath_none hpath hf).1
  | some path => exact findPath_least hpath hf hid

end LingshuGate.Config

namespace LingshuGate.HttpTrust

open Lib
open Config (Manifest Content File Store Identity Target)

/-- The row of a service names a file, and the file has its marker. -/
def InForce (st : Store) (serverId : String) (row : Identity) (path : String) : Prop :=
  st.identities serverId = some row ∧ ∃ file, row.file = some (path, file.marker) ∧ st.file path = some file

/-! ## What continuity is -/

/-- The manifest that is loaded comes from the file of the row, and has its target. -/
def Named (st : Store) (serverId : String) : Prop :=
  ∀ row path marker m, st.identities serverId = some row → row.file = some (path, marker) →
    st.serverBinding serverId = .ok row.binding → st.loadManifest serverId = .ok m →
    st.findPath serverId = some path ∧ row.target = some m.target

/-- An event that leaves a service what it is. -/
structure Unbroken (w : World) (e : Event) (v : World) (serverId : String) (target : Target) : Prop where
  /-- No deletion takes effect. -/
  deleted : e = .delete serverId → w.job = none → v.job = none
  /-- No other target is saved. -/
  saved : ∀ request, e = .save request → w.job = none → v.job.isSome = true → request.manifest.id = serverId →
    request.manifest.target = target
  /-- No other target is loaded. -/
  loaded : ∀ m, w.config.loadManifest serverId = .ok m → m.target = target

/-- A step that does not bring another file before the one that an identity is tied to: from outside, no file with the id
of a service in force before its file, and nothing over a file that is being saved; at startup, no second file of an id. -/
def Clear (w : World) : Event → Prop
  | .external path (some content) =>
    (∀ serverId row file, content.rawId = some serverId → InForce w.config serverId row file → file ≤ path) ∧
      ∀ m file replace request, w.job = some (.written m file replace request) →
        path ≠ file ∧ (content.rawId = some m.id → file ≤ path)
  | .reconcile => ∀ path paths endpoints invalidated m, w.job = some (.starting (path :: paths) endpoints invalidated) →
    w.config.loadPath path = .ok m → w.config.findPath m.id = some path
  | _ => True

/-! ## What a step does to files and identities -/

/-- A save is under way between its file and its row. -/
def Job.saves : Job → Bool
  | .written .. => true
  | _ => false

/-- The work under the lock starts with it. -/
def Event.begins : Event → Bool
  | .save _ | .delete _ => true
  | _ => false

/-- A step leaves files and identities alone, or does one thing to them. -/
inductive FileStep (w v : World) : Event → Prop
  | quiet {e : Event} (hconfig : v.config = w.config)
    (hjob : v.job = w.job ∨ e.begins = false ∧ v.job.all (!·.saves) = true) : FileStep w v e
  | external (path : String) (content : Content) (hconfig : v.config = w.config.write path content) (hjob : v.job = w.job) :
    FileStep w v (.external path (some content))
  | removed (path : String) (hconfig : v.config = w.config.unlink path) (hjob : v.job = w.job) :
    FileStep w v (.external path none)
  | ensured (serverId : String) (hconfig : v.config = w.config.ensureServerIdentity serverId) (hjob : v.job = w.job) :
    FileStep w v (.ensure serverId)
  | saved (request : SaveRequest) (hidle : w.job = none)
    (hconfig : v.config = w.config.write ((w.config.findPath request.manifest.id).getD (request.manifest.id ++ ".yaml"))
      (.manifest request.manifest))
    (hjob : v.job = some (.written request.manifest
      ((w.config.findPath request.manifest.id).getD (request.manifest.id ++ ".yaml"))
      ((w.config.findPath request.manifest.id).isNone || (w.config.currentBinding request.manifest.id).isNone)
      request.trust)) : FileStep w v (.save request)
  | recorded (m : Manifest) (path : String) (replace : Bool) (request : Option (Plan × String)) (binding : Nat)
    (hwritten : w.job = some (.written m path replace request))
    (hrecord : w.config.recordConfigIdentity m.id path m.target replace = some (v.config, binding))
    (hjob : v.job.all (!·.saves) = true) : FileStep w v .record
  | deleted (serverId path : String) (hidle : w.job = none) (hfind : w.config.findPath serverId = some path)
    (hconfig : v.config = w.config.unlink path) (hjob : v.job = some (.unlinked serverId)) : FileStep w v (.delete serverId)
  | dropped (serverId : String) (hjob : v.job = none) (hconfig : v.config = w.config.setIdentity serverId none) :
    FileStep w v .drop
  | reconciled (m : Manifest) (path : String) (paths : List String) (endpoints : List (String × String))
    (invalidated : List String) (binding : Nat) (hstarting : w.job = some (.starting (path :: paths) endpoints invalidated))
    (hload : w.config.loadPath path = .ok m)
    (hrecord : w.config.recordConfigIdentity m.id path m.target (w.config.currentBinding m.id).isNone = some (v.config, binding))
    (hjob : v.job.all (!·.saves) = true) : FileStep w v .reconcile

theorem fileStep (privateHttpOrigin : String → Option Origin) (w : World) (e : Event) :
    FileStep w (next privateHttpOrigin w e) e := by
  cases e with
  | external path content =>
    cases content with
    | none => exact .removed path rfl rfl
    | some content => exact .external path content rfl rfl
  | people db => exact .quiet rfl (.inl rfl)
  | ensure serverId => exact .ensured serverId rfl rfl
  | update | plan =>
    simp only [next]
    split <;> exact .quiet rfl (.inl rfl)
  | save request =>
    simp only [next]
    split
    · next hidle =>
      split
      · next w' hsave =>
        simp only [beginSave, bind_eq_ok, pure_eq_ok] at hsave
        obtain ⟨-, -, rfl⟩ := hsave
        simp only [Bool.and_eq_true, Option.isNone_iff_eq_none] at hidle
        exact .saved request hidle.1 rfl rfl
      · exact .quiet rfl (.inl rfl)
    · exact .quiet rfl (.inl rfl)
  | record =>
    simp only [next]
    split
    · next m path replace request hjob =>
      split
      · next config binding hrecord => exact .recorded m path replace request binding hjob hrecord rfl
      · exact .quiet rfl (.inr ⟨rfl, rfl⟩)
    · exact .quiet rfl (.inl rfl)
  | bind =>
    simp only [next]
    split
    · exact .quiet rfl (.inl rfl)
    rename_i job hjob
    split
    · exact .quiet rfl (.inl rfl)
    rename_i hrecords
    refine .quiet rfl (.inr ⟨rfl, ?_⟩)
    cases job with
    | recorded m binding request => cases request <;> rfl
    | reconciled m binding paths endpoints invalidated =>
      simp only [Job.afterBind]
      split <;> rfl
    | written | bound | unlinked | retired | starting => cases hrecords
  | apply =>
    simp only [next]
    split
    · split <;> exact .quiet rfl (.inr ⟨rfl, rfl⟩)
    · exact .quiet rfl (.inl rfl)
  | delete serverId =>
    simp only [next]
    split
    · next hidle =>
      cases hdelete : beginDelete w serverId with
      | none => exact .quiet rfl (.inl rfl)
      | some v =>
        simp only [beginDelete, Option.bind_eq_bind, Option.bind_eq_some_iff, Option.pure_def, Option.some.injEq] at hdelete
        obtain ⟨path, hfind, _, -, rfl⟩ := hdelete
        exact .deleted serverId path (Option.isNone_iff_eq_none.mp hidle) hfind rfl rfl
    · exact .quiet rfl (.inl rfl)
  | retire =>
    simp only [next]
    split
    · exact .quiet rfl (.inr ⟨rfl, rfl⟩)
    · exact .quiet rfl (.inl rfl)
  | drop =>
    simp only [next]
    split
    · next serverId hjob => exact .dropped serverId rfl rfl
    · exact .quiet rfl (.inl rfl)
  | start => exact .quiet rfl (.inr ⟨rfl, rfl⟩)
  | reconcile =>
    simp only [next]
    split
    · next path paths endpoints invalidated hjob =>
      simp only [reconcileFile]
      split
      · exact .quiet rfl (.inr ⟨rfl, rfl⟩)
      · next m hload =>
        split
        · exact .quiet rfl (.inr ⟨rfl, rfl⟩)
        · next config binding hrecord => exact .reconciled m path paths endpoints invalidated binding hjob hload hrecord rfl
    · exact .quiet rfl (.inl rfl)
  | migrate =>
    simp only [next]
    split
    · exact .quiet rfl (.inr ⟨rfl, rfl⟩)
    · exact .quiet rfl (.inl rfl)
  | crash => exact .quiet rfl (.inr ⟨rfl, rfl⟩)

/-! ## What is tied to a file -/

/-- The markers of rows were given to files, the file of a row in force has the manifest that is loaded, and so does a file
that is being saved. -/
structure Tied (w : World) : Prop where
  markers : ∀ f ∈ w.config.files, f.2.marker < w.config.nextMarker
  rows : ∀ serverId row path marker, w.config.identities serverId = some row → row.file = some (path, marker) →
    marker < w.config.nextMarker ∧ row.target.isSome = true
  force : ∀ serverId row path, InForce w.config serverId row path → ∃ marker m,
    w.config.file path = some ⟨marker, .manifest m⟩ ∧ m.id = serverId ∧ row.target = some m.target ∧
      w.config.findPath serverId = some path
  saving : ∀ m path replace request, w.job = some (.written m path replace request) → ∀ file, w.config.file path = some file →
    file.content = .manifest m ∧ w.config.findPath m.id = some path

section Tied

variable {w v : World} {st : Store} {serverId path other : String} {row : Identity}

variable {content : Content}

/-- A row in force after a write was so before, of another file. -/
theorem inForce_write (hrows : ∀ marker, row.file = some (other, marker) → marker < st.nextMarker)
    (h : InForce (st.write path content) serverId row other) : path ≠ other ∧ InForce st serverId row other := by
  obtain ⟨hrow, file, hmarker, hfile⟩ := h
  have hne : path ≠ other := by
    rintro rfl
    obtain rfl : (⟨st.nextMarker, content⟩ : File) = file := Option.some.inj (Store.file_write.symm.trans hfile)
    exact absurd (hrows _ hmarker) (Nat.lt_irrefl _)
  exact ⟨hne, hrow, file, hmarker, (Store.file_write_of_ne (Ne.symm hne)).symm.trans hfile⟩

theorem inForce_unlink (h : InForce (st.unlink path) serverId row other) : path ≠ other ∧ InForce st serverId row other := by
  obtain ⟨hrow, file, hmarker, hfile⟩ := h
  have hne : path ≠ other := by
    rintro rfl
    rw [Store.file_unlink_self] at hfile
    cases hfile
  exact ⟨hne, hrow, file, hmarker, (Store.file_unlink_of_ne (Ne.symm hne)).symm.trans hfile⟩

theorem markers_write (h : ∀ f ∈ st.files, f.2.marker < st.nextMarker) :
    ∀ f ∈ (st.write path content).files, f.2.marker < (st.write path content).nextMarker := by
  intro f hf
  rcases Store.mem_write.mp hf with rfl | ⟨hf, -⟩
  · exact Nat.lt_succ_self _
  · exact Nat.lt_succ_of_lt (h f hf)

/-- A write of a file behind every file in force with its id. -/
theorem Tied.write (h : Tied w) (hconfig : v.config = w.config.write path content)
    (hbehind : ∀ serverId row other, content.rawId = some serverId → InForce w.config serverId row other → path ≠ other →
      other ≤ path)
    (hsaving : ∀ m other replace request, v.job = some (.written m other replace request) →
      ∀ file, v.config.file other = some file → file.content = .manifest m ∧ v.config.findPath m.id = some other) :
    Tied v := by
  refine ⟨?_, fun serverId row other marker hrow hmarker => ?_, fun serverId row other hforce => ?_, hsaving⟩
  · rw [hconfig]
    exact markers_write h.markers
  · rw [hconfig] at hrow ⊢
    obtain ⟨hlt, htarget⟩ := h.rows serverId row other marker hrow hmarker
    exact ⟨Nat.lt_succ_of_lt hlt, htarget⟩
  rw [hconfig] at hforce ⊢
  obtain ⟨hne, hbefore⟩ := inForce_write (fun marker hmarker => (h.rows serverId row other marker hforce.1 hmarker).1) hforce
  obtain ⟨marker, m, hfile, hid, htarget, hfind⟩ := h.force serverId row other hbefore
  refine ⟨marker, m, (Store.file_write_of_ne (Ne.symm hne)).trans hfile, hid, htarget, ?_⟩
  exact Store.findPath_write_behind hfind hfile (congrArg some hid) hne fun hraw => hbehind serverId row other hraw hbefore hne

theorem Tied.unlink (h : Tied w) (hconfig : v.config = w.config.unlink path)
    (hjob : v.job = w.job ∨ v.job.all (!·.saves) = true) : Tied v := by
  refine ⟨fun f hf => ?_, fun serverId row other marker hrow hmarker => ?_, fun serverId row other hforce => ?_,
    fun m other replace request hwritten file hfile => ?_⟩
  · rw [hconfig] at hf ⊢
    exact h.markers f (Store.mem_unlink.mp hf).1
  · rw [hconfig] at hrow ⊢
    exact h.rows serverId row other marker hrow hmarker
  · rw [hconfig] at hforce ⊢
    obtain ⟨hne, hbefore⟩ := inForce_unlink hforce
    obtain ⟨marker, m, hfile, hid, htarget, hfind⟩ := h.force serverId row other hbefore
    exact ⟨marker, m, (Store.file_unlink_of_ne (Ne.symm hne)).trans hfile, hid, htarget,
      Store.findPath_unlink_other hfind hfile (congrArg some hid) hne⟩
  rcases hjob with hsame | hnone
  · rw [hconfig] at hfile ⊢
    have hne : path ≠ other := by
      rintro rfl
      rw [Store.file_unlink_self] at hfile
      cases hfile
    rw [Store.file_unlink_of_ne (Ne.symm hne)] at hfile
    obtain ⟨hcontent, hfind⟩ := h.saving m other replace request (hsame ▸ hwritten) file hfile
    exact ⟨hcontent, Store.findPath_unlink_other hfind hfile (by rw [hcontent]; rfl) hne⟩
  · rw [hwritten] at hnone
    cases hnone

/-- The files are as they were, and one row is set: it names no file, or the one that is found, with what it holds. -/
theorem Tied.setRow {identity : Option Identity} (h : Tied w) (hfiles : v.config.files = w.config.files)
    (hnext : v.config.nextMarker = w.config.nextMarker)
    (hset : v.config.identities = Function.update w.config.identities serverId identity)
    (hrow : ∀ row, identity = some row → row.file = none ∨ ∃ path marker m, row.file = some (path, marker) ∧
      w.config.file path = some ⟨marker, .manifest m⟩ ∧ m.id = serverId ∧ row.target = some m.target ∧
        w.config.findPath serverId = some path)
    (hjob : v.job = w.job ∨ v.job.all (!·.saves) = true) : Tied v := by
  have hfile : v.config.file = w.config.file := by
    funext path
    simp only [Store.file, hfiles]
  have hfind : v.config.findPath = w.config.findPath := by
    funext id
    simp only [Store.findPath, Store.iterFiles, hfiles, hfile]
  refine ⟨?_, fun id row path marker hid hmarker => ?_, fun id row path hforce => ?_,
    fun m path replace request hwritten file hf => ?_⟩
  · rw [hfiles, hnext]
    exact h.markers
  · rw [hnext]
    rw [hset] at hid
    by_cases hserver : id = serverId
    · subst hserver
      rw [Function.update_self] at hid
      rcases hrow row hid with hnone | ⟨path', marker', m, hnamed, hf, -, htarget, -⟩
      · rw [hnone] at hmarker
        cases hmarker
      · obtain ⟨rfl, rfl⟩ := Prod.mk.inj (Option.some.inj (hnamed.symm.trans hmarker))
        exact ⟨h.markers _ (Store.file_eq_some.mp hf), by rw [htarget]; rfl⟩
    · rw [Function.update_of_ne hserver] at hid
      exact h.rows id row path marker hid hmarker
  · obtain ⟨hid, file, hmarker, hf⟩ := hforce
    rw [hfile] at hf ⊢
    rw [hfind]
    rw [hset] at hid
    by_cases hserver : id = serverId
    · subst hserver
      rw [Function.update_self] at hid
      rcases hrow row hid with hnone | ⟨path', marker', m, hnamed, hf', hmid, htarget, hpath⟩
      · rw [hnone] at hmarker
        cases hmarker
      · obtain ⟨rfl, rfl⟩ := Prod.mk.inj (Option.some.inj (hnamed.symm.trans hmarker))
        exact ⟨file.marker, m, hf', hmid, htarget, hpath⟩
    · rw [Function.update_of_ne hserver] at hid
      exact h.force id row path ⟨hid, file, hmarker, hf⟩
  rcases hjob with hsame | hnone
  · rw [hfile] at hf
    rw [hfind]
    exact h.saving m path replace request (hsame ▸ hwritten) file hf
  · rw [hwritten] at hnone
    cases hnone

/-- The row that is recorded for a file that is found. -/
theorem Tied.record {m : Manifest} {replace : Bool} {binding marker : Nat} (h : Tied w)
    (hrecord : w.config.recordConfigIdentity m.id path m.target replace = some (v.config, binding))
    (hfile : w.config.file path = some ⟨marker, .manifest m⟩) (hfind : w.config.findPath m.id = some path)
    (hjob : v.job.all (!·.saves) = true) : Tied v := by
  obtain ⟨file, hf, hset, hfiles, -⟩ := Store.recordConfigIdentity_ok hrecord
  obtain rfl : (⟨marker, .manifest m⟩ : File) = file := Option.some.inj (hfile.symm.trans hf)
  have hnext : v.config.nextMarker = w.config.nextMarker := by
    simp only [Store.recordConfigIdentity, Option.bind_eq_bind, Option.bind_eq_some_iff, Option.pure_def, Option.some.injEq,
      Prod.mk.injEq] at hrecord
    obtain ⟨_, -, hst, -⟩ := hrecord
    rw [← hst]
    rfl
  refine h.setRow hfiles hnext hset ?_ (.inr hjob)
  rintro row hrow
  obtain rfl := Option.some.inj hrow
  exact .inr ⟨path, marker, m, rfl, hfile, rfl, rfl, hfind⟩

theorem Tied.step {e : Event} (h : Tied w) (hclear : Clear w e) (hstep : FileStep w v e) : Tied v := by
  cases hstep with
  | quiet hconfig hjob =>
    refine ⟨hconfig ▸ h.markers, hconfig ▸ h.rows, hconfig ▸ h.force, fun m path replace request hwritten => ?_⟩
    rcases hjob with hsame | ⟨-, hnone⟩
    · rw [hconfig]
      exact h.saving m path replace request (hsame ▸ hwritten)
    · rw [hwritten] at hnone
      cases hnone
  | external path content hconfig hjob =>
    obtain ⟨hforce, hsaving⟩ := hclear
    refine h.write hconfig (fun id row other hraw hin _ => hforce id row other hraw hin) ?_
    intro m other replace request hwritten file hfile
    rw [hjob] at hwritten
    obtain ⟨hne, hbehind⟩ := hsaving m other replace request hwritten
    rw [hconfig, Store.file_write_of_ne (Ne.symm hne)] at hfile
    obtain ⟨hcontent, hfind⟩ := h.saving m other replace request hwritten file hfile
    refine ⟨hcontent, ?_⟩
    rw [hconfig]
    exact Store.findPath_write_behind hfind hfile (by rw [hcontent]; rfl) hne hbehind
  | removed path hconfig hjob => exact h.unlink hconfig (.inl hjob)
  | deleted serverId path hidle hfind hconfig hjob => exact h.unlink hconfig (.inr (by rw [hjob]; rfl))
  | ensured serverId hconfig hjob =>
    unfold Store.ensureServerIdentity at hconfig
    split at hconfig
    · exact ⟨hconfig ▸ h.markers, hconfig ▸ h.rows, hconfig ▸ h.force, by rw [hconfig, hjob]; exact h.saving⟩
    · refine h.setRow (by rw [hconfig]; rfl) (by rw [hconfig]; rfl) (by rw [hconfig]; rfl) ?_ (.inl hjob)
      rintro row hrow
      obtain rfl := Option.some.inj hrow
      exact .inl rfl
  | dropped serverId hjob hconfig =>
    refine h.setRow (by rw [hconfig]; rfl) (by rw [hconfig]; rfl) (by rw [hconfig]; rfl) ?_ (.inr (by rw [hjob]; rfl))
    rintro row ⟨⟩
  | saved request hidle hconfig hjob =>
    refine h.write hconfig (fun id row other hraw hin hne => ?_) ?_
    · -- where the row is in force, its file is the one that is written
      obtain ⟨_, _, -, -, -, hfind⟩ := h.force id row other hin
      obtain rfl : request.manifest.id = id := Option.some.inj hraw
      rw [hfind] at hne
      exact absurd rfl hne
    intro m other replace req hwritten file hfile
    rw [hjob] at hwritten
    obtain ⟨rfl, rfl, -, -⟩ := Job.written.inj (Option.some.inj hwritten)
    rw [hconfig, Store.file_write] at hfile
    obtain rfl := Option.some.inj hfile
    rw [hconfig]
    exact ⟨rfl, Store.findPath_save request.manifest⟩
  | recorded m path replace request binding hwritten hrecord hjob =>
    obtain ⟨file, hfile, -⟩ := Store.recordConfigIdentity_ok hrecord
    obtain ⟨hcontent, hfind⟩ := h.saving m path replace request hwritten file hfile
    obtain ⟨marker, content⟩ := file
    obtain rfl : content = .manifest m := hcontent
    exact h.record hrecord hfile hfind hjob
  | reconciled m path paths endpoints invalidated binding hstarting hload hrecord hjob =>
    obtain ⟨marker, hfile⟩ := Store.loadPath_ok hload
    exact h.record hrecord hfile (hclear path paths endpoints invalidated m hstarting hload) hjob

/-- A binding of a row that names a file is one of a file in force. -/
theorem inForce_of_binding {binding marker : Nat} (hrow : st.identities serverId = some row)
    (hnamed : row.file = some (path, marker)) (hbinding : st.serverBinding serverId = .ok binding) :
    InForce st serverId row path := by
  simp only [Store.serverBinding, hrow, bind_eq_ok, expect_eq_ok] at hbinding
  obtain ⟨_, ⟨⟩, hbinding⟩ := hbinding
  simp only [hnamed, bind_eq_ok, expect_eq_ok, require_eq_ok, pure_eq_ok] at hbinding
  obtain ⟨file, hfile, _, hmarker, -⟩ := hbinding
  exact ⟨hrow, file, by rw [hnamed, of_decide_eq_true hmarker], hfile⟩

/-- What is loaded while the row is in force. -/
theorem Tied.named (h : Tied w) (serverId : String) : Named w.config serverId := by
  intro row path marker m hrow hnamed hbinding hload
  have hforce : InForce w.config serverId row path := inForce_of_binding hrow hnamed hbinding
  obtain ⟨marker', m', hfile, -, htarget, hfind⟩ := h.force serverId row path hforce
  obtain ⟨path', marker'', hfind', hfile'⟩ := Store.loadManifest_ok hload
  obtain rfl : path = path' := Option.some.inj (hfind.symm.trans hfind')
  rw [hfile] at hfile'
  cases hfile'
  exact ⟨hfind, htarget⟩

/-! ## Back from a binding in force -/

/-- A save of the service with the target is to be recorded, under the binding that it has. -/
def Pending (w : World) (serverId : String) (target : Target) : Prop :=
  ∃ m path request, w.job = some (.written m path false request) ∧ m.id = serverId ∧ m.target = target ∧
    (w.config.file path).isSome = true

/-- The service has the binding for the target. -/
def Held (w : World) (serverId : String) (binding : Nat) (target : Target) : Prop :=
  ∃ row, w.config.identities serverId = some row ∧ row.binding = binding ∧ row.target = some target ∧
    ((∃ path, InForce w.config serverId row path) ∨ Pending w serverId target)

/-- It has the binding of a row that names no file. -/
def Nameless (w : World) (serverId : String) (binding : Nat) : Prop :=
  ∃ row, w.config.identities serverId = some row ∧ row.binding = binding ∧ row.file = none

variable {binding : Nat} {target : Target} {e : Event}

/-- A row that keeps its binding is the one before, or it was just recorded. -/
theorem FileStep.sameRow (hstep : FileStep w v e) (hrow : v.config.identities serverId = some row)
    (hold : row.binding < w.config.nextBinding) : w.config.identities serverId = some row ∨
      ∃ m path replace row', m.id = serverId ∧ row.file.isSome = true ∧ row.target = some m.target ∧
        w.config.identities serverId = some row' ∧ row'.binding = row.binding ∧ row'.target.all (· = m.target) = true ∧
        replace = false ∧ (w.config.file path).isSome = true ∧
        ((∃ request, w.job = some (.written m path replace request)) ∨ replace = (w.config.currentBinding m.id).isNone) := by
  have hrecorded : ∀ {m : Manifest} {path : String} {replace : Bool} {b : Nat},
      w.config.recordConfigIdentity m.id path m.target replace = some (v.config, b) →
      w.config.identities serverId = some row ∨ m.id = serverId ∧ row.file.isSome = true ∧ row.target = some m.target ∧
        (w.config.file path).isSome = true ∧ replace = false ∧ ∃ row', w.config.identities serverId = some row' ∧
          row'.binding = row.binding ∧ row'.target.all (· = m.target) = true := by
    intro m path replace b hrecord
    obtain ⟨file, hfile, hset, -, hkept⟩ := Store.recordConfigIdentity_ok hrecord
    rw [hset] at hrow
    by_cases hid : m.id = serverId
    · subst hid
      rw [Function.update_self] at hrow
      obtain rfl := Option.some.inj hrow
      rcases hkept with ⟨hkept, -⟩ | ⟨-, hfresh, -⟩
      · unfold Store.keptBinding at hkept
        split at hkept
        · cases hkept
        rename_i row' hrow'
        split at hkept
        · cases hkept
        rename_i hkeeps
        obtain ⟨hreplace, htarget⟩ := Bool.or_eq_false_iff.mp (by simpa using hkeeps)
        refine .inr ⟨rfl, rfl, rfl, by rw [hfile]; rfl, hreplace, row', hrow', Option.some.inj hkept, ?_⟩
        cases hcase : row'.target with
        | none => rfl
        | some old => simpa [hcase] using htarget
      · exact absurd hold (by simp [hfresh])
    · rw [Function.update_of_ne (Ne.symm hid)] at hrow
      exact .inl hrow
  cases hstep with
  | quiet hconfig _ | external _ _ hconfig _ | removed _ hconfig _ | saved _ _ hconfig _ | deleted _ _ _ _ hconfig _ =>
    rw [hconfig] at hrow
    exact .inl hrow
  | ensured id hconfig _ =>
    unfold Store.ensureServerIdentity at hconfig
    split at hconfig
    · rw [hconfig] at hrow
      exact .inl hrow
    rw [hconfig] at hrow
    by_cases hid : serverId = id
    · subst hid
      obtain rfl : ({ binding := w.config.nextBinding } : Identity) = row := by
        simpa [Store.setIdentity] using hrow
      exact absurd hold (Nat.lt_irrefl _)
    · exact .inl (by simpa [Store.setIdentity, hid] using hrow)
  | dropped id _ hconfig =>
    rw [hconfig] at hrow
    by_cases hid : serverId = id
    · subst hid
      simp [Store.setIdentity] at hrow
    · exact .inl (by simpa [Store.setIdentity, hid] using hrow)
  | recorded m path replace request b hwritten hrecord _ =>
    refine (hrecorded hrecord).imp_right ?_
    rintro ⟨hid, hnamed, htarget, hfile, hreplace, row', hrow', hbinding, hkept⟩
    exact ⟨m, path, replace, row', hid, hnamed, htarget, hrow', hbinding, hkept, hreplace, hfile, .inl ⟨request, hwritten⟩⟩
  | reconciled m path paths endpoints invalidated b _ _ hrecord _ =>
    refine (hrecorded hrecord).imp_right ?_
    rintro ⟨hid, hnamed, htarget, hfile, hreplace, row', hrow', hbinding, hkept⟩
    exact ⟨m, path, _, row', hid, hnamed, htarget, hrow', hbinding, hkept, hreplace, hfile, .inr rfl⟩

theorem Nameless.back (hstep : FileStep w v e) (hold : binding < w.config.nextBinding) (h : Nameless v serverId binding) :
    Nameless w serverId binding := by
  obtain ⟨row, hrow, rfl, hfile⟩ := h
  rcases hstep.sameRow hrow hold with hsame | ⟨_, _, _, _, -, hnamed, -⟩
  · exact ⟨row, hsame, rfl, hfile⟩
  · rw [hfile] at hnamed
    cases hnamed

theorem inForce_files {st' : Store} (hfiles : st'.files = st.files) (hrow : st.identities serverId = some row)
    (h : InForce st' serverId row path) : InForce st serverId row path := by
  obtain ⟨-, file, hmarker, hfile⟩ := h
  refine ⟨hrow, file, hmarker, ?_⟩
  rw [← hfile]
  simp only [Store.file, hfiles]

/-- No step brings the file of a row back. -/
theorem FileStep.inForce_back (htied : Tied w) (hstep : FileStep w v e) (hrow : w.config.identities serverId = some row)
    (h : InForce v.config serverId row path) : InForce w.config serverId row path := by
  have hmarkers : ∀ marker, row.file = some (path, marker) → marker < w.config.nextMarker :=
    fun marker hmarker => (htied.rows serverId row path marker hrow hmarker).1
  cases hstep with
  | quiet hconfig _ => rwa [hconfig] at h
  | external _ _ hconfig _ | saved _ _ hconfig _ => exact (inForce_write hmarkers (hconfig ▸ h)).2
  | removed _ hconfig _ | deleted _ _ _ _ hconfig _ => exact (inForce_unlink (hconfig ▸ h)).2
  | ensured id hconfig _ =>
    refine inForce_files ?_ hrow h
    rw [hconfig, Store.ensureServerIdentity]
    split <;> rfl
  | dropped id _ hconfig => exact inForce_files (by rw [hconfig]; rfl) hrow h
  | recorded _ _ _ _ _ _ hrecord _ | reconciled _ _ _ _ _ _ _ _ hrecord _ =>
    obtain ⟨_, -, -, hfiles, -⟩ := Store.recordConfigIdentity_ok hrecord
    exact inForce_files hfiles hrow h

/-- A row with a current binding names no file, or its file is in force. -/
theorem nameless_or_inForce (hrow : w.config.identities serverId = some row)
    (hcurrent : (w.config.currentBinding serverId).isSome = true) :
    Nameless w serverId row.binding ∨ ∃ path, InForce w.config serverId row path := by
  obtain ⟨binding, hbinding⟩ := Option.isSome_iff_exists.mp hcurrent
  cases hfile : row.file with
  | none => exact .inl ⟨row, hrow, rfl, hfile⟩
  | some named =>
    exact .inr ⟨named.1, inForce_of_binding hrow hfile (Store.currentBinding_eq_some.mp hbinding)⟩

/-- **Backwards.** A binding that was given out before is held after a step only if it was before. -/
theorem Held.back (htied : Tied w) (hclear : Clear w e) (hstep : FileStep w v e) (hold : binding < w.config.nextBinding)
    (h : Held v serverId binding target) : Held w serverId binding target ∨ Nameless w serverId binding := by
  obtain ⟨row, hrow, rfl, htarget, hheld⟩ := h
  rcases hstep.sameRow hrow hold with
    hsame | ⟨m, path, replace, row', hid, -, hrecorded, hrow', hbinding, hkept, rfl, hfile, hjob⟩
  · rcases hheld with ⟨path, hforce⟩ | ⟨m, path, request, hjob, hid, hmt, hfile⟩
    · exact .inl ⟨row, hsame, rfl, htarget, .inl ⟨path, hstep.inForce_back htied hsame hforce⟩⟩
    -- the save was under way before, or it starts with a binding that is in force
    have hpending : w.job = v.job → (w.config.file path).isSome = true → Held w serverId row.binding target :=
      fun hsamejob hf => ⟨row, hsame, rfl, htarget, .inr ⟨m, path, request, hsamejob.trans hjob, hid, hmt, hf⟩⟩
    cases hstep with
    | quiet hconfig hjob' =>
      rcases hjob' with hsamejob | ⟨-, hnone⟩
      · exact .inl (hpending hsamejob.symm (hconfig ▸ hfile))
      · rw [hjob] at hnone
        cases hnone
    | external other content hconfig hjob' =>
      have hne := (hclear.2 m path false request (hjob'.symm.trans hjob)).1
      rw [hconfig, Store.file_write_of_ne (Ne.symm hne)] at hfile
      exact .inl (hpending hjob'.symm hfile)
    | removed other hconfig hjob' =>
      have hne : other ≠ path := by
        rintro rfl
        rw [hconfig, Store.file_unlink_self] at hfile
        cases hfile
      rw [hconfig, Store.file_unlink_of_ne (Ne.symm hne)] at hfile
      exact .inl (hpending hjob'.symm hfile)
    | ensured id hconfig hjob' =>
      refine .inl (hpending hjob'.symm ?_)
      rw [hconfig, Store.ensureServerIdentity] at hfile
      split at hfile
      · exact hfile
      · exact hfile
    | saved request' hidle hconfig hjob' =>
      obtain ⟨rfl, rfl, hreplace, -⟩ := Job.written.inj (Option.some.inj (hjob'.symm.trans hjob))
      have hcurrent : (w.config.currentBinding request'.manifest.id).isSome = true := by
        cases hcase : w.config.currentBinding request'.manifest.id with
        | none => simp [hcase] at hreplace
        | some b => rfl
      rcases nameless_or_inForce hsame (hid ▸ hcurrent) with hnameless | hforce
      · exact .inr hnameless
      · exact .inl ⟨row, hsame, rfl, htarget, .inl hforce⟩
    | recorded _ _ _ _ _ _ _ hjob' | reconciled _ _ _ _ _ _ _ _ _ hjob' | deleted _ _ _ _ _ hjob' | dropped _ hjob' _ =>
      rw [hjob] at hjob'
      cases hjob'
  -- the row was recorded just now, over one with the same binding
  obtain rfl : m.target = target := Option.some.inj (hrecorded.symm.trans htarget)
  have hnameless : row'.file = none → Nameless w serverId row.binding := fun hnone => ⟨row', hrow', hbinding, hnone⟩
  cases hnamed : row'.file with
  | none => exact .inr (hnameless hnamed)
  | some named =>
    have hsame : row'.target = some m.target := by
      obtain ⟨old, htold⟩ := Option.isSome_iff_exists.mp (htied.rows serverId row' named.1 named.2 hrow' hnamed).2
      rw [htold] at hkept ⊢
      exact congrArg some (of_decide_eq_true hkept)
    refine .inl ⟨row', hrow', hbinding, hsame, ?_⟩
    rcases hjob with ⟨request, hwritten⟩ | hreplace
    · exact .inr ⟨m, path, request, hwritten, hid, rfl, hfile⟩
    have hcurrent : (w.config.currentBinding serverId).isSome = true := by
      rw [← hid]
      cases hcase : w.config.currentBinding m.id with
      | none => simp [hcase] at hreplace
      | some b => rfl
    rcases nameless_or_inForce hrow' hcurrent with ⟨row'', hrow'', -, hnone⟩ | hforce
    · obtain rfl := Option.some.inj (hrow'.symm.trans hrow'')
      rw [hnamed] at hnone
      cases hnone
    · exact .inl hforce

/-- What is loaded while a binding is held has its target. -/
theorem Held.loads (htied : Tied w) (h : Held w serverId binding target) {m : Manifest}
    (hload : w.config.loadManifest serverId = .ok m) : m.target = target := by
  obtain ⟨row, -, -, htarget, hheld⟩ := h
  obtain ⟨path, marker, hfind, hfile⟩ := Store.loadManifest_ok hload
  rcases hheld with ⟨path', hforce⟩ | ⟨m', path', request, hjob, rfl, rfl, hsome⟩
  · obtain ⟨marker', m', hfile', -, htarget', hfind'⟩ := htied.force serverId row path' hforce
    obtain rfl : path = path' := Option.some.inj (hfind.symm.trans hfind')
    rw [hfile] at hfile'
    cases hfile'
    exact Option.some.inj (htarget'.symm.trans htarget)
  obtain ⟨file, hfile'⟩ := Option.isSome_iff_exists.mp hsome
  obtain ⟨hcontent, hfind'⟩ := htied.saving m' path' false request hjob file hfile'
  obtain rfl : path = path' := Option.some.inj (hfind.symm.trans hfind')
  rw [hfile] at hfile'
  obtain rfl := Option.some.inj hfile'
  cases hcontent
  rfl

/-- A step between two states that hold a binding. -/
theorem Held.unbroken (htied : Tied w) (hstep : FileStep w v e) (hw : Held w serverId binding target)
    (hv : Held v serverId binding target) : Unbroken w e v serverId target := by
  refine ⟨?_, ?_, fun m hload => hw.loads htied hload⟩
  · rintro rfl hidle
    cases hstep with
    | quiet _ hjob =>
      rcases hjob with hsame | ⟨hother, -⟩
      · exact hsame.trans hidle
      · cases hother
    | deleted _ path _ hfind hconfig hjob =>
      -- the file that is removed is the one in force
      obtain ⟨row, hrow, -, -, ⟨other, hforce⟩ | ⟨_, _, _, hjob', -⟩⟩ := hv
      · obtain ⟨hne, hbefore⟩ := inForce_unlink (hconfig ▸ hforce)
        obtain ⟨_, _, -, -, -, hfind'⟩ := htied.force serverId row other hbefore
        exact absurd (Option.some.inj (hfind.symm.trans hfind')) hne
      · rw [hjob] at hjob'
        cases hjob'
  rintro request rfl hidle hstarts hid
  cases hstep with
  | quiet _ hjob =>
    rcases hjob with hsame | ⟨hother, -⟩
    · rw [hsame, hidle] at hstarts
      cases hstarts
    · cases hother
  | saved _ _ hconfig hjob =>
    subst hid
    obtain ⟨row, hrow, -, -, ⟨other, hforce⟩ | ⟨m, path, _, hjob', -, hm, -⟩⟩ := hv
    · -- the file in force would be the one that is written
      have hrow' : w.config.identities request.manifest.id = some row := by
        rw [hconfig] at hrow
        exact hrow
      obtain ⟨hne, hbefore⟩ := inForce_write
        (fun marker hmarker => (htied.rows _ row other marker hrow' hmarker).1) (hconfig ▸ hforce)
      obtain ⟨_, _, -, -, -, hfind⟩ := htied.force request.manifest.id row other hbefore
      rw [hfind] at hne
      exact absurd rfl hne
    · obtain ⟨rfl, -⟩ := Job.written.inj (Option.some.inj (hjob.symm.trans hjob'))
      exact hm

/-! ## Bindings are given out once -/

theorem FileStep.advances (hstep : FileStep w v e) : w.config.Advances v.config := by
  cases hstep with
  | quiet hconfig _ => exact hconfig ▸ .refl _
  | external path content hconfig _ => exact hconfig ▸ .write _ path content
  | saved _ _ hconfig _ => exact hconfig ▸ .write _ _ _
  | removed path hconfig _ | deleted _ path _ _ hconfig _ => exact hconfig ▸ .unlink _ path
  | ensured id hconfig _ => exact hconfig ▸ .ensure _ id
  | dropped id _ hconfig => exact hconfig ▸ .drop _ id
  | recorded _ _ _ _ _ _ hrecord _ | reconciled _ _ _ _ _ _ _ _ hrecord _ => exact .record hrecord

/-- No two services have one binding. -/
def Apart (st : Store) : Prop :=
  ∀ s s' row row', st.identities s = some row → st.identities s' = some row' → row.binding = row'.binding → s = s'

theorem Apart.set {st' : Store} {identity : Option Identity} (h : Apart st) (hissued : st.Issued)
    (hset : st'.identities = Function.update st.identities serverId identity)
    (hrow : ∀ row, identity = some row → st.nextBinding ≤ row.binding ∨
      ∃ row', st.identities serverId = some row' ∧ row'.binding = row.binding) : Apart st' := by
  have hother : ∀ s row row', s ≠ serverId → st.identities s = some row → identity = some row' → row.binding ≠ row'.binding := by
    intro s row row' hne hs hidentity heq
    rcases hrow row' hidentity with hfresh | ⟨old, hold, hkept⟩
    · exact absurd (hissued s row hs) (Nat.not_lt.mpr (heq ▸ hfresh))
    · exact hne (h s serverId row old hs hold (heq.trans hkept.symm))
  intro s s' row row' hs hs' heq
  rw [hset] at hs hs'
  by_cases hsid : s = serverId <;> by_cases hsid' : s' = serverId
  · exact hsid.trans hsid'.symm
  · subst hsid
    rw [Function.update_self] at hs
    rw [Function.update_of_ne hsid'] at hs'
    exact absurd heq.symm (hother s' row' row hsid' hs' hs)
  · subst hsid'
    rw [Function.update_of_ne hsid] at hs
    rw [Function.update_self] at hs'
    exact absurd heq (hother s row row' hsid hs hs')
  · rw [Function.update_of_ne hsid] at hs
    rw [Function.update_of_ne hsid'] at hs'
    exact h s s' row row' hs hs' heq

theorem FileStep.apart (hstep : FileStep w v e) (hissued : w.config.Issued) (h : Apart w.config) : Apart v.config := by
  have hrecord : ∀ {m : Manifest} {path : String} {replace : Bool} {b : Nat},
      w.config.recordConfigIdentity m.id path m.target replace = some (v.config, b) → Apart v.config := by
    intro m path replace b hrecord
    obtain ⟨file, -, hset, -, hkept⟩ := Store.recordConfigIdentity_ok hrecord
    refine h.set hissued hset ?_
    rintro row hrow
    obtain rfl := Option.some.inj hrow
    rcases hkept with ⟨hkept, -⟩ | ⟨-, hfresh, -⟩
    · exact .inr (Store.keptBinding_some hkept)
    · exact .inl (Nat.le_of_eq hfresh.symm)
  cases hstep with
  | quiet hconfig _ | external _ _ hconfig _ | saved _ _ hconfig _ | removed _ hconfig _ | deleted _ _ _ _ hconfig _ =>
    rw [hconfig]
    exact h
  | ensured id hconfig _ =>
    unfold Store.ensureServerIdentity at hconfig
    split at hconfig
    · rw [hconfig]
      exact h
    · refine h.set hissued (by rw [hconfig]; rfl) ?_
      rintro row hrow
      obtain rfl := Option.some.inj hrow
      exact .inl (Nat.le_refl _)
  | dropped id _ hconfig => exact h.set hissued (by rw [hconfig]; rfl) (by rintro row ⟨⟩)
  | recorded _ _ _ _ _ _ hr _ | reconciled _ _ _ _ _ _ _ _ hr _ => exact hrecord hr

/-! ## Every run -/

variable {privateHttpOrigin : String → Option Origin} {people : AuthStore.AuthDb} {tr tr' : List Event} {u : World}

/-- A step that is clear. -/
def ClearStep (privateHttpOrigin : String → Option Origin) (w : World) (e : Event) (v : World) : Prop :=
  Clear w e ∧ Step privateHttpOrigin w e v

theorem fileStep_of_step (h : Step privateHttpOrigin w e v) : FileStep w v e := by
  obtain rfl : next privateHttpOrigin w e = v := h
  exact fileStep privateHttpOrigin w e

/-- An installation without files. -/
def World.empty (people : AuthStore.AuthDb) : World := { people }

theorem Tied.run (h : Run (ClearStep privateHttpOrigin) w tr v) (htied : Tied w) : Tied v :=
  h.invariant htied fun _ _ _ hw hstep => hw.step hstep.1 (fileStep_of_step hstep.2)

theorem tied_empty (people : AuthStore.AuthDb) : Tied (World.empty people) := by
  refine ⟨fun f hf => absurd hf (Table.not_mem_empty f), ?_, ?_, ?_⟩
  · intro serverId row path marker hrow
    cases hrow
  · rintro serverId row path ⟨hrow, -⟩
    cases hrow
  · intro m path replace request hjob
    cases hjob

theorem ClearStep.steps (h : Run (ClearStep privateHttpOrigin) w tr v) : Run (Step privateHttpOrigin) w tr v :=
  h.mono fun _ _ _ hstep => hstep.2

theorem later_run (h : Run (Step privateHttpOrigin) w tr v) (hold : binding < w.config.nextBinding) :
    binding < v.config.nextBinding := by
  induction h with
  | nil => exact hold
  | snoc _ hstep ih => exact Nat.lt_of_lt_of_le ih (fileStep_of_step hstep).advances.next

/-- Every binding was given out, and to one service. -/
def Given (st : Store) : Prop := st.Issued ∧ Apart st

theorem Given.run (h : Run (Step privateHttpOrigin) (World.empty people) tr w) : Given w.config := by
  have hempty : Given (World.empty people).config := by
    constructor
    · intro serverId row hrow
      cases hrow
    · intro serverId serverId' row row' hrow
      cases hrow
  refine h.invariant (I := fun w => Given w.config) hempty ?_
  rintro t e v ⟨hissued, hapart⟩ hstep
  have hfile := fileStep_of_step hstep
  exact ⟨hfile.advances.issued hissued, hfile.apart hissued hapart⟩

/-- Whoever has a binding that was given out before had it then. -/
theorem row_back (h : Run (Step privateHttpOrigin) w tr v) (hold : binding < w.config.nextBinding)
    (hrow : v.config.identities serverId = some row) (hbinding : row.binding = binding) :
    ∃ row', w.config.identities serverId = some row' ∧ row'.binding = binding := by
  induction h generalizing row with
  | nil => exact ⟨row, hrow, hbinding⟩
  | snoc hrun hstep ih =>
    rcases (fileStep_of_step hstep).advances.binding serverId row hrow with ⟨-, hfresh⟩ | ⟨row', hrow', heq⟩
    · exact absurd (hbinding ▸ hfresh) (Nat.not_le.mpr (later_run hrun hold))
    · exact ih hrow' (heq.trans hbinding)

theorem Nameless.run (h : Run (Step privateHttpOrigin) w tr v) (hold : binding < w.config.nextBinding)
    (hv : Nameless v serverId binding) : Nameless w serverId binding := by
  induction h with
  | nil => exact hv
  | snoc hrun hstep ih => exact ih (hv.back (fileStep_of_step hstep) (later_run hrun hold))

/-- What is held at the end of a run was held at its beginning, or the row named no file then. -/
theorem Held.run (h : Run (ClearStep privateHttpOrigin) w tr v) (htied : Tied w) (hold : binding < w.config.nextBinding)
    (hv : Held v serverId binding target) : Held w serverId binding target ∨ Nameless w serverId binding := by
  induction h with
  | nil => exact .inl hv
  | snoc hrun hstep ih =>
    have hlater := later_run (ClearStep.steps hrun) hold
    rcases hv.back (htied.run hrun) hstep.1 (fileStep_of_step hstep.2) hlater with hheld | hnameless
    · exact ih hheld
    · exact .inr (hnameless.run (ClearStep.steps hrun) hold)

/-- A binding that is returned is held, for the target of its row, unless the row names no file. -/
theorem held_of_binding (htied : Tied w) (hbinding : w.config.serverBinding serverId = .ok binding)
    (hnamed : ¬ Nameless w serverId binding) :
    ∃ row target, w.config.identities serverId = some row ∧ row.target = some target ∧ Held w serverId binding target := by
  obtain ⟨row, hrow, rfl⟩ := Store.serverBinding_ok hbinding
  cases hfile : row.file with
  | none => exact absurd ⟨row, hrow, rfl, hfile⟩ hnamed
  | some named =>
    obtain ⟨target, htarget⟩ := Option.isSome_iff_exists.mp (htied.rows serverId row named.1 named.2 hrow hfile).2
    exact ⟨row, target, hrow, htarget, row, hrow, rfl, htarget, .inl ⟨named.1, inForce_of_binding hrow hfile hbinding⟩⟩

/-- Between two moments that hold a binding, and at the second of them. -/
theorem Held.between (hw : Run (ClearStep privateHttpOrigin) (World.empty people) tr w)
    (hnamed : ∀ row, w.config.identities serverId = some row → row.file.isSome = true)
    (hbinding : w.config.serverBinding serverId = .ok binding)
    (hu : Run (ClearStep privateHttpOrigin) w tr' u) (hbinding' : u.config.serverBinding serverId = .ok binding) :
    ∃ row target, w.config.identities serverId = some row ∧ row.target = some target ∧ Held u serverId binding target ∧
      ∀ pre post t, Run (ClearStep privateHttpOrigin) w pre t → Run (ClearStep privateHttpOrigin) t post u →
        Tied t ∧ Held t serverId binding target := by
  have htied : Tied w := (tied_empty people).run hw
  obtain ⟨row, hrow, rfl⟩ := Store.serverBinding_ok hbinding
  have hold : row.binding < w.config.nextBinding := (Given.run (ClearStep.steps hw)).1 serverId row hrow
  have hfirst : ¬ Nameless w serverId row.binding := by
    rintro ⟨row', hrow', -, hnone⟩
    have := hnamed row' hrow'
    rw [hnone] at this
    cases this
  have hnever : ∀ {evs : List Event} {x : World}, Run (ClearStep privateHttpOrigin) w evs x → ¬ Nameless x serverId row.binding :=
    fun hrun hnameless => hfirst (hnameless.run (ClearStep.steps hrun) hold)
  obtain ⟨_, target, -, -, hlast⟩ := held_of_binding (htied.run hu) hbinding' (hnever hu)
  have hback : ∀ pre post t, Run (ClearStep privateHttpOrigin) w pre t → Run (ClearStep privateHttpOrigin) t post u →
      Tied t ∧ Held t serverId row.binding target := by
    intro pre post t hpre hpost
    refine ⟨htied.run hpre, (hlast.run hpost (htied.run hpre) ?_).resolve_right (hnever hpre)⟩
    exact later_run (ClearStep.steps hpre) hold
  obtain ⟨row', hrow', -, htarget, -⟩ := (hback [] tr' w (.nil w) hu).2
  exact ⟨row', target, hrow', htarget, hlast, hback⟩

/-- **The identity of a service is continuous while every step is clear.** A row in force names the file that is loaded,
with its target; a binding that was rotated away or deleted does not come back, in any run; and between two moments with
one binding, the first of a row that names a file, nothing is deleted, and no other target is saved or loaded. -/
theorem identity_continuous (privateHttpOrigin : String → Option Origin) (people : AuthStore.AuthDb) :
    (∀ tr w, Run (ClearStep privateHttpOrigin) (World.empty people) tr w → ∀ serverId, Named w.config serverId) ∧
    (∀ tr w tr₁ v tr₂ u, Run (Step privateHttpOrigin) (World.empty people) tr w → Run (Step privateHttpOrigin) w tr₁ v →
      Run (Step privateHttpOrigin) v tr₂ u → ∀ serverId row, w.config.identities serverId = some row →
      (∀ row', v.config.identities serverId = some row' → row'.binding ≠ row.binding) →
      ∀ other, u.config.serverBinding other ≠ .ok row.binding) ∧
    (∀ tr w tr' u, Run (ClearStep privateHttpOrigin) (World.empty people) tr w → Run (ClearStep privateHttpOrigin) w tr' u →
      ∀ serverId binding, (∀ row, w.config.identities serverId = some row → row.file.isSome = true) →
      w.config.serverBinding serverId = .ok binding → u.config.serverBinding serverId = .ok binding →
      ∃ row target, w.config.identities serverId = some row ∧ row.target = some target ∧
        (∀ m, u.config.loadManifest serverId = .ok m → m.target = target) ∧
        ∀ pre e post t v, Run (ClearStep privateHttpOrigin) w pre t → ClearStep privateHttpOrigin t e v →
          Run (ClearStep privateHttpOrigin) v post u → Unbroken t e v serverId target) := by
  refine ⟨fun tr w hrun => ((tied_empty people).run hrun).named, ?_, ?_⟩
  · intro tr w tr₁ v tr₂ u hw hv hu serverId row hrow hgone other hbinding
    obtain ⟨hissued, hapart⟩ := Given.run hw
    have hold : row.binding < w.config.nextBinding := hissued serverId row hrow
    obtain ⟨row', hrow', hsame⟩ := Store.serverBinding_ok hbinding
    -- back from the row that would have it, to the moment when it was gone
    obtain ⟨row₁, hrow₁, hsame₁⟩ := row_back hu (later_run hv hold) hrow' hsame
    obtain ⟨row₂, hrow₂, hsame₂⟩ := row_back hv hold hrow₁ hsame₁
    obtain rfl : other = serverId := hapart other serverId row₂ row hrow₂ hrow hsame₂
    exact hgone row₁ hrow₁ hsame₁
  intro tr w tr' u hw hu serverId binding hnamed hbinding hbinding'
  obtain ⟨row, target, hrow, htarget, hlast, hback⟩ := Held.between hw hnamed hbinding hu hbinding'
  refine ⟨row, target, hrow, htarget, fun m hload => hlast.loads (((tied_empty people).run hw).run hu) hload, ?_⟩
  intro pre e post t v hpre hstep hpost
  obtain ⟨htied, ht⟩ := hback pre (e :: post) t hpre (.cons hstep hpost)
  exact ht.unbroken htied (fileStep_of_step hstep.2) (hback (pre ++ [e]) post v (hpre.snoc hstep) hpost).2

end Tied

/-! ## A further file -/

def pagesAt (endpoint : String) : Manifest := { id := "pages", endpoint := some endpoint }

def savePages : List Event := [.save { manifest := pagesAt "https://pages.test/mcp", overwrite := true }, .record, .bind]

def nobody : AuthStore.AuthDb := { access := {} }

/-- The service is saved as `pages.yaml`. -/
def savedWorld : World := savePages.foldl (next fun _ => none) (.empty nobody)

/-- `other.yaml` has its id too, and comes before. -/
def furtherFile : Event := .external "other.yaml" (some (.manifest (pagesAt "https://other.test/mcp")))

def furtherWorld : World := next (fun _ => none) savedWorld furtherFile

theorem further_pages : furtherWorld.config.identities "pages" =
      some ⟨0, some (pagesAt "https://pages.test/mcp").target, some ("pages.yaml", 0)⟩ ∧
    furtherWorld.config.serverBinding "pages" = .ok 0 ∧
    furtherWorld.config.loadManifest "pages" = .ok (pagesAt "https://other.test/mcp") := by
  decide +kernel

/-- The identity of the saved service is returned, and the other file is loaded. -/
theorem further_file_loaded : Run (Step fun _ => none) (.empty nobody) (savePages ++ [furtherFile]) furtherWorld ∧
    ¬ Named furtherWorld.config "pages" := by
  refine ⟨(Run.of_foldl (f := next fun _ => none) (fun _ _ => rfl) _ savePages).snoc rfl, fun h => ?_⟩
  obtain ⟨hidentity, hbinding, hmanifest⟩ := further_pages
  obtain ⟨-, htarget⟩ := h _ _ _ _ hidentity rfl hbinding hmanifest
  exact absurd htarget (by decide)

/-- A further save, and a deletion. -/
def savedAgain : World := savePages.foldl (next fun _ => none) savedWorld

def deletePages : List Event := [.delete "pages", .retire, .drop]

def deletedWorld : World := deletePages.foldl (next fun _ => none) savedWorld

theorem saved_pages : savedWorld.config.identities "pages" =
      some ⟨0, some (pagesAt "https://pages.test/mcp").target, some ("pages.yaml", 0)⟩ ∧
    savedWorld.config.serverBinding "pages" = .ok 0 ∧ savedAgain.config.serverBinding "pages" = .ok 0 ∧
    deletedWorld.config.identities "pages" = none := by
  decide +kernel

/-- The second save has the identity of the first; the deletion ends it. -/
theorem identity_continuous_pages : Named savedWorld.config "pages" ∧
    (∀ m, savedAgain.config.loadManifest "pages" = .ok m → m.target = (pagesAt "https://pages.test/mcp").target) ∧
    deletedWorld.config.serverBinding "pages" ≠ .ok 0 := by
  have hclear : ∀ w, Run (ClearStep fun _ => none) w savePages (savePages.foldl (next fun _ => none) w) := by
    intro w
    exact (((Run.nil w).snoc ⟨trivial, rfl⟩).snoc ⟨trivial, rfl⟩).snoc ⟨trivial, rfl⟩
  obtain ⟨hidentity, hsaved, hagain, hdeleted⟩ := saved_pages
  obtain ⟨hnamed, hgone, hbetween⟩ := identity_continuous (fun _ => none) nobody
  refine ⟨hnamed savePages savedWorld (hclear _) "pages", ?_, ?_⟩
  · obtain ⟨row, target, hrow, htarget, hloads, -⟩ := hbetween savePages savedWorld savePages savedAgain (hclear _) (hclear _)
      "pages" 0 (fun row hrow => by rw [hidentity] at hrow; obtain rfl := Option.some.inj hrow; rfl) hsaved hagain
    rw [hidentity] at hrow
    obtain rfl := Option.some.inj hrow
    obtain rfl := Option.some.inj htarget
    exact hloads
  · exact hgone savePages savedWorld deletePages deletedWorld [] deletedWorld
      (Run.of_foldl (f := next fun _ => none) (fun _ _ => rfl) _ savePages)
      (Run.of_foldl (f := next fun _ => none) (fun _ _ => rfl) _ deletePages) (.nil _) "pages" _ hidentity
      (fun row' hrow' => by rw [hdeleted] at hrow'; cases hrow') "pages"

end LingshuGate.HttpTrust

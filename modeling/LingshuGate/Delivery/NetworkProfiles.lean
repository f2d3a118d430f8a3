import LingshuGate.Delivery.DependencyGraph
import LingshuGate.Lib.Decimal
import LingshuGate.Lib.GitObjects
import LingshuGate.Lib.Table
import LingshuGate.Lib.Threads

/-!
# Network profiles (`network_settings.py`, `release_updates.py`)

| here | there |
| --- | --- |
| `Db.version`      | `NetworkSettingsStore._version` (network_settings.py:160) |
| `saveProfile`     | the session of `save_profile` (167) |
| `deleteProfile`   | the session of `delete_profile` (232) |
| `pruneReferences` | `_prune_references` (206), on the references |
| `retain`          | `_retain` (299) |
| `select`          | `resolve` (263) for a phase, one query at a time |
| `saveDefaults`    | the session of `save_defaults` (245) |
| `saveUpdates`     | the session of `ReleaseUpdateService.save` (release_updates.py:72) |

A profile is saved in versions, a deletion only marks it, and what uses a version keeps a reference to it. A session is one step; what
a call reads before its session is a step for each query. The endpoints are files of their own, named after the version. The plans,
imports, uploads and builds that prune a reference, the credentials and the time are met from outside.
-/

namespace LingshuGate.NetworkSettings

open Lib

/-- The codes of the errors; the other three are `ValueError`, `sqlite3.IntegrityError` and `KeyError`. -/
inductive Code
  | versionConflict
  | profileMissing
  | profileInUse
  | profileDisabled
  | credentialMissing
  | credentialChanged
  | updateProxyDisabled
  | updateProxyCredentialChanged
  | updateSettingsConflict
  | value
  | integrity
  | key

structure Profile where
  id : String
  revision : ℕ
  deleted : Bool := false

structure Version where
  profileId : String
  version : ℕ
  name : String
  enabled : Bool
  scheme : String
  endpointRef : String
  credentialRef : Option String
  credentialRevision : Option String
  createdAt : String

def Version.key (row : Version) : String × ℕ := (row.profileId, row.version)

structure Reference where
  profileId : String
  version : ℕ
  resourceType : String
  resourceId : String
  deriving DecidableEq

/-- A selection that was resolved. -/
inductive Selection
  | direct
  | profile (id : String) (version : ℕ)
  deriving DecidableEq

/-- A `NetworkSelection` of the defaults, which do not inherit. -/
inductive Requested
  | direct
  | profile (id : String) (version : Option ℕ)

structure Defaults where
  git : Selection
  install : Selection
  npmCredentialRef : Option String
  pythonCredentialRef : Option String

structure Db where
  profiles : Table Profile Profile.id := ∅
  versions : Table Version Version.key := ∅
  settings : Option (ℕ × Defaults) := none
  updates : Option (ℕ × Option (String × ℕ)) := none
  references : List Reference := []
  endpoints : String → Option String := fun _ => none

/-- What a step meets outside: the credentials with their revisions, what still needs a reference, and the time. -/
structure Met where
  revisionOf : String → Option String := fun _ => none
  live : Reference → Bool := fun _ => false
  now : String := ""

/-- `_credential_revision` -/
def Met.credentialRevision (met : Met) : Option String → Except Code (Option String)
  | none => .ok none
  | some ref => (expect (met.revisionOf ref) .credentialMissing).map some

def Db.version (db : Db) (id : String) (version : Option ℕ) : Option Version :=
  match db.profiles.find id with
  | some row => if row.deleted then none else db.versions.find (id, version.getD row.revision)
  | none => none

/-! ## Sessions -/

structure ProfileWrite where
  name : String
  endpoint : Option String
  credentialRef : Option String
  enabled : Bool
  expectedVersion : ℕ

def endpointRef (id : String) (version : ℕ) : String := "network-" ++ id ++ "-" ++ toString version

def Db.current (db : Db) (id : String) : ℕ := ((db.profiles.find id).map (·.revision)).getD 0

/-- The endpoint that is saved: the one in the request, or that of the current version. -/
def Db.endpointOf (db : Db) (id : String) (body : ProfileWrite) : Except Code String :=
  match body.endpoint with
  | some endpoint => .ok endpoint
  | none => do
    require (db.current id ≠ 0) .value
    let previous ← expect (db.versions.find (id, db.current id)) .key
    expect (db.endpoints previous.endpointRef) .key

/-- The checks of the session; they give the scheme and the endpoint. -/
def saveChecks (urlsplit : String → Option Url.SplitUrl) (db : Db) (id : String) (body : ProfileWrite) :
    Except Code (String × String) := do
  require (!(db.profiles.find id).any (·.deleted) && db.current id = body.expectedVersion) .versionConflict
  let endpoint ← db.endpointOf id body
  require (endpoint ≠ "") .value
  let scheme ← expect (OfflineBuild.validateEndpoint urlsplit endpoint ["http", "https", "socks5", "socks5h"] true) .value
  return (scheme, endpoint)

def saveProfile (urlsplit : String → Option Url.SplitUrl) (db : Db) (id : String) (body : ProfileWrite)
    (credentialRevision : Option String) (now : String) : Db × Except Code Unit :=
  match saveChecks urlsplit db id body with
  | .error code => (db, .error code)
  | .ok (scheme, endpoint) =>
    let version := db.current id + 1
    let row : Version :=
      ⟨id, version, body.name, body.enabled, scheme, endpointRef id version, body.credentialRef, credentialRevision, now⟩
    -- the file of the endpoint is written before the commit
    let db := { db with endpoints := Function.update db.endpoints (endpointRef id version) (some endpoint) }
    match db.versions.insert row with
    | none => (db, .error .integrity)
    | some versions =>
      ({ db with profiles := db.profiles.upsert ⟨id, version, false⟩ (fun p => { p with revision := version }) fun _ => rfl, versions },
        .ok ())

/-- The types of reference that are pruned. -/
def prunedTypes : List String := ["git_plan", "upload", "build", "git_import"]

/-- The types that calls keep and release references for. -/
abbrev PrunedType := { resourceType : String // resourceType ∈ prunedTypes }

def pruneReferences (live : Reference → Bool) (references : List Reference) : List Reference :=
  references.filter fun r => !(r.resourceType ∈ prunedTypes) || live r

def deleteProfile (db : Db) (id : String) (expectedVersion : ℕ) (live : Reference → Bool) : Db × Except Code Unit :=
  match db.profiles.find id with
  | none => (db, .error .versionConflict)
  | some row =>
    if row.deleted || row.revision ≠ expectedVersion then (db, .error .versionConflict)
    else if (pruneReferences live db.references).any (·.profileId = id) then (db, .error .profileInUse)
    else
      ({ db with
          references := pruneReferences live db.references
          profiles := db.profiles.update (·.id = id) (fun p => { p with deleted := true }) fun _ => rfl },
        .ok ())

/-- `INSERT OR IGNORE`; the foreign key is not ignored. -/
def Db.insertReference (db : Db) (r : Reference) : Option Db :=
  if (db.versions.find (r.profileId, r.version)).isNone then none
  else some { db with references := if r ∈ db.references then db.references else db.references ++ [r] }

def Db.retainPhase (db : Db) (resourceType resourceId : String) : Selection → Option Db
  | .direct => some db
  | .profile id version => db.insertReference ⟨id, version, resourceType, resourceId⟩

def retain (db : Db) (git install : Selection) (resourceType resourceId : String) : Option Db := do
  let db ← db.retainPhase resourceType resourceId git
  db.retainPhase resourceType resourceId install

def release (db : Db) (drop : Reference → Bool) : Db := { db with references := db.references.filter fun r => !drop r }

def saveDefaults (db : Db) (values : Defaults) (expectedRevision : ℕ) : Db × Except Code Unit :=
  if (db.settings.map (·.1)).getD 0 ≠ expectedRevision then (db, .error .versionConflict)
  else
    match retain (release { db with settings := some (expectedRevision + 1, values) } (·.resourceType = "defaults")) values.git
      values.install "defaults" "system" with
    | none => (db, .error .integrity)
    | some db' => (db', .ok ())

def saveUpdates (db : Db) (proxy : Option (String × ℕ)) (expectedRevision : ℕ) : Db × Except Code Unit :=
  let actual := (db.updates.map (·.1)).getD 0
  if actual ≠ expectedRevision then (db, .error .updateSettingsConflict)
  else
    let db' := release { db with updates := some (actual + 1, proxy) } fun r =>
      r.resourceType = "release_update" && r.resourceId = "github"
    match db'.retainPhase "release_update" "github" (proxy.elim .direct fun p => .profile p.1 p.2) with
    | none => (db, .error .integrity)
    | some db' => (db', .ok ())

/-! ## Calls -/

/-- A call, between two of its steps. `selecting` and `selected` resolve the phases still to do; with none left comes the session. -/
inductive Call
  | saveProfile (id : String) (body : ProfileWrite) (credentialRevision : Option String)
  | deleteProfile (id : String) (expectedVersion : ℕ)
  | prune
  | retain (git install : Selection) (resourceType : PrunedType) (resourceId : String)
  | release (resourceType : PrunedType) (resourceId : String)
  | selecting (npm python : Option String) (expectedRevision : ℕ) (todo : List Requested) (done : List Selection)
  | selected (npm python : Option String) (expectedRevision : ℕ) (row : Version) (todo : List Requested) (done : List Selection)
  | proxyRow (expectedRevision : ℕ) (id : String) (version : ℕ)
  | proxyCurrent (expectedRevision : ℕ) (row : Version)
  | proxySave (expectedRevision : ℕ) (proxy : Option (String × ℕ))
  | ended (result : Except Code Unit)

def finished (session : Db × Except Code Unit) : Db × Call := (session.1, .ended session.2)

/-- The first query for a phase. -/
def select (db : Db) (npm python : Option String) (expectedRevision : ℕ) (todo : List Requested) (done : List Selection) :
    Requested → Call
  | .direct => .selecting npm python expectedRevision todo (done ++ [.direct])
  | .profile id version =>
    match db.version id version with
    | none => .ended (.error .profileMissing)
    | some row => if row.enabled then .selected npm python expectedRevision row todo done else .ended (.error .profileDisabled)

/-- The second query, and the credential. -/
def confirm (db : Db) (met : Met) (row : Version) (disabled changed : Code) : Except Code Unit := do
  let current ← expect (db.version row.profileId none) .profileMissing
  require (row.enabled && current.enabled) disabled
  let revision ← met.credentialRevision row.credentialRef
  require (revision = row.credentialRevision) changed

def step (urlsplit : String → Option Url.SplitUrl) (db : Db) (call : Call) (met : Met) : Db × Call :=
  match call with
  | .saveProfile id body credentialRevision => finished (saveProfile urlsplit db id body credentialRevision met.now)
  | .deleteProfile id expectedVersion => finished (deleteProfile db id expectedVersion met.live)
  | .prune => ({ db with references := pruneReferences met.live db.references }, .ended (.ok ()))
  | .retain git install resourceType resourceId =>
    match NetworkSettings.retain db git install resourceType resourceId with
    | none => (db, .ended (.error .integrity))
    | some db' => (db', .ended (.ok ()))
  | .release resourceType resourceId =>
    (NetworkSettings.release db fun r => r.resourceType = resourceType && r.resourceId = resourceId, .ended (.ok ()))
  | .selecting npm python expectedRevision (requested :: todo) done =>
    (db, select db npm python expectedRevision todo done requested)
  | .selecting npm python expectedRevision [] done =>
    match done, met.credentialRevision npm, met.credentialRevision python with
    | [git, install], .ok _, .ok _ => finished (saveDefaults db ⟨git, install, npm, python⟩ expectedRevision)
    | _, _, _ => (db, .ended (.error .credentialMissing))
  | .selected npm python expectedRevision row todo done =>
    match confirm db met row .profileDisabled .credentialChanged with
    | .error code => (db, .ended (.error code))
    | .ok () => (db, .selecting npm python expectedRevision todo (done ++ [.profile row.profileId row.version]))
  | .proxyRow expectedRevision id version =>
    match db.version id (some version) with
    | none => (db, .ended (.error .profileMissing))
    | some row => (db, .proxyCurrent expectedRevision row)
  | .proxyCurrent expectedRevision row =>
    match confirm db met row .updateProxyDisabled .updateProxyCredentialChanged with
    | .error code => (db, .ended (.error code))
    | .ok () =>
      (db, if row.scheme ∈ ["http", "https"] then .proxySave expectedRevision (some (row.profileId, row.version))
        else .ended (.error .value))
  | .proxySave expectedRevision proxy => finished (saveUpdates db proxy expectedRevision)
  | .ended result => (db, .ended result)

/-- How a call begins. The defaults have two phases. -/
def Begins : Call → Prop
  | .saveProfile .. | .deleteProfile .. | .prune | .retain .. | .release .. | .proxyRow .. => True
  | .selecting _ _ _ todo done => todo.length = 2 ∧ done = []
  | .proxySave _ proxy => proxy = none
  | .selected .. | .proxyCurrent .. | .ended _ => False

abbrev World := Pool Db Call

abbrev Event := Pool.Event Call Met

def NetworkStep (urlsplit : String → Option Url.SplitUrl) : World → Event → World → Prop :=
  Pool.Step Begins (Pool.ofFun (step urlsplit))

/-! ## The endpoints have names of their own -/

theorem endpointRef_injective {id id' : String} {version version' : ℕ} (h : endpointRef id version = endpointRef id' version') :
    id = id' ∧ version = version' := by
  have hdash : ∀ n, '-' ∉ (Nat.toDigits 10 n).reverse := by
    intro n hmem
    have hdigit := JsonRead.isDigit_toDigits (List.mem_reverse.mp hmem)
    revert hdigit
    decide
  have hlist := congrArg (fun s => s.toList.reverse) h
  simp only [endpointRef, String.toList_append, List.append_assoc, List.reverse_append] at hlist
  have hversion : ∀ n : ℕ, (toString n).toList = Nat.toDigits 10 n := fun n => Nat.toList_repr
  rw [hversion, hversion] at hlist
  have hends := GitObjects.append_cons_inj (hdash version) (hdash version') (by simpa using hlist)
  constructor
  · exact String.toList_inj.mp (by simpa using hends.2)
  · have hdigits := congrArg (fun l => Decimal.value l.reverse) hends.1
    simpa using hdigits

/-! ## What holds of a database -/

variable {urlsplit : String → Option Url.SplitUrl} {db db' : Db} {call : Call} {drop : Reference → Bool} {new : List Reference}
  {resourceType resourceId id : String} {selection : Selection} {r : Reference} {live : Reference → Bool}

/-- The references that a stored selection needs. -/
def pins (resourceType resourceId : String) : Selection → List Reference
  | .direct => []
  | .profile id version => [⟨id, version, resourceType, resourceId⟩]

theorem pins_type (h : r ∈ pins resourceType resourceId selection) : r.resourceType = resourceType ∧ r.resourceId = resourceId := by
  cases selection with
  | direct => cases h
  | profile id version =>
    obtain rfl := List.mem_singleton.mp h
    exact ⟨rfl, rfl⟩

def Selection.ids : Selection → List String
  | .direct => []
  | .profile id _ => [id]

theorem pins_ids (h : r ∈ pins resourceType resourceId selection) : r.profileId ∈ selection.ids := by
  cases selection with
  | direct => cases h
  | profile id version =>
    obtain rfl := List.mem_singleton.mp h
    exact List.mem_singleton_self _

def defaultsPins (settings : Option (ℕ × Defaults)) : List Reference :=
  settings.elim [] fun s => pins "defaults" "system" s.2.git ++ pins "defaults" "system" s.2.install

def updatesPins (updates : Option (ℕ × Option (String × ℕ))) : List Reference :=
  updates.elim [] fun u => pins "release_update" "github" (u.2.elim .direct fun p => .profile p.1 p.2)

/-- What the stored settings select. -/
def Db.selected (db : Db) : List Reference := defaultsPins db.settings ++ updatesPins db.updates

theorem defaultsPins_type {settings : Option (ℕ × Defaults)} (h : r ∈ defaultsPins settings) : r.resourceType = "defaults" := by
  cases settings with
  | none => cases h
  | some s => exact (List.mem_append.mp h).elim (fun h => (pins_type h).1) fun h => (pins_type h).1

theorem updatesPins_type {updates : Option (ℕ × Option (String × ℕ))} (h : r ∈ updatesPins updates) :
    r.resourceType = "release_update" ∧ r.resourceId = "github" := by
  cases updates with
  | none => cases h
  | some u => exact pins_type h

structure Sound (db : Db) : Prop where
  numbered : ∀ id version, (db.versions.find (id, version)).isSome = true ↔ 0 < version ∧ version ≤ db.current id
  named : ∀ row ∈ db.versions, row.endpointRef = endpointRef row.profileId row.version
  stored : ∀ row ∈ db.versions, (db.endpoints row.endpointRef).isSome = true
  known : ∀ r ∈ db.references, (db.versions.find (r.profileId, r.version)).isSome = true
  nodup : db.references.Nodup
  exact : ∀ r : Reference, r.resourceType ∉ prunedTypes → (r ∈ db.references ↔ r ∈ db.selected)

/-- What is never lost: a version and its endpoint, the revision of a profile, and that it was deleted. -/
structure Kept (db db' : Db) : Prop where
  version : ∀ row ∈ db.versions, row ∈ db'.versions ∧ db'.endpoints row.endpointRef = db.endpoints row.endpointRef
  profile : ∀ p ∈ db.profiles, ∃ p' ∈ db'.profiles, p'.id = p.id ∧ p.revision ≤ p'.revision ∧ (p.deleted = true → p' = p)

theorem Kept.refl (db : Db) : Kept db db := ⟨fun _ h => ⟨h, rfl⟩, fun p h => ⟨p, h, rfl, le_rfl, fun _ => rfl⟩⟩

theorem Kept.trans (a b c : Db) (h : Kept a b) (h' : Kept b c) : Kept a c := by
  constructor
  · intro row hrow
    obtain ⟨hb, hendpoint⟩ := h.version row hrow
    obtain ⟨hc, hendpoint'⟩ := h'.version row hb
    exact ⟨hc, hendpoint'.trans hendpoint⟩
  intro p hp
  obtain ⟨q, hq, hid, hle, hdeleted⟩ := h.profile p hp
  obtain ⟨r, hr, hid', hle', hdeleted'⟩ := h'.profile q hq
  refine ⟨r, hr, hid'.trans hid, hle.trans hle', ?_⟩
  intro hd
  obtain rfl := hdeleted hd
  exact hdeleted' hd

theorem sound_empty : Sound {} := by
  constructor
  case numbered =>
    intro id version
    simp [Db.current]
    omega
  all_goals simp [Db.selected, defaultsPins, updatesPins]

/-! ## Sessions that change references -/

/-- `db'` is `db` without the references to drop and with the new ones, which name versions. -/
structure Repinned (drop : Reference → Bool) (new : List Reference) (db db' : Db) : Prop where
  profiles : db'.profiles = db.profiles
  versions : db'.versions = db.versions
  endpoints : db'.endpoints = db.endpoints
  settings : db'.settings = db.settings
  updates : db'.updates = db.updates
  mem : ∀ r, r ∈ db'.references ↔ r ∈ db.references ∧ drop r = false ∨ r ∈ new
  nodup : db.references.Nodup → db'.references.Nodup
  known : ∀ r ∈ new, (db.versions.find (r.profileId, r.version)).isSome = true

theorem repinned_release (db : Db) (drop : Reference → Bool) : Repinned drop [] db (release db drop) :=
  ⟨rfl, rfl, rfl, rfl, rfl, fun r => by simp [release], fun h => h.filter _, fun _ h => nomatch h⟩

theorem Repinned.retainPhase {db'' : Db} (h : Repinned drop new db db')
    (hretain : db'.retainPhase resourceType resourceId selection = some db'') :
    Repinned drop (new ++ pins resourceType resourceId selection) db db'' := by
  cases selection with
  | direct =>
    cases hretain
    simpa [pins] using h
  | profile id version =>
    simp only [Db.retainPhase, Db.insertReference] at hretain
    split at hretain
    · cases hretain
    rename_i hknown
    cases hretain
    refine ⟨h.profiles, h.versions, h.endpoints, h.settings, h.updates, ?_, ?_, ?_⟩
    · intro r
      show r ∈ (if _ then _ else _) ↔ _
      split
      · rename_i hin
        rw [h.mem, pins, List.mem_append, List.mem_singleton, ← or_assoc, ← h.mem]
        refine (or_iff_left_of_imp ?_).symm
        rintro rfl
        exact hin
      · rw [List.mem_append, h.mem, pins, List.mem_append, or_assoc]
    · intro hnodup
      show (if _ then _ else _ : List Reference).Nodup
      split
      · exact h.nodup hnodup
      rename_i hin
      rw [List.nodup_append]
      refine ⟨h.nodup hnodup, List.nodup_singleton _, ?_⟩
      intro r hr r' hr' heq
      obtain rfl := List.mem_singleton.mp hr'
      exact hin (heq ▸ hr)
    intro r hr
    rcases List.mem_append.mp hr with hr | hr
    · exact h.known r hr
    · obtain rfl := List.mem_singleton.mp hr
      rw [← h.versions]
      simpa [Option.isSome_iff_ne_none] using hknown

theorem Repinned.retain {db'' : Db} {git install : Selection} (h : Repinned drop new db db')
    (hretain : retain db' git install resourceType resourceId = some db'') :
    Repinned drop (new ++ pins resourceType resourceId git ++ pins resourceType resourceId install) db db'' := by
  obtain ⟨middle, hgit, hinstall⟩ := Option.bind_eq_some_iff.mp hretain
  exact (h.retainPhase hgit).retainPhase hinstall

theorem Repinned.kept {settings updates} (h : Repinned drop new { db with settings, updates } db') : Kept db db' := by
  have hversions : db'.versions = db.versions := h.versions
  have hendpoints : db'.endpoints = db.endpoints := h.endpoints
  have hprofiles : db'.profiles = db.profiles := h.profiles
  constructor
  · intro row hrow
    rw [hversions, hendpoints]
    exact ⟨hrow, rfl⟩
  · intro p hp
    rw [hprofiles]
    exact ⟨p, hp, rfl, le_rfl, fun _ => rfl⟩

/-- A session keeps the references exact where it changes them as it changes what is selected. -/
theorem Repinned.sound {settings updates} (h : Repinned drop new { db with settings, updates } db') (hsound : Sound db)
    (hselected : ∀ r : Reference, r.resourceType ∉ prunedTypes → (r ∈ db.selected ∧ drop r = false ∨ r ∈ new ↔ r ∈ db'.selected)) :
    Sound db' := by
  have hversions : db'.versions = db.versions := h.versions
  have hendpoints : db'.endpoints = db.endpoints := h.endpoints
  have hprofiles : db'.profiles = db.profiles := h.profiles
  constructor
  · intro id version
    rw [hversions, Db.current, hprofiles]
    exact hsound.numbered id version
  · rw [hversions]
    exact hsound.named
  · rw [hversions, hendpoints]
    exact hsound.stored
  · intro r hr
    rw [hversions]
    rcases (h.mem r).mp hr with ⟨hr, -⟩ | hr
    · exact hsound.known r hr
    · exact h.known r hr
  · exact h.nodup hsound.nodup
  · intro r hr
    rw [h.mem, ← hselected r hr]
    show (r ∈ db.references ∧ _) ∨ _ ↔ _
    rw [hsound.exact r hr]

/-! ## What a step does -/

def Db.deleted (db : Db) (id : String) : Bool := (db.profiles.find id).any (·.deleted)

/-- The profiles that the session of a call stores as selected. -/
def Call.selects : Call → List String
  | .selecting _ _ _ [] done => done.flatMap Selection.ids
  | .proxySave _ proxy => (proxy.map (·.1)).toList
  | _ => []

inductive Session (db : Db) (call : Call) : Db → Prop
  | same : Session db call db
  | saved {id : String} {row : Version} {versions : Table Version Version.key} (endpoint : String) :
    row.key = (id, db.current id + 1) → row.endpointRef = endpointRef id (db.current id + 1) → db.deleted id = false →
    db.versions.insert row = some versions →
    Session db call { db with
      endpoints := Function.update db.endpoints (endpointRef id (db.current id + 1)) (some endpoint)
      profiles := db.profiles.upsert ⟨id, db.current id + 1, false⟩ (fun p => { p with revision := db.current id + 1 }) fun _ => rfl
      versions }
  | deleted {id : String} {live : Reference → Bool} : (∀ r ∈ pruneReferences live db.references, r.profileId ≠ id) →
    Session db call { db with
      references := pruneReferences live db.references
      profiles := db.profiles.update (·.id = id) (fun p => { p with deleted := true }) fun _ => rfl }
  | repinned {drop : Reference → Bool} {new : List Reference} {settings updates db'} :
    Repinned drop new { db with settings, updates } db' →
    (∀ r : Reference, r.resourceType ∉ prunedTypes → (r ∈ db.selected ∧ drop r = false ∨ r ∈ new ↔ r ∈ db'.selected)) →
    (∀ r ∈ db'.selected, r ∈ db.selected ∨ r.profileId ∈ call.selects) → Session db call db'

theorem saveProfile_session {body : ProfileWrite} {credentialRevision : Option String} {now : String} (h : Sound db) :
    Session db call (saveProfile urlsplit db id body credentialRevision now).1 := by
  unfold saveProfile
  split
  · exact .same
  rename_i scheme endpoint hchecks
  have hdeleted : db.deleted id = false := by
    simp only [saveChecks, bind_eq_ok, require_eq_ok, Bool.and_eq_true, Bool.not_eq_true'] at hchecks
    exact hchecks.choose_spec.1.1
  dsimp only
  split
  · rename_i hinsert
    have htaken := (h.numbered id (db.current id + 1)).mp (Table.insert_isNone hinsert)
    omega
  · rename_i versions hinsert
    exact .saved endpoint rfl rfl hdeleted hinsert

theorem deleteProfile_session {expectedVersion : ℕ} : Session db call (deleteProfile db id expectedVersion live).1 := by
  unfold deleteProfile
  split
  · exact .same
  split
  · exact .same
  split
  · exact .same
  · rename_i hunused
    refine .deleted ?_
    simpa using hunused

/-- What is pruned, kept or released for the types that are pruned leaves the other references alone. -/
theorem Session.pruned (h : Repinned drop new db db') (hdrop : ∀ r : Reference, drop r = true → r.resourceType ∈ prunedTypes)
    (hnew : ∀ r ∈ new, r.resourceType ∈ prunedTypes) :
    Session db call db' := by
  have hselected : db'.selected = db.selected := by rw [Db.selected, h.settings, h.updates, Db.selected]
  refine .repinned h ?_ ?_
  · intro r hr
    have hdropped : drop r = false := Bool.eq_false_iff.mpr fun hdrops => hr (hdrop r hdrops)
    rw [hselected, hdropped]
    simpa using fun hin => absurd (hnew r hin) hr
  · intro r hr
    exact .inl (hselected ▸ hr)

theorem pruneReferences_repinned (db : Db) (live : Reference → Bool) :
    Repinned (fun r => r.resourceType ∈ prunedTypes && !live r) [] db { db with references := pruneReferences live db.references } :=
  ⟨rfl, rfl, rfl, rfl, rfl, fun r => by simp [pruneReferences, imp_iff_not_or], fun h => h.filter _, fun _ h => nomatch h⟩

theorem saveDefaults_session {values : Defaults} {expectedRevision : ℕ} {npm python : Option String} {revision : ℕ} :
    Session db (.selecting npm python revision [] [values.git, values.install]) (saveDefaults db values expectedRevision).1 := by
  unfold saveDefaults
  split
  · exact .same
  split
  · exact .same
  rename_i db' hretain
  have h := (repinned_release { db with settings := some (expectedRevision + 1, values) } _).retain hretain
  have hselected : db'.selected = pins "defaults" "system" values.git ++ pins "defaults" "system" values.install ++
      updatesPins db.updates := by rw [Db.selected, h.settings, h.updates]; rfl
  refine .repinned h ?_ ?_
  · intro r _
    have hdefaults : r ∈ defaultsPins db.settings → r.resourceType = "defaults" := defaultsPins_type
    have hupdates : r ∈ updatesPins db.updates → r.resourceType = "release_update" := fun hr => (updatesPins_type hr).1
    rw [hselected, Db.selected]
    simp only [List.mem_append, List.nil_append, decide_eq_false_iff_not]
    constructor
    · rintro (⟨hr | hr, hne⟩ | hr)
      · exact absurd (hdefaults hr) hne
      · exact .inr hr
      · exact .inl hr
    rintro (hr | hr)
    · exact .inr hr
    · refine .inl ⟨.inr hr, ?_⟩
      rw [hupdates hr]
      decide
  intro r hr
  rw [hselected] at hr
  rcases List.mem_append.mp hr with hr | hr
  · refine .inr ?_
    rcases List.mem_append.mp hr with hr | hr
    · exact List.mem_flatMap.mpr ⟨values.git, by simp, pins_ids hr⟩
    · exact List.mem_flatMap.mpr ⟨values.install, by simp, pins_ids hr⟩
  · exact .inl (List.mem_append_right _ hr)

theorem saveUpdates_session {proxy : Option (String × ℕ)} {expectedRevision revision : ℕ} :
    Session db (.proxySave revision proxy) (saveUpdates db proxy expectedRevision).1 := by
  unfold saveUpdates
  simp only
  split
  · exact .same
  split
  · exact .same
  rename_i db' hretain
  have h := (repinned_release { db with updates := some ((db.updates.map (·.1)).getD 0 + 1, proxy) } _).retainPhase hretain
  have hselected : db'.selected = defaultsPins db.settings ++
      pins "release_update" "github" (proxy.elim .direct fun p => .profile p.1 p.2) := by
    rw [Db.selected, h.settings, h.updates]
    rfl
  refine .repinned h ?_ ?_
  · intro r _
    have hdefaults : r ∈ defaultsPins db.settings → r.resourceType = "defaults" := defaultsPins_type
    have hupdates : r ∈ updatesPins db.updates → r.resourceType = "release_update" ∧ r.resourceId = "github" := updatesPins_type
    rw [hselected, Db.selected]
    simp only [List.mem_append, List.nil_append, Bool.and_eq_false_iff, decide_eq_false_iff_not]
    constructor
    · rintro (⟨hr | hr, hne⟩ | hr)
      · exact .inl hr
      · obtain ⟨htype, hid⟩ := hupdates hr
        exact absurd hne (by simp [htype, hid])
      · exact .inr hr
    rintro (hr | hr)
    · refine .inl ⟨.inl hr, .inl ?_⟩
      rw [hdefaults hr]
      decide
    · exact .inr hr
  intro r hr
  rw [hselected] at hr
  rcases List.mem_append.mp hr with hr | hr
  · exact .inl (List.mem_append_left _ hr)
  refine .inr ?_
  cases proxy with
  | none => cases hr
  | some p =>
    obtain rfl := List.mem_singleton.mp hr
    exact List.mem_singleton_self _

theorem step_session {met : Met} (h : Sound db) : Session db call (step urlsplit db call met).1 := by
  cases call with
  | saveProfile id body credentialRevision => exact saveProfile_session h
  | deleteProfile id expectedVersion => exact deleteProfile_session
  | prune =>
    refine .pruned (pruneReferences_repinned db met.live) ?_ fun r hr => nomatch hr
    intro r hr
    simp only [Bool.and_eq_true, decide_eq_true_eq] at hr
    exact hr.1
  | retain git install resourceType resourceId =>
    simp only [step]
    split
    · exact .same
    rename_i db' hretain
    have hnone : Repinned (fun _ => false) [] db db := ⟨rfl, rfl, rfl, rfl, rfl, by simp, id, fun _ hr => nomatch hr⟩
    refine .pruned (hnone.retain hretain) (fun r hr => nomatch hr) ?_
    intro r hr
    rcases List.mem_append.mp hr with hr | hr
    · exact (pins_type hr).1 ▸ resourceType.2
    · exact (pins_type hr).1 ▸ resourceType.2
  | release resourceType resourceId =>
    refine .pruned (repinned_release db _) ?_ fun r hr => nomatch hr
    intro r hr
    simp only [Bool.and_eq_true, decide_eq_true_eq] at hr
    exact hr.1 ▸ resourceType.2
  | selecting npm python expectedRevision todo done =>
    cases todo with
    | cons requested todo => exact .same
    | nil =>
      simp only [step]
      split
      · exact @saveDefaults_session db ⟨_, _, npm, python⟩ expectedRevision npm python expectedRevision
      · exact .same
  | selected npm python expectedRevision row todo done =>
    simp only [step]
    split <;> exact .same
  | proxyRow expectedRevision id version | proxyCurrent expectedRevision row =>
    simp only [step]
    split <;> exact .same
  | proxySave expectedRevision proxy => exact saveUpdates_session
  | ended result => exact .same

/-! ## What a session keeps -/

theorem current_upsert {version : ℕ} {id' : String} {versions : Table Version Version.key} {endpoints : String → Option String} :
    ({ db with
      endpoints, versions
      profiles := db.profiles.upsert ⟨id, version, false⟩ (fun p => { p with revision := version }) fun _ => rfl } : Db).current id' =
      if id' = id then version else db.current id' := by
  show (((db.profiles.upsert _ _ _).find id').map (·.revision)).getD 0 = _
  rw [Table.find_upsert]
  by_cases hid : id' = id
  · rw [if_pos hid, if_pos hid]
    cases db.profiles.find id <;> rfl
  · rw [if_neg hid, if_neg hid]
    rfl

theorem Session.sound (hs : Session db call db') (h : Sound db) : Sound db' ∧ Kept db db' := by
  cases hs with
  | same => exact ⟨h, .refl db⟩
  | repinned hrepinned hselected _ => exact ⟨hrepinned.sound h hselected, hrepinned.kept⟩
  | @deleted id live hunused =>
    have hrepinned := pruneReferences_repinned db live
    have hpruned : Sound { db with references := pruneReferences live db.references } := by
      refine hrepinned.sound h ?_
      intro r hr
      simp [hr]
      rfl
    constructor
    · refine { hpruned with numbered := ?_ }
      intro id' version
      have hcurrent : ((db.profiles.update (·.id = id) (fun p => { p with deleted := true }) fun _ => rfl).find id').map (·.revision) =
          (db.profiles.find id').map (·.revision) := by
        rw [Table.find_update_key]
        by_cases hid : id' = id
        · rw [if_pos hid]
          cases db.profiles.find id' <;> rfl
        · rw [if_neg hid]
      show _ ↔ 0 < version ∧ version ≤ (Option.map _ _).getD 0
      rw [hcurrent]
      exact h.numbered id' version
    refine ⟨fun row hrow => ⟨hrow, rfl⟩, ?_⟩
    intro p hp
    refine ⟨_, List.mem_map.mpr ⟨p, hp, rfl⟩, ?_⟩
    split
    · refine ⟨rfl, le_rfl, ?_⟩
      intro hd
      cases p
      cases hd
      rfl
    · exact ⟨rfl, le_rfl, fun _ => rfl⟩
  | @saved id row versions endpoint hkey href hdeleted hinsert =>
    have hfind : ∀ id' version, versions.find (id', version) = if (id', version) = (id, db.current id + 1) then some row
        else db.versions.find (id', version) := by
      intro id' version
      rw [Table.find_insert hinsert, hkey]
    constructor
    · refine { h with numbered := ?_, named := ?_, stored := ?_, known := ?_ }
      · intro id' version
        rw [current_upsert]
        show (versions.find _).isSome = true ↔ _
        rw [hfind]
        by_cases hid : id' = id
        · subst hid
          by_cases hversion : version = db.current id' + 1
          · simp [hversion]
          · have hold := h.numbered id' version
            simp only [Prod.mk.injEq, hversion, and_false, if_false, if_true, hold]
            omega
        · simp [hid, h.numbered]
      · intro row' hrow'
        rcases (Table.mem_insert hinsert).mp hrow' with hrow' | rfl
        · exact h.named row' hrow'
        · rw [href]
          exact congrArg (fun key => endpointRef key.1 key.2) hkey.symm
      · intro row' hrow'
        show (Function.update db.endpoints _ (some endpoint) row'.endpointRef).isSome = true
        rw [Function.update_apply]
        split
        · rfl
        · rename_i hne
          rcases (Table.mem_insert hinsert).mp hrow' with hrow' | rfl
          · exact h.stored row' hrow'
          · exact absurd href hne
      intro r hr
      show (versions.find _).isSome = true
      rw [hfind]
      split
      · rfl
      · exact h.known r hr
    constructor
    · intro row' hrow'
      refine ⟨(Table.mem_insert hinsert).mpr (.inl hrow'), Function.update_of_ne ?_ _ _⟩
      intro heq
      obtain ⟨hid, hversion⟩ := endpointRef_injective ((h.named row' hrow').symm.trans heq)
      refine (Table.insert_eq_some hinsert).2 row' hrow' ?_
      rw [hkey, ← hversion, ← hid]
      rfl
    intro p hp
    by_cases hid : p.id = id
    · refine ⟨_, Table.mem_upsert_key hp hid, rfl, ?_, ?_⟩
      · show p.revision ≤ db.current id + 1
        rw [Db.current, Table.find_eq_some.mpr ⟨hp, hid⟩]
        exact Nat.le_succ _
      · intro hd
        rw [Db.deleted, Table.find_eq_some.mpr ⟨hp, hid⟩] at hdeleted
        exact absurd hd (by simpa using hdeleted)
    · exact ⟨p, Table.mem_upsert_other hp hid, rfl, le_rfl, fun _ => rfl⟩

/-! ## Runs -/

theorem act_session {call' : Call} {met : Met} (h : Sound db)
    (hact : Pool.ofFun (step urlsplit) db call met db' call') : Session db call db' := by
  have hsession := @step_session urlsplit db call met h
  rwa [show step urlsplit db call met = (db', call') from hact] at hsession

theorem step_sound {w w' : World} {e : Event} (hw : Sound w.shared) (hs : NetworkStep urlsplit w e w') :
    Sound w'.shared ∧ Kept w.shared w'.shared := by
  cases hs with
  | start => exact ⟨hw, .refl _⟩
  | act _ hact => exact (act_session hw hact).sound hw

theorem run_sound {w : World} {tr : List Event} (h : Run (NetworkStep urlsplit) ⟨{}, []⟩ tr w) : Sound w.shared :=
  h.invariant (I := fun v => Sound v.shared) sound_empty fun _ _ _ hv hs => (step_sound hv hs).1

/-- A profile that is looked up for the defaults, deleted, and stored. -/
def deletedBetween : List Event :=
  [Pool.Event.start (.saveProfile "corp" ⟨"Proxy", some "http://proxy:8080", none, true, 0⟩ none), .act 0 {},
    .start (.selecting none none 0 [.profile "corp" none, .direct] []), .act 1 {}, .act 1 {}, .act 1 {},
    .start (.deleteProfile "corp" 1), .act 2 {}, .act 1 {}]

def proxySplit (_ : String) : Option Url.SplitUrl :=
  some { scheme := "http", netloc := "proxy:8080", hostname := some "proxy", port := some (some 8080) }

theorem deletedBetween_run : Run (NetworkStep proxySplit) ⟨{}, []⟩ deletedBetween (Pool.play (step proxySplit) ⟨{}, []⟩ deletedBetween) := by
  have hrun : Run (fun w e w' => NetworkStep proxySplit w e w' ∧ True) ⟨{}, []⟩ deletedBetween _ :=
    Pool.play_run (by simp [Pool.Playable, deletedBetween, Begins]) (Pool.along_true _)
  exact hrun.mono fun _ _ _ hs => hs.1

/-- **Versions are permanent.** Whatever calls interleave, a version that was saved stays as it is and keeps the endpoint that it was
saved with, and a profile that was deleted stays as it is; the versions of a profile are those from the first to its revision. -/
theorem versions_permanent :
    (∀ {w w' : World} {tr tr' : List Event}, Run (NetworkStep urlsplit) ⟨{}, []⟩ tr w → Run (NetworkStep urlsplit) w tr' w' →
      (∀ row ∈ w.shared.versions, row ∈ w'.shared.versions ∧ (w.shared.endpoints row.endpointRef).isSome = true ∧
        w'.shared.endpoints row.endpointRef = w.shared.endpoints row.endpointRef) ∧
      ∀ p ∈ w.shared.profiles, ∃ p' ∈ w'.shared.profiles, p'.id = p.id ∧ p.revision ≤ p'.revision ∧ (p.deleted = true → p' = p)) ∧
    ∀ {w : World} {tr : List Event}, Run (NetworkStep urlsplit) ⟨{}, []⟩ tr w →
      ∀ id version, (w.shared.versions.find (id, version)).isSome = true ↔ 0 < version ∧ version ≤ w.shared.current id := by
  constructor
  · intro w w' tr tr' h h'
    have hw := run_sound h
    have hkept : Kept w.shared w'.shared :=
      h'.rel (I := fun v => Sound v.shared) (R := fun v v' => Kept v.shared v'.shared) hw (fun _ _ _ hv hs => (step_sound hv hs).1)
        (fun v => Kept.refl v.shared) (fun _ _ _ => Kept.trans _ _ _) fun _ _ _ hv hs => (step_sound hv hs).2
    refine ⟨?_, hkept.profile⟩
    intro row hrow
    exact ⟨(hkept.version row hrow).1, hw.stored row hrow, (hkept.version row hrow).2⟩
  · intro w tr h
    exact (run_sound h).numbered

/-- The version stays when its profile is deleted. -/
theorem versions_permanent_deletedBetween : ∃ w w', Run (NetworkStep proxySplit) ⟨{}, []⟩ (deletedBetween.take 6) w ∧
    Run (NetworkStep proxySplit) w (deletedBetween.drop 6) w' ∧ (∀ row ∈ w.shared.versions, row ∈ w'.shared.versions) ∧
    (∀ p ∈ w.shared.profiles, ∃ p' ∈ w'.shared.profiles, p'.id = p.id ∧ p.revision ≤ p'.revision) ∧
    ∀ id version, (w'.shared.versions.find (id, version)).isSome = true ↔ 0 < version ∧ version ≤ w'.shared.current id := by
  obtain ⟨w, _, hsaved, hstep, hrest⟩ := Run.split (show Run _ _ (deletedBetween.take 6 ++ .start (.deleteProfile "corp" 1) ::
    deletedBetween.drop 7) _ from deletedBetween_run)
  obtain ⟨hversions, hprofiles⟩ := versions_permanent.1 hsaved (.cons hstep hrest)
  refine ⟨w, _, hsaved, .cons hstep hrest, fun row hrow => (hversions row hrow).1, fun p hp => ?_, versions_permanent.2 deletedBetween_run⟩
  obtain ⟨p', hp', hid, hrevision, -⟩ := hprofiles p hp
  exact ⟨p', hp', hid, hrevision⟩

theorem Db.selected_type (h : r ∈ db.selected) : r.resourceType ∉ prunedTypes := by
  rcases List.mem_append.mp h with h | h
  · rw [defaultsPins_type h]
    decide
  · rw [(updatesPins_type h).1]
    decide

/-- **References are exact.** In every state that is reached, a reference names a version that was saved, none is kept twice, and those
that are not pruned are the references to what the stored settings select. -/
theorem references_exact : (∀ {w : World} {tr : List Event}, Run (NetworkStep urlsplit) ⟨{}, []⟩ tr w →
      ∀ r ∈ w.shared.references, ∃ row ∈ w.shared.versions, row.profileId = r.profileId ∧ row.version = r.version) ∧
    ∀ {w : World} {tr : List Event}, Run (NetworkStep urlsplit) ⟨{}, []⟩ tr w → w.shared.references.Nodup ∧
      ∀ r : Reference, r.resourceType ∉ prunedTypes → (r ∈ w.shared.references ↔ r ∈ w.shared.selected) := by
  constructor
  · intro w tr h r hr
    obtain ⟨row, hrow⟩ := Option.isSome_iff_exists.mp ((run_sound h).known r hr)
    obtain ⟨hmem, hkey⟩ := Table.find_eq_some.mp hrow
    exact ⟨row, hmem, congrArg Prod.fst hkey, congrArg Prod.snd hkey⟩
  · intro w tr h
    exact ⟨(run_sound h).nodup, (run_sound h).exact⟩

theorem references_exact_deletedBetween : ∃ w, Run (NetworkStep proxySplit) ⟨{}, []⟩ deletedBetween w ∧
    (∀ r ∈ w.shared.references, ∃ row ∈ w.shared.versions, row.profileId = r.profileId ∧ row.version = r.version) ∧
    ∀ r : Reference, r.resourceType ∉ prunedTypes → (r ∈ w.shared.references ↔ r ∈ w.shared.selected) :=
  ⟨_, deletedBetween_run, references_exact.1 deletedBetween_run, (references_exact.2 deletedBetween_run).2⟩

/-- A profile that the settings are about to select was not deleted since it was looked up. -/
def Fresh (w : World) : Event → Prop
  | .start _ => True
  | .act i _ => ∀ call, w.threads[i]? = some call → ∀ id ∈ call.selects, w.shared.deleted id = false

theorem Session.selected_stays (hs : Session db call db') (h : Sound db)
    (hfresh : ∀ id ∈ call.selects, db.deleted id = false) (hstays : ∀ r ∈ db.selected, db.deleted r.profileId = false) :
    ∀ r ∈ db'.selected, db'.deleted r.profileId = false := by
  cases hs with
  | same => exact hstays
  | repinned hrepinned _ hselects =>
    intro r hr
    have hdeleted : db'.deleted r.profileId = db.deleted r.profileId := by
      rw [Db.deleted, hrepinned.profiles]
      rfl
    rw [hdeleted]
    rcases hselects r hr with hr | hr
    · exact hstays r hr
    · exact hfresh _ hr
  | @deleted id live hunused =>
    intro r hr
    have hin : r ∈ pruneReferences live db.references := by
      have htype := Db.selected_type hr
      exact List.mem_filter.mpr ⟨(h.exact r htype).mpr hr, by simp [htype]⟩
    show Option.any _ (Table.find _ _) = false
    rw [Table.find_update_key, if_neg (hunused r hin)]
    exact hstays r hr
  | @saved id row versions endpoint hkey href hdeleted hinsert =>
    intro r hr
    have hold := hstays r hr
    show Option.any _ (Table.find _ _) = false
    rw [Table.find_upsert]
    split
    · show Option.any _ (some ((db.profiles.find id).elim _ _)) = false
      rw [Db.deleted] at hdeleted
      cases hfind : db.profiles.find id with
      | none => rfl
      | some p =>
        rw [hfind] at hdeleted
        exact hdeleted
    · exact hold

theorem Sound.version_isSome (h : Sound db) (hr : r ∈ db.references) (hdeleted : db.deleted r.profileId = false) :
    ∃ row, db.version r.profileId (some r.version) = some row := by
  have hknown := h.known r hr
  have hcurrent := (h.numbered _ _).mp hknown
  rw [Db.version]
  cases hfind : db.profiles.find r.profileId with
  | none =>
    rw [Db.current, hfind] at hcurrent
    simp only [Option.map_none, Option.getD_none] at hcurrent
    omega
  | some p =>
    rw [Db.deleted, hfind] at hdeleted
    have hlive : p.deleted = false := hdeleted
    simpa [hlive] using Option.isSome_iff_exists.mp hknown

theorem deletedBetween_played :
    (Pool.play (step proxySplit) ⟨{}, []⟩ deletedBetween).shared.selected = [⟨"corp", 1, "defaults", "system"⟩] ∧
    ((Pool.play (step proxySplit) ⟨{}, []⟩ deletedBetween).shared.version "corp" (some 1)).isNone = true := by
  decide +kernel

/-- **What the settings select can be looked up**, where no profile is deleted between its lookup and the session that stores it; the
sessions do not look again. -/
theorem selected_available :
    (∀ {w : World} {tr : List Event}, Run (fun w e w' => NetworkStep urlsplit w e w' ∧ Fresh w e) ⟨{}, []⟩ tr w →
      ∀ r ∈ w.shared.selected, ∃ row, w.shared.version r.profileId (some r.version) = some row) ∧
    ∃ w : World, ∃ tr, Run (NetworkStep proxySplit) ⟨{}, []⟩ tr w ∧
      ∃ r ∈ w.shared.selected, w.shared.version r.profileId (some r.version) = none := by
  constructor
  · intro w tr h r hr
    have hw : Sound w.shared ∧ ∀ r ∈ w.shared.selected, w.shared.deleted r.profileId = false := by
      refine h.invariant (I := fun v => Sound v.shared ∧ ∀ r ∈ v.shared.selected, v.shared.deleted r.profileId = false) ?_ ?_
      · exact ⟨sound_empty, fun r hr => nomatch hr⟩
      rintro v e v' ⟨hv, hstays⟩ ⟨hs, hfresh⟩
      refine ⟨(step_sound hv hs).1, ?_⟩
      cases hs with
      | start => exact hstays
      | act hcall hact => exact (act_session hv hact).selected_stays hv (hfresh _ hcall) hstays
    exact hw.1.version_isSome ((hw.1.exact r (Db.selected_type hr)).mpr hr) (hw.2 r hr)
  · refine ⟨_, _, deletedBetween_run, ⟨"corp", 1, "defaults", "system"⟩, ?_, ?_⟩
    · rw [deletedBetween_played.1]
      exact List.mem_singleton_self _
    · exact Option.isNone_iff_eq_none.mp deletedBetween_played.2

def isFresh (w : World) : Event → Bool
  | .start _ => true
  | .act i _ => w.threads[i]?.all fun call => call.selects.all fun id => !w.shared.deleted id

theorem Fresh.of_isFresh {w : World} {e : Event} (h : isFresh w e = true) : Fresh w e := by
  cases e with
  | start => trivial
  | act i met =>
    intro call hcall id hid
    simp only [isFresh, hcall, Option.all_some, List.all_eq_true, Bool.not_eq_true'] at h
    exact h id hid

/-- The profile is stored for the defaults, and no one deletes it. -/
def savedDefaults : List Event := deletedBetween.take 6 ++ [.act 1 {}]

theorem savedDefaults_played :
    Pool.Along (step proxySplit) (fun w e => isFresh w e = true) ⟨{}, []⟩ savedDefaults ∧
    (Pool.play (step proxySplit) ⟨{}, []⟩ savedDefaults).shared.selected = [⟨"corp", 1, "defaults", "system"⟩] := by
  simp only [savedDefaults, deletedBetween, List.take, List.cons_append, List.nil_append, Pool.Along]
  decide +kernel

theorem selected_available_saved : ∃ w : World, Run (fun w e w' => NetworkStep proxySplit w e w' ∧ Fresh w e) ⟨{}, []⟩ savedDefaults w ∧
    ∃ row, w.shared.version "corp" (some 1) = some row := by
  have hrun : Run (fun w e w' => NetworkStep proxySplit w e w' ∧ isFresh w e = true) ⟨{}, []⟩ savedDefaults _ :=
    Pool.play_run (by simp [Pool.Playable, savedDefaults, deletedBetween, Begins]) savedDefaults_played.1
  have hfresh : Run (fun w e w' => NetworkStep proxySplit w e w' ∧ Fresh w e) ⟨{}, []⟩ savedDefaults _ :=
    hrun.mono fun _ _ _ hs => ⟨hs.1, Fresh.of_isFresh hs.2⟩
  refine ⟨_, hfresh, selected_available.1 hfresh ⟨"corp", 1, "defaults", "system"⟩ ?_⟩
  rw [savedDefaults_played.2]
  exact List.mem_singleton_self _

end LingshuGate.NetworkSettings

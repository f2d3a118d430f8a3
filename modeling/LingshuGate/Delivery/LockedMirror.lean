import LingshuGate.Delivery.DependencyGraph

/-!
# Mirrors of locked content (`packages.py`, `offline_build_contract.py`)

| here | there |
| --- | --- |
| `LockedTarball`           | `LockedTarball` (locked_dependencies.py:22) |
| `chunks`                  | `chunks` (packages.py:32) |
| `verifyDependencyContent` | `verify_dependency_content` (offline_build_contract.py:132) |
| `acquire`                 | one turn of the loop over `records` in `ToolCache.dependencies` (packages.py:361) |
| `mirror`                  | that loop |

The hash functions are parameters; a hash that is updated piece by piece is that of the pieces together. What a turn meets (a
cancellation, what the registry answers, the deadline) is given. A file of the mirror is kept with what `seen` and `index` say of it.
-/

namespace LingshuGate.OfflineBuild

open Lib

abbrev Bytes := List UInt8

structure LockedTarball where
  source : String
  integrity : String
  filename : String
  legacySha1 : Option String := none

structure Hashes where
  /-- `hashlib.new(algorithm)` -/
  digest : String → Bytes → Bytes
  /-- `hashlib.sha1(content).hexdigest()` -/
  sha1 : Bytes → String

def reject (code message : String) : Failure :=
  .denied ⟨code, message, "Review Native executor provisioning; host execution and automatic replay are prohibited."⟩

def snapshotChunkBytes : ℕ := 64 * 1024

def contentBytes : ℕ := 50 * 1024 * 1024

def mirrorBytes : ℕ := 200 * 1024 * 1024

def chunks (data : Bytes) : List Bytes :=
  if data = [] then [] else data.take snapshotChunkBytes :: chunks (data.drop snapshotChunkBytes)
termination_by data.length
decreasing_by
  rename_i hne
  have hpos := List.length_pos_iff.mpr hne
  rw [List.length_drop, snapshotChunkBytes]
  omega

/-- The loop over the chunks; it gives the bytes that are hashed. -/
def takeChunks (maxBytes : ℕ) : List Bytes → Bytes → Except Failure Bytes
  | [], data => .ok data
  | chunk :: rest, data => do
    require (chunk ≠ [] && chunk.length ≤ snapshotChunkBytes && data.length + chunk.length ≤ maxBytes)
      (deny "Dependency content exceeds its byte or producer chunk limit")
    takeChunks maxBytes rest (data ++ chunk)

variable (h : Hashes)

def verifyDependencyContent (integrity : String) (chunks : List Bytes) (maxBytes : ℕ) : Except Failure Unit := do
  require (0 < maxBytes && maxBytes ≤ contentBytes) (deny "Dependency content requires a positive bounded byte limit")
  let parsed ← parseStrongSri integrity
  let data ← takeChunks maxBytes chunks []
  require (h.digest parsed.1 data = parsed.2) (deny "Dependency content does not match its pinned SRI")

/-- What a turn meets: whether it is cancelled, what is answered at a URL, whether the deadline has passed. -/
structure Met where
  cancelled : Bool := false
  fetched : String → Except Failure Bytes
  late : Bool := false

/-- A file of the mirror, with the integrity that it was verified against. -/
structure MirrorFile where
  filename : String
  integrity : String
  content : Bytes

structure Mirror where
  files : List MirrorFile := []
  total : ℕ := 0

def acquire (met : Met) (item : LockedTarball) (m : Mirror) : Except Failure Mirror := do
  require (!met.cancelled) (reject "dependency_acquisition_cancelled" "")
  match m.files.find? (·.filename = item.filename) with
  | some file =>
    require (file.integrity = item.integrity && item.legacySha1.all (· = h.sha1 file.content))
      (reject "dependency_lock_unsupported" "Conflicting content hashes share a registry mirror filename")
    return m
  | none =>
    let content ← met.fetched item.source
    verifyDependencyContent h item.integrity (chunks content) contentBytes
    require (item.legacySha1.all (h.sha1 content = ·))
      (reject "dependency_integrity_unverified" "Yarn legacy tarball hash disagrees with its strong verified content")
    require (m.total + content.length ≤ mirrorBytes && !met.late)
      (reject "dependency_cache_limit" "Dependency tarballs exceed the bounded download budget")
    return ⟨m.files ++ [⟨item.filename, item.integrity, content⟩], m.total + content.length⟩

/-- The loop over the records; the turns meet what `world` says, each in its place. -/
def mirrorFrom (world : ℕ → Met) : ℕ → List LockedTarball → Mirror → Except Failure Mirror
  | _, [], m => .ok m
  | turn, item :: records, m => do
    let m ← acquire h (world turn) item m
    mirrorFrom world (turn + 1) records m

def mirror (world : ℕ → Met) (records : List LockedTarball) : Except Failure Mirror := mirrorFrom h world 0 records {}

/-! ## Content -/

/-- The content is what the integrity pins. -/
def Pinned (integrity : String) (content : Bytes) : Prop :=
  ∃ algorithm expected, parseStrongSri integrity = .ok (algorithm, expected) ∧ h.digest algorithm content = expected

theorem flatten_chunks (data : Bytes) : (chunks data).flatten = data := by
  fun_induction chunks data with
  | case1 => rfl
  | case2 data hne ih => rw [List.flatten_cons, ih, List.take_append_drop]

theorem takeChunks_ok {maxBytes : ℕ} {chunks : List Bytes} {data data' : Bytes} (htake : takeChunks maxBytes chunks data = .ok data') :
    data' = data ++ chunks.flatten := by
  induction chunks generalizing data with
  | nil =>
    cases htake
    simp
  | cons chunk rest ih =>
    obtain ⟨-, -, hrest⟩ := bind_eq_ok.mp htake
    rw [ih hrest, List.flatten_cons, List.append_assoc]

/-- The chunks of what was verified make up what the integrity pins. -/
theorem verifyDependencyContent_ok {integrity : String} {chunks : List Bytes} {maxBytes : ℕ} {u : Unit}
    (hverified : verifyDependencyContent h integrity chunks maxBytes = .ok u) : Pinned h integrity chunks.flatten := by
  simp only [verifyDependencyContent, bind_eq_ok, require_eq_ok, decide_eq_true_eq, exists_const] at hverified
  obtain ⟨-, parsed, hparsed, data, htake, hdigest⟩ := hverified
  rw [takeChunks_ok htake, List.nil_append] at hdigest
  exact ⟨parsed.1, parsed.2, hparsed, hdigest⟩

/-! ## The mirror -/

variable {h} {world : ℕ → Met}

/-- The bytes of a file satisfy what the lock says of a record. -/
def MirrorFile.Serves (h : Hashes) (file : MirrorFile) (item : LockedTarball) : Prop :=
  file.filename = item.filename ∧ Pinned h item.integrity file.content ∧ ∀ sha1 ∈ item.legacySha1, h.sha1 file.content = sha1

/-- A mirror of records: each is served by a file, and the files, one of a name, are what was downloaded for some of them. -/
structure MirrorOf (h : Hashes) (world : ℕ → Met) (records : List LockedTarball) (m : Mirror) : Prop where
  served : ∀ item ∈ records, ∃ file ∈ m.files, file.Serves h item
  downloaded : ∀ file ∈ m.files, Pinned h file.integrity file.content ∧ ∃ (i : ℕ) (item : LockedTarball), records[i]? = some item ∧
    item.filename = file.filename ∧ (world i).fetched item.source = .ok file.content
  apart : (m.files.map (·.filename)).Nodup
  total : (m.files.map (·.content.length)).sum = m.total ∧ m.total ≤ mirrorBytes

theorem acquire_mirrorOf {done : List LockedTarball} {item : LockedTarball} {m m' : Mirror} (hm : MirrorOf h world done m)
    (hacquire : acquire h (world done.length) item m = .ok m') : MirrorOf h world (done ++ [item]) m' := by
  have hearlier : ∀ (i : ℕ) (old : LockedTarball), done[i]? = some old → (done ++ [item])[i]? = some old := by
    intro i old hold
    rw [List.getElem?_append_left (List.getElem?_eq_some_iff.mp hold).1, hold]
  simp only [acquire, bind_eq_ok, require_eq_ok, exists_const] at hacquire
  obtain ⟨-, hacquire⟩ := hacquire
  split at hacquire
  · rename_i file hfind
    simp only [bind_eq_ok, require_eq_ok, exists_const, pure_eq_ok, Bool.and_eq_true, decide_eq_true_eq] at hacquire
    obtain ⟨⟨hintegrity, hlegacy⟩, rfl⟩ := hacquire
    have hfile := List.mem_of_find?_eq_some hfind
    refine { hm with served := ?_, downloaded := ?_ }
    · intro old hold
      rcases List.mem_append.mp hold with hold | hold
      · exact hm.served old hold
      · obtain rfl := List.mem_singleton.mp hold
        refine ⟨file, hfile, by simpa using List.find?_some hfind, hintegrity ▸ (hm.downloaded file hfile).1, ?_⟩
        intro sha1 hsha1
        simpa [Option.mem_def.mp hsha1, eq_comm] using hlegacy
    · intro file hfile
      obtain ⟨hpinned, i, old, hold, hrest⟩ := hm.downloaded file hfile
      exact ⟨hpinned, i, old, hearlier i old hold, hrest⟩
  rename_i hnone
  simp only [bind_eq_ok, require_eq_ok, exists_const, pure_eq_ok, Bool.and_eq_true, decide_eq_true_eq] at hacquire
  obtain ⟨content, hcontent, _, hverified, hlegacy, ⟨hbudget, -⟩, rfl⟩ := hacquire
  have hpinned : Pinned h item.integrity content := flatten_chunks content ▸ verifyDependencyContent_ok h hverified
  constructor
  · intro old hold
    rcases List.mem_append.mp hold with hold | hold
    · obtain ⟨file, hfile, hserves⟩ := hm.served old hold
      exact ⟨file, List.mem_append_left _ hfile, hserves⟩
    · obtain rfl := List.mem_singleton.mp hold
      refine ⟨_, List.mem_append_right _ (List.mem_singleton_self _), rfl, hpinned, ?_⟩
      intro sha1 hsha1
      simpa [Option.mem_def.mp hsha1] using hlegacy
  · intro file hfile
    rcases List.mem_append.mp hfile with hfile | hfile
    · obtain ⟨hold, i, old, hi, hrest⟩ := hm.downloaded file hfile
      exact ⟨hold, i, old, hearlier i old hi, hrest⟩
    · obtain rfl := List.mem_singleton.mp hfile
      exact ⟨hpinned, done.length, item, by simp, rfl, hcontent⟩
  · rw [List.map_append, List.nodup_append]
    refine ⟨hm.apart, List.nodup_singleton _, ?_⟩
    intro name hname name' hname' heq
    obtain ⟨file, hfile, rfl⟩ := List.mem_map.mp hname
    obtain rfl := List.mem_singleton.mp hname'
    simpa [heq] using List.find?_eq_none.mp hnone file hfile
  · refine ⟨?_, hbudget⟩
    rw [List.map_append, List.sum_append, hm.total.1]
    rfl

theorem mirrorFrom_mirrorOf {done records : List LockedTarball} {m m' : Mirror} (hm : MirrorOf h world done m)
    (hmirror : mirrorFrom h world done.length records m = .ok m') : MirrorOf h world (done ++ records) m' := by
  induction records generalizing done m with
  | nil =>
    cases hmirror
    simpa using hm
  | cons item records ih =>
    obtain ⟨next, hacquire, hrest⟩ := bind_eq_ok.mp hmirror
    have hstep := ih (acquire_mirrorOf hm hacquire) (by simpa using hrest)
    simpa using hstep

/-- **A mirror is of its lock.** Whatever the registry answers, where the loop returns, each record is served by a file, also where
packages share the name of a file, and no file is there for another reason. -/
theorem mirror_of_lock {h : Hashes} {world : ℕ → Met} {records : List LockedTarball} {m : Mirror} (hm : mirror h world records = .ok m) :
    MirrorOf h world records m := by
  have hempty : MirrorOf h world [] {} := ⟨by simp, by simp, List.nodup_nil, rfl, Nat.zero_le _⟩
  exact mirrorFrom_mirrorOf hempty hm

def abc : Bytes := [97, 98, 99]

def abcIntegrity : String := "sha256-ungWv48Bz+pBQUDeXa4iI7ADYaOWF3qctBD/YfIAFa0="

def abcSha1 : String := "a9993e364706816aba3e25717850c26c9cd0d89d"

/-- The digests of that content. -/
def abcHashes : Hashes where
  digest _ _ := ((parseStrongSri abcIntegrity).toOption.map (·.2)).getD []
  sha1 _ := abcSha1

/-- Two packages that share a file name; one is pinned by its SHA-1 too. -/
def abcRecords : List LockedTarball :=
  [⟨"https://registry/@a/x/-/x-1.tgz", abcIntegrity, "@a-x-1.tgz", none⟩,
    ⟨"https://registry/@a/y/-/x-1.tgz", abcIntegrity, "@a-x-1.tgz", some abcSha1⟩]

theorem chunks_abc : chunks abc = [abc] := by
  simp [chunks, abc, snapshotChunkBytes]

theorem verifyDependencyContent_abc : verifyDependencyContent abcHashes abcIntegrity [abc] contentBytes = .ok () := by
  have hok : (verifyDependencyContent abcHashes abcIntegrity [abc] contentBytes).isOk = true := by decide +kernel
  cases hresult : verifyDependencyContent abcHashes abcIntegrity [abc] contentBytes with
  | error e => rw [hresult] at hok; cases hok
  | ok => rfl

theorem mirror_of_lock_abc : MirrorOf abcHashes (fun _ => { fetched := fun _ => .ok abc }) abcRecords
    ⟨[⟨"@a-x-1.tgz", abcIntegrity, abc⟩], 3⟩ := by
  refine mirror_of_lock ?_
  have hfirst : acquire abcHashes { fetched := fun _ => .ok abc } ⟨"https://registry/@a/x/-/x-1.tgz", abcIntegrity, "@a-x-1.tgz", none⟩ {} =
      .ok ⟨[⟨"@a-x-1.tgz", abcIntegrity, abc⟩], 3⟩ := by
    simp [acquire, chunks_abc, verifyDependencyContent_abc, require]
    rfl
  simp [mirror, mirrorFrom, abcRecords, hfirst]
  simp [acquire, require]
  rfl

end LingshuGate.OfflineBuild

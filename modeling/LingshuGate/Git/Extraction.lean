import LingshuGate.Git.Buildable
import LingshuGate.Delivery.UploadNames

/-!
# An archive on the disk (`project_uploads.py`)

| here | there |
| --- | --- |
| `resolve`       | `Path.resolve()` |
| `copyMember`    | the loop over `source.read` of `_safe_extract` (project_uploads.py:347) |
| `extractMember` | the second loop of `_safe_extract` (:327) |
| `extractTo`     | `_safe_extract` (:297) with the directory it is given |
| `receive`       | the loop over the uploaded stream (:64) |
| `saveZipStream` | `save_zip_stream` (:53) |

Paths are absolute here, and the disk has links. `planEntry` is the first loop: a plan holds each member once, after case folding,
and no file above another member (`Planned`). Below an empty directory there are no links, so that what the plan names is where
the bytes go: `extraction_safe`.

The tables of Unicode, `zipfile`, and what the host refuses are parameters.
-/

namespace LingshuGate.Git

open Lib

/-! ## Paths -/

def isLink (tree : Tree) (path : Path) : Bool := tree.find path = some (path, .symlink)

/-- Name by name; `follow` gets a link and what is behind it. -/
def walk (tree : Tree) (follow : Path → Path → Except String Path) : Path → Path → Except String Path
  | done, [] => .ok done
  | done, name :: rest =>
    if name = ".." then walk tree follow done.dropLast rest
    else if isLink tree (done ++ [name]) then follow (done ++ [name]) rest
    else walk tree follow (done ++ [name]) rest

/-- A link leads on from the top, or from where it is. -/
structure Link where
  absolute : Bool
  names : Path

/-- What is not there is taken as it is spelled. -/
def resolve (tree : Tree) (readlink : Path → Link) : Nat → Path → Path → Except String Path
  | 0 => walk tree fun link _ => .error s!"Symlink loop from {join link}"
  | links + 1 => walk tree fun link rest =>
    resolve tree readlink links (if (readlink link).absolute then [] else link.dropLast) ((readlink link).names ++ rest)

/-! ## Extraction -/

structure Host where
  readlink : Path → Link
  /-- How many links a path may lead through. -/
  links : Nat
  /-- The members of an archive, or that it is not one. -/
  zipfile : Bytes → Except String (List ZipEntry)
  opens : ZipEntry → Bool
  takes : Path → Bool
  inserts : Bool

/-- `written`: each file that extraction has opened for writing, with the bytes that went there. Nothing of the code reads it. -/
structure Disk where
  tree : Tree
  uploads : Table (String × Upload) Prod.fst
  written : List (Path × Bytes) := []

def uploadChunkBytes : Nat := 1024 * 1024

/-- A read asks for at most one byte more than is left, `fuel` reads at most: the bytes written, and how the loop ends. -/
def copyMember (name : String) : Nat → Bytes → Nat → Bytes → Bytes × Except String Unit
  | 0, _, _, done => (done, .ok ())
  | fuel + 1, source, remaining, done =>
    let chunk := source.take (min uploadChunkBytes (remaining + 1))
    if chunk = [] then (done, require (remaining = 0) s!"zip member size mismatch: {name}")
    else if remaining < chunk.length then (done, .error s!"zip member exceeds declared size: {name}")
    else copyMember name fuel (source.drop chunk.length) (remaining - chunk.length) (done ++ chunk)

def resolved (host : Host) (path : Path) : Act String Disk Path := do
  let disk ← get
  Act.ofExcept (resolve disk.tree host.readlink host.links [] path)

def onTree (f : Tree → Except String Tree) : Act String Disk Unit := do
  let disk ← get
  let tree ← Act.ofExcept (f disk.tree)
  set { disk with tree }

/-- `mkdir(exist_ok=True)`, one after the other. -/
def makeDirectories (paths : List Path) : Act String Disk Unit := paths.forM fun path => onTree (makeDirectory · path)

section Extract

variable (t : Text) (host : Host)

def extractMember (root : Path) (member : ZipEntry × Path) : Act String Disk Unit := do
  if member.1.isDir || ignored t member.2 then return
  let unsafePath := s!"unsafe zip path: {member.1.filename}"
  let destination ← resolved host (root ++ member.2)
  Act.require (root.isPrefixOf destination) unsafePath
  Act.require (destination ≠ root) unsafePath
  makeDirectories (ancestors destination)
  let parent ← resolved host destination.dropLast
  Act.require (root.isPrefixOf parent) unsafePath
  Act.require (host.opens member.1 && host.takes destination) "OSError"
  let copied := copyMember member.1.filename (member.1.data.length + 1) member.1.data member.1.size []
  onTree (writeFile · destination copied.1)
  modify fun disk => { disk with written := disk.written ++ [(destination, copied.1)] }
  Act.ofExcept copied.2

def extractTo (target : Path) (archive : Except String (List ZipEntry)) : Act String Disk Unit := do
  let root ← resolved host target
  let entries ← Act.ofExcept archive
  Act.require (entries.length ≤ maxFiles) "too many files in zip"
  let plan ← Act.ofExcept (entries.foldlM (planEntry t) {})
  plan.planned.forM (extractMember t host root)

/-! ## Uploads -/

/-- A chunk that is not there is a read that fails. The bytes written, and how the loop ends. -/
def receive : List (Option Bytes) → Bytes → Bytes × Except String Unit
  | [], content => (content, .ok ())
  | none :: _, content => (content, .error "OSError")
  | some chunk :: rest, content =>
    if chunk = [] then (content, .ok ())
    else if maxZipBytes < content.length + chunk.length then (content, .error "zip too large")
    else receive rest (content ++ chunk)

/-- From the staged archive to the committed row. -/
def stageUpload (dir : Path) (id : String) (source : List (Option Bytes)) : Act String Disk Upload := do
  let received := receive source []
  Act.require (host.takes (dir ++ ["source.zip"])) "OSError"
  onTree (writeFile · (dir ++ ["source.zip"]) received.1)
  Act.ofExcept received.2
  makeDirectories [dir ++ ["extracted"]]
  extractTo t host (dir ++ ["extracted"]) (host.zipfile received.1)
  let disk ← get
  let analysis ← Act.ofExcept (analyzeProject disk.tree (dir ++ ["extracted"]) true)
  let upload : Upload := ⟨analysis.projectRootDir, analysis.detectedRuntime, analysis⟩
  Act.require host.inserts "OperationalError"
  let uploads ← Act.ofExcept (Lib.expect (disk.uploads.insert (id, upload)) "IntegrityError")
  set { disk with uploads }
  return upload

/-- `shutil.rmtree` -/
def removeTree (tree : Tree) (dir : Path) : Tree := tree.delete fun row => dir.isPrefixOf row.1

/-- `uploads` is where the directory of the store is. -/
def saveZipStream (x : Delivery.Casing) (uploads : Path) (id filename : String) (source : List (Option Bytes)) :
    Act String Disk Upload := do
  Act.ofExcept (Delivery.validateUploadFilename x filename)
  onTree fun tree => Lib.expect (tree.insert (uploads ++ [id], .directory)) "FileExistsError"
  tryCatch (stageUpload t host (uploads ++ [id]) id source) fun e => do
    modify fun disk => { disk with tree := removeTree disk.tree (uploads ++ [id]) }
    throw e

end Extract

/-! ## Paths without links -/

variable {t : Text} {host : Host} {tree tree' : Tree} {root path : Path} {disk disk' : Disk}

/-- A path that means what it spells. -/
structure Direct (tree : Tree) (path : Path) : Prop where
  names : ".." ∉ path
  links : ∀ start, start ≠ [] → start <+: path → isLink tree start = false

variable {archive : Except String (List ZipEntry)} {path : Path} {follow : Path → Path → Except String Path}

theorem walk_direct {done names : Path} (h : Direct tree (done ++ names)) :
    walk tree follow done names = .ok (done ++ names) := by
  induction names generalizing done with
  | nil => rw [List.append_nil, walk]
  | cons name names ih =>
    have hsplit : done ++ name :: names = done ++ [name] ++ names := by simp
    have hname : name ≠ ".." := by
      rintro rfl
      exact h.names (by simp)
    have hlink : isLink tree (done ++ [name]) = false := h.links _ (by simp) ⟨names, by simp⟩
    rw [walk, if_neg hname, hlink, if_neg Bool.false_ne_true, hsplit]
    exact ih (hsplit ▸ h)

theorem resolve_direct (h : Direct tree path) : resolve tree host.readlink host.links [] path = .ok path := by
  cases host.links with
  | zero | succ links => exact @walk_direct tree _ [] path h

theorem walk_names {done names out : Path}
    (hfollow : ∀ link rest out, ".." ∉ link → follow link rest = .ok out → ".." ∉ out) (hdone : ".." ∉ done)
    (h : walk tree follow done names = .ok out) : ".." ∉ out := by
  induction names generalizing done with
  | nil =>
    rw [walk] at h
    cases h
    exact hdone
  | cons name names ih =>
    rw [walk] at h
    split at h
    · exact ih (fun hmem => hdone (List.dropLast_subset _ hmem)) h
    have hnext : ".." ∉ done ++ [name] := by
      simp only [List.mem_append, List.mem_singleton, not_or]
      exact ⟨hdone, Ne.symm ‹_›⟩
    split at h
    · exact hfollow _ _ _ hnext h
    · exact ih hnext h

theorem resolve_names {readlink : Path → Link} {links : Nat} {done names out : Path} (hdone : ".." ∉ done)
    (h : resolve tree readlink links done names = .ok out) : ".." ∉ out := by
  induction links generalizing done names out with
  | zero =>
    refine walk_names ?_ hdone h
    intro link rest out _ hfollow
    cases hfollow
  | succ links ih =>
    refine walk_names ?_ hdone h
    intro link rest out hlink hfollow
    refine ih ?_ hfollow
    split
    · exact List.not_mem_nil
    · exact fun hmem => hlink (List.dropLast_subset _ hmem)

/-! ## Plans -/

/-- The path that tells members apart. -/
def folded (t : Text) (e : ZipEntry) : Path := (memberPath e).map t.casefold

/-- What the first loop has let through: each member once, no file above another member, and no more than may be written. -/
structure Planned (t : Text) (entries : List ZipEntry) (p : Plan) : Prop where
  planned : p.planned = entries.map fun e => (e, memberPath e)
  keys : p.entries = entries.map fun e => (folded t e, e.isDir)
  names : ∀ e ∈ entries, memberPath e ≠ [] ∧ ".." ∉ memberPath e
  distinct : (entries.map (folded t)).Nodup
  apart : ∀ e ∈ entries, ∀ e' ∈ entries, e.isDir = false → below (folded t e) (folded t e') = false
  total : p.total = ((entries.filter fun e => !e.isDir).map (·.size)).sum
  bounded : p.total ≤ maxExtractedBytes

variable {e : ZipEntry}

theorem validatedZipMember_names {path key : Path} (h : validatedZipMember t e = .ok (path, key)) :
    ".." ∉ path ∧ ∀ part ∈ path, t.nfc part = part := by
  simp only [validatedZipMember, bind_eq_ok, require_eq_ok, pure_eq_ok, exists_const, Bool.and_eq_true] at h
  obtain ⟨-, -, ⟨-, hdots⟩, hparts, hpair⟩ := h
  obtain ⟨rfl, -⟩ := Prod.mk.inj hpair
  refine ⟨by simpa using hdots, ?_⟩
  intro part hpart
  have hsafe := List.all_eq_true.mp hparts part hpart
  simp only [safePart, Bool.and_eq_true, decide_eq_true_eq] at hsafe
  exact hsafe.1.1.1.1.1.symm

theorem below_iff_start : below root path = true ↔ root <+: path ∧ root.length < path.length := by
  rw [below, Bool.and_eq_true, List.isPrefixOf_iff_prefix, decide_eq_true_eq]

theorem dictGet_of_mem {β : Type} {pairs : List (Path × β)} (hnodup : (pairs.map (·.1)).Nodup) {key : Path} {b : β}
    (h : (key, b) ∈ pairs) : Py.dictGet pairs key = some b := by
  cases hget : Py.dictGet pairs key with
  | none => exact absurd (List.mem_map.mpr ⟨_, h, rfl⟩) (dictGet_eq_none.mp hget)
  | some b' =>
    have hmem := Py.mem_of_dictGet hget
    rw [(Prod.mk.inj (List.inj_on_of_nodup_map hnodup hmem h rfl)).2]

variable {entries : List ZipEntry}

/-- No file that is planned is above the member. -/
theorem planEntry_ancestors {p : Plan} {e e' : ZipEntry} (hp : Planned t entries p) (he' : e' ∈ entries)
    (hfile : e'.isDir = false) (hnfc : ∀ part ∈ memberPath e, t.nfc part = part)
    (hchecked : ∀ offset, 1 ≤ offset → offset < (memberPath e).length →
      Py.dictGet p.entries (((memberPath e).take offset).map fun part => t.casefold (t.nfc part)) ≠ some false) :
    below (folded t e') (folded t e) = false := by
  rw [← Bool.not_eq_true, below_iff_start]
  rintro ⟨hpre, hlength⟩
  simp only [folded, List.length_map] at hlength
  have hpositive : 1 ≤ (memberPath e').length := List.length_pos_iff.mpr (hp.names e' he').1
  have htake : ((memberPath e).take (memberPath e').length).map (fun part => t.casefold (t.nfc part)) = folded t e' := by
    have hsame : ((memberPath e).take (memberPath e').length).map (fun part => t.casefold (t.nfc part)) =
        ((memberPath e).take (memberPath e').length).map t.casefold := by
      refine List.map_congr_left ?_
      intro part hpart
      rw [hnfc part (List.mem_of_mem_take hpart)]
    rw [hsame, List.map_take]
    have := List.prefix_iff_eq_take.mp hpre
    rw [this, folded, folded, List.length_map]
  refine hchecked _ hpositive hlength ?_
  rw [htake]
  refine dictGet_of_mem ?_ ?_
  · rw [hp.keys, List.map_map]
    exact hp.distinct
  · rw [hp.keys]
    exact List.mem_map.mpr ⟨e', he', by rw [hfile]⟩

theorem Planned.step {p p' : Plan} (hp : Planned t entries p) (h : planEntry t p e = .ok p') : Planned t (entries ++ [e]) p' := by
  simp only [planEntry, bind_eq_ok, require_eq_ok, pure_eq_ok, exists_const, Prod.exists] at h
  obtain ⟨path, key, hmember, hnew, hancestors, hcollides, hbounded, rfl⟩ := h
  obtain ⟨hdots, hnfc⟩ := validatedZipMember_names hmember
  obtain ⟨rfl, rfl, hne, -⟩ := validatedZipMember_ok t hmember
  have hkeys : p.entries.map (·.1) = entries.map (folded t) := by
    rw [hp.keys, List.map_map]
    rfl
  have hfresh : folded t e ∉ entries.map (folded t) := by
    rw [← hkeys]
    exact dictGet_eq_none.mp (Option.isNone_iff_eq_none.mp hnew)
  have habove : ∀ e' ∈ entries, e'.isDir = false → below (folded t e') (folded t e) = false := by
    intro e' he' hfile
    refine planEntry_ancestors hp he' hfile hnfc ?_
    intro offset hone hlt hget
    rw [Bool.not_eq_true', List.any_eq_false] at hancestors
    refine hancestors offset (List.mem_range'_1.mpr ⟨hone, ?_⟩) (by simpa [memberPath] using hget)
    have : offset < (parts e.filename).length := hlt
    omega
  have hbelow : e.isDir = false → ∀ e' ∈ entries, below (folded t e) (folded t e') = false := by
    intro hfile e' he'
    rw [hfile, Bool.false_or, Bool.not_eq_true', List.any_eq_false] at hcollides
    have := hcollides (folded t e', e'.isDir) (by rw [hp.keys]; exact List.mem_map.mpr ⟨e', he', rfl⟩)
    simpa [folded, memberPath] using this
  have hself : below (folded t e) (folded t e) = false := by simp [below]
  refine ⟨?_, ?_, ?_, ?_, ?_, ?_, of_decide_eq_true hbounded⟩
  · rw [hp.planned, List.map_append]
    rfl
  · rw [hp.keys, List.map_append]
    rfl
  · intro e' he'
    rcases List.mem_append.mp he' with he' | he'
    · exact hp.names e' he'
    · rw [List.mem_singleton.mp he']
      exact ⟨hne, hdots⟩
  · rw [List.map_append, List.nodup_append]
    refine ⟨hp.distinct, List.nodup_singleton _, ?_⟩
    intro a ha b hb
    rw [List.mem_singleton.mp hb]
    exact fun heq => hfresh (heq ▸ ha)
  · intro a ha b hb hfile
    rcases List.mem_append.mp ha with ha | ha
    · rcases List.mem_append.mp hb with hb | hb
      · exact hp.apart a ha b hb hfile
      · rw [List.mem_singleton.mp hb]
        exact habove a ha hfile
    · obtain rfl := List.mem_singleton.mp ha
      rcases List.mem_append.mp hb with hb | hb
      · exact hbelow hfile b hb
      · rw [List.mem_singleton.mp hb]
        exact hself
  · simp only [hp.total, List.filter_append, List.map_append, List.sum_append]
    cases hdir : e.isDir <;> simp [hdir]

theorem Planned.run {done entries : List ZipEntry} {p p' : Plan} (hp : Planned t done p)
    (h : entries.foldlM (planEntry t) p = .ok p') : Planned t (done ++ entries) p' := by
  induction entries generalizing done p with
  | nil =>
    cases h
    rwa [List.append_nil]
  | cons e entries ih =>
    rw [List.foldlM_cons, bind_eq_ok] at h
    obtain ⟨p₁, hfirst, hrest⟩ := h
    rw [List.append_cons]
    exact ih (hp.step hfirst) hrest

theorem Planned.nil : Planned t [] {} := ⟨rfl, rfl, by simp, List.nodup_nil, by simp, rfl, Nat.zero_le _⟩

/-! ## What extraction leaves -/

/-- The directory is there, with all above it, and nothing is in it. -/
structure EmptyDirectory (tree : Tree) (root : Path) : Prop where
  directories : ∀ path, path ≠ [] → path <+: root → tree.find path = some (path, .directory)
  empty : ∀ path, below root path = true → tree.find path = none

/-- What was there is there, and no link is below the directory. -/
structure Inside (base : Tree) (root : Path) (tree : Tree) : Prop where
  outside : ∀ path, below root path = false → tree.find path = base.find path
  plain : ∀ path, below root path = true → isLink tree path = false

variable {base : Tree}

theorem EmptyDirectory.inside (h : EmptyDirectory base root) : Inside base root base where
  outside _ _ := rfl
  plain path hbelow := by simp [isLink, h.empty path hbelow]

/-- A path in the directory leads through the directory, or is one above it. -/
theorem prefix_cases {start names : Path} (h : start <+: root ++ names) : below root start = true ∨ start <+: root := by
  by_cases hlength : root.length < start.length
  · refine .inl (below_iff_start.mpr ⟨?_, hlength⟩)
    exact List.prefix_of_prefix_length_le (List.prefix_append root names) h (Nat.le_of_lt hlength)
  · exact .inr (List.prefix_of_prefix_length_le h (List.prefix_append root names) (Nat.le_of_not_lt hlength))

theorem not_below_of_start {start : Path} (h : start <+: root) : below root start = false := by
  rw [← Bool.not_eq_true, below_iff_start]
  have := h.length_le
  omega

theorem Inside.above (h : Inside base root tree) (hempty : EmptyDirectory base root) {start : Path} (hne : start ≠ [])
    (hpre : start <+: root) : tree.find start = some (start, .directory) :=
  (h.outside start (not_below_of_start hpre)).trans (hempty.directories start hne hpre)

theorem Inside.direct (h : Inside base root tree) (hempty : EmptyDirectory base root) (hroot : ".." ∉ root) {names : Path}
    (hnames : ".." ∉ names) : Direct tree (root ++ names) where
  names := by
    rw [List.mem_append, not_or]
    exact ⟨hroot, hnames⟩
  links start hne hpre := by
    rcases prefix_cases hpre with hbelow | habove
    · exact h.plain start hbelow
    · simp [isLink, h.above hempty hne habove]

theorem Inside.insert {node : Node} (h : Inside base root tree) (hbelow : below root path = true)
    (hnode : node ≠ .symlink) (hfind : ∀ q, tree'.find q = if q = path then some (path, node) else tree.find q) :
    Inside base root tree' where
  outside q hq := by
    have hne : q ≠ path := by
      rintro rfl
      rw [hbelow] at hq
      cases hq
    rw [hfind, if_neg hne]
    exact h.outside q hq
  plain q hq := by
    unfold isLink
    rw [hfind]
    by_cases hpath : q = path
    · simp [hpath, hnode]
    · rw [if_neg hpath]
      exact h.plain q hq

theorem find_makeDirectory (h : makeDirectory tree path = .ok tree') :
    tree' = tree ∨ ∀ q, tree'.find q = if q = path then some (path, .directory) else tree.find q := by
  unfold makeDirectory at h
  split at h
  · rw [expect_eq_ok] at h
    exact .inr fun q => Table.find_insert h q
  · cases h
    exact .inl rfl
  · cases h

theorem find_writeFile {data : Bytes} (h : writeFile tree path data = .ok tree') (q : Path) :
    tree'.find q = if q = path then some (path, .file data) else tree.find q := by
  unfold writeFile at h
  split at h
  · rw [expect_eq_ok] at h
    exact Table.find_insert h q
  · rename_i row old hfind
    cases h
    refine (Table.find_update_key tree path q).trans ?_
    by_cases hq : q = path
    · rw [if_pos hq, if_pos hq, hq, hfind, Option.map_some, (Table.find_eq_some.mp hfind).2]
    · rw [if_neg hq, if_neg hq]
  · cases h

variable {u : Unit}

theorem onTree_ok {f : Tree → Except String Tree} :
    onTree f disk = .ok u disk' ↔ ∃ tree, f disk.tree = .ok tree ∧ disk' = { disk with tree } := by
  simp only [onTree, Act.bind_ok, Act.get_ok, Act.ofExcept_ok, Act.set_ok]
  constructor
  · rintro ⟨_, _, ⟨rfl, rfl⟩, tree, _, ⟨htree, rfl⟩, rfl⟩
    exact ⟨tree, htree, rfl⟩
  · rintro ⟨tree, htree, rfl⟩
    exact ⟨disk, disk, ⟨rfl, rfl⟩, tree, disk, ⟨htree, rfl⟩, rfl⟩

/-- The directories on the way to a path in the directory. -/
theorem makeDirectories_inside {paths : List Path} (hinside : Inside base root disk.tree)
    (hempty : EmptyDirectory base root) (hpaths : ∀ path ∈ paths, path ≠ [] ∧ (below root path = true ∨ path <+: root))
    (h : makeDirectories paths disk = .ok u disk') :
    Inside base root disk'.tree ∧ disk' = { disk with tree := disk'.tree } := by
  induction paths generalizing disk with
  | nil =>
    obtain rfl := Act.forM_nil_ok.mp h
    exact ⟨hinside, rfl⟩
  | cons path paths ih =>
    obtain ⟨disk₁, hfirst, hrest⟩ := Act.forM_cons_ok.mp h
    obtain ⟨tree, htree, rfl⟩ := onTree_ok.mp hfirst
    obtain ⟨hne, hpath⟩ := hpaths path List.mem_cons_self
    have hinside' : Inside base root tree := by
      rcases hpath with hbelow | habove
      · rcases find_makeDirectory htree with rfl | hfind
        · exact hinside
        · exact hinside.insert hbelow (by simp) hfind
      · rw [makeDirectory, hinside.above hempty hne habove] at htree
        cases htree
        exact hinside
    obtain ⟨hlast, hdisk⟩ := ih hinside' (fun p hp => hpaths p (List.mem_cons_of_mem _ hp)) hrest
    exact ⟨hlast, by rw [hdisk]⟩

theorem copyMember_ok {name : String} {fuel : Nat} {source : Bytes} {remaining : Nat} {done : Bytes} (hfuel : source.length < fuel)
    (h : (copyMember name fuel source remaining done).2 = .ok ()) :
    (copyMember name fuel source remaining done).1 = done ++ source ∧ source.length = remaining := by
  induction fuel generalizing source remaining done with
  | zero => exact absurd hfuel (Nat.not_lt_zero _)
  | succ fuel ih =>
    rw [copyMember] at h ⊢
    by_cases hend : source.take (min uploadChunkBytes (remaining + 1)) = []
    · have hnil : source = [] := by
        rcases List.take_eq_nil_iff.mp hend with hzero | hnil
        · have : 0 < uploadChunkBytes := by decide
          omega
        · exact hnil
      simp only [hend, if_true, require_eq_ok, decide_eq_true_eq] at h ⊢
      rw [hnil, h]
      exact ⟨(List.append_nil _).symm, rfl⟩
    simp only [hend, if_false] at h ⊢
    have hpos : 0 < (source.take (min uploadChunkBytes (remaining + 1))).length := List.length_pos_iff.mpr hend
    have hle : (source.take (min uploadChunkBytes (remaining + 1))).length ≤ source.length := (List.take_prefix _ source).length_le
    split at h
    · cases h
    rename_i hfits
    rw [if_neg hfits]
    obtain ⟨hcontent, hlength⟩ := ih (by rw [List.length_drop]; omega) h
    rw [List.length_drop] at hlength
    refine ⟨?_, by omega⟩
    rw [hcontent, List.append_assoc, List.prefix_iff_eq_append.mp (List.take_prefix _ source)]

theorem mem_ancestors {above : Path} (h : above ∈ ancestors path) : above ≠ [] ∧ above <+: path := by
  obtain ⟨n, hn, rfl⟩ := List.mem_map.mp h
  have hrange := List.mem_range'_1.mp hn
  refine ⟨?_, List.take_prefix n path⟩
  intro hnil
  rcases List.take_eq_nil_iff.mp hnil with hzero | hpath
  · omega
  · rw [hpath, List.length_nil] at hrange
    omega

theorem resolved_ok {path out : Path} : resolved host path disk = .ok out disk' ↔
    resolve disk.tree host.readlink host.links [] path = .ok out ∧ disk' = disk := by
  simp only [resolved, Act.bind_ok, Act.get_ok, Act.ofExcept_ok]
  constructor
  · rintro ⟨_, _, ⟨rfl, rfl⟩, h, rfl⟩
    exact ⟨h, rfl⟩
  · rintro ⟨h, rfl⟩
    exact ⟨disk', disk', ⟨rfl, rfl⟩, h, rfl⟩

/-- `is_directory or any(part.casefold() in ignored …)` is false. -/
def kept (t : Text) (e : ZipEntry) : Bool := !(e.isDir || ignored t (memberPath e))

/-- One file more, with what the archive has for it, or nothing. -/
theorem extractMember_ok (hinside : Inside base root disk.tree) (hempty : EmptyDirectory base root)
    (hroot : ".." ∉ root) (hmember : memberPath e ≠ [] ∧ ".." ∉ memberPath e)
    (h : extractMember t host root (e, memberPath e) disk = .ok u disk') : Inside base root disk'.tree ∧
      (kept t e = true → e.data.length = e.size) ∧
      disk'.written = disk.written ++ if kept t e then [(root ++ memberPath e, e.data)] else [] := by
  obtain ⟨hne, hdots⟩ := hmember
  unfold extractMember at h
  cases hkept : kept t e with
  | false =>
    have hdropped : (e.isDir || ignored t (memberPath e)) = true := by simpa only [kept, Bool.not_eq_false'] using hkept
    simp only [hdropped, if_true] at h
    obtain ⟨-, rfl⟩ := Act.pure_ok.mp h
    exact ⟨hinside, nofun, (List.append_nil _).symm⟩
  | true =>
    have hfile : (e.isDir || ignored t (memberPath e)) = false := by simpa [kept] using hkept
    have hbelow : below root (root ++ memberPath e) = true := by
      refine below_iff_start.mpr ⟨List.prefix_append _ _, ?_⟩
      rw [List.length_append]
      have := List.length_pos_iff.mpr hne
      omega
    simp only [hfile, Bool.false_eq_true, if_false, Act.bind_ok, Act.require_ok, Act.modify_ok, Act.ofExcept_ok] at h
    obtain ⟨destination, disk₁, hdestination, _, _, ⟨-, rfl⟩, _, _, ⟨-, rfl⟩, _, disk₂, hdirectories, parent, disk₃, hparent, _, _,
      ⟨-, rfl⟩, _, _, ⟨-, rfl⟩, _, disk₄, hwrite, _, _, rfl, hcopied, rfl⟩ := h
    obtain ⟨hresolve, rfl⟩ := resolved_ok.mp hdestination
    obtain ⟨-, rfl⟩ := resolved_ok.mp hparent
    rw [resolve_direct (hinside.direct hempty hroot hdots)] at hresolve
    cases hresolve
    obtain ⟨hinside₂, hdisk⟩ := makeDirectories_inside hinside hempty (by
      intro path hpath
      obtain ⟨hnil, hpre⟩ := mem_ancestors hpath
      exact ⟨hnil, prefix_cases hpre⟩) hdirectories
    obtain ⟨tree, htree, rfl⟩ := onTree_ok.mp hwrite
    obtain ⟨hcontent, hlength⟩ := copyMember_ok (Nat.lt_succ_self _) hcopied
    rw [hdisk]
    exact ⟨hinside₂.insert hbelow (by simp) (find_writeFile htree), fun _ => hlength, by simp [hcontent]⟩

/-- The files of the members that no name drops, each with what the archive has for it. -/
theorem extractMembers_ok (hinside : Inside base root disk.tree) (hempty : EmptyDirectory base root) (hroot : ".." ∉ root)
    (hmembers : ∀ e ∈ entries, memberPath e ≠ [] ∧ ".." ∉ memberPath e)
    (h : (entries.map fun e => (e, memberPath e)).forM (extractMember t host root) disk = .ok u disk') :
    Inside base root disk'.tree ∧ (∀ e ∈ entries, kept t e = true → e.data.length = e.size) ∧
      disk'.written = disk.written ++ (entries.filter (kept t)).map fun e => (root ++ memberPath e, e.data) := by
  induction entries generalizing disk with
  | nil =>
    obtain rfl := Act.forM_nil_ok.mp h
    exact ⟨hinside, by simp, (List.append_nil _).symm⟩
  | cons e entries ih =>
    obtain ⟨disk₁, hfirst, hrest⟩ := Act.forM_cons_ok.mp h
    obtain ⟨hinside₁, hsize, hwritten⟩ := extractMember_ok hinside hempty hroot (hmembers e List.mem_cons_self) hfirst
    obtain ⟨hlast, hsizes, hall⟩ := ih hinside₁ (fun e' he' => hmembers e' (List.mem_cons_of_mem _ he')) hrest
    refine ⟨hlast, ?_, ?_⟩
    · intro e' he'
      rcases List.mem_cons.mp he' with rfl | he'
      · exact hsize
      · exact hsizes e' he'
    · rw [hall, hwritten, List.append_assoc]
      cases hkept : kept t e <;> simp [hkept]

/-- What an accepted archive has done to the disk. -/
structure Safe (t : Text) (root : Path) (entries : List ZipEntry) (before after : Disk) : Prop where
  /-- Each file is strictly inside, and all that was there is as it was. -/
  inside : ∀ file ∈ after.written, below root file.1 = true
  outside : ∀ path, below root path = false → after.tree.find path = before.tree.find path
  once : (after.written.map (·.1)).Nodup
  distinct : (entries.map (folded t)).Nodup
  /-- No file is above another member: with the names folded, and so as they are. -/
  apart : ∀ e ∈ entries, ∀ e' ∈ entries, e.isDir = false →
    below (folded t e) (folded t e') = false ∧ below (memberPath e) (memberPath e') = false
  bounded : (after.written.map (·.2.length)).sum ≤ maxExtractedBytes

theorem below_folded {e e' : ZipEntry} (h : below (memberPath e) (memberPath e') = true) :
    below (folded t e) (folded t e') = true := by
  obtain ⟨hpre, hlength⟩ := below_iff_start.mp h
  refine below_iff_start.mpr ⟨hpre.map t.casefold, ?_⟩
  simpa [folded] using hlength

variable {target : Path}

theorem extractTo_ok
    (hroot : resolve disk.tree host.readlink host.links [] target = .ok root) (hempty : EmptyDirectory disk.tree root)
    (hnothing : disk.written = []) (harchive : archive = .ok entries) (h : extractTo t host target archive disk = .ok u disk') :
    (∃ plan, Planned t entries plan) ∧ Inside disk.tree root disk'.tree ∧
      (∀ e ∈ entries, kept t e = true → e.data.length = e.size) ∧
      disk'.written = (entries.filter (kept t)).map fun e => (root ++ memberPath e, e.data) := by
  simp only [extractTo, Act.bind_ok, Act.require_ok, Act.ofExcept_ok, harchive] at h
  obtain ⟨root', _, hresolved, _, _, ⟨hentries, rfl⟩, _, _, ⟨-, rfl⟩, plan, _, ⟨hplan, rfl⟩, hwrite⟩ := h
  obtain ⟨hresolve, rfl⟩ := resolved_ok.mp hresolved
  rw [hroot] at hresolve
  cases hresolve
  cases hentries
  have hplanned : Planned t entries plan := by simpa using Planned.nil.run hplan
  rw [hplanned.planned] at hwrite
  obtain ⟨hinside, hsizes, hwritten⟩ :=
    extractMembers_ok hempty.inside hempty (resolve_names List.not_mem_nil hroot) hplanned.names hwrite
  rw [hnothing, List.nil_append] at hwritten
  exact ⟨⟨plan, hplanned⟩, hinside, hsizes, hwritten⟩

/-- Below the empty directory are the files of `safeExtract`. -/
theorem extractTo_safeExtract {zip : Zip} {takes : Path → Bool}
    (hroot : resolve disk.tree host.readlink host.links [] target = .ok root) (hempty : EmptyDirectory disk.tree root)
    (hnothing : disk.written = []) (h : extractTo t host target (.ok zip.entries) disk = .ok u disk')
    (hextract : safeExtract t takes zip = .ok tree) (path : Path) (data : Bytes) :
    (path, .file data) ∈ tree ↔ (root ++ path, data) ∈ disk'.written := by
  obtain ⟨-, -, -, hwritten⟩ := extractTo_ok hroot hempty hnothing rfl h
  rw [(safeExtract_ok hextract).1.files, hwritten]
  simp [Kept, kept, and_assoc]

theorem extractTo_safe
    (hroot : resolve disk.tree host.readlink host.links [] target = .ok root) (hempty : EmptyDirectory disk.tree root)
    (hnothing : disk.written = []) (harchive : archive = .ok entries) (h : extractTo t host target archive disk = .ok u disk') :
    Safe t root entries disk disk' := by
  obtain ⟨⟨plan, hplanned⟩, hinside, hsizes, hwritten⟩ := extractTo_ok hroot hempty hnothing harchive h
  refine ⟨?_, hinside.outside, ?_, hplanned.distinct, ?_, ?_⟩
  · intro file hfile
    rw [hwritten] at hfile
    obtain ⟨e, he, rfl⟩ := List.mem_map.mp hfile
    have := List.length_pos_iff.mpr (hplanned.names e (List.mem_of_mem_filter he)).1
    refine below_iff_start.mpr ⟨List.prefix_append _ _, ?_⟩
    rw [List.length_append]
    omega
  · have hkeys : ((entries.filter (kept t)).map (folded t)).Nodup := hplanned.distinct.sublist (List.filter_sublist.map _)
    have hpaths : (((entries.filter (kept t)).map fun e => root ++ memberPath e).map
        fun path => (path.drop root.length).map t.casefold).Nodup := by
      rw [List.map_map]
      refine (List.map_congr_left ?_).symm ▸ hkeys
      intro e _
      show ((root ++ memberPath e).drop root.length).map t.casefold = folded t e
      rw [List.drop_left]
      rfl
    rw [hwritten, List.map_map]
    exact hpaths.of_map
  · intro e he e' he' hfile
    have hapart := hplanned.apart e he e' he' hfile
    refine ⟨hapart, ?_⟩
    rw [← Bool.not_eq_true]
    intro hbelow
    rw [below_folded hbelow] at hapart
    cases hapart
  have hlengths : (entries.filter (kept t)).map (·.data.length) = (entries.filter (kept t)).map (·.size) := by
    refine List.map_congr_left ?_
    intro e he
    obtain ⟨hmem, hkept⟩ := List.mem_filter.mp he
    exact hsizes e hmem hkept
  have hfiles : entries.filter (kept t) = (entries.filter fun e => !e.isDir).filter fun e => !ignored t (memberPath e) := by
    rw [List.filter_filter]
    refine List.filter_congr ?_
    intro e _
    rw [kept, Bool.not_or, Bool.and_comm]
  have hle : ((entries.filter (kept t)).map (·.size)).sum ≤ plan.total := by
    rw [hplanned.total, hfiles]
    exact sum_le_of_sublist (List.filter_sublist.map _)
  rw [hwritten, List.map_map]
  exact Nat.le_trans (Nat.le_of_eq (congrArg List.sum hlengths)) (Nat.le_trans hle hplanned.bounded)

section Keeps

variable {rows : Table (String × Upload) Prod.fst}

/-- However it ends, the rows of the uploads are as they were. -/
def Keeps {α : Type} (rows : Table (String × Upload) Prod.fst) (x : Act String Disk α) : Prop :=
  Act.Leads (fun disk => disk.uploads = rows) (fun disk => disk.uploads = rows) (fun _ disk => disk.uploads = rows) x

theorem Keeps.seq {α β : Type} {x : Act String Disk β} {f : β → Act String Disk α} (hx : Keeps rows x)
    (hf : ∀ b, Keeps rows (f b)) : Keeps rows (x >>= f) := Act.Leads.seq hx hf

theorem keeps_pure {α : Type} (a : α) : Keeps rows (pure a) := Act.Leads.pure a

theorem keeps_get : Keeps rows get := Act.Leads.get

theorem keeps_ofExcept {α : Type} {x : Except String α} : Keeps rows (Act.ofExcept x) :=
  Act.Leads.ofExcept fun _ _ _ hdisk => hdisk

theorem keeps_require {condition : Bool} {e : String} : Keeps rows (Act.require condition e) :=
  Act.Leads.require fun _ hdisk => hdisk

theorem keeps_onTree {f : Tree → Except String Tree} : Keeps rows (onTree f) := by
  intro disk hdisk
  unfold onTree
  rw [Act.get_run]
  cases hf : f disk.tree with
  | ok tree | error e => exact hdisk

theorem keeps_makeDirectories {paths : List Path} : Keeps rows (makeDirectories paths) :=
  Act.Leads.forM fun _ _ => keeps_onTree

theorem keeps_resolved : Keeps rows (resolved host path) := keeps_get.seq fun _ => keeps_ofExcept

theorem keeps_extractMember {member : ZipEntry × Path} : Keeps rows (extractMember t host root member) := by
  unfold extractMember
  split
  · exact keeps_pure ()
  · refine keeps_resolved.seq fun destination => keeps_require.seq fun _ => keeps_require.seq fun _ => ?_
    refine keeps_makeDirectories.seq fun _ => keeps_resolved.seq fun parent => keeps_require.seq fun _ => ?_
    refine keeps_require.seq fun _ => keeps_onTree.seq fun _ => Keeps.seq ?_ fun _ => keeps_ofExcept
    exact Act.Leads.modify fun _ hdisk => hdisk

theorem keeps_extractTo : Keeps rows (extractTo t host target archive) :=
  keeps_resolved.seq fun _ => keeps_ofExcept.seq fun _ => keeps_require.seq fun _ => keeps_ofExcept.seq fun _ =>
    Act.Leads.forM fun _ _ => keeps_extractMember

/-- The row is written by the last statement. -/
theorem stageUpload_error {dir : Path} {id e : String} {source : List (Option Bytes)}
    (h : stageUpload t host dir id source disk = .error e disk') : disk'.uploads = disk.uploads := by
  have hstage : Act.Leads (fun d => d.uploads = disk.uploads) (fun _ => True) (fun _ d => d.uploads = disk.uploads)
      (stageUpload t host dir id source) := by
    unfold stageUpload
    refine Act.Leads.seq keeps_require fun _ => Act.Leads.seq keeps_onTree fun _ => Act.Leads.seq keeps_ofExcept fun _ => ?_
    refine Act.Leads.seq keeps_makeDirectories fun _ => Act.Leads.seq keeps_extractTo fun _ => Act.Leads.seq keeps_get fun now => ?_
    refine Act.Leads.seq keeps_ofExcept fun analysis => Act.Leads.seq keeps_require fun _ => Act.Leads.seq keeps_ofExcept fun _ => ?_
    exact fun _ _ => trivial
  exact hstage.error h rfl

end Keeps

theorem mem_removeTree {dir : Path} {row : Path × Node} (h : row ∈ removeTree tree dir) : ¬ dir <+: row.1 := by
  intro hpre
  have hnot := (Table.mem_delete.mp h).2
  rw [List.isPrefixOf_iff_prefix.mpr hpre] at hnot
  cases hnot

/-- A failed upload has done nothing, or its directory is gone; there is no row. -/
theorem saveZipStream_error {x : Delivery.Casing} {uploads : Path} {id filename e : String} {source : List (Option Bytes)}
    (h : saveZipStream t host x uploads id filename source disk = .error e disk') :
    disk'.uploads = disk.uploads ∧ (disk' = disk ∨ ∀ row ∈ disk'.tree, ¬ uploads ++ [id] <+: row.1) := by
  unfold saveZipStream at h
  rcases Act.bind_error.mp h with hname | ⟨_, disk₁, hname, h⟩
  · obtain ⟨-, rfl⟩ := Act.ofExcept_error.mp hname
    exact ⟨rfl, .inl rfl⟩
  obtain ⟨-, rfl⟩ := Act.ofExcept_ok.mp hname
  rcases Act.bind_error.mp h with hmade | ⟨_, disk₂, hmade, h⟩
  · rw [onTree, Act.get_run] at hmade
    rcases Act.bind_error.mp hmade with hexists | ⟨_, _, _, hset⟩
    · obtain ⟨-, rfl⟩ := Act.ofExcept_error.mp hexists
      exact ⟨rfl, .inl rfl⟩
    · exact absurd hset (by simp)
  obtain ⟨made, -, rfl⟩ := onTree_ok.mp hmade
  obtain ⟨staged, hstaged, rfl⟩ := Act.cleanup_error.mp h
  have hrows := stageUpload_error hstaged
  refine ⟨hrows, .inr ?_⟩
  intro row hrow
  exact mem_removeTree hrow

/-- **Extraction is safe.** An accepted archive has written each of its files once, strictly inside the empty directory that it was
given, and no more than may be written; its members differ after case folding and none is below a file. A failed upload leaves no
row and no directory. -/
theorem extraction_safe (t : Text) (host : Host) :
    (∀ target root archive entries disk disk', resolve disk.tree host.readlink host.links [] target = .ok root →
      EmptyDirectory disk.tree root → disk.written = [] → archive = .ok entries →
      extractTo t host target archive disk = .ok () disk' → Safe t root entries disk disk') ∧
    (∀ x uploads id filename source disk disk' e, saveZipStream t host x uploads id filename source disk = .error e disk' →
      disk'.uploads = disk.uploads ∧ (disk' = disk ∨ ∀ row ∈ disk'.tree, ¬ uploads ++ [id] <+: row.1)) := by
  refine ⟨?_, ?_⟩
  · intro target root archive entries disk disk' hroot hempty hnothing harchive h
    exact extractTo_safe hroot hempty hnothing harchive h
  · intro x uploads id filename source disk disk' e h
    exact saveZipStream_error h

/-! ## A disk with one empty directory -/

/-- It reads every archive as this one. -/
def plainHost (archive : Except String (List ZipEntry)) : Host where
  readlink _ := ⟨true, []⟩
  links := 0
  zipfile _ := archive
  opens _ := true
  takes _ := true
  inserts := true

def emptyDisk : Disk where
  tree := ⟨[(["t"], .directory)], by decide⟩
  uploads := Table.empty

/-- A directory, a file in it, and one that is dropped. -/
def members : List ZipEntry :=
  [{ filename := "a/", mode := directory, size := 0, data := [] }, { filename := "a/b.txt", mode := 0, size := 2, data := [49, 50] },
    { filename := "dist/b.txt", mode := regular, size := 1, data := [51] }]

def extracted : EStateM.Result String Disk Unit := extractTo Repository.text (plainHost (.ok members)) ["t"] (.ok members) emptyDisk

/-- The upload of what is no archive. -/
def refusedUpload : EStateM.Result String Disk Upload :=
  saveZipStream Repository.text (plainHost (.error "invalid zip archive")) Delivery.asciiCasing ["t"] "u" "a.zip" [some [1]] emptyDisk

/-- What is written, if it is accepted. -/
def writes : EStateM.Result String Disk Unit → Option (List (Path × Bytes))
  | .ok _ disk => some disk.written
  | .error _ _ => none

/-- What is said, if it is not. -/
def refusal : EStateM.Result String Disk Upload → Option String
  | .ok _ _ => none
  | .error e _ => some e

theorem emptyDisk_empty : EmptyDirectory emptyDisk.tree ["t"] where
  directories path hne hpre := by
    rcases List.prefix_cons_iff.mp hpre with hnil | ⟨rest, rfl, hrest⟩
    · exact absurd hnil hne
    · rw [List.prefix_nil.mp hrest]
      decide
  empty path hbelow := by
    refine Table.find_eq_none.mpr ?_
    intro row hrow hpath
    obtain rfl := List.mem_singleton.mp hrow
    rw [← hpath] at hbelow
    revert hbelow
    decide

theorem extraction_safe_members : (∃ disk, extracted = .ok () disk ∧ Safe Repository.text ["t"] members emptyDisk disk ∧
      disk.written = [(["t", "a", "b.txt"], [49, 50])]) ∧
    ∃ disk, refusedUpload = .error "invalid zip archive" disk ∧ disk.uploads = emptyDisk.uploads ∧
      (disk = emptyDisk ∨ ∀ row ∈ disk.tree, ¬ ["t", "u"] <+: row.1) := by
  refine ⟨?_, ?_⟩
  · have haccepted := (extraction_safe Repository.text (plainHost (.ok members))).1 ["t"] ["t"] (.ok members) members emptyDisk
    have hwrites : writes extracted = some [(["t", "a", "b.txt"], [49, 50])] := by decide +kernel
    cases hextracted : extracted with
    | error e disk =>
      rw [hextracted] at hwrites
      cases hwrites
    | ok u disk =>
      rw [hextracted] at hwrites
      exact ⟨disk, rfl, haccepted disk rfl emptyDisk_empty rfl rfl hextracted, Option.some.inj hwrites⟩
  have hfailed := (extraction_safe Repository.text (plainHost (.error "invalid zip archive"))).2
  have hrefused : refusal refusedUpload = some "invalid zip archive" := by decide +kernel
  cases hupload : refusedUpload with
  | ok upload disk =>
    rw [hupload] at hrefused
    cases hrefused
  | error e disk =>
    rw [hupload] at hrefused
    obtain rfl : e = "invalid zip archive" := Option.some.inj hrefused
    exact ⟨disk, rfl, hfailed _ _ _ _ _ _ disk _ hupload⟩

end LingshuGate.Git

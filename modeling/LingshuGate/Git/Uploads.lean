import LingshuGate.Git.Acquisition
import LingshuGate.Lib.Table

/-!
# What is built from a Git import (`project_uploads.py`, `git_import_mcp.py`, `git_source.py`)

| here | there |
| --- | --- |
| `safeExtract`       | `_safe_extract` (project_uploads.py:297) |
| `analyzeProject`    | `analyze_project` (:207), with `_find_project_root` and `_scan_files` |
| `saveZip`           | `save_zip_stream` (:53) |
| `analyzeUpload`     | `ProjectUploadStore.analyze_upload` (:104) |
| `publish`           | the publication in `GitImportService._run` (git_import_mcp.py:222-249) |
| `verifyGitSnapshot` | `verify_git_snapshot` (git_source.py:176) |

Three passes over one archive. `snapshot_inventory` lists every file, `_safe_extract` leaves out what lies under a directory name
that it ignores, and `verify_git_snapshot` demands every file that was listed. An import of a repository with a directory `dist`
ends in success, and no build of it is ever let through.
-/

namespace LingshuGate.Git

open Lib

/-! ## Directories -/

inductive Node
  | file (data : Bytes)
  | directory
  | symlink
  | special
  deriving DecidableEq

/-- What is below a directory. -/
abbrev Tree := Table (Path × Node) Prod.fst

def Tree.isDir (tree : Tree) (path : Path) : Bool := path = [] || tree.find path = some (path, .directory)

section Extract

variable (t : Text) (disk : Path → Bool)

def ignoredDirs : List String := [".git", "node_modules", ".venv", "venv", "dist", "build", "target", "__pycache__"]

/-- `any(part.casefold() in ignored for part in parts)` -/
def ignored (path : Path) : Bool := path.any fun part => (ignoredDirs.map t.casefold).contains (t.casefold part)

/-- `planned`, `entries` and `total_size` of the first loop. -/
structure Plan where
  planned : List (ZipEntry × Path) := []
  entries : List (Path × Bool) := []
  total : Nat := 0

def planEntry (p : Plan) (e : ZipEntry) : Except String Plan := do
  let (path, key) ← validatedZipMember t e
  require (Py.dictGet p.entries key).isNone s!"duplicate or aliased zip path: {e.filename}"
  require (!(List.range' 1 (path.length - 1)).any fun offset =>
    Py.dictGet p.entries ((path.take offset).map fun part => t.casefold (t.nfc part)) = some false)
    s!"zip path has a file ancestor: {e.filename}"
  require (e.isDir || !p.entries.any fun existing => below key existing.1) s!"zip file collides with a directory: {e.filename}"
  let total := p.total + if e.isDir then 0 else e.size
  require (total ≤ maxExtractedBytes) "extracted content too large"
  return ⟨p.planned ++ [(e, path)], p.entries ++ [(key, e.isDir)], total⟩

/-- One directory of `mkdir(parents=True, exist_ok=True)`. -/
def makeDirectory (tree : Tree) (path : Path) : Except String Tree :=
  match tree.find path with
  | none => Lib.expect (tree.insert (path, .directory)) "FileExistsError"
  | some (_, .directory) => .ok tree
  | some _ => .error "FileExistsError"

/-- The directories above a path, from the top. -/
def ancestors (path : Path) : List Path := (List.range' 1 (path.length - 1)).map path.take

def writeFile (tree : Tree) (path : Path) (data : Bytes) : Except String Tree :=
  match tree.find path with
  | none => Lib.expect (tree.insert (path, .file data)) "OSError"
  | some (_, .file _) => .ok (tree.update (fun row => row.1 = path) (fun row => (row.1, .file data)) fun _ => rfl)
  | some _ => .error "IsADirectoryError"

def writeMember (tree : Tree) (member : ZipEntry × Path) : Except String Tree :=
  if member.1.isDir || ignored t member.2 then .ok tree
  else do
    let tree ← (ancestors member.2).foldlM makeDirectory tree
    require (disk member.2) "OSError"
    require (member.1.data.length = member.1.size) s!"zip member size mismatch: {member.1.filename}"
    writeFile tree member.2 member.1.data

/-- `disk` says which files the disk takes. -/
def safeExtract (zip : Zip) : Except String Tree := do
  require (zip.entries.length ≤ maxFiles) "too many files in zip"
  let plan ← zip.entries.foldlM (planEntry t) {}
  plan.planned.foldlM (writeMember t disk) Table.empty

end Extract

/-! ## Analysis -/

structure Analysis where
  detectedRuntime : String
  projectRootDir : Path
  fileListSha256 : Option String := none
  includedFiles : Option (List FileEntry) := none
  /-- `git_source["project_root"]` -/
  gitSource : Option Path := none
  deriving DecidableEq

/-- `rglob("*")`: the paths from here, with what is there. -/
def rglob (tree : Tree) (root : Path) : List (Path × Node) :=
  (tree.rows.filter fun row => below root row.1).map fun row => (row.1.drop root.length, row.2)

/-- The names are compared as they are. -/
def scanFiles (tree : Tree) (root : Path) : List Path :=
  (((rglob tree root).filter fun row => !row.1.any ignoredDirs.contains && match row.2 with
    | .file _ => true
    | _ => false).map (·.1)).insertionSort fun a b => join a ≤ join b

/-- `PROJECT_MARKERS` -/
def score (name : String) : Option Nat :=
  if name = "package.json" then some 3
  else if name = "pyproject.toml" || name = "requirements.txt" then some 2
  else if name = "Dockerfile" then some 1
  else none

/-- `str(parent)` -/
def pathText (path : Path) : String := if path = [] then "." else join path

/-- `(depth, -score, str(parent))`, the lesser one. -/
def nearer (a b : Path × Nat) : Bool :=
  a.1.length < b.1.length || (a.1.length = b.1.length && (b.2 < a.2 || (a.2 = b.2 && pathText a.1 < pathText b.1)))

def bestParent (files : List Path) : Option (Path × Nat) :=
  files.foldl (fun best path => match (path.getLast?).bind score with
    | none => best
    | some n =>
      let found := (path.dropLast, n)
      if best.all fun b => nearer found b then some found else best) none

def findProjectRoot (tree : Tree) (root : Path) : Path :=
  let files := scanFiles tree root
  let single := match (files.filterMap List.head?).eraseDups with
    | [top] => if tree.isDir (root ++ [top]) then root ++ [top] else root
    | _ => root
  match bestParent files with
  | some ([], _) => root
  | some (parent, _) => if tree.isDir (root ++ parent) then root ++ parent else single
  | none => single

def detect (names : List Path) : String :=
  if names.contains ["package.json"] then "node"
  else if names.contains ["pyproject.toml"] || names.contains ["requirements.txt"] then "python"
  else if names.contains ["Dockerfile"] then "docker"
  else "unknown"

/-- The first readme there is must be a file. -/
def readable (tree : Tree) (root : Path) : Bool :=
  match ["README.md", "readme.md", "README.txt"].findSome? fun name => tree.find (root ++ [name]) with
  | none => true
  | some (_, .file _) => true
  | some _ => false

def analyzeProject (tree : Tree) (root : Path) (discoverRoot : Bool) : Except String Analysis := do
  let scanRoot := if discoverRoot then findProjectRoot tree root else root
  require (readable tree scanRoot) "IsADirectoryError"
  return { detectedRuntime := detect (scanFiles tree scanRoot), projectRootDir := scanRoot }

/-! ## Uploads -/

structure Upload where
  rootDir : Path
  detectedRuntime : String
  analysis : Analysis
  deriving DecidableEq

/-- The directory `extracted` is the empty path. -/
def saveZip (t : Text) (disk : Path → Bool) (zip : Zip) : Except String (Upload × Tree) := do
  require (zip.compressed ≤ maxZipBytes) "zip too large"
  let tree ← safeExtract t disk zip
  let analysis ← analyzeProject tree [] true
  return (⟨analysis.projectRootDir, analysis.detectedRuntime, analysis⟩, tree)

/-- What was pinned is kept. -/
def pinned (old new : Analysis) : Analysis :=
  { new with
    fileListSha256 := old.fileListSha256.or new.fileListSha256
    includedFiles := old.includedFiles.or new.includedFiles
    gitSource := old.gitSource.or new.gitSource }

def analyzeUpload (tree : Tree) (u : Upload) : Except String Upload := do
  let analysis ← analyzeProject tree u.rootDir u.analysis.gitSource.isNone
  return ⟨analysis.projectRootDir, analysis.detectedRuntime, pinned u.analysis analysis⟩

section Publish

variable (c : Codec) (t : Text) (disk : Path → Bool)

/-- From the validation of the fetched archive to the committed upload. -/
def publish (zip : Zip) (root : Path) (values : List String) : Except String (Upload × Tree) := do
  let (digest, inventory) ← snapshotInventory c t zip root values
  let (upload, tree) ← saveZip t disk zip
  require (tree.isDir root) "selected project root is unavailable after upload validation"
  let analysis ← analyzeProject tree root false
  return (⟨root, upload.detectedRuntime, { analysis with
    projectRootDir := root
    fileListSha256 := some digest
    includedFiles := some inventory
    gitSource := some root }⟩, tree)

/-! ## Verification -/

def changed : String := "git_snapshot_changed"

/-- `actual` and `total`. -/
structure Seen where
  actual : List Path := []
  total : Nat := 0

def verifyFile (expected : List (Path × FileEntry)) (s : Seen) (relative : Path) (data : Bytes) : Except String Seen := do
  let entry ← Lib.expect (Py.dictGet expected relative) changed
  require (data.length = entry.size) changed
  require (s.actual.length + 1 ≤ maxFiles && s.total + entry.size ≤ maxExtractedBytes) changed
  require (c.sha256 data = entry.sha256) changed
  return ⟨s.actual ++ [relative], s.total + entry.size⟩

/-- One path of the walk. `late` is whether its thirty seconds were over by then. -/
def verifyPath (late : Path → Bool) (expected : List (Path × FileEntry)) (s : Seen) (row : Path × Node) : Except String Seen := do
  require (!late row.1) changed
  match row.2 with
  | .directory => return s
  | .file data => verifyFile c expected s row.1 data
  | .symlink => .error changed
  | .special => .error changed

/-- `expected` -/
def expectedFiles (root : Path) (entries : List FileEntry) : List (Path × FileEntry) :=
  (entries.filter fun entry => below root entry.path).map fun entry => (entry.path.drop root.length, entry)

def verifyGitSnapshot (late : Path → Bool) (u : Upload) (tree : Tree) : Except String Unit :=
  match u.analysis.gitSource with
  | none => .ok ()
  | some root => do
    let entries := u.analysis.includedFiles.getD []
    require (entries ≠ [] && some (digestJson c entries) = u.analysis.fileListSha256) changed
    let expected := expectedFiles root entries
    let s ← (rglob tree u.rootDir).foldlM (verifyPath c late expected) {}
    require (s.actual.all (expected.map (·.1)).contains && (expected.map (·.1)).all s.actual.contains) changed

end Publish

end LingshuGate.Git

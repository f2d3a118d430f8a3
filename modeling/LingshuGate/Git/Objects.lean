import LingshuGate.Git.Snapshot
import LingshuGate.Lib.Acts
import LingshuGate.Lib.GitObjects

/-!
# Export of Git objects (`git_acquisition.py`)

| here | there |
| --- | --- |
| `Limits`               | the limits of `_validated_request` (:237) |
| `Reader`               | `GitObjectReader`: what the backend answers, call after call |
| `Stream`, `read`, …    | `_ObjectStream` (:84) |
| `commitTree`           | `_commit_tree` (:142) |
| `treeEntries`          | `_tree_entries` (:156) |
| `exportTree`           | `_export_tree` (:192) |
| `acquireSnapshot`      | `acquire_snapshot` (:299) |

The reader is any machine: what it answers may depend on all it was asked. `checkpoint` is one more question, whether neither
the deadline nor a cancellation has come. A loop of the source has fuel here; `exhausted` is the failure that no run ends with
(`steady_acquireSnapshot`).
-/

namespace LingshuGate.Git

open Lib Lib.GitObjects

inductive Failure
  /-- `_reject` -/
  | rejected (code message : String)
  /-- an interruption, a deadline, or what the backend raises -/
  | raised
  | exhausted
  deriving DecidableEq

/-! ## Limits -/

/-- The limits of a request, each at most its maximum (`_validated_request`). -/
structure Limits where
  compressedBytes : Nat
  expandedBytes : Nat
  files : Nat
  objectBytes : Nat
  objects : Nat
  treeEntries : Nat
  treeBytes : Nat
  commitBytes : Nat
  compressed_le : compressedBytes ≤ maxZipBytes
  expanded_le : expandedBytes ≤ maxExtractedBytes
  files_le : files ≤ maxFiles

/-- `budget.limits.get(f"\x7bkind\x7d_bytes", budget.limits["expanded_bytes"])` -/
def Limits.bytes (limits : Limits) : Kind → Nat
  | .commit => limits.commitBytes
  | .tree => limits.treeBytes
  | .blob => limits.expandedBytes

/-! ## The reader and what is kept -/

/-- `GitObject`, less its stream. The size is what the reader says it is, an `int` or not. -/
structure Item where
  kind : String
  size : Option Int
  deriving DecidableEq

structure Reader (σ : Type) where
  objectFormat : String
  commitSha : String
  /-- Nothing where it raises. -/
  openObject : σ → String → Option Item × σ
  /-- Nothing where it raises, or gives what is not `bytes`. -/
  read : σ → Nat → Option Bytes × σ
  checkpoint : σ → Bool × σ

structure Budget where
  objects : Nat := 0
  objectBytes : Nat := 0
  entries : Nat := 0
  files : Nat := 0
  expanded : Nat := 0
  deriving DecidableEq

/-- The state of a run. The last three say what has been done: nothing reads them. -/
structure Work (σ : Type) where
  reader : σ
  budget : Budget := {}
  seen : List Path := []
  archive : List ZipEntry := []
  inventory : List FileEntry := []
  /-- calls of `open_object` -/
  opens : Nat := 0
  /-- the deepest call of `_export_tree` -/
  deepest : Nat := 0
  /-- what was hashed to the name of an object -/
  digested : List Bytes := []

abbrev M (σ : Type) := Act Failure (Work σ)

def ask {σ α : Type} (question : σ → α × σ) : M σ α := do
  let w ← get
  modify fun w => { w with reader := (question w.reader).2 }
  return (question w.reader).1

def expect {σ α : Type} (answer : Option α) (failure : Failure) : M σ α := Act.ofExcept (Lib.expect answer failure)

def reject {σ : Type} (condition : Bool) (code message : String) : M σ Unit := Act.require condition (.rejected code message)

section Export

variable {σ : Type} (c : Codec) (t : Text) (sha1 : Bytes → String) (r : Reader σ) (limits : Limits) (forbidden : List Bytes)

def checkpoint : M σ Unit := do
  let alive ← ask r.checkpoint
  Act.require alive .raised

/-! ## Streams -/

structure Stream where
  oid : String
  /-- `item.size_bytes` -/
  size : Nat
  remaining : Nat
  /-- what the digest is of -/
  digest : Bytes
  deriving DecidableEq

/-- `type(item.size_bytes) is int and 0 <= item.size_bytes <= maximum` -/
def declaredSize (maximum : Nat) (size : Option Int) : Option Nat :=
  match size with
  | some (.ofNat n) => if n ≤ maximum then some n else none
  | _ => none

def openItem (oid : String) : M σ Item := do
  modify fun w => { w with opens := w.opens + 1 }
  let answer ← ask (r.openObject · oid)
  expect answer .raised

/-- `_ObjectStream(item, oid, kind, budget)` -/
def openStream (oid : String) (kind : Kind) : M σ Stream := do
  let item ← openItem r oid
  checkpoint r
  reject (item.kind = kind.name) "git_object_type_invalid" "Git object type does not match the commit tree"
  let size ← expect (declaredSize (limits.bytes kind) item.size)
    (.rejected "git_object_size_limit" "Git object exceeds its type-specific byte limit")
  modify fun w => { w with budget := { w.budget with objects := w.budget.objects + 1 } }
  let w ← get
  reject (w.budget.objects ≤ limits.objects && w.budget.objectBytes + size ≤ limits.objectBytes) "git_object_size_limit"
    "Git object count or total bytes exceed the acquisition limit"
  return { oid, size, remaining := size, digest := header kind size }

def Stream.read (s : Stream) (size : Nat) : M σ (Bytes × Stream) := do
  checkpoint r
  let requested := min (min size s.remaining) snapshotChunkBytes
  let answer ← ask (r.read · requested)
  checkpoint r
  let chunk ← expect answer .raised
  reject (chunk.length ≤ requested && (requested = 0 || chunk ≠ [])) "git_object_stream_invalid"
    "Git object stream is truncated or violates bounded reads"
  modify fun w => { w with budget := { w.budget with objectBytes := w.budget.objectBytes + chunk.length } }
  return (chunk, { s with remaining := s.remaining - chunk.length, digest := s.digest ++ chunk })

/-- The loop of `exact`. -/
def Stream.exactFrom (size : Nat) : Nat → Stream → Bytes → M σ (Bytes × Stream)
  | 0, s, data => if data.length < size then throw .exhausted else return (data, s)
  | fuel + 1, s, data => if data.length < size then do
      reject (s.remaining ≠ 0) "git_object_stream_invalid" "Git tree object contains a truncated entry"
      let (chunk, s) ← s.read r (size - data.length)
      Stream.exactFrom size fuel s (data ++ chunk)
    else return (data, s)

def Stream.exact (s : Stream) (size : Nat) : M σ (Bytes × Stream) := Stream.exactFrom r size size s []

/-- The loop of `field`: what is left of its maximum, and what it has read. -/
def Stream.fieldFrom (delimiter : UInt8) : Nat → Stream → Bytes → M σ (Bytes × Stream)
  | left, s, data => do
    let (value, s) ← s.exact r 1
    if value = [delimiter] then return (data, s)
    else match left with
      | 0 => throw (.rejected "git_tree_invalid" "Git tree entry name or mode exceeds its parser limit")
      | left + 1 => Stream.fieldFrom delimiter left s (data ++ value)

def Stream.field (s : Stream) (delimiter : UInt8) (maximum : Nat) : M σ (Bytes × Stream) :=
  Stream.fieldFrom r delimiter maximum s []

/-- `while reader.remaining`, with what is done with a chunk. -/
def Stream.drain {α : Type} (next : α → Bytes → Except Failure α) : Nat → Stream → α → M σ (α × Stream)
  | 0, s, a => if s.remaining = 0 then return (a, s) else throw .exhausted
  | fuel + 1, s, a => if s.remaining = 0 then return (a, s) else do
      let (chunk, s) ← s.read r snapshotChunkBytes
      let a ← Act.ofExcept (next a chunk)
      Stream.drain next fuel s a

/-- What follows the last byte. -/
def Stream.extra (s : Stream) : M σ (Option Bytes) := if s.remaining = 0 then ask (r.read · 1) else pure (some [])

def Stream.finish (s : Stream) : M σ Unit := do
  checkpoint r
  let extra ← s.extra r
  checkpoint r
  let extra ← expect extra .raised
  reject (s.remaining = 0 && extra = []) "git_object_stream_invalid" "Git object size does not match its declared size"
  modify fun w => { w with digested := s.digest :: w.digested }
  reject (sha1 s.digest = s.oid) "git_object_hash_mismatch" "Git object content does not match the confirmed object ID"

/-! ## Commits and trees -/

def isHexDigit (b : UInt8) : Bool := ('0'.toUInt8 ≤ b && b ≤ '9'.toUInt8) || ('a'.toUInt8 ≤ b && b ≤ 'f'.toUInt8)

/-- `bytes(data).partition(b"\n\n")`, what stands before the separator. -/
def partitionHeaders : Bytes → Option Bytes
  | 10 :: 10 :: _ => some []
  | b :: rest => (partitionHeaders rest).map (b :: ·)
  | [] => none

/-- `split(b"\n")` -/
def splitLines : Bytes → List Bytes
  | [] => [[]]
  | b :: rest => if b = 10 then [] :: splitLines rest else match splitLines rest with
    | line :: lines => (b :: line) :: lines
    | [] => [[b]]

def treeHeader : Bytes := ascii "tree "

/-- The headers of a commit, and the tree they name. -/
def parseCommit (data : Bytes) : Option String := do
  let headers ← partitionHeaders data
  let lines := splitLines headers
  let first ← lines.head?
  let raw := first.drop treeHeader.length
  if treeHeader.isPrefixOf first ∧ raw.length = 40 ∧ raw.all isHexDigit ∧ lines.countP treeHeader.isPrefixOf = 1 then
    some (ofAscii raw)
  else none

def commitTree (commit : String) : M σ String := do
  let s ← openStream r limits commit .commit
  let (data, s) ← Stream.drain r (fun data chunk => .ok (data ++ chunk)) s.remaining s []
  s.finish sha1 r
  expect (parseCommit data) (.rejected "git_commit_invalid" "Git commit must identify one supported SHA-1 root tree")

inductive Mode
  | tree | file | executable
  deriving DecidableEq

/-- As a tree object writes it. -/
def Mode.text : Mode → Bytes
  | .tree => treeMode
  | .file => ascii "100644"
  | .executable => ascii "100755"

/-- `external_attr >> 16` -/
def Mode.bits : Mode → Nat
  | .tree => directory + 0o755
  | .file => regular + 0o644
  | .executable => regular + 0o755

def readMode (mode : Bytes) : Except Failure Mode := do
  require (mode ≠ ascii "160000")
    (.rejected "git_submodule_unsupported" "Git submodules are unsupported, including outside the selected project")
  require (mode ≠ ascii "120000")
    (.rejected "git_symlink_unsupported" "Git symlinks are unsupported, including outside the selected project")
  Lib.expect ([Mode.tree, .file, .executable].find? (·.text = mode))
    (.rejected "git_tree_mode_unsupported" "Git tree contains an unsupported file type")

/-- `raw_name.decode("utf-8", errors="strict")` -/
def decode (raw : Bytes) : Option String := String.fromUTF8? ⟨raw.toArray⟩

def unsafeName : Failure :=
  .rejected "git_snapshot_path_rejected" "Git source contains an unsafe, sensitive or unsupported path"

/-- The entry whose path is judged. -/
def entryOf (path : Path) (mode : Mode) : ZipEntry := { filename := join path, mode := mode.bits, size := 0, data := [] }

structure TreeEntry where
  path : Path
  mode : Mode
  child : String
  deriving DecidableEq

/-- The checks of one entry, less the ones that need what was seen. -/
def readEntry (start : Path) (raw : RawEntry) : Except Failure (TreeEntry × Path) := do
  let mode ← readMode raw.mode
  let name ← Lib.expect (decode raw.name) unsafeName
  require (name ≠ "" && !name.toList.contains '/' && name ≠ "." && name ≠ "..") unsafeName
  require (!Py.endsWith (t.lower name) ".gitmodules")
    (.rejected "git_submodule_unsupported" "Git submodule configuration is unsupported, including outside the selected project")
  let (path, key) ← (validateSnapshotPath t forbidden (entryOf (start ++ [name]) mode)).mapError fun _ => unsafeName
  return (⟨path, mode, hex raw.child⟩, key)

def readRaw (s : Stream) : M σ (RawEntry × Stream) := do
  let (mode, s) ← s.field r 32 6
  let (name, s) ← s.field r 0 255
  let (child, s) ← s.exact r 20
  return (⟨mode, name, child⟩, s)

/-- The loop of `_tree_entries`. -/
def entriesFrom (start : Path) : Nat → Stream → List TreeEntry → M σ (List TreeEntry × Stream)
  | 0, s, entries => if s.remaining = 0 then return (entries, s) else throw .exhausted
  | fuel + 1, s, entries => if s.remaining = 0 then return (entries, s) else do
      modify fun w => { w with budget := { w.budget with entries := w.budget.entries + 1 } }
      let w ← get
      reject (w.budget.entries ≤ limits.treeEntries) "git_tree_entry_limit" "Git tree entry count exceeds the acquisition limit"
      let (raw, s) ← readRaw r s
      let (entry, key) ← Act.ofExcept (readEntry t forbidden start raw)
      let w ← get
      reject (!w.seen.contains key) "git_snapshot_path_rejected" "Git source contains duplicate or ambiguous paths"
      modify fun w => { w with seen := key :: w.seen }
      entriesFrom start fuel s (entries ++ [entry])

def treeEntries (oid : String) (start : Path) : M σ (List TreeEntry) := do
  let s ← openStream r limits oid .tree
  let (entries, s) ← entriesFrom t r limits forbidden start s.remaining s []
  s.finish sha1 r
  return entries

/-! ## Export -/

def scanChunk (s : Scanner) (chunk : Bytes) : Except Failure Scanner :=
  (s.update chunk).mapError (Failure.rejected "git_snapshot_content_rejected")

/-- The archive entry of a file, as reading it back gives it. -/
def fileOf (path : Path) (mode : Mode) (data : Bytes) : ZipEntry :=
  { filename := join path, mode := mode.bits, size := data.length, data }

def exportBlob (e : TreeEntry) : M σ Unit := do
  modify fun w => { w with budget := { w.budget with files := w.budget.files + 1 } }
  let w ← get
  reject (w.budget.files ≤ limits.files) "git_snapshot_file_limit" "Git snapshot exceeds the file count limit"
  let s ← openStream r limits e.child .blob
  let w ← get
  reject (w.budget.expanded + s.size ≤ limits.expandedBytes) "git_snapshot_size_limit"
    "Git snapshot exceeds the expanded byte limit"
  modify fun w => { w with budget := { w.budget with expanded := w.budget.expanded + s.size } }
  let (scanner, s) ← Stream.drain r scanChunk s.remaining s { forbidden, maxBytes := s.size }
  s.finish sha1 r
  modify fun w => { w with
    archive := w.archive ++ [fileOf e.path e.mode scanner.content]
    inventory := w.inventory ++ [⟨e.path, scanner.size, c.sha256 scanner.content⟩] }

def exportTree : Nat → String → Path → M σ Unit
  | 0, _, _ => throw .exhausted
  | fuel + 1, oid, start => do
    modify fun w => { w with deepest := max w.deepest (start.length + 1) }
    let entries ← treeEntries t sha1 r limits forbidden oid start
    entries.forM fun e => if e.mode = .tree then exportTree fuel e.child e.path else exportBlob c sha1 r limits forbidden e

/-! ## Acquisition -/

structure Request where
  limits : Limits
  commitSha : String
  /-- `source["ref"]` where the reference is a commit -/
  ref : Option String
  projectRoot : Path
  /-- `GitSourceInput` has checked it. -/
  rootSafe : validateProjectSubdirectory projectRoot = .ok ()

/-- `VerifiedSourceSnapshot` -/
structure Snapshot where
  content : Zip
  fileListSha256 : String
  files : List FileEntry

/-- `COMMIT_RE` -/
def isCommitSha (sha : String) : Bool := sha.length = 40 && sha.toList.all fun ch => ch.isDigit || ('a' ≤ ch && ch ≤ 'f')

def mismatch : String := "git_commit_mismatch"

/-- `compressed` is the length of the archive that deflating these entries gives. -/
def acquireSnapshot (compressed : List ZipEntry → Nat) (request : Request) (values : List String) : M σ Snapshot := do
  let limits := request.limits
  reject (isCommitSha request.commitSha && request.ref.all (· = request.commitSha)) mismatch
    "Git acquisition requires the confirmed full SHA-1 commit"
  let forbidden ← Act.ofExcept ((snapshotForbiddenValues c values).mapError fun _ => .raised)
  checkpoint r
  reject (r.objectFormat = "sha1") "git_object_format_unsupported"
    "Only SHA-1 Git repositories are supported; no object algorithm conversion is performed"
  reject (r.commitSha = request.commitSha) mismatch "Fetched Git content does not match the confirmed commit"
  let tree ← commitTree sha1 r limits request.commitSha
  exportTree c t sha1 r limits forbidden 129 tree []
  let w ← get
  -- the buffer only grows, so that its last write decides
  reject (compressed w.archive ≤ limits.compressedBytes) "git_snapshot_size_limit"
    "Git snapshot exceeds the compressed byte limit"
  checkpoint r
  let inventory := sorted w.inventory
  reject (inventory ≠ [] && (request.projectRoot = [] || inventory.any fun f => below request.projectRoot f.path))
    "git_project_root_empty" "The selected Git project directory contains no regular files"
  checkpoint r
  return ⟨⟨compressed w.archive, w.archive⟩, digestJson c inventory, inventory⟩

end Export

end LingshuGate.Git

import Mathlib.Logic.Function.Basic
import LingshuGate.Lib.Acts
import LingshuGate.Lib.Check
import LingshuGate.Lib.PyText
import LingshuGate.Lib.Run
import LingshuGate.Lib.Table

/-!
# Files that are handed over in chunks (`tool_files.py`)

| here | there |
| --- | --- |
| `safeFilename`    | `_safe_filename` (42) |
| `cleanupExpired`  | `cleanup_expired` (109) |
| `begin`           | `begin` (130), with `existingTransfer` and `startTransfer` |
| `appendChunk`     | `append_chunk` (187), with `sameChunk` and `acceptChunk` |
| `commit`          | `commit` (238), with `committedAgain` and `promote` |
| `abort`           | `abort` (279) |
| `resolve`         | `resolve` (294) |
| `ownedTransfer`   | `_owned_transfer` (326) |
| `transferResult`, `fileResult` | `_transfer_result` (335), `_file_result` (347) |
| `connected`       | `with self._lock, self.database.connect() as connection` |
| `Point`           | the operations of `append_chunk` and of `commit` that may fail |
| `Step`            | one call of anyone, with its readings of the clock and its `uuid4().hex` |

The rows are in a database and the bytes are on a disk: a transaction that fails takes its rows back and leaves the disk as it is.

`created_at` and `updated_at` are left out, nothing reads them, and so are symbolic links. Times are microseconds: the texts that
the database compares are in the order of their times.
-/

namespace LingshuGate.Files

open Lib

abbrev Bytes := List UInt8

/-- `hashlib.sha256(data).hexdigest()` and `str.lower`. -/
structure Text where
  sha256 : Bytes → String
  lower : String → String

structure ToolFileError where
  code : String
  message : String
  deriving DecidableEq

/-- What a call may raise. -/
inductive Raised
  | tool (error : ToolFileError)
  /-- `TypeError`: a row that is `None` is subscripted. -/
  | type
  /-- `OSError` or `sqlite3.Error`. -/
  | io
  deriving DecidableEq

def maxToolFileBytes : Nat := 4 * 1024 * 1024

def maxToolFileChunkBytes : Nat := 512 * 1024

/-- Two hours. -/
def transferTtl : Nat := 2 * 60 * 60 * 1000000

/-- Thirty minutes. -/
def fileTtl : Nat := 30 * 60 * 1000000

def check (condition : Bool) (code message : String) : Except Raised Unit := require condition (.tool ⟨code, message⟩)

/-! ## The disk -/

inductive Directory
  /-- `tool-files/transfers` -/
  | transfers
  /-- `tool-files/files/<file_ref>` -/
  | file (fileRef : String)
  deriving DecidableEq

inductive Path
  /-- `<id>.part` -/
  | part (transferId : String)
  | file (fileRef filename : String)
  deriving DecidableEq

def Path.parent : Path → Directory
  | .part _ => .transfers
  | .file fileRef _ => .file fileRef

structure Disk where
  files : Path → Option Bytes
  dirs : Directory → Bool

namespace Disk

def put (d : Disk) (path : Path) (content : Option Bytes) : Disk := { d with files := Function.update d.files path content }

/-- `open("ab")` and what has been written: the file is made when there is none. -/
def append (d : Disk) (path : Path) (data : Bytes) : Disk := d.put path (some ((d.files path).getD [] ++ data))

def unlink (d : Disk) (path : Path) : Disk := d.put path none

def rmtree (d : Disk) (dir : Directory) : Disk where
  files path := if path.parent = dir then none else d.files path
  dirs := Function.update d.dirs dir false

variable (d : Disk) (path path' : Path) (dir dir' : Directory)

@[simp] theorem put_files (content : Option Bytes) : (d.put path content).files path' = if path' = path then content else d.files path' :=
  Function.update_apply _ _ _ _

@[simp] theorem rmtree_files : (d.rmtree dir).files path = if path.parent = dir then none else d.files path := rfl

@[simp] theorem rmtree_dirs : (d.rmtree dir).dirs dir' = if dir' = dir then false else d.dirs dir' := Function.update_apply _ _ _ _

theorem unlink_of_none {d : Disk} {path : Path} (h : d.files path = none) : d.unlink path = d := by
  rw [unlink, put, ← h, Function.update_eq_self]

end Disk

/-! ## The rows -/

inductive Status
  | uploading
  | committed
  | aborted
  deriving DecidableEq

structure Transfer where
  id : String
  actorId : String
  filename : String
  sizeBytes : Int
  sha256 : String
  receivedBytes : Int := 0
  status : Status := .uploading
  beginIdempotencyKey : String
  commitIdempotencyKey : Option String := none
  fileRef : Option String := none
  tempPath : Path
  expiresAt : Nat
  deriving DecidableEq

/-- `data` is the chunk itself. Nothing of the code reads it. -/
structure Chunk where
  transferId : String
  idempotencyKey : String
  offsetBytes : Int
  sizeBytes : Nat
  sha256 : String
  data : Bytes
  deriving DecidableEq

structure File where
  fileRef : String
  actorId : String
  filename : String
  sizeBytes : Int
  sha256 : String
  filePath : Path
  expiresAt : Nat
  deriving DecidableEq

structure Db where
  transfers : Table Transfer (·.id)
  chunks : Table Chunk fun c => (c.transferId, c.idempotencyKey)
  files : Table File (·.fileRef)

structure Store where
  db : Db
  disk : Disk

/-- The store of a new installation. -/
def Store.initial : Store := ⟨⟨∅, ∅, ∅⟩, ⟨fun _ => none, fun dir => dir = .transfers⟩⟩

abbrev Call := Act Raised Store

/-! ## What may fail -/

/-- `reached` counts the bytes that are in the file when the block is left. -/
inductive Point
  | connect
  | selectTransfer
  | selectChunk
  | openTemp
  | write (reached : Nat)
  | flush (reached : Nat)
  | fsync
  | insertChunk
  | updateTransfer
  | selectUpdated
  | readTemp
  | makeDirectory
  | replace
  | insertFile
  | selectFile
  | commit
  deriving DecidableEq

def attempt (fault : Option Point) (point : Point) : Call Unit := Act.require (fault ≠ some point) .io

/-- Committed when the block is left, rolled back when it raises. -/
def connected {α : Type} (fault : Option Point) (body : Call α) : Call α := do
  attempt fault .connect
  let before ← get
  tryCatch (do
    let a ← body
    attempt fault .commit
    return a) fun e => do
      modify fun s => { s with db := before.db }
      throw e

/-! ## Calls -/

/-- `Path(value).name` differs from `value` only where there is a `/`. -/
def safeFilename (filename : String) : Except Raised String := do
  let value := Py.strip filename
  check (value ≠ "" && value ∉ [".", ".."] && value.length ≤ 255) "invalid_filename" "filename 必须是 1 到 255 个字符的纯文件名"
  check ('/' ∉ value.toList && '\\' ∉ value.toList && '\x00' ∉ value.toList) "invalid_filename" "filename 不能包含路径或空字符"
  return value

def hexDigits : List Char := "0123456789abcdef".toList

def isDigest (digest : String) : Bool := digest.length = 64 && digest.toList.all (· ∈ hexDigits)

structure TransferResult where
  status : Status
  transferId : String
  filename : String
  sizeBytes : Int
  receivedBytes : Int
  expiresAt : Nat
  fileRef : Option String
  deriving DecidableEq

def transferResult (row : Transfer) : TransferResult :=
  ⟨row.status, row.id, row.filename, row.sizeBytes, row.receivedBytes, row.expiresAt, row.fileRef⟩

/-- Its status is `committed`. -/
structure FileResult where
  fileRef : String
  filename : String
  sizeBytes : Int
  sha256 : String
  expiresAt : Nat
  deriving DecidableEq

def fileResult (fault : Option Point) (fileRef : Option String) : Call FileResult := do
  let s ← get
  attempt fault .selectFile
  let row ← Act.ofExcept (expect (fileRef.bind s.db.files.find) .type)
  return ⟨row.fileRef, row.filename, row.sizeBytes, row.sha256, row.expiresAt⟩

def dropTransfer (s : Store) (row : Transfer) : Store where
  disk := s.disk.unlink row.tempPath
  db := { s.db with
    chunks := s.db.chunks.delete fun c => c.transferId = row.id
    transfers := s.db.transfers.delete fun t => t.id = row.id }

def dropFile (s : Store) (row : File) : Store where
  disk := (s.disk.unlink row.filePath).rmtree row.filePath.parent
  db := { s.db with files := s.db.files.delete fun f => f.fileRef = row.fileRef }

def cleanupExpired (now : Nat) (s : Store) : Store :=
  let transfers := s.db.transfers.rows.filter fun t => t.expiresAt ≤ now
  let files := s.db.files.rows.filter fun f => f.expiresAt ≤ now
  files.foldl dropFile (transfers.foldl dropTransfer s)

def ownedTransfer (db : Db) (now : Nat) (transferId actorId : String) : Except Raised Transfer := do
  let row ← expect ((db.transfers.find transferId).filter fun t => now < t.expiresAt)
    (.tool ⟨"transfer_not_found", "上传会话不存在或已过期"⟩)
  check (row.actorId = actorId) "transfer_forbidden" "上传会话不属于当前用户"
  return row

/-- `begin_idempotency_key` is unique for the actor. -/
def insertTransfer (row : Transfer) : Call Unit := do
  let s ← get
  Act.require (s.db.transfers.rows.all fun t => t.actorId ≠ row.actorId || t.beginIdempotencyKey ≠ row.beginIdempotencyKey) .io
  let transfers ← Act.ofExcept (expect (s.db.transfers.insert row) .io)
  modify fun s => { s with db := { s.db with transfers := transfers } }

def insertChunk (row : Chunk) : Call Unit := do
  let s ← get
  let chunks ← Act.ofExcept (expect (s.db.chunks.insert row) .io)
  modify fun s => { s with db := { s.db with chunks := chunks } }

def insertFile (row : File) : Call Unit := do
  let s ← get
  let files ← Act.ofExcept (expect (s.db.files.insert row) .io)
  modify fun s => { s with db := { s.db with files := files } }

def Store.updateTransfer (s : Store) (transferId : String) (f : Transfer → Transfer) (hf : ∀ t, (f t).id = t.id) : Store :=
  { s with db := { s.db with transfers := s.db.transfers.update (·.id = transferId) f hf } }

def selectTransfer (transferId : String) : Call TransferResult := do
  let s ← get
  let row ← Act.ofExcept (expect (s.db.transfers.find transferId) .type)
  return transferResult row

structure BeginRequest where
  actorId : String
  filename : String
  sizeBytes : Int
  sha256 : String
  idempotencyKey : String
  deriving DecidableEq

def Db.existing (db : Db) (actorId idempotencyKey : String) : Option Transfer :=
  db.transfers.rows.find? fun t => t.actorId = actorId && t.beginIdempotencyKey = idempotencyKey

def existingTransfer (existing : Transfer) (filename : String) (sizeBytes : Int) (digest : String) : Except Raised TransferResult := do
  check (existing.filename = filename && existing.sizeBytes = sizeBytes && existing.sha256 = digest)
    "idempotency_conflict" "幂等键已用于不同的上传请求"
  return transferResult existing

/-- `temp_path.touch(exist_ok=False)` and the new row. -/
def startTransfer (later : Nat) (uuid : String) (r : BeginRequest) (filename digest : String) : Call TransferResult := do
  let s ← get
  Act.require (s.disk.files (.part uuid)).isNone .io
  modify fun s => { s with disk := s.disk.put (.part uuid) (some []) }
  insertTransfer {
    id := uuid
    actorId := r.actorId
    filename := filename
    sizeBytes := r.sizeBytes
    sha256 := digest
    beginIdempotencyKey := r.idempotencyKey
    tempPath := .part uuid
    expiresAt := later + transferTtl }
  selectTransfer uuid

def begin (x : Text) (now later : Nat) (uuid : String) (r : BeginRequest) : Call TransferResult := do
  let filename ← Act.ofExcept (safeFilename r.filename)
  let digest := x.lower r.sha256
  Act.ofExcept (check (1 ≤ r.sizeBytes && r.sizeBytes ≤ maxToolFileBytes) "file_too_large" "文件大小必须在 1 到 4194304 字节之间")
  Act.ofExcept (check (isDigest digest) "invalid_sha256" "sha256 必须是 64 位十六进制字符串")
  modify (cleanupExpired now)
  connected none do
    let s ← get
    match s.db.existing r.actorId r.idempotencyKey with
    | some existing => Act.ofExcept (existingTransfer existing filename r.sizeBytes digest)
    | none => startTransfer later uuid r filename digest

structure ChunkRequest where
  actorId : String
  transferId : String
  offset : Int
  data : Bytes
  chunkSha256 : String
  idempotencyKey : String
  deriving DecidableEq

def checkChunk (x : Text) (r : ChunkRequest) : Except Raised Unit := do
  check (r.data ≠ [] && r.data.length ≤ maxToolFileChunkBytes) "invalid_chunk_size" "分块大小必须在 1 到 524288 字节之间"
  check (x.sha256 r.data = x.lower r.chunkSha256) "chunk_sha256_mismatch" "分块 SHA-256 校验失败"

def sameChunk (x : Text) (r : ChunkRequest) (row : Transfer) (previous : Chunk) : Except Raised TransferResult := do
  check (previous.offsetBytes = r.offset && previous.sizeBytes = r.data.length && previous.sha256 = x.sha256 r.data)
    "idempotency_conflict" "幂等键已用于不同的文件分块"
  return transferResult row

def checkOffset (r : ChunkRequest) (row : Transfer) : Except Raised Unit := do
  check (row.status = .uploading) "transfer_not_uploading" "上传会话已不处于可写状态"
  check (r.offset = row.receivedBytes) "offset_mismatch" ("offset 必须等于当前已接收字节数 " ++ toString row.receivedBytes)
  check (r.offset + r.data.length ≤ row.sizeBytes) "chunk_overflow" "分块会超过声明的文件大小"

/-- `stream.write`, `stream.flush` -/
def writeChunk (fault : Option Point) (path : Path) (data : Bytes) : Call Unit :=
  match fault with
  | some (.write reached) => do
    modify fun s => { s with disk := s.disk.append path (data.take reached) }
    throw .io
  | some (.flush reached) => do
    modify fun s => { s with disk := s.disk.append path (data.take reached) }
    throw .io
  | _ => modify fun s => { s with disk := s.disk.append path data }

def acceptChunk (x : Text) (fault : Option Point) (r : ChunkRequest) (row : Transfer) : Call TransferResult := do
  Act.ofExcept (checkOffset r row)
  attempt fault .openTemp
  writeChunk fault row.tempPath r.data
  attempt fault .fsync
  attempt fault .insertChunk
  insertChunk ⟨r.transferId, r.idempotencyKey, r.offset, r.data.length, x.sha256 r.data, r.data⟩
  attempt fault .updateTransfer
  modify (·.updateTransfer r.transferId (fun t => { t with receivedBytes := r.offset + r.data.length }) fun _ => rfl)
  attempt fault .selectUpdated
  selectTransfer r.transferId

def appendChunk (x : Text) (fault : Option Point) (now : Nat) (r : ChunkRequest) : Call TransferResult := do
  Act.ofExcept (checkChunk x r)
  connected fault do
    let s ← get
    attempt fault .selectTransfer
    let row ← Act.ofExcept (ownedTransfer s.db now r.transferId r.actorId)
    attempt fault .selectChunk
    match s.db.chunks.find (r.transferId, r.idempotencyKey) with
    | some previous => Act.ofExcept (sameChunk x r row previous)
    | none => acceptChunk x fault r row

def fileRefOf (uuid : String) : String := "gate_file_" ++ uuid

/-- `temp_path.replace(target_path)` -/
def replace (source target : Path) : Call Unit := do
  let s ← get
  let content ← Act.ofExcept (expect (s.disk.files source) .io)
  modify fun s => { s with disk := (s.disk.unlink source).put target (some content) }

/-- `target_dir.mkdir(parents=True, exist_ok=False)` -/
def makeDirectory (dir : Directory) : Call Unit := do
  let s ← get
  Act.require (!s.disk.dirs dir) .io
  modify fun s => { s with disk := { s.disk with dirs := Function.update s.disk.dirs dir true } }

def checkComplete (x : Text) (row : Transfer) (content : Option Bytes) : Except Raised Unit := do
  let content ← expect content .io
  check (x.sha256 content = row.sha256) "file_sha256_mismatch" "完整文件 SHA-256 校验失败"

structure CommitRequest where
  actorId : String
  transferId : String
  idempotencyKey : String
  deriving DecidableEq

def promote (x : Text) (fault : Option Point) (later : Nat) (uuid : String) (r : CommitRequest) (row : Transfer) :
    Call FileResult := do
  Act.ofExcept (check (row.status = .uploading && row.receivedBytes = row.sizeBytes) "upload_incomplete" "文件尚未完整上传")
  attempt fault .readTemp
  let s ← get
  Act.ofExcept (checkComplete x row (s.disk.files row.tempPath))
  let fileRef := fileRefOf uuid
  attempt fault .makeDirectory
  makeDirectory (.file fileRef)
  attempt fault .replace
  replace row.tempPath (.file fileRef row.filename)
  attempt fault .insertFile
  insertFile ⟨fileRef, r.actorId, row.filename, row.sizeBytes, row.sha256, .file fileRef row.filename, later + fileTtl⟩
  attempt fault .updateTransfer
  modify (·.updateTransfer r.transferId
    (fun t => { t with status := .committed, commitIdempotencyKey := some r.idempotencyKey, fileRef := some fileRef }) fun _ => rfl)
  fileResult fault (some fileRef)

def committedAgain (fault : Option Point) (r : CommitRequest) (row : Transfer) : Call FileResult := do
  Act.ofExcept (check (row.commitIdempotencyKey = some r.idempotencyKey) "idempotency_conflict" "上传已使用其他幂等键提交")
  fileResult fault row.fileRef

def commit (x : Text) (fault : Option Point) (now later : Nat) (uuid : String) (r : CommitRequest) : Call FileResult :=
  connected fault do
    let s ← get
    attempt fault .selectTransfer
    let row ← Act.ofExcept (ownedTransfer s.db now r.transferId r.actorId)
    if row.status = .committed then committedAgain fault r row
    else promote x fault later uuid r row

/-- The chunks go with the first `abort`. -/
def Store.aborted (s : Store) (transferId : String) (status : Status) : Store :=
  if status = .aborted then s
  else { s with db := { s.db with
    chunks := s.db.chunks.delete fun c => c.transferId = transferId
    transfers := s.db.transfers.update (·.id = transferId) (fun t => { t with status := .aborted }) fun _ => rfl } }

/-- The result holds the id of the transfer. -/
def abort (now : Nat) (actorId transferId : String) : Call String :=
  connected none do
    let s ← get
    let row ← Act.ofExcept (ownedTransfer s.db now transferId actorId)
    Act.ofExcept (check (row.status ≠ .committed) "transfer_committed" "已提交文件不能通过 abort 删除")
    modify fun s => { s with disk := s.disk.unlink row.tempPath }
    modify (·.aborted transferId row.status)
    return transferId

/-- `file_path.relative_to(self.file_root)` -/
def Path.inFiles : Path → Bool
  | .part _ => false
  | .file _ _ => true

def resolveRow (s : Store) (later : Nat) (actorId fileRef : String) : Except Raised Path := do
  let row ← expect (s.db.files.find fileRef) (.tool ⟨"file_ref_not_found", "fileRef 不存在或已过期"⟩)
  check (row.actorId = actorId) "file_ref_forbidden" "fileRef 不属于当前用户"
  check (later < row.expiresAt) "file_ref_expired" "fileRef 已过期"
  check row.filePath.inFiles "file_ref_invalid_path" "fileRef 对应路径超出 Gate 受控目录"
  check (s.disk.files row.filePath).isSome "file_ref_unavailable" "fileRef 对应文件不可用"
  return row.filePath

def resolve (now later : Nat) (actorId fileRef : String) : Call Path := do
  modify (cleanupExpired now)
  connected none do
    let s ← get
    Act.ofExcept (resolveRow s later actorId fileRef)

/-! ## Runs -/

inductive Request
  | begin (r : BeginRequest)
  | appendChunk (r : ChunkRequest)
  | commit (r : CommitRequest)
  | abort (actorId transferId : String)
  | cleanupExpired
  | resolve (actorId fileRef : String)
  deriving DecidableEq

inductive Answer
  | transfer (result : TransferResult)
  | file (result : FileResult)
  | aborted (transferId : String)
  | path (path : Path)
  | cleaned
  deriving DecidableEq

/-- A call: the clock is read at its start and again at its end. -/
structure Event where
  request : Request
  now : Nat
  later : Nat
  uuid : String
  fault : Option Point := none
  deriving DecidableEq

def perform (x : Text) (e : Event) : Call Answer :=
  match e.request with
  | .begin r => Answer.transfer <$> begin x e.now e.later e.uuid r
  | .appendChunk r => Answer.transfer <$> appendChunk x e.fault e.now r
  | .commit r => Answer.file <$> commit x e.fault e.now e.later e.uuid r
  | .abort actorId transferId => Answer.aborted <$> abort e.now actorId transferId
  | .cleanupExpired => do
    modify (cleanupExpired e.now)
    return .cleaned
  | .resolve actorId fileRef => Answer.path <$> resolve e.now e.later actorId fileRef

/-- What the call leaves, whether it returns or raises. -/
def left {α : Type} : EStateM.Result Raised Store α → Store
  | .ok _ s => s
  | .error _ s => s

/-- `drawn` are the values that `uuid4` has returned. -/
structure World where
  store : Store
  clock : Nat := 0
  drawn : List String := []

def World.initial : World := { store := .initial }

/-- The clock does not go back and `uuid4` does not repeat itself. -/
def Possible (w : World) (e : Event) : Prop := w.clock ≤ e.now ∧ e.now ≤ e.later ∧ e.uuid ∉ w.drawn

instance (w : World) (e : Event) : Decidable (Possible w e) := inferInstanceAs (Decidable (_ ∧ _ ∧ _))

def next (x : Text) (w : World) (e : Event) : World := ⟨left (perform x e w.store), e.later, e.uuid :: w.drawn⟩

def Step (x : Text) (w : World) (e : Event) (w' : World) : Prop := Possible w e ∧ w' = next x w e

end LingshuGate.Files

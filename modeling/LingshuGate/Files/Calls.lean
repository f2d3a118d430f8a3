import LingshuGate.Files.Transfers

/-!
# What each call of the file store does

A call that fails at a `Point` is told apart from one that is refused: `Raised.io` against `Raised.tool`.
-/

namespace LingshuGate.Files

open Lib

variable {x : Text} {fault : Option Point} {point : Point} {now later : Nat} {uuid : String} {s t : Store} {e : Raised}

@[simp] theorem attempt_ok {u : Unit} : attempt fault point s = .ok u t ↔ fault ≠ some point ∧ s = t := by
  simp [attempt]

@[simp] theorem attempt_error : attempt fault point s = .error e t ↔ fault = some point ∧ .io = e ∧ s = t := by
  simp [attempt]

variable {α : Type}

theorem attempt_none_run {f : Unit → Call α} : (attempt none point >>= f) s = f () s := rfl

theorem connected_ok {body : Call α} {a : α} : connected fault body s = .ok a t ↔
    fault ≠ some .connect ∧ body s = .ok a t ∧ fault ≠ some .commit := by
  simp only [connected, Act.bind_ok, attempt_ok, Act.get_ok, Act.cleanup_ok, Act.pure_ok]
  constructor
  · rintro ⟨_, _, ⟨hconnect, rfl⟩, _, _, ⟨rfl, rfl⟩, _, _, hbody, _, _, ⟨hcommit, rfl⟩, rfl, rfl⟩
    exact ⟨hconnect, hbody, hcommit⟩
  · rintro ⟨hconnect, hbody, hcommit⟩
    exact ⟨(), s, ⟨hconnect, rfl⟩, s, s, ⟨rfl, rfl⟩, a, t, hbody, (), t, ⟨hcommit, rfl⟩, rfl, rfl⟩

theorem connected_error {body : Call α} : connected fault body s = .error e t ↔
    (fault = some .connect ∧ .io = e ∧ s = t) ∨ (fault ≠ some .connect ∧ ∃ u, t = { u with db := s.db } ∧
      (body s = .error e u ∨ ∃ a, body s = .ok a u ∧ fault = some .commit ∧ .io = e)) := by
  simp only [connected, Act.bind_error, attempt_ok, attempt_error, Act.get_ok, Act.get_error, Act.cleanup_error,
    Act.pure_error, and_false, exists_false, or_false, false_or]
  constructor
  · rintro (h | ⟨_, _, ⟨hconnect, rfl⟩, _, _, ⟨rfl, rfl⟩, u, hbody | ⟨a, u', hbody, hcommit, he, rfl⟩, rfl⟩)
    · exact .inl h
    · exact .inr ⟨hconnect, u, rfl, .inl hbody⟩
    · exact .inr ⟨hconnect, u', rfl, .inr ⟨a, hbody, hcommit, he⟩⟩
  · rintro (h | ⟨hconnect, u, rfl, hbody | ⟨a, hbody, hcommit, he⟩⟩)
    · exact .inl h
    · exact .inr ⟨(), s, ⟨hconnect, rfl⟩, s, s, ⟨rfl, rfl⟩, u, .inl hbody, rfl⟩
    · exact .inr ⟨(), s, ⟨hconnect, rfl⟩, s, s, ⟨rfl, rfl⟩, u, .inr ⟨a, u, hbody, hcommit, he, rfl⟩, rfl⟩

/-! ## A chunk -/

/-- What an accepted chunk has written. -/
structure Accepted (x : Text) (r : ChunkRequest) (row : Transfer) (s t : Store) : Prop where
  chunks : s.db.chunks.insert ⟨r.transferId, r.idempotencyKey, r.offset, r.data.length, x.sha256 r.data, r.data⟩ = some t.db.chunks
  transfers : t.db.transfers = s.db.transfers.update (·.id = r.transferId)
    (fun t => { t with receivedBytes := r.offset + r.data.length }) fun _ => rfl
  files : t.db.files = s.db.files
  disk : t.disk = s.disk.append row.tempPath r.data

variable {r : ChunkRequest} {row row' : Transfer} {a : TransferResult}

theorem selectTransfer_ok {transferId : String} : selectTransfer transferId s = .ok a t ↔
    ∃ row, s.db.transfers.find transferId = some row ∧ a = transferResult row ∧ s = t := by
  simp only [selectTransfer, Act.bind_ok, Act.get_ok, Act.ofExcept_ok, expect_eq_ok, Act.pure_ok]
  constructor
  · rintro ⟨_, _, ⟨rfl, rfl⟩, row, _, ⟨hrow, rfl⟩, rfl, rfl⟩
    exact ⟨row, hrow, rfl, rfl⟩
  · rintro ⟨row, hrow, rfl, rfl⟩
    exact ⟨s, s, ⟨rfl, rfl⟩, row, s, ⟨hrow, rfl⟩, rfl, rfl⟩

theorem insertChunk_ok {c : Chunk} {u : Unit} : insertChunk c s = .ok u t ↔
    ∃ chunks, s.db.chunks.insert c = some chunks ∧ { s with db := { s.db with chunks := chunks } } = t := by
  simp only [insertChunk, Act.bind_ok, Act.get_ok, Act.ofExcept_ok, expect_eq_ok, Act.modify_ok]
  constructor
  · rintro ⟨_, _, ⟨rfl, rfl⟩, chunks, _, ⟨hinsert, rfl⟩, h⟩
    exact ⟨chunks, hinsert, h⟩
  · rintro ⟨chunks, hinsert, h⟩
    exact ⟨s, s, ⟨rfl, rfl⟩, chunks, s, ⟨hinsert, rfl⟩, h⟩

theorem acceptChunk_ok : acceptChunk x none r row s = .ok a t ↔ checkOffset r row = .ok () ∧ Accepted x r row s t ∧
    ∃ row', t.db.transfers.find r.transferId = some row' ∧ a = transferResult row' := by
  simp only [acceptChunk, writeChunk, Act.bind_ok, Act.ofExcept_ok, attempt_ok, Act.modify_ok, insertChunk_ok, selectTransfer_ok]
  constructor
  · rintro ⟨_, _, ⟨hcheck, rfl⟩, _, _, ⟨-, rfl⟩, _, _, rfl, _, _, ⟨-, rfl⟩, _, _, ⟨-, rfl⟩, _, _, ⟨chunks, hinsert, rfl⟩, _, _,
      ⟨-, rfl⟩, _, _, rfl, _, _, ⟨-, rfl⟩, row', hrow', rfl, rfl⟩
    exact ⟨hcheck, ⟨hinsert, rfl, rfl, rfl⟩, row', hrow', rfl⟩
  rintro ⟨hcheck, ⟨hchunks, htransfers, hfiles, hdisk⟩, row', hrow', rfl⟩
  have unplanned {p : Point} : (none : Option Point) ≠ some p := by rintro ⟨⟩
  refine ⟨(), s, ⟨hcheck, rfl⟩, (), s, ⟨unplanned, rfl⟩, (), _, rfl, (), _, ⟨unplanned, rfl⟩, (), _, ⟨unplanned, rfl⟩, (), _,
    ⟨_, hchunks, rfl⟩, (), _, ⟨unplanned, rfl⟩, (), _, rfl, (), _, ⟨unplanned, rfl⟩, row', ?_, rfl, ?_⟩
  · rw [htransfers] at hrow'
    exact hrow'
  · obtain ⟨⟨transfers, chunks, files⟩, disk⟩ := t
    simp only at htransfers hfiles hdisk
    subst htransfers hfiles hdisk
    rfl

theorem acceptChunk_refused (h : checkOffset r row = .error e) : acceptChunk x fault r row s = .error e s := by
  rw [acceptChunk, h, Act.ofExcept_error_run]

/-- Without a failure, a new chunk is refused by its checks only. -/
theorem acceptChunk_runs (hrow : s.db.transfers.find r.transferId = some row')
    (hnew : s.db.chunks.find (r.transferId, r.idempotencyKey) = none) (hcheck : checkOffset r row = .ok ()) :
    ∃ a t, acceptChunk x none r row s = .ok a t := by
  obtain ⟨chunks, hinsert⟩ := Table.insert_isSome (a := (⟨r.transferId, r.idempotencyKey, r.offset, r.data.length,
    x.sha256 r.data, r.data⟩ : Chunk)) (Table.find_eq_none.mp hnew)
  have hfind : (s.db.transfers.update (·.id = r.transferId) (fun t => { t with receivedBytes := r.offset + r.data.length })
      fun _ => rfl).find r.transferId = some { row' with receivedBytes := r.offset + r.data.length } := by
    rw [Table.find_update_key, if_pos rfl, hrow]
    rfl
  exact ⟨_, ⟨⟨_, chunks, s.db.files⟩, s.disk.append row.tempPath r.data⟩,
    acceptChunk_ok.mpr ⟨hcheck, ⟨hinsert, rfl, rfl, rfl⟩, _, hfind, rfl⟩⟩

theorem appendChunk_ok : appendChunk x none now r s = .ok a t ↔
    checkChunk x r = .ok () ∧ ∃ row, ownedTransfer s.db now r.transferId r.actorId = .ok row ∧
      ((∃ previous, s.db.chunks.find (r.transferId, r.idempotencyKey) = some previous ∧ sameChunk x r row previous = .ok a ∧ s = t) ∨
        (s.db.chunks.find (r.transferId, r.idempotencyKey) = none ∧ acceptChunk x none r row s = .ok a t)) := by
  simp only [appendChunk, Act.bind_ok, Act.ofExcept_ok, connected_ok, Act.get_ok, attempt_ok, and_assoc, exists_and_left,
    exists_eq_left, exists_eq_left', Unique.exists_iff, reduceCtorEq, not_false_eq_true, ne_eq, true_and, and_true]
  cases hfind : s.db.chunks.find (r.transferId, r.idempotencyKey) with
  | some previous | none => simp

/-! ## Refusals -/

/-- What raises nothing but `ToolFileError`. -/
def Refuses {α : Type} (a : Except Raised α) : Prop := ∀ e, a = .error e → ∃ error, e = .tool error

theorem Refuses.check {condition : Bool} {code message : String} : Refuses (check condition code message) := by
  unfold Files.check require
  split
  · nofun
  · rintro e ⟨⟩
    exact ⟨_, rfl⟩

theorem Refuses.ok {a : α} : Refuses (.ok a) := nofun

theorem Refuses.expect {a : Option α} {error : ToolFileError} : Refuses (expect a (.tool error)) := by
  cases a with
  | some a => nofun
  | none =>
    rintro e ⟨⟩
    exact ⟨_, rfl⟩

theorem Refuses.bind {α β : Type} {a : Except Raised α} {f : α → Except Raised β} (ha : Refuses a) (hf : ∀ b, Refuses (f b)) :
    Refuses (a >>= f) := by
  cases a with
  | error e =>
    intro e' h
    cases h
    exact ha e rfl
  | ok b => exact hf b

variable {db : Db}

theorem ownedTransfer_refuses {transferId actorId : String} : Refuses (ownedTransfer db now transferId actorId) :=
  .bind .expect fun _ => .bind .check fun _ => .ok

theorem checkChunk_refuses : Refuses (checkChunk x r) := .bind .check fun _ => .check

theorem sameChunk_refuses {previous : Chunk} : Refuses (sameChunk x r row previous) := .bind .check fun _ => .ok

theorem checkOffset_refuses : Refuses (checkOffset r row) := .bind .check fun _ => .bind .check fun _ => .check

theorem safeFilename_refuses {filename : String} : Refuses (safeFilename filename) := .bind .check fun _ => .bind .check fun _ => .ok

theorem existingTransfer_refuses {filename digest : String} {sizeBytes : Int} :
    Refuses (existingTransfer row filename sizeBytes digest) := .bind .check fun _ => .ok

theorem resolveRow_refuses {actorId fileRef : String} : Refuses (resolveRow s later actorId fileRef) :=
  .bind .expect fun _ => .bind .check fun _ => .bind .check fun _ => .bind .check fun _ => .bind .check fun _ => .ok

theorem ownedTransfer_ok {transferId actorId : String} : ownedTransfer db now transferId actorId = .ok row ↔
    db.transfers.find transferId = some row ∧ now < row.expiresAt ∧ row.actorId = actorId := by
  simp only [ownedTransfer, check, bind_eq_ok, expect_eq_ok, require_eq_ok, pure_eq_ok, Option.filter_eq_some_iff, decide_eq_true_eq]
  constructor
  · rintro ⟨_, ⟨hfind, hlive⟩, _, hactor, rfl⟩
    exact ⟨hfind, hlive, hactor⟩
  · rintro ⟨hfind, hlive, hactor⟩
    exact ⟨row, ⟨hfind, hlive⟩, (), hactor, rfl⟩

/-- Why a chunk is refused; the disk has no part in it. -/
def ChunkRefused (x : Text) (now : Nat) (r : ChunkRequest) (db : Db) (e : Raised) : Prop :=
  checkChunk x r = .error e ∨ (checkChunk x r = .ok () ∧ (ownedTransfer db now r.transferId r.actorId = .error e ∨
    ∃ row, ownedTransfer db now r.transferId r.actorId = .ok row ∧
      ((∃ previous, db.chunks.find (r.transferId, r.idempotencyKey) = some previous ∧ sameChunk x r row previous = .error e) ∨
        (db.chunks.find (r.transferId, r.idempotencyKey) = none ∧ checkOffset r row = .error e))))

/-- Without a failure, the call is refused or it succeeds. -/
theorem appendChunk_error : appendChunk x none now r s = .error e t ↔ ChunkRefused x now r s.db e ∧ s = t := by
  simp only [appendChunk, Act.bind_error, Act.ofExcept_error, Act.ofExcept_ok, connected_error, Act.get_ok, Act.get_error, attempt_ok,
    attempt_error, and_assoc, exists_and_left, exists_eq_left, exists_eq_left', Unique.exists_iff, reduceCtorEq, not_false_eq_true,
    ne_eq, true_and, false_and, false_or, or_false, exists_false, and_false]
  -- a new chunk is refused by its checks only
  have haccept : ∀ row u, ownedTransfer s.db now r.transferId r.actorId = .ok row →
      s.db.chunks.find (r.transferId, r.idempotencyKey) = none →
      (acceptChunk x none r row s = .error e u ↔ checkOffset r row = .error e ∧ s = u) := by
    intro row u howned hfind
    cases hcheck : checkOffset r row with
    | error e' => simp [acceptChunk_refused hcheck]
    | ok _ =>
      obtain ⟨a, t, hrun⟩ := acceptChunk_runs (x := x) (ownedTransfer_ok.mp howned).1 hfind hcheck
      simp [hrun]
  constructor
  · rintro (⟨hcheck, rfl⟩ | ⟨hcheck, u, rfl, ⟨howned, rfl⟩ | ⟨row, howned, h⟩⟩)
    · exact ⟨.inl hcheck, rfl⟩
    · exact ⟨.inr ⟨hcheck, .inl howned⟩, rfl⟩
    cases hfind : s.db.chunks.find (r.transferId, r.idempotencyKey) with
    | some previous =>
      rw [hfind] at h
      obtain ⟨hsame, rfl⟩ := Act.ofExcept_error.mp h
      exact ⟨.inr ⟨hcheck, .inr ⟨row, howned, .inl ⟨previous, hfind, hsame⟩⟩⟩, rfl⟩
    | none =>
      rw [hfind] at h
      obtain ⟨hoffset, rfl⟩ := (haccept row u howned hfind).mp h
      exact ⟨.inr ⟨hcheck, .inr ⟨row, howned, .inr ⟨hfind, hoffset⟩⟩⟩, rfl⟩
  rintro ⟨hcheck | ⟨hcheck, howned | ⟨row, howned, ⟨previous, hfind, hsame⟩ | ⟨hfind, hoffset⟩⟩⟩, rfl⟩
  · exact .inl ⟨hcheck, rfl⟩
  · exact .inr ⟨hcheck, s, rfl, .inl ⟨howned, rfl⟩⟩
  · refine .inr ⟨hcheck, s, rfl, .inr ⟨row, howned, ?_⟩⟩
    rw [hfind]
    exact Act.ofExcept_error.mpr ⟨hsame, rfl⟩
  · refine .inr ⟨hcheck, s, rfl, .inr ⟨row, howned, ?_⟩⟩
    rw [hfind]
    exact (haccept row s howned hfind).mpr ⟨hoffset, rfl⟩

theorem ChunkRefused.tool (h : ChunkRefused x now r db e) : ∃ error, e = .tool error := by
  obtain hcheck | ⟨-, howned | ⟨row, -, ⟨previous, -, hsame⟩ | ⟨-, hoffset⟩⟩⟩ := h
  · exact checkChunk_refuses e hcheck
  · exact ownedTransfer_refuses e howned
  · exact sameChunk_refuses e hsame
  · exact checkOffset_refuses e hoffset

/-! ## A commit -/

/-- What a commit has written. -/
structure Promoted (x : Text) (later : Nat) (uuid : String) (r : CommitRequest) (row : Transfer) (content : Bytes) (s t : Store) :
    Prop where
  complete : row.status = .uploading ∧ row.receivedBytes = row.sizeBytes
  held : s.disk.files row.tempPath = some content
  sha256 : x.sha256 content = row.sha256
  free : s.disk.dirs (.file (fileRefOf uuid)) = false
  files : s.db.files.insert ⟨fileRefOf uuid, r.actorId, row.filename, row.sizeBytes, row.sha256,
    .file (fileRefOf uuid) row.filename, later + fileTtl⟩ = some t.db.files
  transfers : t.db.transfers = s.db.transfers.update (·.id = r.transferId) (fun t =>
    { t with status := .committed, commitIdempotencyKey := some r.idempotencyKey, fileRef := some (fileRefOf uuid) }) fun _ => rfl
  chunks : t.db.chunks = s.db.chunks
  disk : t.disk = ({ s.disk with dirs := Function.update s.disk.dirs (.file (fileRefOf uuid)) true }.unlink row.tempPath).put
    (.file (fileRefOf uuid) row.filename) (some content)

def FileResult.of (f : File) : FileResult := ⟨f.fileRef, f.filename, f.sizeBytes, f.sha256, f.expiresAt⟩

section

variable {r : CommitRequest} {row : Transfer} {a : FileResult}

theorem fileResult_ok {fileRef : Option String} : fileResult none fileRef s = .ok a t ↔
    ∃ f, fileRef.bind s.db.files.find = some f ∧ a = .of f ∧ s = t := by
  simp only [fileResult, Act.bind_ok, Act.get_ok, attempt_ok, Act.ofExcept_ok, expect_eq_ok, Act.pure_ok, and_assoc, exists_and_left,
    exists_eq_left, exists_eq_left', Unique.exists_iff, reduceCtorEq, not_false_eq_true, ne_eq, true_and]
  exact exists_congr fun f => and_congr_right fun _ => and_congr_left fun _ => eq_comm

theorem insertFile_ok {f : File} {u : Unit} : insertFile f s = .ok u t ↔
    ∃ files, s.db.files.insert f = some files ∧ { s with db := { s.db with files := files } } = t := by
  simp only [insertFile, Act.bind_ok, Act.get_ok, Act.ofExcept_ok, expect_eq_ok, Act.modify_ok, and_assoc, exists_and_left,
    exists_eq_left, exists_eq_left']

theorem promote_ok : promote x none later uuid r row s = .ok a t ↔ ∃ content, Promoted x later uuid r row content s t ∧
    ∃ f, t.db.files.find (fileRefOf uuid) = some f ∧ a = .of f := by
  simp only [promote, checkComplete, makeDirectory, replace, check, Act.bind_ok, Act.ofExcept_ok, require_eq_ok, attempt_ok,
    Act.get_ok, bind_eq_ok, expect_eq_ok, Act.require_ok, Act.modify_ok, insertFile_ok, fileResult_ok, and_assoc, exists_and_left,
    exists_eq_left, exists_eq_left', Unique.exists_iff, reduceCtorEq, not_false_eq_true, ne_eq, true_and, Bool.and_eq_true,
    decide_eq_true_eq, Bool.not_eq_true']
  constructor
  · rintro ⟨hstatus, hsize, ⟨content, hheld, hsha⟩, hfree, _, ⟨content', hheld', rfl⟩, _, ⟨files, hinsert, rfl⟩, f, hf, ha, rfl⟩
    obtain rfl : content = content' := Option.some.inj (hheld.symm.trans hheld')
    exact ⟨content, ⟨⟨hstatus, hsize⟩, hheld, hsha, hfree, hinsert, rfl, rfl, rfl⟩, f, hf, ha⟩
  rintro ⟨content, ⟨⟨hstatus, hsize⟩, hheld, hsha, hfree, hinsert, htransfers, hchunks, hdisk⟩, f, hf, ha⟩
  refine ⟨hstatus, hsize, ⟨content, hheld, hsha⟩, hfree, _, ⟨content, hheld, rfl⟩, _, ⟨_, hinsert, rfl⟩, f, hf, ha, ?_⟩
  obtain ⟨⟨transfers, chunks, files⟩, disk⟩ := t
  simp only at htransfers hchunks hdisk
  subst htransfers hchunks hdisk
  rfl

/-- A reference that nothing has. -/
def Unused (s : Store) (fileRef : String) : Prop := s.disk.dirs (.file fileRef) = false ∧ s.db.files.find fileRef = none

/-- Without a failure, a complete upload that is on the disk is committed. -/
theorem promote_runs {content : Bytes} (hunused : Unused s (fileRefOf uuid)) (hcomplete : row.status = .uploading ∧
    row.receivedBytes = row.sizeBytes) (hheld : s.disk.files row.tempPath = some content) (hsha : x.sha256 content = row.sha256) :
    ∃ a t, promote x none later uuid r row s = .ok a t := by
  obtain ⟨files, hinsert⟩ := Table.insert_isSome (a := (⟨fileRefOf uuid, r.actorId, row.filename, row.sizeBytes, row.sha256,
    .file (fileRefOf uuid) row.filename, later + fileTtl⟩ : File)) (Table.find_eq_none.mp hunused.2)
  have hfind : files.find (fileRefOf uuid) = some ⟨fileRefOf uuid, r.actorId, row.filename, row.sizeBytes, row.sha256,
      .file (fileRefOf uuid) row.filename, later + fileTtl⟩ := by
    rw [Table.find_insert hinsert, if_pos rfl]
  exact ⟨_, ⟨⟨_, s.db.chunks, files⟩, _⟩,
    promote_ok.mpr ⟨content, ⟨hcomplete, hheld, hsha, hunused.1, hinsert, rfl, rfl, rfl⟩, _, hfind, rfl⟩⟩

/-- Why an upload is not committed. -/
def UploadRefused (x : Text) (row : Transfer) (content : Option Bytes) (e : Raised) : Prop :=
  check (row.status = .uploading && row.receivedBytes = row.sizeBytes) "upload_incomplete" "文件尚未完整上传" = .error e ∨
    ((row.status = .uploading ∧ row.receivedBytes = row.sizeBytes) ∧ checkComplete x row content = .error e)

/-- Without a failure, an upload is refused by its checks only. -/
theorem promote_error (hunused : Unused s (fileRefOf uuid)) : promote x none later uuid r row s = .error e t ↔
    UploadRefused x row (s.disk.files row.tempPath) e ∧ s = t := by
  cases hcheck : check (row.status = .uploading && row.receivedBytes = row.sizeBytes) "upload_incomplete" "文件尚未完整上传" with
  | error e' =>
    have hrun : promote x none later uuid r row s = .error e' s := by rw [promote, hcheck, Act.ofExcept_error_run]
    have hnot : ¬ (row.status = .uploading ∧ row.receivedBytes = row.sizeBytes) := by
      intro hcomplete
      simp [check, require, hcomplete] at hcheck
    simp [hrun, UploadRefused, hcheck, hnot]
  | ok _ =>
    have hcomplete := hcheck
    simp only [check, require_eq_ok, Bool.and_eq_true, decide_eq_true_eq] at hcomplete
    cases hcontent : checkComplete x row (s.disk.files row.tempPath) with
    | error e' =>
      have hrun : promote x none later uuid r row s = .error e' s := by
        rw [promote, hcheck, Act.ofExcept_run, attempt_none_run, Act.get_run, hcontent, Act.ofExcept_error_run]
      rw [UploadRefused, hcheck, hcontent, hrun]
      simp [hcomplete]
    | ok _ =>
      have hheld := hcontent
      simp only [checkComplete, check, bind_eq_ok, expect_eq_ok, require_eq_ok, decide_eq_true_eq] at hheld
      obtain ⟨content, hheld, hsha⟩ := hheld
      obtain ⟨a, u, hrun⟩ : ∃ a u, promote x none later uuid r row s = .ok a u := promote_runs hunused hcomplete hheld hsha
      rw [UploadRefused, hcheck, hcontent, hrun]
      simp

theorem commit_ok : commit x none now later uuid r s = .ok a t ↔ ∃ row, ownedTransfer s.db now r.transferId r.actorId = .ok row ∧
    ((row.status = .committed ∧ row.commitIdempotencyKey = some r.idempotencyKey ∧
        ∃ f, row.fileRef.bind s.db.files.find = some f ∧ a = .of f ∧ s = t) ∨
      (row.status ≠ .committed ∧ promote x none later uuid r row s = .ok a t)) := by
  simp only [commit, Act.bind_ok, Act.ofExcept_ok, connected_ok, Act.get_ok, attempt_ok, and_assoc, exists_and_left,
    exists_eq_left, exists_eq_left', Unique.exists_iff, reduceCtorEq, not_false_eq_true, ne_eq, true_and, and_true]
  refine exists_congr fun row => and_congr_right fun _ => ?_
  by_cases hstatus : row.status = .committed
  · simp [hstatus, committedAgain, check, Act.bind_ok, fileResult_ok]
  · simp [hstatus]

/-- The commit is repeated and its file has been dropped. -/
def FileGone (db : Db) (now : Nat) (r : CommitRequest) : Prop :=
  ∃ row, ownedTransfer db now r.transferId r.actorId = .ok row ∧ row.status = .committed ∧
    row.commitIdempotencyKey = some r.idempotencyKey ∧ row.fileRef.bind db.files.find = none

theorem commit_gone (h : FileGone s.db now r) : commit x none now later uuid r s = .error .type s := by
  obtain ⟨row, howned, hstatus, hkey, hgone⟩ := h
  have hagain : committedAgain none r row s = .error .type s := by
    simp only [committedAgain, check, hkey, decide_true, require, if_true, Act.ofExcept_run]
    rw [fileResult, Act.get_run, attempt_none_run, hgone]
    rfl
  refine connected_error.mpr (.inr ⟨by rintro ⟨⟩, s, rfl, .inl ?_⟩)
  rw [Act.get_run, attempt_none_run, howned, Act.ofExcept_run, if_pos hstatus]
  exact hagain

/-- Why a commit does not return. -/
def CommitRefused (x : Text) (now : Nat) (r : CommitRequest) (db : Db) (files : Path → Option Bytes) (e : Raised) : Prop :=
  ownedTransfer db now r.transferId r.actorId = .error e ∨ ∃ row, ownedTransfer db now r.transferId r.actorId = .ok row ∧
    ((row.status = .committed ∧ (check (row.commitIdempotencyKey = some r.idempotencyKey) "idempotency_conflict"
        "上传已使用其他幂等键提交" = .error e ∨ (row.commitIdempotencyKey = some r.idempotencyKey ∧
          row.fileRef.bind db.files.find = none ∧ e = .type))) ∨
      (row.status ≠ .committed ∧ UploadRefused x row (files row.tempPath) e))

theorem committedAgain_error : committedAgain none r row s = .error e t ↔
    (check (row.commitIdempotencyKey = some r.idempotencyKey) "idempotency_conflict" "上传已使用其他幂等键提交" = .error e ∨
      (row.commitIdempotencyKey = some r.idempotencyKey ∧ row.fileRef.bind s.db.files.find = none ∧ e = .type)) ∧ s = t := by
  cases hkey : check (row.commitIdempotencyKey = some r.idempotencyKey) "idempotency_conflict" "上传已使用其他幂等键提交" with
  | error e' =>
    have hne : row.commitIdempotencyKey ≠ some r.idempotencyKey := by
      intro heq
      simp [check, require, heq] at hkey
    rw [committedAgain, hkey, Act.ofExcept_error_run]
    simp [hne]
  | ok _ =>
    have heq := hkey
    simp only [check, require_eq_ok, decide_eq_true_eq] at heq
    rw [committedAgain, hkey, Act.ofExcept_run, fileResult, Act.get_run, attempt_none_run]
    cases hfile : row.fileRef.bind s.db.files.find with
    | some f => simp [expect, Act.ofExcept_run]
    | none =>
      simp only [expect, Act.ofExcept_error_run, heq]
      simp [eq_comm]

/-- Without a failure, a commit is refused, or it succeeds, or its file is gone. -/
theorem commit_error (hunused : Unused s (fileRefOf uuid)) : commit x none now later uuid r s = .error e t ↔
    CommitRefused x now r s.db s.disk.files e ∧ s = t := by
  simp only [commit, Act.bind_error, Act.ofExcept_error, Act.ofExcept_ok, connected_error, Act.get_ok, Act.get_error, attempt_ok,
    attempt_error, and_assoc, exists_and_left, exists_eq_left, exists_eq_left', Unique.exists_iff, reduceCtorEq, not_false_eq_true,
    ne_eq, true_and, false_and, false_or, or_false, exists_false, and_false]
  constructor
  · rintro ⟨u, rfl, ⟨howned, rfl⟩ | ⟨row, howned, h⟩⟩
    · exact ⟨.inl howned, rfl⟩
    by_cases hstatus : row.status = .committed
    · rw [if_pos hstatus] at h
      obtain ⟨hagain, rfl⟩ := committedAgain_error.mp h
      exact ⟨.inr ⟨row, howned, .inl ⟨hstatus, hagain⟩⟩, rfl⟩
    · rw [if_neg hstatus] at h
      obtain ⟨hupload, rfl⟩ := (promote_error hunused).mp h
      exact ⟨.inr ⟨row, howned, .inr ⟨hstatus, hupload⟩⟩, rfl⟩
  rintro ⟨howned | ⟨row, howned, ⟨hstatus, hagain⟩ | ⟨hstatus, hupload⟩⟩, rfl⟩
  · exact ⟨s, rfl, .inl ⟨howned, rfl⟩⟩
  · refine ⟨s, rfl, .inr ⟨row, howned, ?_⟩⟩
    rw [if_pos hstatus]
    exact committedAgain_error.mpr ⟨hagain, rfl⟩
  · refine ⟨s, rfl, .inr ⟨row, howned, ?_⟩⟩
    rw [if_neg hstatus]
    exact (promote_error hunused).mpr ⟨hupload, rfl⟩

/-- Where every upload has its bytes on the disk. -/
theorem CommitRefused.tool {files : Path → Option Bytes} (h : CommitRefused x now r db files e)
    (hheld : ∀ row ∈ db.transfers, row.status = .uploading → ∃ content, files row.tempPath = some content) :
    (∃ error, e = .tool error) ∨ (e = .type ∧ FileGone db now r) := by
  obtain howned | ⟨row, howned, ⟨hstatus, hkey | ⟨hkey, hfile, rfl⟩⟩ | ⟨-, hcomplete | ⟨⟨hstatus, -⟩, hcontent⟩⟩⟩ := h
  · exact .inl (ownedTransfer_refuses e howned)
  · exact .inl (Refuses.check e hkey)
  · exact .inr ⟨rfl, row, howned, hstatus, hkey, hfile⟩
  · exact .inl (Refuses.check e hcomplete)
  · obtain ⟨content, hheld⟩ := hheld row (Table.find_eq_some.mp (ownedTransfer_ok.mp howned).1).1 hstatus
    rw [hheld] at hcontent
    exact .inl (Refuses.check e hcontent)

end

/-! ## The other calls -/

/-- What the start of a transfer has written. -/
structure Started (later : Nat) (uuid : String) (r : BeginRequest) (filename digest : String) (s t : Store) : Prop where
  free : s.disk.files (.part uuid) = none
  transfers : s.db.transfers.insert ⟨uuid, r.actorId, filename, r.sizeBytes, digest, 0, .uploading, r.idempotencyKey, none, none,
    .part uuid, later + transferTtl⟩ = some t.db.transfers
  chunks : t.db.chunks = s.db.chunks
  files : t.db.files = s.db.files
  disk : t.disk = s.disk.put (.part uuid) (some [])

section

variable {r : BeginRequest} {existing : Transfer} {filename digest actorId transferId fileRef : String} {a : TransferResult}

theorem existing_eq_some {idempotencyKey : String} (h : db.existing actorId idempotencyKey = some existing) :
    existing ∈ db.transfers ∧ existing.actorId = actorId ∧ existing.beginIdempotencyKey = idempotencyKey := by
  refine ⟨List.mem_of_find?_eq_some h, ?_⟩
  simpa using List.find?_some h

theorem existing_eq_none {idempotencyKey : String} (h : db.existing actorId idempotencyKey = none) :
    ∀ t ∈ db.transfers, t.actorId ≠ actorId ∨ t.beginIdempotencyKey ≠ idempotencyKey := by
  intro t ht
  have := List.find?_eq_none.mp h t ht
  simp only [Bool.and_eq_true, decide_eq_true_eq, not_and] at this
  exact or_iff_not_imp_left.mpr fun hactor => this (not_not.mp hactor)

theorem startTransfer_ok (hnew : s.db.existing r.actorId r.idempotencyKey = none) :
    startTransfer later uuid r filename digest s = .ok a t ↔ Started later uuid r filename digest s t ∧
      ∃ row, t.db.transfers.find uuid = some row ∧ a = transferResult row := by
  simp only [startTransfer, insertTransfer, Act.bind_ok, Act.ofExcept_ok, Act.get_ok, Act.require_ok, Act.modify_ok, expect_eq_ok,
    selectTransfer_ok, and_assoc, exists_and_left, exists_eq_left, exists_eq_left', Unique.exists_iff]
  constructor
  · rintro ⟨hfree, -, _, ⟨transfers, hinsert, rfl⟩, row, hrow, ha, rfl⟩
    exact ⟨⟨Option.isNone_iff_eq_none.mp hfree, hinsert, rfl, rfl, rfl⟩, row, hrow, ha⟩
  rintro ⟨⟨hfree, hinsert, hchunks, hfiles, hdisk⟩, row, hrow, ha⟩
  refine ⟨Option.isNone_iff_eq_none.mpr hfree, ?_, _, ⟨_, hinsert, rfl⟩, row, hrow, ha, ?_⟩
  · simpa [or_iff_not_imp_left, Table.mem_def] using existing_eq_none hnew
  · obtain ⟨⟨transfers, chunks, files⟩, disk⟩ := t
    simp only at hchunks hfiles hdisk
    subst hchunks hfiles hdisk
    rfl

/-- A new transfer is started wherever its id is new. -/
theorem startTransfer_runs (hnew : s.db.existing r.actorId r.idempotencyKey = none) (hfree : s.disk.files (.part uuid) = none)
    (hid : s.db.transfers.find uuid = none) : ∃ a t, startTransfer later uuid r filename digest s = .ok a t := by
  obtain ⟨transfers, hinsert⟩ := Table.insert_isSome (a := (⟨uuid, r.actorId, filename, r.sizeBytes, digest, 0, .uploading,
    r.idempotencyKey, none, none, .part uuid, later + transferTtl⟩ : Transfer)) (Table.find_eq_none.mp hid)
  have hfind : transfers.find uuid = some ⟨uuid, r.actorId, filename, r.sizeBytes, digest, 0, .uploading,
      r.idempotencyKey, none, none, .part uuid, later + transferTtl⟩ := by
    rw [Table.find_insert hinsert, if_pos rfl]
  exact ⟨_, ⟨⟨transfers, s.db.chunks, s.db.files⟩, _⟩, (startTransfer_ok hnew).mpr ⟨⟨hfree, hinsert, rfl, rfl, rfl⟩, _, hfind, rfl⟩⟩

/-- What is checked before anything else. -/
def Asked (x : Text) (r : BeginRequest) (filename : String) : Prop :=
  safeFilename r.filename = .ok filename ∧ 1 ≤ r.sizeBytes ∧ r.sizeBytes ≤ maxToolFileBytes ∧ isDigest (x.lower r.sha256) = true

theorem begin_ok : begin x now later uuid r s = .ok a t ↔ ∃ filename, Asked x r filename ∧
    ((∃ existing, (cleanupExpired now s).db.existing r.actorId r.idempotencyKey = some existing ∧
        existingTransfer existing filename r.sizeBytes (x.lower r.sha256) = .ok a ∧ cleanupExpired now s = t) ∨
      ((cleanupExpired now s).db.existing r.actorId r.idempotencyKey = none ∧
        startTransfer later uuid r filename (x.lower r.sha256) (cleanupExpired now s) = .ok a t)) := by
  simp only [begin, Asked, check, Act.bind_ok, Act.ofExcept_ok, require_eq_ok, Act.modify_ok, connected_ok, Act.get_ok, and_assoc,
    exists_and_left, exists_eq_left, exists_eq_left', Unique.exists_iff, reduceCtorEq, not_false_eq_true, ne_eq, true_and, and_true,
    Bool.and_eq_true, decide_eq_true_eq]
  refine exists_congr fun filename => and_congr_right fun _ => and_congr_right fun _ => and_congr_right fun _ =>
    and_congr_right fun _ => ?_
  cases (cleanupExpired now s).db.existing r.actorId r.idempotencyKey with
  | some existing | none => simp

theorem begin_error (hfree : (cleanupExpired now s).disk.files (.part uuid) = none)
    (hid : (cleanupExpired now s).db.transfers.find uuid = none) (h : begin x now later uuid r s = .error e t) :
    (∃ error, e = .tool error) ∧ (s = t ∨ cleanupExpired now s = t) := by
  simp only [begin, Act.bind_error, Act.ofExcept_error, Act.ofExcept_ok, Act.modify_ok, Act.modify_error, connected_error, Act.get_ok,
    Act.get_error, and_assoc, exists_and_left, exists_eq_left, exists_eq_left', Unique.exists_iff, reduceCtorEq, not_false_eq_true,
    ne_eq, true_and, false_and, false_or, or_false, exists_false, and_false] at h
  obtain ⟨hname, rfl⟩ | ⟨filename, -, ⟨hsize, rfl⟩ | ⟨-, ⟨hdigest, rfl⟩ | ⟨-, u, rfl, h⟩⟩⟩ := h
  · exact ⟨safeFilename_refuses e hname, .inl rfl⟩
  · exact ⟨Refuses.check e hsize, .inl rfl⟩
  · exact ⟨Refuses.check e hdigest, .inl rfl⟩
  cases hexisting : (cleanupExpired now s).db.existing r.actorId r.idempotencyKey with
  | some existing =>
    rw [hexisting] at h
    obtain ⟨hsame, rfl⟩ := Act.ofExcept_error.mp h
    exact ⟨existingTransfer_refuses e hsame, .inr rfl⟩
  | none =>
    rw [hexisting] at h
    replace h : startTransfer later uuid r filename (x.lower r.sha256) (cleanupExpired now s) = .error e u := h
    obtain ⟨a, t, hrun⟩ := startTransfer_runs hexisting hfree hid
    cases hrun.symm.trans h

theorem abort_ok {a : String} : abort now actorId transferId s = .ok a t ↔ a = transferId ∧
    ∃ row, ownedTransfer s.db now transferId actorId = .ok row ∧ row.status ≠ .committed ∧
      Store.aborted { s with disk := s.disk.unlink row.tempPath } transferId row.status = t := by
  simp only [abort, check, connected_ok, Act.bind_ok, Act.get_ok, Act.ofExcept_ok, require_eq_ok, Act.modify_ok, Act.pure_ok,
    and_assoc, exists_and_left, exists_eq_left, exists_eq_left', Unique.exists_iff, reduceCtorEq, not_false_eq_true, ne_eq, true_and,
    and_true, decide_eq_true_eq]
  constructor
  · rintro ⟨row, howned, hstatus, rfl, h⟩
    exact ⟨rfl, row, howned, hstatus, h⟩
  · rintro ⟨rfl, row, howned, hstatus, h⟩
    exact ⟨row, howned, hstatus, rfl, h⟩

theorem abort_error (h : abort now actorId transferId s = .error e t) : (∃ error, e = .tool error) ∧ s = t := by
  simp only [abort, connected_error, Act.bind_error, Act.get_ok, Act.get_error, Act.ofExcept_ok, Act.ofExcept_error, Act.modify_ok,
    Act.modify_error, Act.pure_error, and_assoc, exists_and_left, exists_eq_left, exists_eq_left', Unique.exists_iff, reduceCtorEq,
    not_false_eq_true, ne_eq, true_and, false_and, false_or, or_false, exists_false, and_false] at h
  obtain ⟨u, rfl, ⟨howned, rfl⟩ | ⟨row, -, hstatus, rfl⟩⟩ := h
  · exact ⟨ownedTransfer_refuses e howned, rfl⟩
  · exact ⟨Refuses.check e hstatus, rfl⟩

theorem resolve_ok {a : Path} : resolve now later actorId fileRef s = .ok a t ↔
    resolveRow (cleanupExpired now s) later actorId fileRef = .ok a ∧ cleanupExpired now s = t := by
  simp only [resolve, connected_ok, Act.bind_ok, Act.get_ok, Act.ofExcept_ok, Act.modify_ok, and_assoc, exists_and_left,
    exists_eq_left, exists_eq_left', Unique.exists_iff, reduceCtorEq, not_false_eq_true, ne_eq, true_and, and_true]

theorem resolve_error (h : resolve now later actorId fileRef s = .error e t) :
    (∃ error, e = .tool error) ∧ cleanupExpired now s = t := by
  simp only [resolve, connected_error, Act.bind_error, Act.get_ok, Act.get_error, Act.ofExcept_error, Act.modify_ok, Act.modify_error,
    and_assoc, exists_and_left, exists_eq_left, exists_eq_left', Unique.exists_iff, reduceCtorEq, not_false_eq_true, ne_eq, true_and,
    false_and, false_or, or_false, exists_false, and_false] at h
  obtain ⟨u, rfl, hrow, rfl⟩ := h
  exact ⟨resolveRow_refuses e hrow, rfl⟩

end

end LingshuGate.Files

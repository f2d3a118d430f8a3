import LingshuGate.Files.Replays

/-!
# A call that failed is made again

`append_chunk` writes to the temp file (`tool_files.py:222`) and `commit` renames it (255) before the database has taken the rows,
and neither is undone when the transaction is rolled back. `appendChunk_failed` and `commit_failed` say what each failure leaves;
`Harmless` is the failure after which the disk is as it was, and `failed_calls_retried` is the retry: a byte too many is there for
good (`chunk_written_twice`), and a temp file that was renamed is not found again.
-/

namespace LingshuGate.Files

open Lib

variable {x : Text} {s t : Store} {p : Point} {now later : Nat} {uuid : String}

/-! ## A chunk -/

/-- What is in the temp file of a new chunk when the call fails at the point, or `none` if the file has not been written to. -/
def reached : Point → Bytes → Option Bytes
  | .write n, data => some (data.take n)
  | .flush n, data => some (data.take n)
  | .fsync, data => some data
  | .insertChunk, data => some data
  | .updateTransfer, data => some data
  | .selectUpdated, data => some data
  | .commit, data => some data
  | _, _ => none

variable {r : ChunkRequest} {row : Transfer} {α : Type} {fault : Option Point} {f : Unit → Call α}

theorem attempt_run : (attempt fault p >>= f) s = if fault = some p then .error .io s else f () s := by
  by_cases h : fault = some p
  · simp only [attempt, Act.require, h, ne_eq, not_true_eq_false, decide_false, Bool.false_eq_true, if_false, if_true]
    rfl
  · simp [attempt, Act.require, h, bind, EStateM.bind, pure, EStateM.pure]

variable {path : Path}

theorem writeChunk_run {data : Bytes} :
    (writeChunk fault path data >>= f) s = match fault with
      | some (.write n) | some (.flush n) => .error .io { s with disk := s.disk.append path (data.take n) }
      | _ => f () { s with disk := s.disk.append path data } := by
  cases fault with
  | none => rfl
  | some p => cases p <;> rfl

theorem insertChunk_run {c : Chunk} : (insertChunk c >>= f) s = match s.db.chunks.insert c with
    | some chunks => f () { s with db := { s.db with chunks := chunks } }
    | none => .error .io s := by
  cases h : s.db.chunks.insert c with
  | some chunks => exact Act.bind_run (insertChunk_ok.mpr ⟨chunks, h, rfl⟩)
  | none =>
    have hrun : insertChunk c s = .error .io s := by
      rw [insertChunk, Act.get_run, h]
      rfl
    simp [bind, EStateM.bind, hrun]

theorem selectTransfer_not_io {transferId : String} : selectTransfer transferId s ≠ .error .io t := by
  rw [selectTransfer, Act.get_run]
  cases s.db.transfers.find transferId <;> rintro ⟨⟩

/-- A failure after the checks. -/
theorem acceptChunk_failed (hnew : s.db.chunks.find (r.transferId, r.idempotencyKey) = none) (hcheck : checkOffset r row = .ok ())
    (h : acceptChunk x (some p) r row s = .error .io t) :
    t.disk = match reached p r.data with
      | some data => s.disk.append row.tempPath data
      | none => s.disk := by
  obtain ⟨chunks, hinsert⟩ := Table.insert_isSome (a := (⟨r.transferId, r.idempotencyKey, r.offset, r.data.length,
    x.sha256 r.data, r.data⟩ : Chunk)) (Table.find_eq_none.mp hnew)
  cases p
  all_goals
    simp only [acceptChunk, hcheck, Act.ofExcept_run, attempt_run, writeChunk_run, insertChunk_run, hinsert, Act.modify_run,
      Option.some.injEq, reduceCtorEq, if_true, if_false] at h
    first
    | exact absurd h selectTransfer_not_io
    | cases h; rfl

theorem acceptChunk_commit : acceptChunk x (some .commit) r row = acceptChunk x none r row := rfl

/-- A failed `append_chunk` takes its rows back; what it has written to the temp file stays. -/
theorem appendChunk_failed (h : appendChunk x (some p) now r s = .error .io t) : t.db = s.db ∧
    ((t.disk = s.disk ∧ ((s.db.chunks.find (r.transferId, r.idempotencyKey)).isSome = true ∨ reached p r.data = none)) ∨
      ∃ row data, ownedTransfer s.db now r.transferId r.actorId = .ok row ∧
        s.db.chunks.find (r.transferId, r.idempotencyKey) = none ∧ checkOffset r row = .ok () ∧ reached p r.data = some data ∧
        t.disk = s.disk.append row.tempPath data) := by
  simp only [appendChunk, Act.bind_error, Act.bind_ok, Act.ofExcept_error, Act.ofExcept_ok, connected_error, Act.get_ok, Act.get_error,
    attempt_ok, attempt_error, and_assoc, exists_and_left, exists_eq_left, exists_eq_left', Unique.exists_iff, ne_eq, true_and,
    false_or, Option.some.injEq, and_true] at h
  obtain ⟨hcheck, rfl⟩ | ⟨-, ⟨rfl, rfl⟩ | ⟨-, u, rfl, (⟨rfl, rfl⟩ | ⟨-, ⟨howned, rfl⟩ | ⟨row, howned, ⟨rfl, rfl⟩ | ⟨-, h⟩⟩⟩) |
    ⟨-, a, ⟨row, howned, -, h⟩, rfl⟩⟩⟩ := h
  · obtain ⟨error, herror⟩ := checkChunk_refuses _ hcheck
    cases herror
  · exact ⟨rfl, .inl ⟨rfl, .inr rfl⟩⟩
  · exact ⟨rfl, .inl ⟨rfl, .inr rfl⟩⟩
  · obtain ⟨error, herror⟩ := ownedTransfer_refuses _ howned
    cases herror
  · exact ⟨rfl, .inl ⟨rfl, .inr rfl⟩⟩
  · -- the call itself has failed
    refine ⟨rfl, ?_⟩
    cases hfind : s.db.chunks.find (r.transferId, r.idempotencyKey) with
    | some previous =>
      rw [hfind] at h
      obtain ⟨error, herror⟩ := sameChunk_refuses _ (Act.ofExcept_error.mp h).1
      cases herror
    | none =>
      rw [hfind] at h
      replace h : acceptChunk x (some p) r row s = .error .io u := h
      cases hcheck : checkOffset r row with
      | error e =>
        rw [acceptChunk_refused hcheck] at h
        obtain ⟨error, rfl⟩ := checkOffset_refuses e hcheck
        cases h
      | ok _ =>
        have hdisk := acceptChunk_failed hfind hcheck h
        cases hreached : reached p r.data with
        | none =>
          rw [hreached] at hdisk
          exact .inl ⟨hdisk, .inr rfl⟩
        | some data =>
          rw [hreached] at hdisk
          exact .inr ⟨row, data, howned, rfl, hcheck, rfl, hdisk⟩
  -- everything was done, and the transaction was not committed
  refine ⟨rfl, ?_⟩
  cases hfind : s.db.chunks.find (r.transferId, r.idempotencyKey) with
  | some previous =>
    rw [hfind] at h
    obtain ⟨-, rfl⟩ := Act.ofExcept_ok.mp h
    exact .inl ⟨rfl, .inl rfl⟩
  | none =>
    rw [hfind] at h
    replace h : acceptChunk x (some .commit) r row s = .ok a u := h
    rw [acceptChunk_commit] at h
    obtain ⟨hcheck, haccepted, -⟩ := acceptChunk_ok.mp h
    exact .inr ⟨row, r.data, howned, rfl, hcheck, rfl, haccepted.disk⟩

variable {s' : Store}

/-- The retry of a chunk, on what the failure has left of the disk. -/
theorem appendChunk_retried {a : TransferResult} (hdb : s'.db = s.db) (h : appendChunk x none now r s = .ok a t) :
    ((s.db.chunks.find (r.transferId, r.idempotencyKey)).isSome = true ∧ s = t ∧ appendChunk x none now r s' = .ok a s') ∨
      ∃ row, ownedTransfer s.db now r.transferId r.actorId = .ok row ∧ t.disk = s.disk.append row.tempPath r.data ∧
        s.db.chunks.find (r.transferId, r.idempotencyKey) = none ∧
        appendChunk x none now r s' = .ok a ⟨t.db, s'.disk.append row.tempPath r.data⟩ := by
  obtain ⟨hcheck, row, howned, ⟨previous, hfind, hsame, rfl⟩ | ⟨hfind, haccept⟩⟩ := appendChunk_ok.mp h
  · refine .inl ⟨by simp [hfind], rfl, appendChunk_ok.mpr ⟨hcheck, row, by rwa [hdb], .inl ⟨previous, by rwa [hdb], hsame, rfl⟩⟩⟩
  · obtain ⟨hoffset, haccepted, row', hrow', ha⟩ := acceptChunk_ok.mp haccept
    refine .inr ⟨row, howned, haccepted.disk, hfind, appendChunk_ok.mpr ⟨hcheck, row, by rwa [hdb], .inr ⟨by rwa [hdb], ?_⟩⟩⟩
    exact acceptChunk_ok.mpr ⟨hoffset, ⟨by rw [hdb]; exact haccepted.chunks, by rw [hdb]; exact haccepted.transfers,
      by rw [hdb]; exact haccepted.files, rfl⟩, row', hrow', ha⟩

section

variable {r : CommitRequest}

/-- The temp file has been renamed when the commit fails at the point. -/
def renamed : Point → Bool
  | .insertFile => true
  | .updateTransfer => true
  | .selectFile => true
  | .commit => true
  | _ => false

theorem makeDirectory_run {dir : Directory} (h : s.disk.dirs dir = false) :
    (makeDirectory dir >>= f) s = f () { s with disk := { s.disk with dirs := Function.update s.disk.dirs dir true } } := by
  refine Act.bind_run ?_
  simp [makeDirectory, Act.bind_ok, h]

theorem replace_run {source target : Path} : (replace source target >>= f) s =
    match s.disk.files source with
      | some content => f () { s with disk := (s.disk.unlink source).put target (some content) }
      | none => .error .io s := by
  cases h : s.disk.files source with
  | some content =>
    refine Act.bind_run ?_
    simp [replace, Act.bind_ok, h]
  | none =>
    have hrun : replace source target s = .error .io s := by
      rw [replace, Act.get_run, h]
      rfl
    simp [bind, EStateM.bind, hrun]

theorem insertFile_run {row : File} : (insertFile row >>= f) s = match s.db.files.insert row with
      | some files => f () { s with db := { s.db with files := files } }
      | none => .error .io s := by
  cases h : s.db.files.insert row with
  | some files => exact Act.bind_run (insertFile_ok.mpr ⟨files, h, rfl⟩)
  | none =>
    have hrun : insertFile row s = .error .io s := by
      rw [insertFile, Act.get_run, h]
      rfl
    simp [bind, EStateM.bind, hrun]

theorem fileResult_io {fault : Option Point} {fileRef : Option String} (h : fileResult fault fileRef s = .error .io t) :
    fault = some .selectFile ∧ s = t := by
  rw [fileResult, Act.get_run, attempt_run] at h
  split at h
  · cases h
    exact ⟨‹_›, rfl⟩
  · cases hfile : fileRef.bind s.db.files.find with
    | some f | none =>
      rw [hfile] at h
      cases h

/-- An upload that can be committed. -/
structure Ready (x : Text) (d : Disk) (row : Transfer) (content : Bytes) : Prop where
  complete : row.status = .uploading ∧ row.receivedBytes = row.sizeBytes
  held : d.files row.tempPath = some content
  sha256 : x.sha256 content = row.sha256

theorem promote_failed {content : Bytes} (hunused : Unused s (fileRefOf uuid)) (hready : Ready x s.disk row content)
    (h : promote x (some p) later uuid r row s = .error .io t) :
    t.disk.files = if renamed p then ((s.disk.unlink row.tempPath).put (.file (fileRefOf uuid) row.filename) (some content)).files
      else s.disk.files := by
  obtain ⟨files, hinsert⟩ := Table.insert_isSome (a := (⟨fileRefOf uuid, r.actorId, row.filename, row.sizeBytes, row.sha256,
    .file (fileRefOf uuid) row.filename, later + fileTtl⟩ : File)) (Table.find_eq_none.mp hunused.2)
  obtain ⟨hcomplete, hheld, hsha⟩ := hready
  have hcheck : check (row.status = .uploading && row.receivedBytes = row.sizeBytes) "upload_incomplete" "文件尚未完整上传" = .ok () := by
    simp [check, require, hcomplete]
  have hcontent : checkComplete x row (some content) = .ok () := by
    simp [checkComplete, check, require, hsha, expect, bind, Except.bind]
  have hend : ∀ u, fileResult (some p) (some (fileRefOf uuid)) u = .error .io t → p = .selectFile ∧ u = t :=
    fun u hu => (fileResult_io hu).imp_left Option.some.inj
  cases p
  all_goals
    simp only [promote, hcheck, Act.ofExcept_run, attempt_run, Act.get_run, hcontent, makeDirectory_run hunused.1, replace_run, hheld,
      insertFile_run, hinsert, Act.modify_run, Option.some.injEq, reduceCtorEq, if_true, if_false] at h
  case readTemp | makeDirectory | replace | insertFile | updateTransfer =>
    cases h
    rfl
  case selectFile =>
    obtain ⟨-, rfl⟩ := hend _ h
    rfl
  all_goals cases (hend _ h).1

/-- Nothing else is touched before the checks. -/
theorem promote_unready (hnot : ∀ content, ¬ Ready x s.disk row content) (h : promote x (some p) later uuid r row s = .error .io t) :
    s = t := by
  cases hcheck : check (row.status = .uploading && row.receivedBytes = row.sizeBytes) "upload_incomplete" "文件尚未完整上传" with
  | error e =>
    rw [promote, hcheck, Act.ofExcept_error_run] at h
    obtain ⟨error, rfl⟩ := Refuses.check e hcheck
    cases h
  | ok _ =>
    rw [promote, hcheck, Act.ofExcept_run, attempt_run] at h
    split at h
    · cases h
      rfl
    cases hcontent : checkComplete x row (s.disk.files row.tempPath) with
    | error e =>
      rw [Act.get_run, hcontent, Act.ofExcept_error_run] at h
      cases h
      rfl
    | ok _ =>
      simp only [check, require_eq_ok, Bool.and_eq_true, decide_eq_true_eq] at hcheck
      simp only [checkComplete, check, bind_eq_ok, expect_eq_ok, require_eq_ok, decide_eq_true_eq] at hcontent
      obtain ⟨content, hheld, hsha⟩ := hcontent
      exact absurd ⟨hcheck, hheld, hsha⟩ (hnot content)

theorem promote_commit : promote x (some .commit) later uuid r row = promote x none later uuid r row := rfl

theorem committedAgain_failed (h : committedAgain (some p) r row s = .error .io t) : s = t := by
  cases hkey : check (row.commitIdempotencyKey = some r.idempotencyKey) "idempotency_conflict" "上传已使用其他幂等键提交" with
  | error e =>
    rw [committedAgain, hkey, Act.ofExcept_error_run] at h
    obtain ⟨error, rfl⟩ := Refuses.check e hkey
    cases h
  | ok _ =>
    rw [committedAgain, hkey, Act.ofExcept_run] at h
    exact (fileResult_io h).2

/-- The upload that a commit would move. -/
def Moving (x : Text) (s : Store) (now : Nat) (r : CommitRequest) (row : Transfer) (content : Bytes) : Prop :=
  ownedTransfer s.db now r.transferId r.actorId = .ok row ∧ row.status ≠ .committed ∧ Ready x s.disk row content

/-- A failed `commit` takes its rows back; a temp file that was renamed stays where it is. -/
theorem commit_failed (hunused : Unused s (fileRefOf uuid)) (h : commit x (some p) now later uuid r s = .error .io t) : t.db = s.db ∧
    ((t.disk.files = s.disk.files ∧ (renamed p = false ∨ ∀ row content, ¬ Moving x s now r row content)) ∨
      ∃ row content, Moving x s now r row content ∧ renamed p = true ∧
        t.disk.files = ((s.disk.unlink row.tempPath).put (.file (fileRefOf uuid) row.filename) (some content)).files) := by
  simp only [commit, Act.bind_error, Act.bind_ok, Act.ofExcept_error, Act.ofExcept_ok, connected_error, Act.get_ok, Act.get_error,
    attempt_ok, attempt_error, and_assoc, exists_and_left, exists_eq_left, exists_eq_left', Unique.exists_iff, ne_eq, true_and,
    false_or, Option.some.injEq, and_true] at h
  obtain ⟨rfl, rfl⟩ | ⟨-, u, rfl, (⟨rfl, rfl⟩ | ⟨-, ⟨howned, rfl⟩ | ⟨row, howned, h⟩⟩) | ⟨-, a, ⟨row, howned, h⟩, rfl⟩⟩ := h
  · exact ⟨rfl, .inl ⟨rfl, .inl rfl⟩⟩
  · exact ⟨rfl, .inl ⟨rfl, .inl rfl⟩⟩
  · obtain ⟨error, herror⟩ := ownedTransfer_refuses _ howned
    cases herror
  · -- the call itself has failed
    refine ⟨rfl, ?_⟩
    have hrow : ∀ row' content, Moving x s now r row' content → row' = row := fun row' _ hmoving =>
      Except.ok.inj (hmoving.1.symm.trans howned)
    by_cases hstatus : row.status = .committed
    · rw [if_pos hstatus] at h
      obtain rfl := committedAgain_failed h
      exact .inl ⟨rfl, .inr fun row' content hmoving => hmoving.2.1 (hrow row' content hmoving ▸ hstatus)⟩
    rw [if_neg hstatus] at h
    by_cases hready : ∃ content, Ready x s.disk row content
    · obtain ⟨content, hready⟩ := hready
      have hfiles := promote_failed hunused hready h
      cases hp : renamed p with
      | false => exact .inl ⟨by rw [hfiles, hp]; rfl, .inl rfl⟩
      | true => exact .inr ⟨row, content, ⟨howned, hstatus, hready⟩, rfl, by rw [hfiles, hp]; rfl⟩
    · obtain rfl := promote_unready (fun content h => hready ⟨content, h⟩) h
      exact .inl ⟨rfl, .inr fun row' content hmoving => hready ⟨content, hrow row' content hmoving ▸ hmoving.2.2⟩⟩
  -- everything was done, and the transaction was not committed
  refine ⟨rfl, ?_⟩
  by_cases hstatus : row.status = .committed
  · rw [if_pos hstatus] at h
    have hagain : committedAgain none r row s = .ok a u := h
    simp only [committedAgain, Act.bind_ok, Act.ofExcept_ok, fileResult_ok, and_assoc, exists_and_left, exists_eq_left'] at hagain
    obtain ⟨-, -, f, -, -, rfl⟩ := hagain
    exact .inl ⟨rfl, .inr fun row' content hmoving => hmoving.2.1 (Except.ok.inj (hmoving.1.symm.trans howned) ▸ hstatus)⟩
  · rw [if_neg hstatus, promote_commit] at h
    obtain ⟨content, hpromoted, -⟩ := promote_ok.mp h
    refine .inr ⟨row, content, ⟨howned, hstatus, hpromoted.complete, hpromoted.held, hpromoted.sha256⟩, rfl, ?_⟩
    rw [hpromoted.disk]
    rfl

/-- The same rows and the same bytes: a directory that a failure has left behind may differ. -/
def Same (t t' : Store) : Prop := t'.db = t.db ∧ t'.disk.files = t.disk.files

theorem commit_retried {a : FileResult} {s' : Store} (hdb : s'.db = s.db) (hfiles : s'.disk.files = s.disk.files)
    (hunused : Unused s' (fileRefOf uuid)) (h : commit x none now later uuid r s = .ok a t) :
    ∃ t', commit x none now later uuid r s' = .ok a t' ∧ Same t t' := by
  obtain ⟨row, howned, ⟨hstatus, hkey, f, hf, ha, rfl⟩ | ⟨hstatus, hpromote⟩⟩ := commit_ok.mp h
  · exact ⟨s', commit_ok.mpr ⟨row, by rwa [hdb], .inl ⟨hstatus, hkey, f, by rwa [hdb], ha, rfl⟩⟩, hdb, hfiles⟩
  obtain ⟨content, hpromoted, hf⟩ := promote_ok.mp hpromote
  refine ⟨⟨t.db, _⟩, commit_ok.mpr ⟨row, by rwa [hdb], .inr ⟨hstatus, promote_ok.mpr ⟨content, ⟨hpromoted.complete, ?_,
    hpromoted.sha256, hunused.1, ?_, ?_, ?_, rfl⟩, hf⟩⟩⟩, rfl, ?_⟩
  · rw [hfiles]
    exact hpromoted.held
  · rw [hdb]
    exact hpromoted.files
  · rw [hdb]
    exact hpromoted.transfers
  · rw [hdb]
    exact hpromoted.chunks
  · rw [hpromoted.disk]
    simp only [Disk.put, Disk.unlink, hfiles]

end

/-! ## Retries -/

theorem append_append (d : Disk) (path : Path) (data data' : Bytes) :
    (d.append path data).append path data' = d.append path (data ++ data') := by
  simp [Disk.append, Disk.put]

theorem append_files_iff {d : Disk} {data data' : Bytes} :
    ((d.append path data).append path data').files = (d.append path data').files ↔ data = [] := by
  rw [append_append]
  constructor
  · intro h
    have := congrFun h path
    simpa [Disk.append] using this
  · rintro rfl
    rfl

/-- Where a failure does no harm: the call is a replay, or the temp file has neither got a byte nor been renamed. -/
def Harmless (s : Store) (p : Point) : Request → Prop
  | .appendChunk r => (s.db.chunks.find (r.transferId, r.idempotencyKey)).isSome = true ∨ (reached p r.data).getD [] = []
  | .commit r => (∃ row, s.db.transfers.find r.transferId = some row ∧ row.status = .committed) ∨ renamed p = false
  | _ => False

theorem appendChunk_retry_iff {now' : Nat} {a : TransferResult} (hfailed : appendChunk x (some p) now r s = .error .io s')
    (h : appendChunk x none now' r s = .ok a t) :
    (∃ t', appendChunk x none now' r s' = .ok a t' ∧ Same t t') ↔ Harmless s p (.appendChunk r) := by
  obtain ⟨hdb, ⟨hdisk, hwhy⟩ | ⟨row, data, howned, hnew, -, hreached, hdisk⟩⟩ := appendChunk_failed hfailed
  · -- nothing was written
    obtain rfl : s' = s := by
      cases s
      cases s'
      simp only at hdb hdisk
      rw [hdb, hdisk]
    refine iff_of_true ⟨t, h, rfl, rfl⟩ (hwhy.imp_right fun hnone => ?_)
    rw [hnone]
    rfl
  obtain ⟨hreplay, -⟩ | ⟨row', howned', htdisk, -, hretry⟩ := appendChunk_retried hdb h
  · simp [hnew] at hreplay
  obtain rfl : row' = row := Option.some.inj ((ownedTransfer_ok.mp howned').1.symm.trans (ownedTransfer_ok.mp howned).1)
  have hharmless : Harmless s p (.appendChunk r) ↔ data = [] := by simp [Harmless, hnew, hreached]
  have hfiles : (s'.disk.append row'.tempPath r.data).files = t.disk.files ↔ data = [] := by
    rw [hdisk, htdisk]
    exact append_files_iff
  rw [hharmless, ← hfiles]
  constructor
  · rintro ⟨t', ht', -, hsame⟩
    cases hretry.symm.trans ht'
    exact hsame
  · exact fun hsame => ⟨_, hretry, rfl, hsame⟩

section

variable {r : CommitRequest}

theorem moving_of_promoted {now' : Nat} {content : Bytes} (hnow : now ≤ now')
    (howned : ownedTransfer s.db now' r.transferId r.actorId = .ok row) (hstatus : row.status ≠ .committed)
    (h : Promoted x later uuid r row content s t) : Moving x s now r row content := by
  obtain ⟨hfind, hlive, hactor⟩ := ownedTransfer_ok.mp howned
  exact ⟨ownedTransfer_ok.mpr ⟨hfind, Nat.lt_of_le_of_lt hnow hlive, hactor⟩, hstatus, h.complete, h.held, h.sha256⟩

theorem commit_retry_iff {drawn : List String} {now' later' : Nat} {uuid' : String} {a : FileResult} {s' : Store}
    (hdrawn : Drawn drawn s) (hnew : uuid ∉ drawn) (hunused : Unused s' (fileRefOf uuid')) (hnow : now ≤ now')
    (hfailed : commit x (some p) now later uuid r s = .error .io s') (h : commit x none now' later' uuid' r s = .ok a t) :
    (∃ t', commit x none now' later' uuid' r s' = .ok a t' ∧ Same t t') ↔ Harmless s p (.commit r) := by
  obtain ⟨hdb, ⟨hfiles, hwhy⟩ | ⟨row, content, ⟨howned, hstatus, hready⟩, hrenamed, hfiles⟩⟩ :=
    commit_failed (unused_of_drawn hdrawn hnew) hfailed
  · refine iff_of_true (commit_retried hdb hfiles hunused h) ?_
    obtain ⟨row, howned, ⟨hstatus, -⟩ | ⟨hstatus, hpromote⟩⟩ := commit_ok.mp h
    · exact .inl ⟨row, (ownedTransfer_ok.mp howned).1, hstatus⟩
    · obtain ⟨content, hpromoted, -⟩ := promote_ok.mp hpromote
      exact .inr (hwhy.resolve_right fun hnot => hnot row content (moving_of_promoted hnow howned hstatus hpromoted))
  -- the temp file is no longer there
  obtain ⟨hfind, -⟩ := ownedTransfer_ok.mp howned
  refine iff_of_false ?_ ?_
  · rintro ⟨t', ht', -⟩
    obtain ⟨row', howned', ⟨hstatus', -⟩ | ⟨-, hpromote⟩⟩ := commit_ok.mp ht'
    all_goals
      obtain ⟨hfind', -⟩ := ownedTransfer_ok.mp howned'
      rw [hdb, hfind] at hfind'
      cases hfind'
    · exact hstatus hstatus'
    obtain ⟨content', hpromoted, -⟩ := promote_ok.mp hpromote
    have hheld := hpromoted.held
    rw [hfiles, Disk.put_files, if_neg, Disk.unlink, Disk.put_files, if_pos rfl] at hheld
    · cases hheld
    · rw [(hdrawn.1.ids row (Table.find_eq_some.mp hfind).1).2]
      rintro ⟨⟩
  · rintro (⟨row', hfind', hstatus'⟩ | hnot)
    · cases hfind.symm.trans hfind'
      exact hstatus hstatus'
    · cases hrenamed.symm.trans hnot

/-- A retry that comes too late is refused as it would have been. -/
theorem commit_refused_again {drawn : List String} {now' later' : Nat} {uuid' : String} {e : Raised} {s' : Store}
    (hdrawn : Drawn drawn s) (hnew : uuid ∉ drawn) (hnew' : uuid' ∉ drawn) (hunused : Unused s' (fileRefOf uuid'))
    (hfailed : commit x (some p) now later uuid r s = .error .io s') (h : commit x none now' later' uuid' r s = .error e t) :
    commit x none now' later' uuid' r s' = .error e s' := by
  obtain ⟨hrefused, -⟩ := (commit_error (unused_of_drawn hdrawn hnew')).mp h
  refine (commit_error hunused).mpr ⟨?_, rfl⟩
  obtain ⟨hdb, ⟨hfiles, -⟩ | ⟨row, content, ⟨howned, hstatus, hready⟩, -, -⟩⟩ := commit_failed (unused_of_drawn hdrawn hnew) hfailed
  · rwa [hdb, hfiles]
  rw [hdb]
  obtain howned' | ⟨row', howned', hwhy⟩ := hrefused
  · exact .inl howned'
  obtain rfl : row' = row := Option.some.inj ((ownedTransfer_ok.mp howned').1.symm.trans (ownedTransfer_ok.mp howned).1)
  obtain ⟨hcommitted, -⟩ | ⟨-, hcomplete | ⟨-, hcontent⟩⟩ := hwhy
  · exact absurd hcommitted hstatus
  · simp [check, require, hready.complete] at hcomplete
  · rw [hready.held] at hcontent
    simp [checkComplete, check, require, expect, hready.sha256, bind, Except.bind] at hcontent

end

/-- One call that has failed, and the same call again. -/
structure Repeated (x : Text) (w : World) (e₀ e : Event) (s' : Store) (p : Point) : Prop where
  called : ∃ r r', e₀.request = .appendChunk r ∨ e₀.request = .commit r'
  possible : Possible w e₀
  fault : e₀.fault = some p
  failed : perform x e₀ w.store = .error .io s'
  same : e.request = e₀.request
  safe : e.fault = none
  next : Possible (next x w e₀) e

theorem retried_iff {w : World} {e₀ e : Event} (hdrawn : Drawn w.drawn w.store) (h : Repeated x w e₀ e s' p) :
    (∀ a t, perform x e w.store = .ok a t → ((∃ t', perform x e s' = .ok a t' ∧ Same t t') ↔ Harmless w.store p e₀.request)) ∧
      ∀ err t, perform x e w.store = .error err t → perform x e s' = .error err s' := by
  obtain ⟨hcalled, hpossible, hfault, hfailed, hsame, hsafe, hnext⟩ := h
  obtain ⟨request₀, now₀, later₀, uuid₀, fault₀⟩ := e₀
  obtain ⟨request, now, later, uuid, fault⟩ := e
  simp only at hfault hsame hsafe
  subst hfault hsame hsafe
  obtain ⟨r, r', rfl | rfl⟩ := hcalled
  · replace hfailed : appendChunk x (some p) now₀ r w.store = .error .io s' := Act.map_error.mp hfailed
    refine ⟨fun a t hok => ?_, fun err t herror => ?_⟩
    · obtain ⟨a, hrun, rfl⟩ := Act.map_ok.mp hok
      rw [← appendChunk_retry_iff hfailed hrun]
      refine exists_congr fun t' => and_congr_left fun _ => ?_
      rw [perform, Act.map_ok]
      simp
    · obtain ⟨hrefused, -⟩ := appendChunk_error.mp (Act.map_error.mp herror)
      obtain ⟨hdb, -⟩ := appendChunk_failed hfailed
      exact Act.map_error.mpr (appendChunk_error.mpr ⟨by rwa [hdb], rfl⟩)
  replace hfailed : commit x (some p) now₀ later₀ uuid₀ r' w.store = .error .io s' := Act.map_error.mp hfailed
  have hleft : (Files.next x w ⟨.commit r', now₀, later₀, uuid₀, some p⟩).store = s' := by
    have : perform x ⟨.commit r', now₀, later₀, uuid₀, some p⟩ w.store = .error .io s' := Act.map_error.mpr hfailed
    rw [Files.next, this]
    rfl
  have hdrawn' : Drawn (uuid₀ :: w.drawn) s' :=
    hleft ▸ left_drawn List.mem_cons_self (hdrawn.mono fun u hu => List.mem_cons_of_mem _ hu)
  have hunused := unused_of_drawn hdrawn' hnext.2.2
  have hnow : now₀ ≤ now := hpossible.2.1.trans hnext.1
  have hnew : uuid ∉ w.drawn := fun hmem => hnext.2.2 (List.mem_cons_of_mem _ hmem)
  refine ⟨fun a t hok => ?_, fun err t herror => ?_⟩
  · obtain ⟨a, hrun, rfl⟩ := Act.map_ok.mp hok
    rw [← commit_retry_iff hdrawn hpossible.2.2 hunused hnow hfailed hrun]
    refine exists_congr fun t' => and_congr_left fun _ => ?_
    rw [perform, Act.map_ok]
    simp
  · exact Act.map_error.mpr (commit_refused_again hdrawn hpossible.2.2 hnew hunused hfailed (Act.map_error.mp herror))

/-! ## Runs in which failures do no harm -/

/-- The invariant is about rows and bytes. -/
theorem Kept.congr (h : Kept x s) (hsame : Same s t) : Kept x t := by
  obtain ⟨db, ⟨files, dirs⟩⟩ := t
  obtain ⟨hdb, hfiles⟩ := hsame
  simp only at hdb hfiles
  subst hdb hfiles
  exact ⟨h.placed, h.asked, h.single, h.uploading, h.settled, h.committed, h.chunks, h.files⟩

theorem append_nil {d : Disk} {content : Bytes} (h : d.files path = some content) : d.append path [] = d := by
  rw [Disk.append, h, Option.getD_some, List.append_nil, Disk.put, ← h, Function.update_eq_self]

/-- A failure that does no harm has changed nothing but a directory. -/
theorem same_of_harmless {drawn : List String} {e : Event} (h : Kept x s) (hdrawn : Drawn drawn s) (hnew : e.uuid ∉ drawn)
    (hfault : e.fault = some p) (hfailed : perform x e s = .error .io s') (hharmless : Harmless s p e.request) : Same s s' := by
  obtain ⟨request, now, later, uuid, fault⟩ := e
  simp only at hnew hfault
  subst hfault
  cases request with
  | appendChunk r =>
    obtain ⟨hdb, ⟨hdisk, -⟩ | ⟨row, data, howned, hfind, hcheck, hreached, hdisk⟩⟩ := appendChunk_failed (Act.map_error.mp hfailed)
    · exact ⟨hdb, by rw [hdisk]⟩
    obtain hreplay | hempty := hharmless
    · simp [hfind] at hreplay
    rw [hreached, Option.getD_some] at hempty
    simp only [checkOffset, check, bind_eq_ok, require_eq_ok, decide_eq_true_eq] at hcheck
    obtain ⟨-, hstatus, -⟩ := hcheck
    obtain ⟨hmem, -⟩ := Table.find_eq_some.mp (ownedTransfer_ok.mp howned).1
    rw [hempty, append_nil (h.uploading row hmem hstatus).1] at hdisk
    exact ⟨hdb, by rw [hdisk]⟩
  | commit r =>
    obtain ⟨hdb, ⟨hfiles, -⟩ | ⟨row, content, ⟨howned, hstatus, -⟩, hrenamed, -⟩⟩ :=
      commit_failed (unused_of_drawn hdrawn hnew) (Act.map_error.mp hfailed)
    · exact ⟨hdb, hfiles⟩
    · obtain ⟨row', hfind, hstatus'⟩ | hnot := hharmless
      · obtain rfl : row' = row := Option.some.inj (hfind.symm.trans (ownedTransfer_ok.mp howned).1)
        exact absurd hstatus' hstatus
      · cases hrenamed.symm.trans hnot
  | begin r | abort actorId transferId | cleanupExpired | resolve actorId fileRef => exact hharmless.elim

/-- Nothing fails, or nothing is harmed. -/
def HarmlessStep (x : Text) (w : World) (e : Event) (w' : World) : Prop :=
  Step x w e w' ∧ ∀ p, e.fault = some p → (∃ s', perform x e w.store = .error .io s') ∧ Harmless w.store p e.request

theorem kept_harmless_run {w : World} {tr : List Event} (h : Run (HarmlessStep x) .initial tr w) :
    Kept x w.store ∧ Drawn w.drawn w.store := by
  refine h.invariant (I := fun w => Kept x w.store ∧ Drawn w.drawn w.store) ?_ ?_
  · exact ⟨Kept.initial, drawn_run (x := x) (.nil _)⟩
  rintro w e _ ⟨hkept, hdrawn⟩ ⟨⟨hpossible, rfl⟩, hharmless⟩
  refine ⟨?_, left_drawn List.mem_cons_self (hdrawn.mono fun u hu => List.mem_cons_of_mem _ hu)⟩
  cases hfault : e.fault with
  | none => exact (perform_kept hkept hdrawn hpossible.2.2 hfault).1
  | some p =>
    obtain ⟨⟨s', hfailed⟩, hharmless⟩ := hharmless p hfault
    have hsame := same_of_harmless hkept hdrawn hpossible.2.2 hfault hfailed hharmless
    rw [Files.next, hfailed]
    exact hkept.congr hsame

/-- **Retries.** In any state of any run, failures and all: the call that failed, made again, ends as it would have ended (the same
result, the same rows, the same bytes) exactly when the failure did no harm; and where it comes too late it is refused as it would
have been. If no failure of a run does harm, what has been committed is the accepted chunks. -/
theorem failed_calls_retried (x : Text) : (∀ w tr, Run (Step x) .initial tr w → ∀ p e₀ e s', Repeated x w e₀ e s' p →
      (∀ a t, perform x e w.store = .ok a t → ((∃ t', perform x e s' = .ok a t' ∧ Same t t') ↔ Harmless w.store p e₀.request)) ∧
        ∀ err t, perform x e w.store = .error err t → perform x e s' = .error err s') ∧
    ∀ w tr, Run (HarmlessStep x) .initial tr w → ∀ t ∈ w.store.db.transfers, t.status = .committed → ∃ fileRef,
      t.fileRef = some fileRef ∧
        ∀ f ∈ w.store.db.files, f.fileRef = fileRef → w.store.disk.files f.filePath = some (w.store.db.received t.id) :=
  ⟨fun _ _ hrun _ _ _ _ hrepeated => retried_iff (drawn_run hrun) hrepeated, fun _ _ hrun => (kept_harmless_run hrun).1.committed⟩

/-! ### A chunk that is written twice -/

/-- How a call of the run below ends: whether it returns, and whether it fails. -/
def ending : EStateM.Result Raised Store Answer → Bool × Bool
  | .ok _ _ => (true, false)
  | .error e _ => (false, e = .io)

theorem of_ending_ok {result : EStateM.Result Raised Store Answer} (h : ending result = (true, false)) : ∃ a t, result = .ok a t := by
  cases result with
  | ok a t => exact ⟨a, t, rfl⟩
  | error e t => cases (Prod.mk.inj h).1

theorem of_ending_io {result : EStateM.Result Raised Store Answer} (h : ending result = (false, true)) :
    result = .error .io (left result) := by
  cases result with
  | ok a t => cases (Prod.mk.inj h).1
  | error e t => rw [of_decide_eq_true (Prod.mk.inj h).2, left]

/-- Two bytes are announced. -/
def begun : List Event :=
  [⟨.begin ⟨"alice", "ab.txt", 2, "fb8e20fc2e4c3f248c60c39bd652f3c1347298bb977b8b4d5903b85055620603", "begin-0001"⟩, 0, 0, "00", none⟩]

/-- The first of them is sent. -/
def chunkSent (now : Nat) (uuid : String) (fault : Option Point) : Event :=
  ⟨.appendChunk ⟨"alice", "00", 0, [97], sample.sha256 [97], "chunk-0001"⟩, now, now, uuid, fault⟩

theorem begun_played : guarded (next sample) (fun w e => decide (Possible w e ∧ e.fault = none)) .initial begun = true ∧
    "01" ∉ (after begun).drawn ∧ "02" ∉ "01" :: (after begun).drawn ∧
    (∀ p ∈ [Point.openTemp, .insertChunk], ending (perform sample (chunkSent 1 "01" (some p)) (after begun).store) = (false, true)) ∧
    ending (perform sample (chunkSent 2 "02" none) (after begun).store) = (true, false) ∧
    ((after begun).store.db.chunks.find ("00", "chunk-0001")).isSome = false := by
  decide +kernel

theorem begun_run : Run (Step sample) .initial begun (after begun) := (run_of_guarded begun_played.1).mono fun _ _ _ h => h.1

theorem chunk_repeated {p : Point} (hp : p ∈ [Point.openTemp, .insertChunk]) :
    Repeated sample (after begun) (chunkSent 1 "01" (some p)) (chunkSent 2 "02" none)
      (left (perform sample (chunkSent 1 "01" (some p)) (after begun).store)) p where
  called := ⟨_, ⟨"", "", ""⟩, .inl rfl⟩
  possible := ⟨Nat.zero_le 1, Nat.le_refl 1, begun_played.2.1⟩
  fault := rfl
  failed := of_ending_io (begun_played.2.2.2.1 p hp)
  same := rfl
  safe := rfl
  next := ⟨Nat.le_succ 1, Nat.le_refl 2, begun_played.2.2.1⟩

/-- The temp file could not be opened. -/
theorem failed_calls_retried_openTemp : ∃ a t t', perform sample (chunkSent 2 "02" none) (after begun).store = .ok a t ∧
    perform sample (chunkSent 2 "02" none) (left (perform sample (chunkSent 1 "01" (some .openTemp)) (after begun).store)) = .ok a t' ∧
      Same t t' := by
  obtain ⟨a, t, hok⟩ := of_ending_ok begun_played.2.2.2.2.1
  have hrepeated := chunk_repeated List.mem_cons_self
  obtain ⟨t', hretry, hsame⟩ := (((failed_calls_retried sample).1 _ _ begun_run _ _ _ _ hrepeated).1 a t hok).mpr (.inr rfl)
  exact ⟨a, t, t', hok, hretry, hsame⟩

/-- The byte is on the disk when its row cannot be inserted, and the retry writes it once more. -/
theorem chunk_written_twice : ∃ w tr p e₀ e s', Run (Step sample) .initial tr w ∧ Repeated sample w e₀ e s' p ∧
    (∃ a t, perform sample e w.store = .ok a t) ∧
    ¬ ∃ a t t', perform sample e w.store = .ok a t ∧ perform sample e s' = .ok a t' ∧ Same t t' := by
  have hrepeated := chunk_repeated (List.mem_cons_of_mem _ (List.mem_singleton_self Point.insertChunk))
  refine ⟨_, _, _, _, _, _, begun_run, hrepeated, of_ending_ok begun_played.2.2.2.2.1, ?_⟩
  rintro ⟨a, t, t', hok, hretry, hsame⟩
  obtain hreplay | hempty := ((retried_iff (drawn_run begun_run) hrepeated).1 a t hok).mp ⟨t', hretry, hsame⟩
  · exact Bool.false_ne_true (begun_played.2.2.2.2.2.symm.trans hreplay)
  · cases hempty

end LingshuGate.Files

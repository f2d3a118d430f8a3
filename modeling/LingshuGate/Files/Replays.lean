import LingshuGate.Files.Kept

/-!
# Calls in any order

A transfer is held for two hours from its start and a file for thirty minutes from its commit, so a committed transfer outlives its
file. Until the file is dropped a repeated commit returns it; afterwards `_file_result` (`tool_files.py:347`) subscripts a row that
is not there: `commit_of_dropped_file`. `file_transfers_kept` is what holds of every other call.
-/

namespace LingshuGate.Files

open Lib

variable {x : Text} {s t : Store} {e : Event} {drawn : List String}

/-- The call repeats one that was accepted: its key and its content are those of a row that is still there. -/
def Replayed (x : Text) (s : Store) (e : Event) : Prop :=
  match e.request with
  | .begin r => ∃ t ∈ s.db.transfers, e.now < t.expiresAt ∧ t.actorId = r.actorId ∧ t.beginIdempotencyKey = r.idempotencyKey ∧
      safeFilename r.filename = .ok t.filename ∧ r.sizeBytes = t.sizeBytes ∧ x.lower r.sha256 = t.sha256
  | .appendChunk r => ∃ row, ownedTransfer s.db e.now r.transferId r.actorId = .ok row ∧ ∃ c ∈ s.db.chunks,
      c.transferId = r.transferId ∧ c.idempotencyKey = r.idempotencyKey ∧ c.offsetBytes = r.offset ∧ c.data = r.data ∧
        x.lower r.chunkSha256 = x.sha256 r.data
  | .commit r => ∃ row, ownedTransfer s.db e.now r.transferId r.actorId = .ok row ∧ row.status = .committed ∧
      row.commitIdempotencyKey = some r.idempotencyKey
  | .abort actorId transferId => ∃ row, ownedTransfer s.db e.now transferId actorId = .ok row ∧ row.status = .aborted
  | _ => False

/-- `begin` drops what has expired before it looks for the key. -/
def swept (s : Store) (e : Event) : Store :=
  match e.request with
  | .begin _ => cleanupExpired e.now s
  | _ => s

/-- The call returns or raises a `ToolFileError`, and as a replay it returns and changes nothing. -/
def Honoured (x : Text) (s : Store) (e : Event) : Prop :=
  Answered (perform x e s) ∧ (Replayed x s e → ∃ a, perform x e s = .ok a (swept s e))

/-! ## Replays -/

variable {row : Transfer}

variable {now later : Nat}

theorem begin_replayed {uuid : String} {r : BeginRequest} (h : Kept x s) (hrow : row ∈ s.db.transfers)
    (hlive : now < row.expiresAt) (hactor : row.actorId = r.actorId) (hkey : row.beginIdempotencyKey = r.idempotencyKey)
    (hname : safeFilename r.filename = .ok row.filename) (hsize : r.sizeBytes = row.sizeBytes) (hsha : x.lower r.sha256 = row.sha256) :
    begin x now later uuid r s = .ok (transferResult row) (cleanupExpired now s) := by
  obtain ⟨hone, hmax, hdigest⟩ := h.asked row hrow
  have hmem := mem_transfers_cleanup.mpr ⟨hrow, hlive⟩
  refine begin_ok.mpr ⟨row.filename, ⟨hname, by omega, by omega, by rwa [hsha]⟩, .inl ⟨row, ?_, ?_, rfl⟩⟩
  · cases hexisting : (cleanupExpired now s).db.existing r.actorId r.idempotencyKey with
    | none => exact ((existing_eq_none hexisting row hmem).elim (· hactor) (· hkey)).elim
    | some existing =>
      obtain ⟨hmem', hactor', hkey'⟩ := existing_eq_some hexisting
      rw [(h.cleanupExpired now).single existing hmem' row hmem (hactor'.trans hactor.symm) (hkey'.trans hkey.symm)]
  · simp [existingTransfer, check, require, hsize, hsha, bind, Except.bind, pure, Except.pure]

theorem appendChunk_replayed {now : Nat} {r : ChunkRequest} {c : Chunk} (h : Kept x s)
    (howned : ownedTransfer s.db now r.transferId r.actorId = .ok row) (hc : c ∈ s.db.chunks) (hid : c.transferId = r.transferId)
    (hkey : c.idempotencyKey = r.idempotencyKey) (hoffset : c.offsetBytes = r.offset) (hdata : c.data = r.data)
    (hsha : x.lower r.chunkSha256 = x.sha256 r.data) : appendChunk x none now r s = .ok (transferResult row) s := by
  obtain ⟨-, hsize, hdigest, hne, hmax⟩ := h.chunks c hc
  have hfind : s.db.chunks.find (r.transferId, r.idempotencyKey) = some c := Table.find_eq_some.mpr ⟨hc, by rw [hid, hkey]⟩
  refine appendChunk_ok.mpr ⟨?_, row, howned, .inl ⟨c, hfind, ?_, rfl⟩⟩
  · rw [hdata] at hne hmax
    simp [checkChunk, check, require, hsha, hne, hmax, bind, Except.bind]
  · simp [sameChunk, check, require, hoffset, hsize, hdigest, hdata, bind, Except.bind, pure, Except.pure]

theorem commit_replayed {uuid : String} {r : CommitRequest}
    (howned : ownedTransfer s.db now r.transferId r.actorId = .ok row) (hstatus : row.status = .committed)
    (hkey : row.commitIdempotencyKey = some r.idempotencyKey) (hgone : ¬ FileGone s.db now r) :
    ∃ a, commit x none now later uuid r s = .ok a s := by
  cases hfile : row.fileRef.bind s.db.files.find with
  | none => exact absurd ⟨row, howned, hstatus, hkey, hfile⟩ hgone
  | some f => exact ⟨.of f, commit_ok.mpr ⟨row, howned, .inl ⟨hstatus, hkey, f, hfile, rfl, rfl⟩⟩⟩

theorem abort_replayed {now : Nat} {actorId transferId : String} (h : Kept x s)
    (howned : ownedTransfer s.db now transferId actorId = .ok row) (hstatus : row.status = .aborted) :
    abort now actorId transferId s = .ok transferId s :=
  abort_ok.mpr ⟨rfl, row, howned, by simp [hstatus],
    aborted_again h (Table.find_eq_some.mp (ownedTransfer_ok.mp howned).1).1 hstatus⟩

theorem not_honoured_of_gone (hfault : e.fault = none) (h : Gone s e) : ¬ Honoured x s e := by
  rintro ⟨hanswered, -⟩
  obtain ⟨r, hrequest, hgone⟩ := h
  have hrun : perform x e s = .error .type s := by
    rw [perform, hrequest]
    exact Act.map_error.mpr (hfault ▸ commit_gone hgone)
  rw [hrun] at hanswered
  exact hanswered

/-- **Every call but one.** A call that does not fail is honoured unless it repeats the commit of a file that was dropped. -/
theorem honoured_iff (h : Kept x s) (hdrawn : Drawn drawn s) (hnew : e.uuid ∉ drawn) (hfault : e.fault = none) :
    Honoured x s e ↔ ¬ Gone s e := by
  constructor
  · exact fun hhonoured hgone => not_honoured_of_gone hfault hgone hhonoured
  intro hgone
  refine ⟨(perform_kept h hdrawn hnew hfault).2.resolve_right fun hwrong => hgone hwrong.1, fun hreplayed => ?_⟩
  obtain ⟨request, now, later, uuid, fault⟩ := e
  simp only at hfault
  subst hfault
  cases request with
  | begin r =>
    obtain ⟨row, hrow, hlive, hactor, hkey, hname, hsize, hsha⟩ := hreplayed
    exact ⟨_, Act.map_ok.mpr ⟨_, begin_replayed h hrow hlive hactor hkey hname hsize hsha, rfl⟩⟩
  | appendChunk r =>
    obtain ⟨row, howned, c, hc, hid, hkey, hoffset, hdata, hsha⟩ := hreplayed
    exact ⟨_, Act.map_ok.mpr ⟨_, appendChunk_replayed h howned hc hid hkey hoffset hdata hsha, rfl⟩⟩
  | commit r =>
    obtain ⟨row, howned, hstatus, hkey⟩ := hreplayed
    obtain ⟨a, hrun⟩ := commit_replayed howned hstatus hkey fun hfile => hgone ⟨r, rfl, hfile⟩
    exact ⟨_, Act.map_ok.mpr ⟨_, hrun, rfl⟩⟩
  | abort actorId transferId =>
    obtain ⟨row, howned, hstatus⟩ := hreplayed
    exact ⟨_, Act.map_ok.mpr ⟨_, abort_replayed h howned hstatus, rfl⟩⟩
  | cleanupExpired | resolve actorId fileRef => exact hreplayed.elim

/-! ## Files -/

theorem resolveRow_ok {later : Nat} {actorId fileRef : String} {path : Path} : resolveRow s later actorId fileRef = .ok path ↔
    ∃ f, s.db.files.find fileRef = some f ∧ f.actorId = actorId ∧ later < f.expiresAt ∧ f.filePath.inFiles = true ∧
      (s.disk.files f.filePath).isSome = true ∧ path = f.filePath := by
  simp only [resolveRow, check, bind_eq_ok, expect_eq_ok, require_eq_ok, decide_eq_true_eq, pure_eq_ok, Unique.exists_iff]
  constructor
  · rintro ⟨f, hfind, hactor, hlive, hin, hfile, rfl⟩
    exact ⟨f, hfind, hactor, hlive, hin, hfile, rfl⟩
  · rintro ⟨f, hfind, hactor, hlive, hin, hfile, rfl⟩
    exact ⟨f, hfind, hactor, hlive, hin, hfile, rfl⟩

/-- A file is for its actor until it expires. -/
theorem resolve_iff {actorId : String} {f : File} {path : Path} (h : Kept x s) (hf : f ∈ s.db.files)
    (hclock : now ≤ later) : resolve now later actorId f.fileRef s = .ok path t ↔
      (actorId = f.actorId ∧ later < f.expiresAt) ∧ path = f.filePath ∧ t = cleanupExpired now s := by
  rw [resolve_ok, resolveRow_ok]
  constructor
  · rintro ⟨⟨g, hfind, hactor, hlive, -, -, rfl⟩, rfl⟩
    obtain ⟨hg, hkey⟩ := Table.find_eq_some.mp hfind
    obtain rfl := Table.eq_of_key (mem_files_cleanup.mp hg).1 hf hkey
    exact ⟨⟨hactor.symm, hlive⟩, rfl, rfl⟩
  rintro ⟨⟨rfl, hlive⟩, rfl, rfl⟩
  have hstill := mem_files_cleanup.mpr ⟨hf, Nat.lt_of_le_of_lt hclock hlive⟩
  obtain ⟨hpath, content, hcontent, -⟩ := (h.cleanupExpired now).files f hstill
  refine ⟨⟨f, Table.find_eq_some.mpr ⟨hstill, rfl⟩, rfl, hlive, ?_, ?_, rfl⟩, rfl⟩
  · rw [hpath]
    rfl
  · rw [hcontent]
    rfl

/-- What is promised of every state. -/
structure Sound (x : Text) (w : World) : Prop where
  uploading : ∀ t ∈ w.store.db.transfers, t.status = .uploading → w.store.disk.files t.tempPath = some (w.store.db.received t.id) ∧
    ((w.store.db.received t.id).length : Int) = t.receivedBytes ∧ t.receivedBytes ≤ t.sizeBytes
  files : ∀ f ∈ w.store.db.files, ∃ content, w.store.disk.files f.filePath = some content ∧
    (content.length : Int) = f.sizeBytes ∧ x.sha256 content = f.sha256
  resolves : ∀ f ∈ w.store.db.files, ∀ actorId now later, now ≤ later →
    ((∃ path t, resolve now later actorId f.fileRef w.store = .ok path t) ↔ actorId = f.actorId ∧ later < f.expiresAt) ∧
      ∀ path t, resolve now later actorId f.fileRef w.store = .ok path t → path = f.filePath ∧
        ∃ content, t.disk.files path = some content ∧ (content.length : Int) = f.sizeBytes ∧ x.sha256 content = f.sha256

theorem Kept.sound {w : World} (h : Kept x w.store) : Sound x w where
  uploading := h.uploading
  files f hf := (h.files f hf).2
  resolves f hf actorId now later hclock := by
    refine ⟨⟨fun ⟨path, t, hrun⟩ => ((resolve_iff h hf hclock).mp hrun).1, fun hmay => ⟨_, _, (resolve_iff h hf hclock).mpr ⟨hmay, rfl, rfl⟩⟩⟩,
      fun path t hrun => ?_⟩
    obtain ⟨⟨-, hlive⟩, rfl, rfl⟩ := (resolve_iff h hf hclock).mp hrun
    exact ⟨rfl, ((h.cleanupExpired now).files f (mem_files_cleanup.mpr ⟨hf, Nat.lt_of_le_of_lt hclock hlive⟩)).2⟩

/-- A step in which nothing fails. -/
def SafeStep (x : Text) (w : World) (e : Event) (w' : World) : Prop := Step x w e w' ∧ e.fault = none

theorem kept_run {w : World} {tr : List Event} (h : Run (SafeStep x) .initial tr w) : Kept x w.store ∧ Drawn w.drawn w.store := by
  refine h.invariant (I := fun w => Kept x w.store ∧ Drawn w.drawn w.store) ?_ ?_
  · exact ⟨Kept.initial, drawn_run (x := x) (.nil _)⟩
  · rintro w e _ ⟨hkept, hdrawn⟩ ⟨⟨hpossible, rfl⟩, hfault⟩
    exact ⟨(perform_kept hkept hdrawn hpossible.2.2 hfault).1,
      left_drawn List.mem_cons_self (hdrawn.mono fun u hu => List.mem_cons_of_mem _ hu)⟩

/-- **Tool file transfers.** Whatever calls were made, by whomever and in whatever order: the temp file of an upload is its accepted
chunks, every file has the bytes it was declared with and is for its actor until it expires. And the next call returns or raises a
`ToolFileError`, a replay without changing anything, exactly when it does not repeat the commit of a file that has been dropped. -/
theorem file_transfers_kept {w : World} {tr : List Event} (h : Run (SafeStep x) .initial tr w) :
    Sound x w ∧ ∀ e, Possible w e → e.fault = none → (Honoured x w.store e ↔ ¬ Gone w.store e) := by
  obtain ⟨hkept, hdrawn⟩ := kept_run h
  exact ⟨hkept.sound, fun e hpossible hfault => honoured_iff hkept hdrawn hpossible.2.2 hfault⟩

/-! ### The commit of a dropped file -/

/-- `sha256` and `lower` on the texts of this run. -/
def sample : Text where
  sha256 data := if data = [97] then "ca978112ca1bbdcafac231b39a23dc4da786eff8147c4e72b9807785afee48bb" else ""
  lower := String.map Char.toLower

/-- One byte is sent and committed, and `cleanup_expired` is called half an hour later. -/
def halfAnHour : List Event := [
  ⟨.begin ⟨"alice", "a.txt", 1, sample.sha256 [97], "begin-0001"⟩, 0, 0, "00", none⟩,
  ⟨.appendChunk ⟨"alice", "00", 0, [97], sample.sha256 [97], "chunk-0001"⟩, 1, 1, "01", none⟩,
  ⟨.commit ⟨"alice", "00", "commit-0001"⟩, 2, 2, "02", none⟩,
  ⟨.cleanupExpired, fileTtl + 2, fileTtl + 2, "03", none⟩]

/-- The commit once more. -/
def commitAgain : Event := ⟨.commit ⟨"alice", "00", "commit-0001"⟩, fileTtl + 3, fileTtl + 3, "04", none⟩

def after (tr : List Event) : World := tr.foldl (next sample) .initial

theorem run_of_guarded {tr : List Event} (h : guarded (next sample) (fun w e => decide (Possible w e ∧ e.fault = none)) .initial tr = true) :
    Run (SafeStep sample) .initial tr (after tr) :=
  Run.of_guarded (fun _ _ h => ⟨⟨(of_decide_eq_true h).1, rfl⟩, (of_decide_eq_true h).2⟩) h

/-- The row of the transfer, which is still there. -/
def committedRow : Transfer := ⟨"00", "alice", "a.txt", 1, sample.sha256 [97], 1, .committed, "begin-0001", some "commit-0001",
  some "gate_file_02", .part "00", transferTtl⟩

theorem halfAnHour_played : guarded (next sample) (fun w e => decide (Possible w e ∧ e.fault = none)) .initial halfAnHour = true ∧
      ((after halfAnHour).store.db.transfers.find "00" = some committedRow ∧ commitAgain.now < committedRow.expiresAt) ∧
      committedRow.fileRef.bind (after halfAnHour).store.db.files.find = none ∧ Possible (after halfAnHour) commitAgain := by
  decide +kernel

theorem file_transfers_kept_halfAnHour : Sound sample (after halfAnHour) ∧
    ∀ e, Possible (after halfAnHour) e → e.fault = none → (Honoured sample (after halfAnHour).store e ↔ ¬ Gone (after halfAnHour).store e) :=
  file_transfers_kept (run_of_guarded halfAnHour_played.1)

theorem commit_of_dropped_file : ∃ w tr e, Run (SafeStep sample) .initial tr w ∧ Possible w e ∧ e.fault = none ∧
    Replayed sample w.store e ∧ ¬ Honoured sample w.store e := by
  have howned : ownedTransfer (after halfAnHour).store.db commitAgain.now "00" "alice" = .ok committedRow :=
    ownedTransfer_ok.mpr ⟨halfAnHour_played.2.1.1, halfAnHour_played.2.1.2, rfl⟩
  exact ⟨after halfAnHour, halfAnHour, commitAgain, run_of_guarded halfAnHour_played.1, halfAnHour_played.2.2.2, rfl,
    ⟨committedRow, howned, rfl, rfl⟩,
    not_honoured_of_gone rfl ⟨_, rfl, committedRow, howned, rfl, rfl, halfAnHour_played.2.2.1⟩⟩

end LingshuGate.Files

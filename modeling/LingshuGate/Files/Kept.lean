import LingshuGate.Files.Drawn

/-!
# What the file store keeps

`Kept` is the invariant of every call that does not fail: the temp file of an upload holds its chunks, and each file what was
declared. `perform_kept` is the step; the commit of a file that has been dropped is the one call that neither returns nor raises a
`ToolFileError` (`Gone`).
-/

namespace LingshuGate.Files

open Lib

variable {x : Text} {s t : Store} {e : Raised} {id : String}

/-- The accepted chunks of a transfer, one after the other. -/
def Db.received (db : Db) (id : String) : Bytes := (db.chunks.rows.filter (·.transferId = id)).flatMap (·.data)

structure Kept (x : Text) (s : Store) : Prop where
  placed : ∀ t ∈ s.db.transfers, t.tempPath = .part t.id
  asked : ∀ t ∈ s.db.transfers, 1 ≤ t.sizeBytes ∧ t.sizeBytes ≤ maxToolFileBytes ∧ isDigest t.sha256 = true
  single : ∀ t ∈ s.db.transfers, ∀ t' ∈ s.db.transfers, t.actorId = t'.actorId →
    t.beginIdempotencyKey = t'.beginIdempotencyKey → t = t'
  uploading : ∀ t ∈ s.db.transfers, t.status = .uploading → s.disk.files t.tempPath = some (s.db.received t.id) ∧
    ((s.db.received t.id).length : Int) = t.receivedBytes ∧ t.receivedBytes ≤ t.sizeBytes
  settled : ∀ t ∈ s.db.transfers, t.status ≠ .uploading → s.disk.files t.tempPath = none
  committed : ∀ t ∈ s.db.transfers, t.status = .committed → ∃ fileRef, t.fileRef = some fileRef ∧
    ∀ f ∈ s.db.files, f.fileRef = fileRef → s.disk.files f.filePath = some (s.db.received t.id)
  chunks : ∀ c ∈ s.db.chunks, (∃ t ∈ s.db.transfers, t.id = c.transferId) ∧ c.sizeBytes = c.data.length ∧
    c.sha256 = x.sha256 c.data ∧ c.data ≠ [] ∧ c.data.length ≤ maxToolFileChunkBytes
  files : ∀ f ∈ s.db.files, f.filePath = .file f.fileRef f.filename ∧ ∃ content, s.disk.files f.filePath = some content ∧
    (content.length : Int) = f.sizeBytes ∧ x.sha256 content = f.sha256

theorem Kept.initial : Kept x .initial where
  placed t ht := absurd ht (Table.not_mem_empty t)
  asked t ht := absurd ht (Table.not_mem_empty t)
  single t ht := absurd ht (Table.not_mem_empty t)
  uploading t ht := absurd ht (Table.not_mem_empty t)
  settled t ht := absurd ht (Table.not_mem_empty t)
  committed t ht := absurd ht (Table.not_mem_empty t)
  chunks c hc := absurd hc (Table.not_mem_empty c)
  files f hf := absurd hf (Table.not_mem_empty f)

/-! ## What is dropped -/

variable {db db' : Db} {k : String}

theorem received_delete (h : db'.chunks = db.chunks.delete fun c => c.transferId = k) (hne : id ≠ k) :
    db'.received id = db.received id := by
  simp only [Db.received, h, Table.delete, List.filter_filter]
  congr 1
  refine List.filter_congr fun c _ => ?_
  by_cases hc : c.transferId = id
  · simp [hc, hne]
  · simp [hc]

variable {row : Transfer}

theorem Kept.dropTransfer (h : Kept x s) (hrow : row.tempPath = .part row.id) : Kept x (dropTransfer s row) := by
  have hother : ∀ t ∈ (Files.dropTransfer s row).db.transfers, t ∈ s.db.transfers ∧ t.id ≠ row.id := by
    intro t ht
    obtain ⟨ht, hne⟩ := Table.mem_delete.mp ht
    exact ⟨ht, by simpa using hne⟩
  have hdisk : ∀ path, path ≠ .part row.id → (Files.dropTransfer s row).disk.files path = s.disk.files path := by
    intro path hpath
    rw [Files.dropTransfer, Disk.unlink, Disk.put_files, hrow, if_neg hpath]
  have hpart : ∀ t ∈ s.db.transfers, t.id ≠ row.id → (Files.dropTransfer s row).disk.files t.tempPath = s.disk.files t.tempPath := by
    intro t ht hne
    refine hdisk _ ?_
    rw [h.placed t ht]
    exact fun heq => hne (Path.part.inj heq)
  have hfile : ∀ f ∈ s.db.files, (Files.dropTransfer s row).disk.files f.filePath = s.disk.files f.filePath := by
    intro f hf
    refine hdisk _ ?_
    rw [(h.files f hf).1]
    rintro ⟨⟩
  constructor
  · exact fun t ht => h.placed t (hother t ht).1
  · exact fun t ht => h.asked t (hother t ht).1
  · exact fun t ht t' ht' => h.single t (hother t ht).1 t' (hother t' ht').1
  · intro t ht hstatus
    obtain ⟨ht, hne⟩ := hother t ht
    rw [hpart t ht hne, received_delete rfl hne]
    exact h.uploading t ht hstatus
  · intro t ht hstatus
    obtain ⟨ht, hne⟩ := hother t ht
    rw [hpart t ht hne]
    exact h.settled t ht hstatus
  · intro t ht hstatus
    obtain ⟨ht, hne⟩ := hother t ht
    obtain ⟨fileRef, href, hfiles⟩ := h.committed t ht hstatus
    refine ⟨fileRef, href, fun f hf heq => ?_⟩
    rw [hfile f hf, received_delete rfl hne]
    exact hfiles f hf heq
  · intro c hc
    obtain ⟨hc, hne⟩ := Table.mem_delete.mp hc
    obtain ⟨⟨t, ht, hid⟩, hchunk⟩ := h.chunks c hc
    refine ⟨⟨t, Table.mem_delete.mpr ⟨ht, ?_⟩, hid⟩, hchunk⟩
    rw [hid]
    exact hne
  · intro f hf
    rw [hfile f hf]
    exact h.files f hf

theorem Kept.dropFile (h : Kept x s) {row : File} (hrow : row.filePath = .file row.fileRef row.filename) : Kept x (dropFile s row) := by
  have hother : ∀ f ∈ (Files.dropFile s row).db.files, f ∈ s.db.files ∧ f.fileRef ≠ row.fileRef := by
    intro f hf
    obtain ⟨hf, hne⟩ := Table.mem_delete.mp hf
    exact ⟨hf, by simpa using hne⟩
  have hdisk : ∀ path, path.parent ≠ .file row.fileRef → (Files.dropFile s row).disk.files path = s.disk.files path := by
    intro path hpath
    have hne : path ≠ row.filePath := by
      rintro rfl
      exact hpath (by rw [hrow]; rfl)
    have hparent : path.parent ≠ row.filePath.parent := by rwa [hrow]
    rw [Files.dropFile, Disk.rmtree_files, if_neg hparent, Disk.unlink, Disk.put_files, if_neg hne]
  have hpart : ∀ t ∈ s.db.transfers, (Files.dropFile s row).disk.files t.tempPath = s.disk.files t.tempPath := by
    intro t ht
    refine hdisk _ ?_
    rw [h.placed t ht]
    rintro ⟨⟩
  have hfile : ∀ f ∈ s.db.files, f.fileRef ≠ row.fileRef →
      (Files.dropFile s row).disk.files f.filePath = s.disk.files f.filePath := by
    intro f hf hne
    refine hdisk _ ?_
    rw [(h.files f hf).1]
    exact fun heq => hne (Directory.file.inj heq)
  constructor
  · exact h.placed
  · exact h.asked
  · exact h.single
  · intro t ht hstatus
    rw [hpart t ht]
    exact h.uploading t ht hstatus
  · intro t ht hstatus
    rw [hpart t ht]
    exact h.settled t ht hstatus
  · intro t ht hstatus
    obtain ⟨fileRef, href, hfiles⟩ := h.committed t ht hstatus
    refine ⟨fileRef, href, fun f hf heq => ?_⟩
    obtain ⟨hf, hne⟩ := hother f hf
    rw [hfile f hf hne]
    exact hfiles f hf heq
  · exact h.chunks
  · intro f hf
    obtain ⟨hf, hne⟩ := hother f hf
    rw [hfile f hf hne]
    exact h.files f hf

theorem Kept.cleanupExpired (h : Kept x s) (now : Nat) : Kept x (cleanupExpired now s) :=
  cleanupExpired_invariant now h (fun row hrow _ _ hu => hu.dropTransfer (h.placed row hrow))
    fun row hrow _ _ hu => hu.dropFile (h.files row hrow).1

/-! ## What is written -/

theorem received_insert {c : Chunk} (h : db.chunks.insert c = some db'.chunks) :
    db'.received id = db.received id ++ if c.transferId = id then c.data else [] := by
  rw [Db.received, (Table.insert_eq_some h).1, List.filter_append, List.flatMap_append, Db.received]
  by_cases hid : c.transferId = id
  · simp [hid]
  · simp [hid]

theorem received_congr (h : db'.chunks = db.chunks) : db'.received id = db.received id := by
  rw [Db.received, h, Db.received]

variable {u : Transfer}

/-- An update loses no id. -/
theorem id_updated {transfers : Table Transfer (·.id)} {p : Transfer → Bool} {f : Transfer → Transfer} {hf : ∀ t, (f t).id = t.id}
    (hu : u ∈ transfers) : ∃ u' ∈ transfers.update p f hf, u'.id = u.id := by
  refine ⟨_, Table.mem_update.mpr ⟨u, hu, rfl⟩, ?_⟩
  split
  · exact hf u
  · rfl

/-- Of an update of one row. -/
theorem mem_updated {transfers : Table Transfer (·.id)} {f : Transfer → Transfer} {hf : ∀ t, (f t).id = t.id}
    (hrow : transfers.find k = some row) (hu : u ∈ transfers.update (·.id = k) f hf) :
    (u ∈ transfers ∧ u.id ≠ k) ∨ u = f row := by
  obtain ⟨hmem, hk⟩ := Table.find_eq_some.mp hrow
  obtain ⟨hu, hne⟩ | ⟨t, ht, hid, rfl⟩ := Table.mem_update_cases hu
  · exact .inl ⟨hu, by simpa using hne⟩
  · rw [Table.eq_of_key ht hmem ((of_decide_eq_true hid).trans hk.symm)]
    exact .inr rfl

/-- The other transfers keep their bytes; a chunk that is new is one of `k`, and a file that is new is not yet named. -/
structure Replaces (x : Text) (s : Store) (k : String) (t : Store) : Prop where
  disk : ∀ u ∈ s.db.transfers, u.id ≠ k → t.disk.files u.tempPath = s.disk.files u.tempPath
  received : ∀ u : Transfer, u.id ≠ k → t.db.received u.id = s.db.received u.id
  chunks : ∀ c ∈ t.db.chunks, c ∈ s.db.chunks ∨ c.transferId = k ∧ c.sizeBytes = c.data.length ∧ c.sha256 = x.sha256 c.data ∧
    c.data ≠ [] ∧ c.data.length ≤ maxToolFileChunkBytes
  files : ∀ f ∈ t.db.files, (f ∈ s.db.files ∧ t.disk.files f.filePath = s.disk.files f.filePath) ∨
    (∀ u ∈ s.db.transfers, u.fileRef ≠ some f.fileRef) ∧ f.filePath = .file f.fileRef f.filename ∧
      ∃ content, t.disk.files f.filePath = some content ∧ (content.length : Int) = f.sizeBytes ∧ x.sha256 content = f.sha256

/-- An update of one row that leaves what the transfer was begun with. -/
theorem Kept.replaced {g : Transfer → Transfer} {hg : ∀ t, (g t).id = t.id} (h : Kept x s)
    (hrow : s.db.transfers.find k = some row) (ht : Replaces x s k t) (htransfers : t.db.transfers = s.db.transfers.update (·.id = k) g hg)
    (hbegun : (g row).tempPath = row.tempPath ∧ (g row).sizeBytes = row.sizeBytes ∧ (g row).sha256 = row.sha256 ∧
      (g row).actorId = row.actorId ∧ (g row).beginIdempotencyKey = row.beginIdempotencyKey)
    (huploading : (g row).status = .uploading → t.disk.files row.tempPath = some (t.db.received row.id) ∧
      ((t.db.received row.id).length : Int) = (g row).receivedBytes ∧ (g row).receivedBytes ≤ row.sizeBytes)
    (hsettled : (g row).status ≠ .uploading → t.disk.files row.tempPath = none)
    (hcommitted : (g row).status = .committed → ∃ fileRef, (g row).fileRef = some fileRef ∧
      ∀ f ∈ t.db.files, f.fileRef = fileRef → t.disk.files f.filePath = some (t.db.received row.id)) : Kept x t := by
  obtain ⟨htemp, hsize, hdigest, hactor, hkey⟩ := hbegun
  obtain ⟨hmem, hid⟩ := Table.find_eq_some.mp hrow
  have hcases : ∀ u ∈ t.db.transfers, (u ∈ s.db.transfers ∧ u.id ≠ k) ∨ u = g row := by
    intro u hu
    rw [htransfers] at hu
    exact mem_updated hrow hu
  have hstill : ∀ u ∈ s.db.transfers, ∃ u' ∈ t.db.transfers, u'.id = u.id := by
    intro u hu
    rw [htransfers]
    exact id_updated hu
  have hother : ∀ v ∈ s.db.transfers, v.id ≠ k → v.actorId = (g row).actorId → v.beginIdempotencyKey ≠ (g row).beginIdempotencyKey := by
    intro v hv hne hactor' hkey'
    exact hne ((congrArg (·.id) (h.single v hv row hmem (hactor'.trans hactor) (hkey'.trans hkey))).trans hid)
  constructor
  · intro u hu
    obtain ⟨hu, -⟩ | rfl := hcases u hu
    · exact h.placed u hu
    · rw [htemp, hg]
      exact h.placed row hmem
  · intro u hu
    obtain ⟨hu, -⟩ | rfl := hcases u hu
    · exact h.asked u hu
    · rw [hsize, hdigest]
      exact h.asked row hmem
  · intro u hu u' hu' hactor' hkey'
    obtain ⟨hu, hne⟩ | rfl := hcases u hu
    · obtain ⟨hu', -⟩ | rfl := hcases u' hu'
      · exact h.single u hu u' hu' hactor' hkey'
      · exact absurd hkey' (hother u hu hne hactor')
    · obtain ⟨hu', hne'⟩ | rfl := hcases u' hu'
      · exact absurd hkey'.symm (hother u' hu' hne' hactor'.symm)
      · rfl
  · intro u hu hup
    obtain ⟨hu, hne⟩ | rfl := hcases u hu
    · rw [ht.disk u hu hne, ht.received u hne]
      exact h.uploading u hu hup
    · rw [htemp, hg, hsize]
      exact huploading hup
  · intro u hu hup
    obtain ⟨hu, hne⟩ | rfl := hcases u hu
    · rw [ht.disk u hu hne]
      exact h.settled u hu hup
    · rw [htemp]
      exact hsettled hup
  · intro u hu hup
    obtain ⟨hu, hne⟩ | rfl := hcases u hu
    · obtain ⟨fileRef, href, hcontent⟩ := h.committed u hu hup
      refine ⟨fileRef, href, fun f hf heq => ?_⟩
      obtain ⟨hold, hdisk⟩ | ⟨hnew, -⟩ := ht.files f hf
      · rw [hdisk, ht.received u hne]
        exact hcontent f hold heq
      · exact absurd (href.trans (congrArg some heq.symm)) (hnew u hu)
    · rw [hg]
      exact hcommitted hup
  · intro c hc
    obtain hold | ⟨hk, hchunk⟩ := ht.chunks c hc
    · obtain ⟨⟨u, hu, huid⟩, hchunk⟩ := h.chunks c hold
      obtain ⟨u', hu', heq⟩ := hstill u hu
      exact ⟨⟨u', hu', heq.trans huid⟩, hchunk⟩
    · obtain ⟨u', hu', heq⟩ := hstill row hmem
      exact ⟨⟨u', hu', heq.trans (hid.trans hk.symm)⟩, hchunk⟩
  intro f hf
  obtain ⟨hold, hdisk⟩ | ⟨-, hnew⟩ := ht.files f hf
  · rw [hdisk]
    exact h.files f hold
  · exact hnew

theorem Kept.accepted {r : ChunkRequest} (h : Kept x s) (hcheck : checkChunk x r = .ok ())
    (hrow : s.db.transfers.find r.transferId = some row) (hoffset : checkOffset r row = .ok ()) (ht : Accepted x r row s t) :
    Kept x t := by
  simp only [checkOffset, check, bind_eq_ok, require_eq_ok, decide_eq_true_eq] at hoffset
  obtain ⟨-, hstatus, -, hreceived, hsize⟩ := hoffset
  simp only [checkChunk, check, bind_eq_ok, require_eq_ok, Bool.and_eq_true, decide_eq_true_eq] at hcheck
  obtain ⟨-, ⟨hne, hlength⟩, -⟩ := hcheck
  obtain ⟨hmem, hid⟩ := Table.find_eq_some.mp hrow
  obtain ⟨hpart, hbytes, -⟩ := h.uploading row hmem hstatus
  have happend : t.db.received row.id = s.db.received row.id ++ r.data := by
    rw [received_insert ht.chunks, if_pos hid.symm]
  refine h.replaced hrow ⟨?_, ?_, ?_, ?_⟩ ht.transfers ⟨rfl, rfl, rfl, rfl, rfl⟩ (fun _ => ⟨?_, ?_, hsize⟩)
    (fun hup => absurd hstatus hup) fun hup => absurd (hup.symm.trans hstatus) (by rintro ⟨⟩)
  · intro u hu hother
    rw [ht.disk, Disk.append, Disk.put_files, if_neg]
    rw [h.placed u hu, h.placed row hmem, hid]
    exact fun heq => hother (Path.part.inj heq)
  · intro u hother
    rw [received_insert ht.chunks, if_neg (Ne.symm hother), List.append_nil]
  · intro c hc
    rcases (Table.mem_insert ht.chunks).mp hc with hc | rfl
    · exact .inl hc
    · exact .inr ⟨rfl, rfl, rfl, hne, hlength⟩
  · intro f hf
    rw [ht.files] at hf
    refine .inl ⟨hf, ?_⟩
    rw [ht.disk, Disk.append, Disk.put_files, if_neg]
    rw [(h.files f hf).1, h.placed row hmem]
    rintro ⟨⟩
  · rw [ht.disk, Disk.append, Disk.put_files, if_pos rfl, hpart, happend]
    rfl
  · show ((t.db.received row.id).length : Int) = r.offset + r.data.length
    rw [happend, List.length_append]
    omega

theorem Kept.promoted {later : Nat} {uuid : String} {r : CommitRequest} {content : Bytes} (h : Kept x s)
    (hrow : s.db.transfers.find r.transferId = some row) (hnew : ∀ u ∈ s.db.transfers, u.fileRef ≠ some (fileRefOf uuid))
    (ht : Promoted x later uuid r row content s t) : Kept x t := by
  obtain ⟨hmem, hid⟩ := Table.find_eq_some.mp hrow
  obtain ⟨hpart, hbytes, -⟩ := h.uploading row hmem ht.complete.1
  have hcontent : content = s.db.received row.id := Option.some.inj (ht.held.symm.trans hpart)
  have hput : t.disk.files (.file (fileRefOf uuid) row.filename) = some content := by
    rw [ht.disk, Disk.put_files, if_pos rfl]
  refine h.replaced hrow ⟨?_, ?_, ?_, ?_⟩ ht.transfers ⟨rfl, rfl, rfl, rfl, rfl⟩ nofun (fun _ => ?_) fun _ => ⟨_, rfl, ?_⟩
  · intro u hu hne
    rw [ht.disk, Disk.put_files, if_neg, Disk.unlink, Disk.put_files, if_neg]
    · rw [h.placed u hu, h.placed row hmem, hid]
      exact fun heq => hne (Path.part.inj heq)
    · rw [h.placed u hu]
      rintro ⟨⟩
  · exact fun u _ => received_congr ht.chunks
  · exact fun c hc => .inl (ht.chunks ▸ hc)
  · intro f hf
    rcases (Table.mem_insert ht.files).mp hf with hf | rfl
    · refine .inl ⟨hf, ?_⟩
      rw [ht.disk, Disk.put_files, if_neg, Disk.unlink, Disk.put_files, if_neg]
      · rw [(h.files f hf).1, h.placed row hmem]
        rintro ⟨⟩
      · rw [(h.files f hf).1]
        exact fun heq => (Table.insert_eq_some ht.files).2 f hf (Path.file.inj heq).1
    · refine .inr ⟨hnew, rfl, content, hput, ?_, ht.sha256⟩
      rw [hcontent, hbytes]
      exact ht.complete.2
  · rw [ht.disk, Disk.put_files, if_neg, Disk.unlink, Disk.put_files, if_pos rfl]
    rw [h.placed row hmem]
    rintro ⟨⟩
  intro f hf heq
  rcases (Table.mem_insert ht.files).mp hf with hf | rfl
  · exact absurd heq ((Table.insert_eq_some ht.files).2 f hf)
  · rw [received_congr ht.chunks, ← hcontent]
    exact hput

theorem Kept.started {later : Nat} {uuid filename digest : String} {r : BeginRequest} (h : Kept x s)
    (hnew : s.db.existing r.actorId r.idempotencyKey = none) (hsize : 1 ≤ r.sizeBytes ∧ r.sizeBytes ≤ maxToolFileBytes)
    (hdigest : isDigest digest = true) (ht : Started later uuid r filename digest s t) : Kept x t := by
  have hfresh : ∀ u ∈ s.db.transfers, u.id ≠ uuid := (Table.insert_eq_some ht.transfers).2
  have hpath : ∀ u ∈ s.db.transfers, t.disk.files u.tempPath = s.disk.files u.tempPath := by
    intro u hu
    rw [ht.disk, Disk.put_files, if_neg]
    rw [h.placed u hu]
    exact fun heq => hfresh u hu (Path.part.inj heq)
  have hfile : ∀ f ∈ s.db.files, t.disk.files f.filePath = s.disk.files f.filePath := by
    intro f hf
    rw [ht.disk, Disk.put_files, if_neg]
    rw [(h.files f hf).1]
    nofun
  -- no chunk has the new id
  have hempty : t.db.received uuid = [] := by
    rw [received_congr ht.chunks, Db.received, List.filter_eq_nil_iff.mpr, List.flatMap_nil]
    intro c hc
    obtain ⟨⟨u, hu, huid⟩, -⟩ := h.chunks c hc
    simpa [← huid] using hfresh u hu
  have hcases := fun u => (Table.mem_insert ht.transfers (b := u)).mp
  constructor
  · intro u hu
    rcases hcases u hu with hu | rfl
    · exact h.placed u hu
    · rfl
  · intro u hu
    rcases hcases u hu with hu | rfl
    · exact h.asked u hu
    · exact ⟨hsize.1, hsize.2, hdigest⟩
  · intro u hu u' hu' hactor hkey
    rcases hcases u hu with hu | rfl
    · rcases hcases u' hu' with hu' | rfl
      · exact h.single u hu u' hu' hactor hkey
      · exact ((existing_eq_none hnew u hu).elim (· hactor) (· hkey)).elim
    · rcases hcases u' hu' with hu' | rfl
      · exact ((existing_eq_none hnew u' hu').elim (· hactor.symm) (· hkey.symm)).elim
      · rfl
  · intro u hu hup
    rcases hcases u hu with hu | rfl
    · rw [hpath u hu, received_congr ht.chunks]
      exact h.uploading u hu hup
    refine ⟨?_, ?_, ?_⟩
    · show t.disk.files (.part uuid) = some (t.db.received uuid)
      rw [ht.disk, Disk.put_files, if_pos rfl, hempty]
    · show ((t.db.received uuid).length : Int) = 0
      rw [hempty]
      rfl
    · show (0 : Int) ≤ r.sizeBytes
      omega
  · intro u hu hup
    rcases hcases u hu with hu | rfl
    · rw [hpath u hu]
      exact h.settled u hu hup
    · exact absurd rfl hup
  · intro u hu hup
    rcases hcases u hu with hu | rfl
    · obtain ⟨fileRef, href, hfiles⟩ := h.committed u hu hup
      refine ⟨fileRef, href, fun f hf heq => ?_⟩
      rw [ht.files] at hf
      rw [hfile f hf, received_congr ht.chunks]
      exact hfiles f hf heq
    · cases hup
  · intro c hc
    rw [ht.chunks] at hc
    obtain ⟨⟨u, hu, huid⟩, hchunk⟩ := h.chunks c hc
    exact ⟨⟨u, (Table.mem_insert ht.transfers).mpr (.inl hu), huid⟩, hchunk⟩
  · intro f hf
    rw [ht.files] at hf
    rw [hfile f hf]
    exact h.files f hf

variable {transferId : String}

theorem aborted_again (h : Kept x s) (hmem : row ∈ s.db.transfers)
    (hstatus : row.status = .aborted) : Store.aborted { s with disk := s.disk.unlink row.tempPath } transferId row.status = s := by
  rw [Store.aborted, if_pos hstatus, Disk.unlink_of_none (h.settled row hmem (by simp [hstatus]))]

/-- What the first `abort` writes. -/
structure Aborted (transferId : String) (row : Transfer) (s t : Store) : Prop where
  transfers : t.db.transfers = s.db.transfers.update (·.id = transferId) (fun t => { t with status := .aborted }) fun _ => rfl
  chunks : t.db.chunks = s.db.chunks.delete fun c => c.transferId = transferId
  files : t.db.files = s.db.files
  disk : t.disk = s.disk.unlink row.tempPath

theorem Kept.aborted (h : Kept x s) (hrow : s.db.transfers.find transferId = some row)
    (ht : Aborted transferId row s t) : Kept x t := by
  obtain ⟨hmem, hid⟩ := Table.find_eq_some.mp hrow
  refine h.replaced hrow ⟨?_, ?_, ?_, ?_⟩ ht.transfers ⟨rfl, rfl, rfl, rfl, rfl⟩ nofun (fun _ => ?_) nofun
  · intro u hu hne
    rw [ht.disk, Disk.unlink, Disk.put_files, if_neg]
    rw [h.placed u hu, h.placed row hmem, hid]
    exact fun heq => hne (Path.part.inj heq)
  · exact fun u hne => received_delete ht.chunks hne
  · intro c hc
    rw [ht.chunks] at hc
    exact .inl (Table.mem_delete.mp hc).1
  · intro f hf
    rw [ht.files] at hf
    refine .inl ⟨hf, ?_⟩
    rw [ht.disk, Disk.unlink, Disk.put_files, if_neg]
    rw [(h.files f hf).1, h.placed row hmem]
    rintro ⟨⟩
  · rw [ht.disk, Disk.unlink, Disk.put_files, if_pos rfl]

/-! ## What the cleanup leaves -/

theorem foldl_dropTransfer_files (rows : List Transfer) (s : Store) : (rows.foldl dropTransfer s).db.files = s.db.files := by
  induction rows generalizing s with
  | nil => rfl
  | cons row rows ih => exact ih _

theorem mem_foldl_dropTransfer {rows : List Transfer} : u ∈ (rows.foldl dropTransfer s).db.transfers ↔
    u ∈ s.db.transfers ∧ ∀ row ∈ rows, u.id ≠ row.id := by
  induction rows generalizing s with
  | nil => simp
  | cons row rows ih =>
    rw [List.foldl_cons, ih, List.forall_mem_cons, dropTransfer, Table.mem_delete, decide_eq_false_iff_not, and_assoc]

theorem foldl_dropFile_transfers (rows : List File) (s : Store) : (rows.foldl dropFile s).db.transfers = s.db.transfers := by
  induction rows generalizing s with
  | nil => rfl
  | cons row rows ih => exact ih _

theorem mem_foldl_dropFile {rows : List File} {f : File} : f ∈ (rows.foldl dropFile s).db.files ↔
    f ∈ s.db.files ∧ ∀ row ∈ rows, f.fileRef ≠ row.fileRef := by
  induction rows generalizing s with
  | nil => simp
  | cons row rows ih =>
    rw [List.foldl_cons, ih, List.forall_mem_cons, dropFile, Table.mem_delete, decide_eq_false_iff_not, and_assoc]

theorem mem_transfers_cleanup {now : Nat} : u ∈ (cleanupExpired now s).db.transfers ↔ u ∈ s.db.transfers ∧ now < u.expiresAt := by
  rw [cleanupExpired, foldl_dropFile_transfers, mem_foldl_dropTransfer]
  refine and_congr_right fun hu => ⟨fun h => ?_, fun h row hrow heq => ?_⟩
  · refine Nat.lt_of_not_le fun hle => h u ?_ rfl
    exact List.mem_filter.mpr ⟨hu, by simpa using hle⟩
  · obtain ⟨hmem, hle⟩ := List.mem_filter.mp hrow
    rw [Table.eq_of_key hu hmem heq] at h
    exact Nat.not_le_of_lt h (of_decide_eq_true hle)

theorem mem_files_cleanup {now : Nat} {f : File} : f ∈ (cleanupExpired now s).db.files ↔ f ∈ s.db.files ∧ now < f.expiresAt := by
  rw [cleanupExpired, mem_foldl_dropFile, foldl_dropTransfer_files]
  refine and_congr_right fun hf => ⟨fun h => ?_, fun h row hrow heq => ?_⟩
  · refine Nat.lt_of_not_le fun hle => h f ?_ rfl
    exact List.mem_filter.mpr ⟨hf, by simpa using hle⟩
  · obtain ⟨hmem, hle⟩ := List.mem_filter.mp hrow
    rw [Table.eq_of_key hf hmem heq] at h
    exact Nat.not_le_of_lt h (of_decide_eq_true hle)

/-! ## One call -/

/-- It returns or raises a `ToolFileError`. -/
def Answered : EStateM.Result Raised Store Answer → Prop
  | .ok _ _ => True
  | .error (.tool _) _ => True
  | .error _ _ => False

/-- The commit of a file that has been dropped is repeated. -/
def Gone (s : Store) (e : Event) : Prop := ∃ r, e.request = .commit r ∧ FileGone s.db e.now r

theorem aborted_store (hstatus : row.status ≠ .aborted) :
    Aborted transferId row s (Store.aborted { s with disk := s.disk.unlink row.tempPath } transferId row.status) := by
  rw [Store.aborted, if_neg hstatus]
  exact ⟨rfl, rfl, rfl, rfl⟩

section

variable {drawn : List String} {now later : Nat} {uuid : String}

theorem begin_kept {r : BeginRequest} (h : Kept x s) (hdrawn : Drawn drawn s) (hnew : uuid ∉ drawn) :
    (∀ a t, begin x now later uuid r s = .ok a t → Kept x t) ∧
      ∀ e t, begin x now later uuid r s = .error e t → Kept x t ∧ ∃ error, e = .tool error := by
  refine ⟨fun a t hrun => ?_, fun e t hrun => ?_⟩
  · obtain ⟨filename, ⟨-, hone, hmax, hdigest⟩, ⟨existing, -, -, rfl⟩ | ⟨hexisting, hstart⟩⟩ := begin_ok.mp hrun
    · exact h.cleanupExpired now
    · obtain ⟨hstarted, -⟩ := (startTransfer_ok hexisting).mp hstart
      exact (h.cleanupExpired now).started hexisting ⟨hone, hmax⟩ hdigest hstarted
  · obtain ⟨hfree, hid⟩ := part_free (hdrawn.cleanupExpired now) hnew
    obtain ⟨herror, rfl | rfl⟩ := begin_error hfree hid hrun
    · exact ⟨h, herror⟩
    · exact ⟨h.cleanupExpired now, herror⟩

theorem appendChunk_kept {r : ChunkRequest} (h : Kept x s) : (∀ a t, appendChunk x none now r s = .ok a t → Kept x t) ∧
      ∀ e t, appendChunk x none now r s = .error e t → Kept x t ∧ ∃ error, e = .tool error := by
  refine ⟨fun a t hrun => ?_, fun e t hrun => ?_⟩
  · obtain ⟨hcheck, row, howned, ⟨previous, -, -, rfl⟩ | ⟨-, haccept⟩⟩ := appendChunk_ok.mp hrun
    · exact h
    · obtain ⟨hoffset, haccepted, -⟩ := acceptChunk_ok.mp haccept
      exact h.accepted hcheck (ownedTransfer_ok.mp howned).1 hoffset haccepted
  · obtain ⟨hrefused, rfl⟩ := appendChunk_error.mp hrun
    exact ⟨h, hrefused.tool⟩

theorem commit_kept {r : CommitRequest} (h : Kept x s) (hdrawn : Drawn drawn s) (hnew : uuid ∉ drawn) :
    (∀ a t, commit x none now later uuid r s = .ok a t → Kept x t) ∧ ∀ e t, commit x none now later uuid r s = .error e t →
        s = t ∧ ((∃ error, e = .tool error) ∨ (e = .type ∧ FileGone s.db now r)) := by
  refine ⟨fun a t hrun => ?_, fun e t hrun => ?_⟩
  · obtain ⟨row, howned, ⟨-, -, f, -, -, rfl⟩ | ⟨-, hpromote⟩⟩ := commit_ok.mp hrun
    · exact h
    · obtain ⟨content, hpromoted, -⟩ := promote_ok.mp hpromote
      refine h.promoted (ownedTransfer_ok.mp howned).1 (fun u hu href => ?_) hpromoted
      obtain ⟨v, hv, heq⟩ := hdrawn.1.fileRefs u hu _ href
      exact hnew (String.append_right_inj _ |>.mp heq ▸ hv)
  · obtain ⟨hrefused, rfl⟩ := (commit_error (unused_of_drawn hdrawn hnew)).mp hrun
    exact ⟨rfl, hrefused.tool fun row hrow hup => ⟨_, (h.uploading row hrow hup).1⟩⟩

theorem abort_kept {actorId transferId : String} (h : Kept x s) : (∀ a t, abort now actorId transferId s = .ok a t → Kept x t) ∧
      ∀ e t, abort now actorId transferId s = .error e t → Kept x t ∧ ∃ error, e = .tool error := by
  refine ⟨fun a t hrun => ?_, fun e t hrun => ?_⟩
  · obtain ⟨-, row, howned, hstatus, rfl⟩ := abort_ok.mp hrun
    have hfind := (ownedTransfer_ok.mp howned).1
    by_cases habort : row.status = .aborted
    · rwa [aborted_again h (Table.find_eq_some.mp hfind).1 habort]
    · exact h.aborted hfind (aborted_store habort)
  · obtain ⟨herror, rfl⟩ := abort_error hrun
    exact ⟨h, herror⟩

theorem resolve_kept {actorId fileRef : String} (h : Kept x s) : (∀ a t, resolve now later actorId fileRef s = .ok a t → Kept x t) ∧
      ∀ e t, resolve now later actorId fileRef s = .error e t → Kept x t ∧ ∃ error, e = .tool error := by
  refine ⟨fun a t hrun => ?_, fun e t hrun => ?_⟩
  · obtain ⟨-, rfl⟩ := resolve_ok.mp hrun
    exact h.cleanupExpired now
  · obtain ⟨herror, rfl⟩ := resolve_error hrun
    exact ⟨h.cleanupExpired now, herror⟩

/-- Of an answer that is wrapped. -/
theorem map_kept {α : Type} {action : Call α} {f : α → Answer} (h : (∀ a t, action s = .ok a t → Kept x t) ∧
      ∀ e t, action s = .error e t → Kept x t ∧ ∃ error, e = .tool error) :
    Kept x (left ((f <$> action) s)) ∧ Answered ((f <$> action) s) := by
  cases hrun : action s with
  | ok a t =>
    rw [Act.map_ok.mpr ⟨a, hrun, rfl⟩]
    exact ⟨h.1 a t hrun, trivial⟩
  | error e t =>
    rw [Act.map_error.mpr hrun]
    obtain ⟨hkept, error, rfl⟩ := h.2 e t hrun
    exact ⟨hkept, trivial⟩

/-- A call that does not fail keeps the invariant, and ends as it should unless its file is gone. -/
theorem perform_kept {e : Event} (h : Kept x s) (hdrawn : Drawn drawn s) (hnew : e.uuid ∉ drawn) (hfault : e.fault = none) :
    Kept x (left (perform x e s)) ∧ (Answered (perform x e s) ∨ (Gone s e ∧ perform x e s = .error .type s)) := by
  obtain ⟨request, now, later, uuid, fault⟩ := e
  simp only at hnew hfault
  subst hfault
  cases request with
  | begin r => exact (map_kept (begin_kept h hdrawn hnew)).imp_right .inl
  | appendChunk r => exact (map_kept (appendChunk_kept h)).imp_right .inl
  | commit r =>
    cases hrun : commit x none now later uuid r s with
    | ok a t =>
      have hperform : perform x ⟨.commit r, now, later, uuid, none⟩ s = .ok (.file a) t := Act.map_ok.mpr ⟨a, hrun, rfl⟩
      rw [hperform]
      exact ⟨(commit_kept h hdrawn hnew).1 a t hrun, .inl trivial⟩
    | error e t =>
      have hperform : perform x ⟨.commit r, now, later, uuid, none⟩ s = .error e t := Act.map_error.mpr hrun
      rw [hperform]
      obtain ⟨rfl, ⟨error, rfl⟩ | ⟨rfl, hgone⟩⟩ := (commit_kept h hdrawn hnew).2 e t hrun
      · exact ⟨h, .inl trivial⟩
      · exact ⟨h, .inr ⟨⟨r, rfl, hgone⟩, rfl⟩⟩
  | abort actorId transferId => exact (map_kept (abort_kept h)).imp_right .inl
  | cleanupExpired => exact ⟨h.cleanupExpired now, .inl trivial⟩
  | resolve actorId fileRef => exact (map_kept (resolve_kept h)).imp_right .inl

end

end LingshuGate.Files

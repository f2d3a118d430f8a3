import LingshuGate.Files.Calls

/-!
# Ids and references come from `uuid4`

Every id, every reference and every directory of the store is a value that has been drawn, whatever fails and wherever: so a value
that is new to the run is free in every table and on the disk (`unused_of_drawn`).
-/

namespace LingshuGate.Files

open Lib

variable {x : Text} {s t : Store} {e : Raised}

/-- Ids and references are values that `uuid4` has returned, and paths are those of their rows. -/
structure Db.Drawn (drawn : List String) (db : Db) : Prop where
  ids : ∀ t ∈ db.transfers, t.id ∈ drawn ∧ t.tempPath = .part t.id
  refs : ∀ f ∈ db.files, (∃ u ∈ drawn, f.fileRef = fileRefOf u) ∧ f.filePath = .file f.fileRef f.filename
  fileRefs : ∀ t ∈ db.transfers, ∀ fileRef, t.fileRef = some fileRef → ∃ u ∈ drawn, fileRef = fileRefOf u

structure Disk.Drawn (drawn : List String) (d : Disk) : Prop where
  parts : ∀ id content, d.files (.part id) = some content → id ∈ drawn
  dirs : ∀ fileRef, d.dirs (.file fileRef) = true → ∃ u ∈ drawn, fileRef = fileRefOf u

def Drawn (drawn : List String) (s : Store) : Prop := s.db.Drawn drawn ∧ s.disk.Drawn drawn

variable {drawn drawn' : List String} {db : Db} {d : Disk}

theorem Drawn.mono (h : Drawn drawn s) (hsub : ∀ u ∈ drawn, u ∈ drawn') : Drawn drawn' s where
  left := ⟨fun t ht => ⟨hsub _ (h.1.ids t ht).1, (h.1.ids t ht).2⟩,
    fun f hf => ⟨(h.1.refs f hf).1.imp fun u hu => ⟨hsub u hu.1, hu.2⟩, (h.1.refs f hf).2⟩,
    fun t ht fileRef href => (h.1.fileRefs t ht fileRef href).imp fun u hu => ⟨hsub u hu.1, hu.2⟩⟩
  right := ⟨fun id content hid => hsub id (h.2.parts id content hid),
    fun fileRef hdir => (h.2.dirs fileRef hdir).imp fun u hu => ⟨hsub u hu.1, hu.2⟩⟩

theorem Disk.Drawn.put (h : d.Drawn drawn) {path : Path} {content : Option Bytes} (hpath : ∀ id, path = .part id → id ∈ drawn) :
    (d.put path content).Drawn drawn where
  parts id content' hid := by
    rw [Disk.put_files] at hid
    split at hid
    · exact hpath id (Eq.symm ‹_›)
    · exact h.parts id content' hid
  dirs := h.dirs

theorem Disk.Drawn.unlink (h : d.Drawn drawn) {path : Path} : (d.unlink path).Drawn drawn where
  parts id content hid := by
    rw [Disk.unlink, Disk.put_files] at hid
    split at hid
    · cases hid
    · exact h.parts id content hid
  dirs := h.dirs

theorem Disk.Drawn.rmtree (h : d.Drawn drawn) {dir : Directory} : (d.rmtree dir).Drawn drawn where
  parts id content hid := by
    rw [Disk.rmtree_files] at hid
    split at hid
    · cases hid
    · exact h.parts id content hid
  dirs fileRef hdir := by
    rw [Disk.rmtree_dirs] at hdir
    split at hdir
    · cases hdir
    · exact h.dirs fileRef hdir

theorem Db.Drawn.deleteTransfers (h : db.Drawn drawn) {p : Transfer → Bool} {q : Chunk → Bool} :
    Db.Drawn drawn { db with chunks := db.chunks.delete q, transfers := db.transfers.delete p } where
  ids t ht := h.ids t (Table.mem_delete.mp ht).1
  refs := h.refs
  fileRefs t ht := h.fileRefs t (Table.mem_delete.mp ht).1

theorem Db.Drawn.updateTransfer (h : db.Drawn drawn) {p : Transfer → Bool} {f : Transfer → Transfer} {chunks : Table Chunk _}
    (hf : ∀ t, (f t).id = t.id) (hpath : ∀ t, (f t).tempPath = t.tempPath)
    (href : ∀ t fileRef, (f t).fileRef = some fileRef → t.fileRef = some fileRef ∨ ∃ u ∈ drawn, fileRef = fileRefOf u) :
    Db.Drawn drawn { db with chunks := chunks, transfers := db.transfers.update p f hf } where
  ids t ht := by
    replace ht : t ∈ db.transfers.update p f hf := ht
    obtain ⟨hsame, -⟩ | ⟨row, hrow, -, rfl⟩ := Table.mem_update_cases ht
    · exact h.ids t hsame
    · rw [hf, hpath]
      exact h.ids row hrow
  refs := h.refs
  fileRefs t ht fileRef hfileRef := by
    replace ht : t ∈ db.transfers.update p f hf := ht
    obtain ⟨hsame, -⟩ | ⟨row, hrow, -, rfl⟩ := Table.mem_update_cases ht
    · exact h.fileRefs t hsame fileRef hfileRef
    · exact (href row fileRef hfileRef).elim (h.fileRefs row hrow fileRef) id

theorem Drawn.dropTransfer (h : Drawn drawn s) (row : Transfer) : Drawn drawn (dropTransfer s row) :=
  ⟨h.1.deleteTransfers, h.2.unlink⟩

theorem Drawn.dropFile (h : Drawn drawn s) (row : File) : Drawn drawn (dropFile s row) :=
  ⟨⟨h.1.ids, fun f hf => h.1.refs f (Table.mem_delete.mp hf).1, h.1.fileRefs⟩, h.2.unlink.rmtree⟩

/-- What each row of two lists keeps, the cleanup keeps. -/
theorem cleanupExpired_invariant {I : Store → Prop} (now : Nat) (hs : I s)
    (htransfer : ∀ row ∈ s.db.transfers, row.expiresAt ≤ now → ∀ u, I u → I (dropTransfer u row))
    (hfile : ∀ row ∈ s.db.files, row.expiresAt ≤ now → ∀ u, I u → I (dropFile u row)) : I (cleanupExpired now s) := by
  have hdrop : ∀ {α : Type} (rows : List α) (drop : Store → α → Store) (u : Store), I u →
      (∀ row ∈ rows, ∀ u, I u → I (drop u row)) → I (rows.foldl drop u) := by
    intro α rows drop
    induction rows with
    | nil => exact fun u hu _ => hu
    | cons row rows ih =>
      intro u hu hrows
      exact ih (drop u row) (hrows row List.mem_cons_self u hu) fun row' hrow' => hrows row' (List.mem_cons_of_mem _ hrow')
  refine hdrop _ _ _ (hdrop _ _ _ hs ?_) ?_
  · intro row hrow
    rw [List.mem_filter, decide_eq_true_eq] at hrow
    exact htransfer row hrow.1 hrow.2
  · intro row hrow
    rw [List.mem_filter, decide_eq_true_eq] at hrow
    exact hfile row hrow.1 hrow.2

theorem Drawn.cleanupExpired (h : Drawn drawn s) (now : Nat) : Drawn drawn (cleanupExpired now s) :=
  cleanupExpired_invariant now h (fun row _ _ _ hu => hu.dropTransfer row) fun row _ _ _ hu => hu.dropFile row

/-- However the action ends. -/
abbrev KeepsDrawn {α : Type} (drawn : List String) (action : Call α) : Prop :=
  Act.Leads (Drawn drawn) (Drawn drawn) (fun _ => Drawn drawn) action

variable {fault : Option Point}

theorem attempt_drawn {point : Point} : KeepsDrawn drawn (attempt fault point) :=
  Act.Leads.require fun _ hs => hs

theorem modify_drawn {f : Store → Store} (hf : ∀ s, Drawn drawn s → Drawn drawn (f s)) : KeepsDrawn drawn (modify f) :=
  Act.Leads.modify hf

/-- A transaction that fails goes back to rows that were drawn. -/
theorem connected_drawn {α : Type} {body : Call α} (hbody : KeepsDrawn drawn body) : KeepsDrawn drawn (connected fault body) := by
  intro s hs
  cases hrun : connected fault body s with
  | ok a t => exact hbody.ok (connected_ok.mp hrun).2.1 hs
  | error e t =>
    obtain ⟨-, -, rfl⟩ | ⟨-, u, rfl, herror | ⟨a, hok, -⟩⟩ := connected_error.mp hrun
    · exact hs
    · exact ⟨hs.1, (hbody.error herror hs).2⟩
    · exact ⟨hs.1, (hbody.ok hok hs).2⟩

theorem ofExcept_drawn {α : Type} {a : Except Raised α} : KeepsDrawn drawn (Act.ofExcept a) := Act.Leads.ofExcept fun _ _ _ hs => hs

/-- The row of a transfer. -/
def RowDrawn (drawn : List String) (row : Transfer) : Prop := row.id ∈ drawn ∧ row.tempPath = .part row.id

variable {row : Transfer}

theorem ownedTransfer_drawn {now : Nat} {transferId actorId : String} (hs : Drawn drawn s)
    (h : ownedTransfer s.db now transferId actorId = .ok row) : RowDrawn drawn row :=
  hs.1.ids row (Table.find_eq_some.mp (ownedTransfer_ok.mp h).1).1

theorem RowDrawn.append (h : RowDrawn drawn row) {data : Bytes} (hs : Drawn drawn s) :
    Drawn drawn { s with disk := s.disk.append row.tempPath data } := by
  refine ⟨hs.1, hs.2.put fun id heq => ?_⟩
  obtain rfl := Path.part.inj (h.2.symm.trans heq)
  exact h.1

theorem writeChunk_drawn {data : Bytes} (hrow : RowDrawn drawn row) : KeepsDrawn drawn (writeChunk fault row.tempPath data) := by
  unfold writeChunk
  split
  · exact .seq (modify_drawn fun _ hs => hrow.append hs) fun _ => .throw fun _ hs => hs
  · exact .seq (modify_drawn fun _ hs => hrow.append hs) fun _ => .throw fun _ hs => hs
  · exact modify_drawn fun _ hs => hrow.append hs

theorem insertChunk_drawn {c : Chunk} : KeepsDrawn drawn (insertChunk c) :=
  .get_seq fun _ _ => .ofExcept_seq (fun _ _ _ hs => hs) fun _ _ => modify_drawn fun _ hs => ⟨⟨hs.1.ids, hs.1.refs, hs.1.fileRefs⟩, hs.2⟩

theorem selectTransfer_drawn {transferId : String} : KeepsDrawn drawn (selectTransfer transferId) :=
  .get_seq fun _ _ => .ofExcept_seq (fun _ _ _ hs => hs) fun _ _ => .pure _

theorem appendChunk_drawn {now : Nat} {r : ChunkRequest} : KeepsDrawn drawn (appendChunk x fault now r) := by
  refine .ofExcept_seq (fun _ _ _ hs => hs) fun _ _ => connected_drawn (.get_seq fun s hs => .seq attempt_drawn fun _ =>
    .ofExcept_seq (fun _ _ _ hs => hs) fun row hrow => .seq attempt_drawn fun _ => ?_)
  split
  · exact ofExcept_drawn
  · exact .seq ofExcept_drawn fun _ => .seq attempt_drawn fun _ => .seq (writeChunk_drawn (ownedTransfer_drawn hs hrow)) fun _ =>
      .seq attempt_drawn fun _ => .seq attempt_drawn fun _ => .seq insertChunk_drawn fun _ => .seq attempt_drawn fun _ =>
      .seq (modify_drawn fun _ hs => ⟨hs.1.updateTransfer _ (fun _ => rfl) fun _ _ h => .inl h, hs.2⟩) fun _ =>
      .seq attempt_drawn fun _ => selectTransfer_drawn

theorem fileResult_drawn {fileRef : Option String} : KeepsDrawn drawn (fileResult fault fileRef) :=
  .get_seq fun _ _ => .seq attempt_drawn fun _ => .ofExcept_seq (fun _ _ _ hs => hs) fun _ _ => .pure _

variable {uuid : String}

theorem makeDirectory_drawn (huuid : uuid ∈ drawn) : KeepsDrawn drawn (makeDirectory (.file (fileRefOf uuid))) := by
  refine .get_seq fun s _ => .seq (.require fun _ hs => hs) fun _ => modify_drawn fun u hu => ⟨hu.1, hu.2.parts, fun fileRef hdir => ?_⟩
  by_cases heq : fileRef = fileRefOf uuid
  · exact ⟨uuid, huuid, heq⟩
  · have hne : Directory.file fileRef ≠ .file (fileRefOf uuid) := fun h => heq (Directory.file.inj h)
    exact hu.2.dirs fileRef ((Function.update_of_ne hne _ _).symm.trans hdir)

theorem replace_drawn {source : Path} {fileRef filename : String} : KeepsDrawn drawn (replace source (.file fileRef filename)) :=
  .get_seq fun _ _ => .ofExcept_seq (fun _ _ _ hs => hs) fun _ _ => modify_drawn fun _ hs => ⟨hs.1, hs.2.unlink.put nofun⟩

theorem insertFile_drawn {f : File} (hf : (∃ u ∈ drawn, f.fileRef = fileRefOf u) ∧ f.filePath = .file f.fileRef f.filename) :
    KeepsDrawn drawn (insertFile f) := by
  refine .get_seq fun s hs => .ofExcept_seq (fun _ _ _ hs => hs) fun files hinsert => modify_drawn fun u hu =>
    ⟨⟨hu.1.ids, fun g hg => ?_, hu.1.fileRefs⟩, hu.2⟩
  rcases (Table.mem_insert (expect_eq_ok.mp hinsert)).mp hg with hg | rfl
  · exact hs.1.refs g hg
  · exact hf

theorem insertTransfer_drawn (hrow : RowDrawn drawn row) (href : row.fileRef = none) : KeepsDrawn drawn (insertTransfer row) := by
  refine .get_seq fun s hs => .seq (.require fun _ hs => hs) fun _ => .ofExcept_seq (fun _ _ _ hs => hs) fun transfers hinsert =>
    modify_drawn fun u hu => ⟨⟨fun t ht => ?_, hu.1.refs, fun t ht fileRef hfileRef => ?_⟩, hu.2⟩
  · rcases (Table.mem_insert (expect_eq_ok.mp hinsert)).mp ht with ht | rfl
    · exact hs.1.ids t ht
    · exact hrow
  · rcases (Table.mem_insert (expect_eq_ok.mp hinsert)).mp ht with ht | rfl
    · exact hs.1.fileRefs t ht fileRef hfileRef
    · cases href.symm.trans hfileRef

variable {now later : Nat}

theorem commit_drawn {r : CommitRequest} (huuid : uuid ∈ drawn) : KeepsDrawn drawn (commit x fault now later uuid r) := by
  refine connected_drawn (.get_seq fun s hs => .seq attempt_drawn fun _ => .ofExcept_seq (fun _ _ _ hs => hs) fun row hrow => ?_)
  split
  · exact .seq ofExcept_drawn fun _ => fileResult_drawn
  · exact .seq ofExcept_drawn fun _ => .seq attempt_drawn fun _ => .get_seq fun _ _ => .seq ofExcept_drawn fun _ =>
      .seq attempt_drawn fun _ => .seq (makeDirectory_drawn huuid) fun _ => .seq attempt_drawn fun _ => .seq replace_drawn fun _ =>
      .seq attempt_drawn fun _ => .seq (insertFile_drawn ⟨⟨uuid, huuid, rfl⟩, rfl⟩) fun _ => .seq attempt_drawn fun _ =>
      .seq (modify_drawn fun _ hs => ⟨hs.1.updateTransfer _ (fun _ => rfl) fun _ _ h => .inr ⟨uuid, huuid, (Option.some.inj h).symm⟩, hs.2⟩)
        fun _ => fileResult_drawn

theorem begin_drawn {r : BeginRequest} (huuid : uuid ∈ drawn) : KeepsDrawn drawn (begin x now later uuid r) := by
  refine .seq ofExcept_drawn fun _ => .seq ofExcept_drawn fun _ => .seq ofExcept_drawn fun _ =>
    .seq (modify_drawn fun _ hs => hs.cleanupExpired now) fun _ => connected_drawn (.get_seq fun s _ => ?_)
  split
  · exact ofExcept_drawn
  · exact .get_seq fun _ _ => .seq (.require fun _ hs => hs) fun _ =>
      .seq (modify_drawn fun _ hs => ⟨hs.1, hs.2.put fun id heq => Path.part.inj heq ▸ huuid⟩) fun _ =>
      .seq (insertTransfer_drawn ⟨huuid, rfl⟩ rfl) fun _ => selectTransfer_drawn

theorem abort_drawn {now : Nat} {actorId transferId : String} : KeepsDrawn drawn (abort now actorId transferId) := by
  refine connected_drawn (.get_seq fun _ _ => .ofExcept_seq (fun _ _ _ hs => hs) fun row _ => .seq ofExcept_drawn fun _ =>
    .seq (modify_drawn fun _ hs => ⟨hs.1, hs.2.unlink⟩) fun _ => .seq (modify_drawn fun s hs => ?_) fun _ => .pure _)
  unfold Store.aborted
  split
  · exact hs
  · exact ⟨hs.1.updateTransfer _ (fun _ => rfl) fun _ _ h => .inl h, hs.2⟩

theorem resolve_drawn {actorId fileRef : String} : KeepsDrawn drawn (resolve now later actorId fileRef) :=
  .seq (modify_drawn fun _ hs => hs.cleanupExpired now) fun _ => connected_drawn (.get_seq fun _ _ => ofExcept_drawn)

/-- Whatever fails. -/
theorem perform_drawn {e : Event} (huuid : e.uuid ∈ drawn) : KeepsDrawn drawn (perform x e) := by
  unfold perform
  split
  · exact (begin_drawn huuid).map
  · exact appendChunk_drawn.map
  · exact (commit_drawn huuid).map
  · exact abort_drawn.map
  · exact .seq (modify_drawn fun _ hs => hs.cleanupExpired e.now) fun _ => .pure _
  · exact resolve_drawn.map

theorem left_drawn {e : Event} (huuid : e.uuid ∈ drawn) (hs : Drawn drawn s) : Drawn drawn (left (perform x e s)) := by
  have := perform_drawn (x := x) huuid s hs
  cases hrun : perform x e s with
  | ok a t | error e t => rwa [hrun] at this

/-- In a run, failures and all. -/
theorem drawn_run {w : World} {tr : List Event} (h : Run (Step x) .initial tr w) : Drawn w.drawn w.store := by
  refine h.invariant (I := fun w => Drawn w.drawn w.store) ?_ ?_
  · exact ⟨⟨fun t ht => absurd ht (Table.not_mem_empty t), fun f hf => absurd hf (Table.not_mem_empty f),
      fun t ht => absurd ht (Table.not_mem_empty t)⟩, nofun, nofun⟩
  · rintro w e _ hw ⟨-, rfl⟩
    exact left_drawn List.mem_cons_self (hw.mono fun u hu => List.mem_cons_of_mem _ hu)

/-- A new value is free. -/
theorem unused_of_drawn (h : Drawn drawn s) (hnew : uuid ∉ drawn) : Unused s (fileRefOf uuid) := by
  have hinj : ∀ u, fileRefOf uuid = fileRefOf u → uuid = u := fun u heq => String.append_right_inj _ |>.mp heq
  refine ⟨?_, Table.find_eq_none.mpr fun f hf heq => ?_⟩
  · cases hdir : s.disk.dirs (.file (fileRefOf uuid)) with
    | false => rfl
    | true =>
      obtain ⟨u, hu, heq⟩ := h.2.dirs _ hdir
      exact absurd (hinj u heq ▸ hu) hnew
  · obtain ⟨⟨u, hu, href⟩, -⟩ := h.1.refs f hf
    exact absurd (hinj u (heq.symm.trans href) ▸ hu) hnew

theorem part_free (h : Drawn drawn s) (hnew : uuid ∉ drawn) :
    s.disk.files (.part uuid) = none ∧ s.db.transfers.find uuid = none := by
  refine ⟨?_, Table.find_eq_none.mpr fun t ht heq => hnew (heq ▸ (h.1.ids t ht).1)⟩
  cases hpart : s.disk.files (.part uuid) with
  | none => rfl
  | some content => exact absurd (h.2.parts _ _ hpart) hnew

end LingshuGate.Files

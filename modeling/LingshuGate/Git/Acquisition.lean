import LingshuGate.Git.Bounds
import LingshuGate.Git.Export

/-!
# A snapshot is its commit (`git_acquisition.py:299-343`)

`acquireSnapshot_faithful` puts the three together: what the export has appended (`exportTree_ok`), what any reader can lead it
to (`steady_acquireSnapshot`), and the second scan of the archive, by `snapshot_inventory`, which reads other chunks
(`listEntries_ok`).
-/

namespace LingshuGate.Git

open Lib Lib.GitObjects
open Lib.Act (bind_ok Ends)

section Export

variable {σ : Type} {c : Codec} {t : Text} {sha1 : Bytes → String} {r : Reader σ} {limits : Limits} {forbidden : List Bytes}
  {S : Set Bytes} {w w' : Work σ} {blobs : List Blob}

/-! ## The second scan -/

/-- A file that may be in the archive. -/
structure Blob.Listed (t : Text) (forbidden : List Bytes) (b : Blob) : Prop where
  accepts : Accepts forbidden b.data
  valid : validateSnapshotPath t forbidden b.entry = .ok (b.path, b.key t)
  mode : b.mode ≠ .tree

theorem Blob.Listed.not_dir {b : Blob} (h : b.Listed t forbidden) : b.entry.isDir = false := by
  obtain ⟨hpath, -, hne, -⟩ := validateSnapshotPath_ok t h.valid
  exact endsWith_join hne fun part hpart => isPart_of_mem_parts (hpath ▸ hpart)

theorem Blob.Listed.not_link {b : Blob} (h : b.Listed t forbidden) : fileType b.entry.mode ≠ symlink := by
  have := h.mode
  show fileType b.mode.bits ≠ symlink
  cases hmode : b.mode with
  | tree => exact absurd hmode this
  | file | executable => decide

/-- Reading the archive gives other chunks, and the same content. -/
theorem scan_cut {data : Bytes} (h : Accepts forbidden data) :
    scan { forbidden, maxBytes := data.length } (cut snapshotChunkBytes data) = .ok (Scanner.of forbidden data.length data) := by
  have hpositive : 0 < snapshotChunkBytes := by decide
  rw [Scanner.of_nil]
  refine (scan_ok (fun chunk h => cut_ne_nil hpositive h) (Accepts.nil forbidden)).mpr ?_
  rw [cut_flatten hpositive]
  exact ⟨fun chunk h => cut_length h, fun _ => Nat.le_of_eq (Nat.zero_add _), h, rfl⟩

theorem listEntry_ok {b : Blob} (hb : b.Listed t forbidden) {l : Listing} (hnew : b.key t ∉ l.seen)
    (hexpanded : l.expanded + b.data.length ≤ maxExtractedBytes) :
    listEntry c t forbidden l b.entry = .ok ⟨l.files ++ [b.file c], b.key t :: l.seen, l.expanded + b.data.length⟩ := by
  simp only [listEntry, bind_eq_ok, require_eq_ok, Prod.exists]
  refine ⟨b.path, b.key t, hb.valid, (), by simpa using hnew, (), by simpa using hb.not_link, ?_⟩
  rw [hb.not_dir]
  simp only [Bool.false_eq_true, if_false, bind_eq_ok, require_eq_ok, pure_eq_ok, decide_eq_true_eq]
  exact ⟨(), hexpanded, _, scan_cut hb.accepts, (), rfl, rfl⟩

theorem listEntries_ok (hblobs : ∀ b ∈ blobs, b.Listed t forbidden) {l : Listing}
    (hnodup : ((blobs.map (Blob.key t)).reverse ++ l.seen).Nodup)
    (hexpanded : l.expanded + (blobs.map (·.data.length)).sum ≤ maxExtractedBytes) :
    (blobs.map Blob.entry).foldlM (listEntry c t forbidden) l = .ok ⟨l.files ++ blobs.map (Blob.file c),
      (blobs.map (Blob.key t)).reverse ++ l.seen, l.expanded + (blobs.map (·.data.length)).sum⟩ := by
  induction blobs generalizing l with
  | nil => simp [pure, Except.pure]
  | cons b blobs ih =>
    simp only [List.map_cons, List.reverse_cons, List.append_assoc, List.singleton_append, List.sum_cons] at hnodup hexpanded ⊢
    have hnew : b.key t ∉ l.seen := (List.nodup_cons.mp (List.nodup_append.mp hnodup).2.1).1
    rw [List.foldlM_cons, bind_eq_ok]
    refine ⟨_, listEntry_ok (hblobs b List.mem_cons_self) hnew (by omega), ?_⟩
    rw [ih (fun b hb => hblobs b (List.mem_cons_of_mem _ hb)) hnodup (by simp only; omega)]
    simp [Nat.add_assoc]

theorem mem_sorted {entries : List FileEntry} {f : FileEntry} : f ∈ sorted entries ↔ f ∈ entries := List.mem_insertionSort _

theorem sorted_pairwise (entries : List FileEntry) : (sorted entries).Pairwise fun a b => join a.path ≤ join b.path :=
  haveI : Std.Total fun a b : FileEntry => join a.path ≤ join b.path := ⟨fun a b => le_total (join a.path) (join b.path)⟩
  haveI : IsTrans FileEntry fun a b => join a.path ≤ join b.path := ⟨fun _ _ _ => le_trans⟩
  List.pairwise_insertionSort _ entries

theorem sorted_perm (entries : List FileEntry) : (sorted entries).Perm entries := List.perm_insertionSort _ _

/-! ## The snapshot -/

/-- A snapshot holds what the tree reaches. -/
structure Faithful (c : Codec) (t : Text) (sha1 : Bytes → String) (S : Set Bytes) (request : Request) (values : List String)
    (tree : String) (snapshot : Snapshot) (w : Work σ) : Prop where
  files : ∀ f, f ∈ snapshot.files ↔ ∃ mode data, HasBlob sha1 S tree (f.path.map Framing.utf8) mode data ∧
    f.size = data.length ∧ f.sha256 = c.sha256 data
  sorted : snapshot.files.Pairwise fun a b => join a.path ≤ join b.path
  once : (snapshot.files.map fun f => f.path.map t.casefold).Nodup
  admitted : ∃ forbidden, snapshotForbiddenValues c values = .ok forbidden ∧
    ∀ names mode child, Reaches sha1 S tree names mode child → Admitted t forbidden [] names mode
  within : Within request.limits w.budget
  read : ∃ objects, HasRead { reader := w.reader } objects w
  opened : w.opens = w.budget.objects
  counted : snapshot.files.length = w.budget.files ∧ (snapshot.files.map (·.size)).sum = w.budget.expanded
  compressed : snapshot.content.compressed ≤ request.limits.compressedBytes
  again : snapshotInventory c t snapshot.content request.projectRoot values = .ok (snapshot.fileListSha256, snapshot.files)

variable {values : List String}

/-- What a run that returns has gone through. -/
theorem acquireSnapshot_ok {compressed : List ZipEntry → Nat} {request : Request} {snapshot : Snapshot}
    (h : acquireSnapshot c t sha1 r compressed request values w = .ok snapshot w') :
    ∃ forbidden reader tree w₁ w₂ reader', snapshotForbiddenValues c values = .ok forbidden ∧
      commitTree sha1 r request.limits request.commitSha { w with reader } = .ok tree w₁ ∧
      exportTree c t sha1 r request.limits forbidden 129 tree [] w₁ = .ok () w₂ ∧ w' = { w₂ with reader := reader' } ∧
      compressed w₂.archive ≤ request.limits.compressedBytes ∧
      (sorted w₂.inventory ≠ [] ∧ (request.projectRoot = [] ∨
        (sorted w₂.inventory).any (fun f => below request.projectRoot f.path) = true)) ∧
      snapshot = ⟨⟨compressed w₂.archive, w₂.archive⟩, digestJson c (sorted w₂.inventory), sorted w₂.inventory⟩ := by
  simp only [acquireSnapshot, reject, bind_ok, Act.require_ok, Act.ofExcept_ok, Act.get_ok, Act.pure_ok, Bool.and_eq_true,
    Bool.or_eq_true, decide_eq_true_eq] at h
  obtain ⟨_, _, ⟨-, rfl⟩, forbidden, _, ⟨hvalues, rfl⟩, _, _, hcheck, _, _, ⟨-, rfl⟩, _, _, ⟨-, rfl⟩, tree, w₁, hcommit, _, w₂,
    hexport, _, _, ⟨rfl, rfl⟩, _, _, ⟨hcompressed, rfl⟩, _, _, hcheck', _, _, ⟨hroot, rfl⟩, _, _, hcheck'', rfl, rfl⟩ := h
  obtain ⟨reader, rfl⟩ := checkpoint_ok hcheck
  obtain ⟨reader', rfl⟩ := checkpoint_ok hcheck'
  obtain ⟨reader'', rfl⟩ := checkpoint_ok hcheck''
  have hforbidden : snapshotForbiddenValues c values = .ok forbidden := by
    cases hresult : snapshotForbiddenValues c values with
    | ok forbidden' => rw [hresult] at hvalues; cases hvalues; rfl
    | error message => rw [hresult] at hvalues; cases hvalues
  exact ⟨forbidden, reader, tree, w₁, _, reader'', hforbidden, hcommit, hexport, rfl, hcompressed, hroot, rfl⟩

/-- The second scan of what was exported. -/
theorem snapshotInventory_ok {compressed : Nat} {root : Path}
    (hroot : validateProjectSubdirectory root = .ok ()) (hcompressed : compressed ≤ maxZipBytes)
    (hforbidden : snapshotForbiddenValues c values = .ok forbidden) (hlength : blobs.length ≤ maxFiles)
    (hblobs : ∀ b ∈ blobs, b.Listed t forbidden) (hnodup : (blobs.map (Blob.key t)).Nodup)
    (hexpanded : (blobs.map (·.data.length)).sum ≤ maxExtractedBytes)
    (hselected : sorted (blobs.map (Blob.file c)) ≠ [] ∧ (root = [] ∨
      (sorted (blobs.map (Blob.file c))).any (fun f => below root f.path) = true)) :
    snapshotInventory c t ⟨compressed, blobs.map Blob.entry⟩ root values =
      .ok (digestJson c (sorted (blobs.map (Blob.file c))), sorted (blobs.map (Blob.file c))) := by
  have hlist := listEntries_ok (c := c) (l := {}) hblobs (by simpa using hnodup) (by simpa using hexpanded)
  simp only [snapshotInventory, bind_eq_ok, require_eq_ok, pure_eq_ok]
  refine ⟨(), hroot, (), by simpa using hcompressed, forbidden, hforbidden, (), by simpa using hlength, _, hlist, (), ?_, rfl⟩
  rw [Bool.and_eq_true, Bool.or_eq_true]
  refine ⟨?_, ?_⟩
  · simp only [List.nil_append, decide_eq_true_eq, ne_eq]
    exact fun hnil => hselected.1 (by rw [hnil]; rfl)
  · rcases hselected.2 with hroot | hany
    · exact .inl (decide_eq_true hroot)
    · rw [List.any_eq_true] at hany
      obtain ⟨f, hf, hbelow⟩ := hany
      exact .inr (List.any_eq_true.mpr ⟨f, by simpa using mem_sorted.mp hf, hbelow⟩)

/-- The export of a whole commit. -/
theorem acquireSnapshot_exported (hinj : Set.InjOn sha1 S) {compressed : List ZipEntry → Nat} {request : Request}
    {snapshot : Snapshot} {reader : σ}
    (h : acquireSnapshot c t sha1 r compressed request values { reader } = .ok snapshot w') (hS : ∀ b ∈ w'.digested, b ∈ S) :
    ∃ tree data, Object sha1 S request.commitSha .commit data ∧ IsCommit data tree ∧
      Faithful c t sha1 S request values tree snapshot w' := by
  have hsteady := (steady_acquireSnapshot.ok h ⟨rfl, Nat.zero_le _, Nat.zero_le _⟩).opens
  obtain ⟨forbidden, reader₁, tree, w₁, w₂, reader₂, hvalues, hcommit, hexport, rfl, hcompressed, hroot, rfl⟩ :=
    acquireSnapshot_ok h
  obtain ⟨⟨data, hdata, hfirst, hsha⟩, _, digested, budget, rfl, hobjects, hbytes, hentries, hfiles, hexpanded⟩ :=
    commitTree_ok hcommit
  obtain ⟨blobs, hgrew, hexported, new, hnew, hsub⟩ := exportTree_ok hinj (by simp) hexport hS
  have hinventory : w₂.inventory = blobs.map (Blob.file c) := by simpa using hgrew.inventory
  have harchive : w₂.archive = blobs.map Blob.entry := by simpa using hgrew.archive
  have hwithin : Within request.limits w₂.budget := hgrew.within
    ⟨hobjects, hbytes, hentries ▸ Nat.zero_le _, hfiles ▸ Nat.zero_le _, hexpanded ▸ Nat.zero_le _⟩
  have hcount : w₂.budget.files = blobs.length := by rw [hgrew.files, hfiles, Nat.zero_add]
  have hsum : w₂.budget.expanded = (blobs.map (·.data.length)).sum := by rw [hgrew.expanded, hexpanded, Nat.zero_add]
  have hkeys : (blobs.map (Blob.key t)).Nodup := by
    have : w₂.seen.Nodup := hgrew.nodup List.nodup_nil
    rw [hnew, List.append_nil] at this
    obtain ⟨l, hperm, hsublist⟩ := hsub
    exact hperm.nodup_iff.mp (hsublist.nodup this)
  have hperm := sorted_perm (blobs.map (Blob.file c))
  obtain ⟨objects, hrest⟩ := hgrew.read
  have hread := hfirst.trans hrest
  refine ⟨tree, data, ⟨hS _ (hread.mem (List.mem_append_right _ List.mem_cons_self)), hsha⟩, hdata, ?_⟩
  rw [hinventory] at hroot ⊢
  rw [harchive] at hcompressed ⊢
  refine ⟨fun f => ?_, sorted_pairwise _, ?_, ⟨forbidden, hvalues, fun names mode child h => hexported.admitted _ _ _ h⟩, hwithin,
    ⟨_, hread.1, hread.2, hread.3, hread.4⟩, hsteady, ⟨?_, ?_⟩, hcompressed, ?_⟩
  · rw [mem_sorted, List.mem_map]
    constructor
    · rintro ⟨b, hb, rfl⟩
      obtain ⟨path, hpath, hblob⟩ := (hexported.blobs b).mp hb
      rw [List.nil_append] at hpath
      exact ⟨b.mode.text, b.data, by rw [Blob.file, hpath]; exact hblob, rfl, rfl⟩
    rintro ⟨mode, content, hblob, hsize, hdigest⟩
    have hreaches := hblob
    obtain ⟨child, hreaches, -⟩ := hreaches
    obtain ⟨path, m, hnames, rfl, -⟩ := hexported.admitted _ _ _ hreaches
    obtain rfl := map_utf8_injective hnames
    refine ⟨⟨f.path, m, content⟩, (hexported.blobs _).mpr ⟨f.path, rfl, hblob⟩, ?_⟩
    cases f
    simp_all [Blob.file]
  · refine (hperm.map _).nodup_iff.mpr ?_
    rw [List.map_map]
    exact hkeys
  · rw [hcount]
    exact hperm.length_eq.trans (List.length_map _)
  · rw [hsum, (hperm.map _).sum_nat, List.map_map]
    rfl
  · exact snapshotInventory_ok request.rootSafe (Nat.le_trans hcompressed request.limits.compressed_le) hvalues
      (hcount ▸ Nat.le_trans hwithin.files request.limits.files_le) (fun b hb => ⟨(hgrew.accepted b hb).1,
        (hgrew.accepted b hb).2.1, (hgrew.accepted b hb).2.2⟩) hkeys
      (hsum ▸ Nat.le_trans hwithin.expanded request.limits.expanded_le) hroot

/-- **Any reader, any limits.** The openings and the depth are bounded however the run ends; if it returns, the snapshot is what
the commit reaches, and the second scan accepts it. -/
theorem acquireSnapshot_faithful (c : Codec) (t : Text) (sha1 : Bytes → String) (r : Reader σ)
    (compressed : List ZipEntry → Nat) (request : Request) (values : List String) (reader : σ) :
    Ends (fun w => w.opens ≤ request.limits.objects + 1 ∧ w.deepest ≤ 129)
      (fun failure w => failure ≠ .exhausted ∧ w.opens ≤ request.limits.objects + 1 ∧ w.deepest ≤ 129)
      (acquireSnapshot c t sha1 r compressed request values { reader }) ∧
    ∀ snapshot w, acquireSnapshot c t sha1 r compressed request values { reader } = .ok snapshot w →
      ∀ S, Set.InjOn sha1 S → (∀ b ∈ w.digested, b ∈ S) →
      ∃ tree data, Object sha1 S request.commitSha .commit data ∧ IsCommit data tree ∧
        Faithful c t sha1 S request values tree snapshot w := by
  refine ⟨?_, fun snapshot w h S hinj hS => acquireSnapshot_exported hinj h hS⟩
  have hstart : Bounded request.limits ({ reader } : Work σ) := ⟨rfl, Nat.zero_le _, Nat.zero_le _⟩
  cases hrun : acquireSnapshot c t sha1 r compressed request values { reader } with
  | ok snapshot w =>
    have := steady_acquireSnapshot.ok hrun hstart
    exact ⟨by rw [this.opens]; exact Nat.le_succ_of_le this.objects, this.deepest⟩
  | error failure w =>
    have := steady_acquireSnapshot.error hrun hstart
    exact ⟨this.failure, this.opens, this.deepest⟩

end Export

/-! ## A repository

Two files of the same content, `a.py` and `dist/x`. The digests are those of SHA-1 and SHA-256. -/

namespace Repository

def blobId : String := "d00491fd7e5bb6fa28c517a0bb32b8b506539d4d"

def distId : String := "1808145eca0a3bc7bbbd9ec1645e022e830c05eb"

def rootId : String := "d697c3b7b23b0aa2992d63393c275d8eb8c9d913"

def commitId : String := "a446f532f54cd21b1f50614c8e42b0318ab65b2e"

def unhexDigit (ch : Char) : Nat := if ch.isDigit then ch.toNat - 48 else ch.toNat - 87

/-- `bytes.fromhex` -/
def unhex : List Char → Bytes
  | high :: low :: rest => UInt8.ofNat (unhexDigit high * 16 + unhexDigit low) :: unhex rest
  | _ => []

def blob : Bytes := ascii "1\n"

def dist : Bytes := ascii "100644 x" ++ 0 :: unhex blobId.toList

def root : Bytes := ascii "100644 a.py" ++ 0 :: unhex blobId.toList ++ ascii "40000 dist" ++ 0 :: unhex distId.toList

def commit : Bytes :=
  ascii "tree " ++ ascii rootId ++ ascii "\nauthor a <a> 0 +0000\ncommitter a <a> 0 +0000\n\nm\n"

def objects : List (String × Kind × Bytes) :=
  [(commitId, .commit, commit), (rootId, .tree, root), (distId, .tree, dist), (blobId, .blob, blob)]

/-- SHA-1, of the objects of this repository. -/
def sha1 (data : Bytes) : String := ((objects.find? fun object => frame object.2.1 object.2.2 = data).map (·.1)).getD ""

/-- SHA-256, of what the import of this repository hashes. -/
def sha256 (data : Bytes) : String :=
  if data = blob then "4355a46b19d348dc2f57c046f8ef63d4538ebb936000f3c9ee954a27460dd865"
  else "db2f1fcbf477b9bf0ba5ec8fbadcb2f8b03a0f55e1883771b1e2d5d8e248b8d5"

def codec : Codec := { sha256, quote := Framing.utf8, base64 := id }

def text : Text := { nfc := id, casefold := id, lower := id }

/-- It serves what it has, in pieces of at most ten bytes. -/
def reader : Reader Bytes where
  objectFormat := "sha1"
  commitSha := commitId
  openObject _ oid := match objects.find? (·.1 = oid) with
    | some (_, kind, data) => (some ⟨kind.name, some data.length⟩, data)
    | none => (none, [])
  read rest n := (some (rest.take (min n 10)), rest.drop (min n 10))
  checkpoint rest := (true, rest)

/-- As the deflated archive of its files is long. -/
def compressed (_ : List ZipEntry) : Nat := 206

def limits : Limits where
  compressedBytes := maxZipBytes
  expandedBytes := maxExtractedBytes
  files := maxFiles
  objectBytes := maxExtractedBytes + 16 * 1024 * 1024
  objects := 10000
  treeEntries := 10000
  treeBytes := 4 * 1024 * 1024
  commitBytes := 64 * 1024
  compressed_le := Nat.le_refl _
  expanded_le := Nat.le_refl _
  files_le := Nat.le_refl _

def request : Request where
  limits
  commitSha := commitId
  ref := some commitId
  projectRoot := []
  rootSafe := rfl

/-- What its import returns. -/
def run : EStateM.Result Failure (Work Bytes) Snapshot :=
  acquireSnapshot codec text sha1 reader compressed request [] { reader := [] }

def snapshot : Snapshot where
  content := ⟨206, [fileOf ["a.py"] .file blob, fileOf ["dist", "x"] .file blob]⟩
  fileListSha256 := "db2f1fcbf477b9bf0ba5ec8fbadcb2f8b03a0f55e1883771b1e2d5d8e248b8d5"
  files := [⟨["a.py"], 2, sha256 blob⟩, ⟨["dist", "x"], 2, sha256 blob⟩]

deriving instance DecidableEq for Zip, Snapshot

theorem sha1_injOn : Set.InjOn sha1 {b | b ∈ objects.map fun object => frame object.2.1 object.2.2} := by
  have h : ((objects.map fun object => frame object.2.1 object.2.2).map sha1).Nodup := by decide +kernel
  exact fun a ha b hb => List.inj_on_of_nodup_map h ha hb

/-- The import returns, and has hashed its objects. -/
def returns : Bool :=
  match run with
  | .ok returned w => returned = snapshot ∧ ∀ b ∈ w.digested, b ∈ objects.map fun object => frame object.2.1 object.2.2
  | .error _ _ => false

theorem run_returns : returns = true := by decide +kernel

theorem exists_run : ∃ w, run = .ok snapshot w ∧ ∀ b ∈ w.digested, b ∈ objects.map fun object => frame object.2.1 object.2.2 := by
  have h := run_returns
  unfold returns at h
  split at h
  · rename_i returned w hrun
    obtain ⟨rfl, hdigested⟩ := of_decide_eq_true h
    exact ⟨w, hrun, hdigested⟩
  · cases h

end Repository

theorem acquireSnapshot_faithful_repository : ∃ w tree data,
    acquireSnapshot Repository.codec Repository.text Repository.sha1 Repository.reader Repository.compressed Repository.request []
      { reader := [] } = .ok Repository.snapshot w ∧
    Object Repository.sha1 {b | b ∈ Repository.objects.map fun object => frame object.2.1 object.2.2} Repository.commitId .commit
      data ∧ IsCommit data tree ∧
    Faithful Repository.codec Repository.text Repository.sha1
      {b | b ∈ Repository.objects.map fun object => frame object.2.1 object.2.2} Repository.request [] tree Repository.snapshot w := by
  obtain ⟨w, hrun, hdigested⟩ := Repository.exists_run
  obtain ⟨tree, data, h⟩ := (acquireSnapshot_faithful Repository.codec Repository.text Repository.sha1 Repository.reader
    Repository.compressed Repository.request [] []).2 Repository.snapshot w hrun _ Repository.sha1_injOn hdigested
  exact ⟨w, tree, data, hrun, h⟩

end LingshuGate.Git

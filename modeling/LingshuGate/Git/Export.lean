import LingshuGate.Git.Reading
import Mathlib.Data.List.Perm.Subperm
import Mathlib.Data.List.Sort
import Mathlib.Data.String.Basic

/-!
# The export is the commit

What `exportTree` appends to the archive is what the tree reaches, by the plain grammar of its objects. The loop over the
entries of a tree and the recursion are one induction, on the fuel; `ForestExported` is what the loop has done.

SHA-1 is asked of a set `S` of objects that holds what the run has hashed, and on which it has no collision. The reader may
serve what it likes otherwise.
-/

namespace LingshuGate.Git

open Lib Lib.GitObjects
open scoped List
open Lib.Act (bind_ok)

/-- A file that was exported. -/
structure Blob where
  path : Path
  mode : Mode
  data : Bytes
  deriving DecidableEq

def Blob.entry (b : Blob) : ZipEntry := fileOf b.path b.mode b.data

def Blob.file (c : Codec) (b : Blob) : FileEntry := ⟨b.path, b.data.length, c.sha256 b.data⟩

def Blob.key (t : Text) (b : Blob) : Path := b.path.map t.casefold

/-- The counters that are held against the limits. -/
structure Within (limits : Limits) (b : Budget) : Prop where
  objects : b.objects ≤ limits.objects
  objectBytes : b.objectBytes ≤ limits.objectBytes
  entries : b.entries ≤ limits.treeEntries
  files : b.files ≤ limits.files
  expanded : b.expanded ≤ limits.expandedBytes

variable {σ : Type} {c : Codec} {t : Text} {sha1 : Bytes → String} {r : Reader σ} {limits : Limits} {forbidden : List Bytes}
  {S : Set Bytes} {w w' w'' : Work σ} {e : TreeEntry} {blobs blobs' : List Blob}

/-- What an export leaves behind. -/
structure Grew (c : Codec) (t : Text) (limits : Limits) (forbidden : List Bytes) (w : Work σ) (blobs : List Blob) (w' : Work σ) :
    Prop where
  archive : w'.archive = w.archive ++ blobs.map Blob.entry
  inventory : w'.inventory = w.inventory ++ blobs.map (Blob.file c)
  files : w'.budget.files = w.budget.files + blobs.length
  expanded : w'.budget.expanded = w.budget.expanded + (blobs.map (·.data.length)).sum
  within : Within limits w.budget → Within limits w'.budget
  read : ∃ objects, HasRead w objects w'
  nodup : w.seen.Nodup → w'.seen.Nodup
  accepted : ∀ b ∈ blobs, Accepts forbidden b.data ∧
    validateSnapshotPath t forbidden b.entry = .ok (b.path, b.key t) ∧ b.mode ≠ .tree

theorem Grew.digested (h : Grew c t limits forbidden w blobs w') : w.digested ⊆ w'.digested := by
  obtain ⟨_, hread⟩ := h.read
  exact hread.subset

theorem Grew.refl (w : Work σ) : Grew c t limits forbidden w [] w where
  archive := by simp
  inventory := by simp
  files := rfl
  expanded := rfl
  within := id
  read := ⟨[], HasRead.refl w⟩
  nodup := id
  accepted := by simp

theorem Grew.trans (h : Grew c t limits forbidden w blobs w') (h' : Grew c t limits forbidden w' blobs' w'') :
    Grew c t limits forbidden w (blobs ++ blobs') w'' where
  archive := by rw [h'.archive, h.archive, List.map_append, List.append_assoc]
  inventory := by rw [h'.inventory, h.inventory, List.map_append, List.append_assoc]
  files := by rw [h'.files, h.files, List.length_append, Nat.add_assoc]
  expanded := by rw [h'.expanded, h.expanded, List.map_append, List.sum_append, Nat.add_assoc]
  within hw := h'.within (h.within hw)
  read := by
    obtain ⟨_, hread⟩ := h.read
    obtain ⟨_, hread'⟩ := h'.read
    exact ⟨_, hread.trans hread'⟩
  nodup hw := h'.nodup (h.nodup hw)
  accepted := List.forall_mem_append.mpr ⟨h.accepted, h'.accepted⟩

/-- The depth is not part of it. -/
theorem Grew.of_deepest {deepest : Nat} (h : Grew c t limits forbidden { w with deepest } blobs w') :
    Grew c t limits forbidden w blobs w' := by
  obtain ⟨objects, hread⟩ := h.read
  exact ⟨h.archive, h.inventory, h.files, h.expanded, h.within, ⟨objects, hread.1, hread.2, hread.3, hread.4⟩, h.nodup, h.accepted⟩

variable {entries : List TreeEntry}

variable {oid : String} {start : Path}

/-- Reading a tree exports nothing. -/
theorem TreeRead.grew (h : TreeRead t sha1 limits forbidden oid start w entries w') : Grew c t limits forbidden w [] w' where
  archive := by rw [h.same.1, List.map_nil, List.append_nil]
  inventory := by rw [h.same.2.1, List.map_nil, List.append_nil]
  files := h.same.2.2.1
  expanded := h.same.2.2.2
  within hw := ⟨h.objects, h.objectBytes, h.entries hw.entries, h.same.2.2.1 ▸ hw.files, h.same.2.2.2 ▸ hw.expanded⟩
  read := by
    obtain ⟨_, _, -, -, hread, -⟩ := h.raws
    exact ⟨_, hread⟩
  nodup := h.nodup
  accepted := by simp

/-! ## Blobs -/

theorem scanChunk_foldlM {chunks : List Bytes} {s s' : Scanner} (h : chunks.foldlM scanChunk s = .ok s') : scan s chunks = .ok s' := by
  unfold scan
  induction chunks generalizing s with
  | nil => cases h; rfl
  | cons chunk chunks ih =>
    rw [List.foldlM_cons, bind_eq_ok] at h ⊢
    obtain ⟨u, hu, hrest⟩ := h
    refine ⟨u, ?_, ih hrest⟩
    unfold scanChunk at hu
    cases hupdate : s.update chunk with
    | error message => rw [hupdate] at hu; cases hu
    | ok v => rw [hupdate] at hu; cases hu; rfl

theorem Scanner.of_nil (forbidden : List Bytes) (maxBytes : Nat) :
    ({ forbidden, maxBytes } : Scanner) = Scanner.of forbidden maxBytes [] := by
  simp [Scanner.of, keep]

/-- One file: an object of its name, scanned and written as it is. -/
theorem exportBlob_ok (hvalid : validateSnapshotPath t forbidden (entryOf e.path e.mode) = .ok (e.path, e.path.map t.casefold))
    (hmode : e.mode ≠ .tree) {u : Unit} (h : exportBlob c sha1 r limits forbidden e w = .ok u w') :
    ∃ data, Grew c t limits forbidden w [⟨e.path, e.mode, data⟩] w' ∧ w'.seen = w.seen ∧
      frame .blob data ∈ w'.digested ∧ sha1 (frame .blob data) = e.child := by
  simp only [exportBlob, reject, bind_ok, Act.modify_ok, Act.get_ok, Act.require_ok, Prod.exists, decide_eq_true_eq] at h
  obtain ⟨_, _, rfl, _, _, ⟨rfl, rfl⟩, _, _, ⟨hfiles, rfl⟩, s, w₁, hopen, _, _, ⟨rfl, rfl⟩, _, _, ⟨hexpanded, rfl⟩, _, _, rfl,
    scanner, s', w₂, hdrain, _, w₃, hfinish, rfl⟩ := h
  have hopened := openStream_ok hopen
  obtain ⟨chunks, htook, hend, hchunks, hfold⟩ := drain_ok hdrain
  obtain ⟨-, hsha, reader₃, rfl⟩ := finish_ok hfinish
  obtain ⟨hobject, hlength⟩ := hopened.object (S := {b | b = s'.digest}) htook.consumed hend hsha rfl
  have hdigest : frame .blob chunks.flatten = s'.digest := hobject.1
  rw [Scanner.of_nil] at hfold
  obtain ⟨-, -, haccepts, rfl⟩ :=
    (scan_ok (fun chunk h => (hchunks chunk h).1) (Accepts.nil forbidden)).mp (scanChunk_foldlM hfold)
  rw [List.nil_append] at haccepts ⊢
  obtain ⟨reader₁, rfl⟩ := hopened.work
  obtain ⟨reader₂, rfl⟩ := htook.work
  have hbytes := hopened.objectBytes
  have hobjects := hopened.objects
  simp only at hbytes hobjects hexpanded hfiles
  refine ⟨chunks.flatten, ⟨rfl, rfl, rfl, ?_, fun hw => ⟨hobjects, ?_, hw.entries, hfiles, hexpanded⟩,
    ⟨[(.blob, chunks.flatten)], ?_, rfl, by simp, [], .nil, rfl⟩, id, ?_⟩, rfl, ?_, hobject.2⟩
  · simp [hlength]
  · simp only
    omega
  · rw [List.map_singleton, hdigest]
    rfl
  · simp only [List.mem_singleton, forall_eq]
    exact ⟨haccepts, hvalid, hmode⟩
  · rw [hdigest]
    exact List.mem_cons_self

/-! ## Trees -/

/-- An entry that a tree reaches, and that was let through. -/
def Admitted (t : Text) (forbidden : List Bytes) (start : Path) (names : List Bytes) (mode : Bytes) : Prop :=
  ∃ path m, names = path.map Framing.utf8 ∧ mode = Mode.text m ∧
    validateSnapshotPath t forbidden (entryOf (start ++ path) m) = .ok (start ++ path, (start ++ path).map t.casefold)

/-- The blobs of a tree. -/
structure TreeExported (t : Text) (sha1 : Bytes → String) (S : Set Bytes) (forbidden : List Bytes) (oid : String) (start : Path)
    (blobs : List Blob) : Prop where
  admitted : ∀ names mode child, Reaches sha1 S oid names mode child → Admitted t forbidden start names mode
  blobs : ∀ b, b ∈ blobs ↔ ∃ path, b.path = start ++ path ∧ HasBlob sha1 S oid (path.map Framing.utf8) b.mode.text b.data

/-- A blob that one entry of a tree gives. -/
def FromEntry (sha1 : Bytes → String) (S : Set Bytes) (e : TreeEntry) (b : Blob) : Prop :=
  if e.mode = .tree then
    ∃ path, b.path = e.path ++ path ∧ HasBlob sha1 S e.child (path.map Framing.utf8) b.mode.text b.data
  else b.path = e.path ∧ b.mode = e.mode ∧ Object sha1 S e.child .blob b.data

/-- The blobs of some entries of a tree. -/
structure ForestExported (t : Text) (sha1 : Bytes → String) (S : Set Bytes) (forbidden : List Bytes) (entries : List TreeEntry)
    (blobs : List Blob) : Prop where
  admitted : ∀ e ∈ entries, e.mode = .tree → ∀ names mode child, Reaches sha1 S e.child names mode child →
    Admitted t forbidden e.path names mode
  blobs : ∀ b, b ∈ blobs ↔ ∃ e ∈ entries, FromEntry sha1 S e b

theorem ForestExported.nil : ForestExported t sha1 S forbidden [] [] := ⟨by simp, by simp⟩

theorem ForestExported.append {entries entries' : List TreeEntry} (h : ForestExported t sha1 S forbidden entries blobs)
    (h' : ForestExported t sha1 S forbidden entries' blobs') : ForestExported t sha1 S forbidden (entries ++ entries') (blobs ++ blobs') where
  admitted := List.forall_mem_append.mpr ⟨h.admitted, h'.admitted⟩
  blobs b := by
    rw [List.mem_append, h.blobs b, h'.blobs b]
    simp only [List.mem_append, or_and_right, exists_or]

theorem ForestExported.of_tree (hmode : e.mode = .tree) (h : TreeExported t sha1 S forbidden e.child e.path blobs) :
    ForestExported t sha1 S forbidden [e] blobs where
  admitted := by
    simp only [List.mem_singleton, forall_eq]
    exact fun _ => h.admitted
  blobs b := by simp [FromEntry, hmode, h.blobs b]

theorem ForestExported.of_blob (hS : Set.InjOn sha1 S) (hmode : e.mode ≠ .tree) {data : Bytes}
    (hobject : Object sha1 S e.child .blob data) : ForestExported t sha1 S forbidden [e] [⟨e.path, e.mode, data⟩] where
  admitted := by
    simp only [List.mem_singleton, forall_eq]
    exact fun h => absurd h hmode
  blobs b := by
    simp only [List.mem_singleton, exists_eq_left, FromEntry, if_neg hmode]
    constructor
    · rintro rfl
      exact ⟨rfl, rfl, hobject⟩
    · rintro ⟨hpath, hmode, hdata⟩
      obtain rfl := hobject.unique hS hdata
      cases b
      simp_all

theorem Mode.text_injective {m m' : Mode} (h : m.text = m'.text) : m = m' := by
  cases m <;> cases m' <;> first | rfl | exact absurd h (by decide)

theorem map_utf8_injective {path path' : Path} (h : path.map Framing.utf8 = path'.map Framing.utf8) : path = path' :=
  List.map_injective_iff.mpr (fun _ _ => Framing.utf8_injective) h

/-- **From the entries of a tree to the tree.** -/
theorem ForestExported.tree (hS : Set.InjOn sha1 S) {data : Bytes} {raws : List RawEntry}
    (hobject : Object sha1 S oid .tree data) (htree : IsTree data raws)
    (hread : List.Forall₂ (EntryRead t forbidden start) raws entries) (h : ForestExported t sha1 S forbidden entries blobs) :
    TreeExported t sha1 S forbidden oid start blobs where
  admitted names mode child hreaches := by
    obtain ⟨raw, hraw, hcase⟩ := (reaches_iff hS hobject htree).mp hreaches
    obtain ⟨e, he, hentry⟩ := forall₂_mem_left hread hraw
    obtain ⟨name, hname, hpath⟩ := hentry.name
    rcases hcase with ⟨rfl, rfl, rfl⟩ | ⟨hmode, rest, rfl, hrest⟩
    · refine ⟨[name], e.mode, by rw [List.map_singleton, hname], hentry.mode.symm, ?_⟩
      rw [← hpath]
      exact hentry.valid
    · have htreeMode : e.mode = .tree := Mode.text_injective (hentry.mode.trans hmode)
      obtain ⟨path, m, rfl, rfl, hvalid⟩ := h.admitted e he htreeMode rest mode child (hentry.child ▸ hrest)
      refine ⟨name :: path, m, by rw [List.map_cons, hname], rfl, ?_⟩
      rw [hpath, List.append_assoc, List.singleton_append] at hvalid
      exact hvalid
  blobs b := by
    rw [h.blobs b]
    constructor
    · rintro ⟨e, he, hfrom⟩
      obtain ⟨raw, hraw, hentry⟩ := forall₂_mem_right hread he
      obtain ⟨name, hname, hpath⟩ := hentry.name
      unfold FromEntry at hfrom
      split at hfrom
      · rename_i hmode
        obtain ⟨path, hbpath, child, hreaches, hnot, hblob⟩ := hfrom
        refine ⟨name :: path, by rw [hbpath, hpath, List.append_assoc, List.singleton_append], child, ?_, hnot, hblob⟩
        rw [List.map_cons, hname]
        exact .deeper hobject htree hraw (by rw [← hentry.mode, hmode]; rfl) (hentry.child ▸ hreaches)
      rename_i hmode
      obtain ⟨hbpath, hbmode, hblob⟩ := hfrom
      refine ⟨[name], hbpath.trans hpath, e.child, ?_, ?_, hblob⟩
      · rw [List.map_singleton, hname, hbmode, hentry.mode, hentry.child]
        exact .entry hobject htree hraw
      · rw [hbmode]
        exact fun h => hmode (@Mode.text_injective _ .tree h)
    rintro ⟨path, hbpath, child, hreaches, hnot, hblob⟩
    obtain ⟨raw, hraw, hcase⟩ := (reaches_iff hS hobject htree).mp hreaches
    obtain ⟨e, he, hentry⟩ := forall₂_mem_left hread hraw
    obtain ⟨name, hname, hpath⟩ := hentry.name
    refine ⟨e, he, ?_⟩
    rcases hcase with ⟨hnames, hmode, hchild⟩ | ⟨hmode, rest, hnames, hrest⟩
    · obtain rfl : path = [name] := map_utf8_injective (by rw [hnames, List.map_singleton, hname])
      have hbmode : b.mode = e.mode := Mode.text_injective (hmode.trans hentry.mode.symm)
      rw [FromEntry, if_neg fun h => hnot (by rw [hbmode, h]; rfl)]
      exact ⟨hbpath.trans hpath.symm, hbmode, hentry.child ▸ hchild ▸ hblob⟩
    have htreeMode : e.mode = .tree := Mode.text_injective (hentry.mode.trans hmode)
    obtain ⟨path', rfl⟩ : ∃ path', path = name :: path' := by
      cases path with
      | nil => cases hnames
      | cons part path =>
        obtain ⟨hpart, -⟩ := List.cons.inj hnames
        exact ⟨path, by rw [Framing.utf8_injective (hpart.trans hname.symm)]⟩
    obtain ⟨-, hrest'⟩ := List.cons.inj hnames
    rw [FromEntry, if_pos htreeMode]
    refine ⟨path', by rw [hbpath, hpath, List.append_assoc, List.singleton_append], child, ?_, hnot, hblob⟩
    rw [hrest', hentry.child]
    exact hrest

/-! ## The recursion -/

/-- What the loop over some entries has done. -/
structure ForestGrew (c : Codec) (t : Text) (sha1 : Bytes → String) (S : Set Bytes) (limits : Limits) (forbidden : List Bytes)
    (w : Work σ) (entries : List TreeEntry) (blobs : List Blob) (w' : Work σ) : Prop where
  grew : Grew c t limits forbidden w blobs w'
  exported : ForestExported t sha1 S forbidden entries blobs
  seen : ∃ new, w'.seen = new ++ w.seen ∧ (blobs.map (Blob.key t)).Subperm (entries.map (fun e => e.path.map t.casefold) ++ new)

/-- What a call of `_export_tree` has done. -/
structure TreeGrew (c : Codec) (t : Text) (sha1 : Bytes → String) (S : Set Bytes) (limits : Limits) (forbidden : List Bytes)
    (w : Work σ) (oid : String) (start : Path) (blobs : List Blob) (w' : Work σ) : Prop where
  grew : Grew c t limits forbidden w blobs w'
  exported : TreeExported t sha1 S forbidden oid start blobs
  seen : ∃ new, w'.seen = new ++ w.seen ∧ (blobs.map (Blob.key t)).Subperm new

theorem ForestGrew.append {entries entries' : List TreeEntry} (h : ForestGrew c t sha1 S limits forbidden w entries blobs w')
    (h' : ForestGrew c t sha1 S limits forbidden w' entries' blobs' w'') :
    ForestGrew c t sha1 S limits forbidden w (entries ++ entries') (blobs ++ blobs') w'' where
  grew := h.grew.trans h'.grew
  exported := h.exported.append h'.exported
  seen := by
    obtain ⟨new, hnew, hsub⟩ := h.seen
    obtain ⟨new', hnew', hsub'⟩ := h'.seen
    refine ⟨new' ++ new, by rw [hnew', hnew, List.append_assoc], ?_⟩
    rw [List.map_append, List.map_append]
    refine (hsub.append hsub').trans (List.Perm.subperm ?_)
    have hnew : new ++ (entries'.map (fun e => e.path.map t.casefold) ++ new') ~
        entries'.map (fun e => e.path.map t.casefold) ++ new' ++ new := List.perm_append_comm
    simpa [List.append_assoc] using hnew.append_left (entries.map fun e => e.path.map t.casefold)

/-- The loop, if its body does what it should with each of the entries. -/
theorem forest_ok {body : TreeEntry → M σ Unit} (hbody : ∀ e ∈ entries, ∀ w w', body e w = .ok () w' → (∀ b ∈ w'.digested, b ∈ S) →
      ∃ blobs, ForestGrew c t sha1 S limits forbidden w [e] blobs w')
    (h : entries.forM body w = .ok () w') (hS : ∀ b ∈ w'.digested, b ∈ S) :
    ∃ blobs, ForestGrew c t sha1 S limits forbidden w entries blobs w' := by
  induction entries generalizing w with
  | nil =>
    obtain ⟨-, rfl⟩ := Act.pure_ok.mp h
    exact ⟨[], Grew.refl w, ForestExported.nil, [], rfl, List.nil_subperm⟩
  | cons e entries ih =>
    obtain ⟨_, w₁, hfirst, hrest⟩ := bind_ok.mp h
    obtain ⟨blobs', hblobs'⟩ := ih (fun e he => hbody e (List.mem_cons_of_mem _ he)) hrest
    obtain ⟨blobs, hblobs⟩ := hbody e List.mem_cons_self w w₁ hfirst fun b hb => hS b (hblobs'.grew.digested hb)
    exact ⟨blobs ++ blobs', hblobs.append hblobs'⟩

theorem ForestGrew.of_tree (hmode : e.mode = .tree) (h : TreeGrew c t sha1 S limits forbidden w e.child e.path blobs w') :
    ForestGrew c t sha1 S limits forbidden w [e] blobs w' where
  grew := h.grew
  exported := .of_tree hmode h.exported
  seen := by
    obtain ⟨new, hnew, hsub⟩ := h.seen
    exact ⟨new, hnew, hsub.cons_right _⟩

/-- **What a call of `_export_tree` appends is what its tree reaches.** -/
theorem exportTree_ok (hinj : Set.InjOn sha1 S) {fuel : Nat}
    (hstart : ∀ part ∈ start, isPart part = true) (h : exportTree c t sha1 r limits forbidden fuel oid start w = .ok () w')
    (hS : ∀ b ∈ w'.digested, b ∈ S) : ∃ blobs, TreeGrew c t sha1 S limits forbidden w oid start blobs w' := by
  induction fuel generalizing w w' oid start with
  | zero => simp [exportTree] at h
  | succ fuel ih =>
    rw [exportTree] at h
    simp only [bind_ok, Act.modify_ok] at h
    obtain ⟨_, _, rfl, entries, w₁, hentries, hloop⟩ := h
    have hread := treeEntries_ok hstart hentries
    obtain ⟨raws, data, htree, hraws, hobjects, hsha⟩ := hread.raws
    have hentry {e : TreeEntry} (he : e ∈ entries) : ∃ raw, EntryRead t forbidden start raw e := by
      obtain ⟨raw, -, h⟩ := forall₂_mem_right hraws he
      exact ⟨raw, h⟩
    have hbody : ∀ e ∈ entries, ∀ w w', (if e.mode = .tree then exportTree c t sha1 r limits forbidden fuel e.child e.path
        else exportBlob c sha1 r limits forbidden e) w = .ok () w' → (∀ b ∈ w'.digested, b ∈ S) →
        ∃ blobs, ForestGrew c t sha1 S limits forbidden w [e] blobs w' := by
      intro e he w w' h hS
      obtain ⟨raw, hread⟩ := hentry he
      split at h
      · rename_i hmode
        obtain ⟨blobs, hblobs⟩ := ih hread.parts h hS
        exact ⟨blobs, .of_tree hmode hblobs⟩
      · rename_i hmode
        obtain ⟨data, hgrew, hseen, hframe, hsha⟩ := exportBlob_ok hread.valid hmode h
        refine ⟨[⟨e.path, e.mode, data⟩], hgrew, .of_blob hinj hmode ⟨hS _ hframe, hsha⟩, [], hseen, ?_⟩
        exact List.Subperm.refl _
    obtain ⟨blobs, hforest⟩ := forest_ok hbody hloop hS
    have hgrew := hread.grew (c := c)
    refine ⟨blobs, ?_, ?_, ?_⟩
    · exact (hgrew.trans hforest.grew).of_deepest
    · exact hforest.exported.tree hinj ⟨hS _ (hforest.grew.digested (hobjects.mem List.mem_cons_self)), hsha⟩ htree hraws
    · obtain ⟨new, hnew, hsub⟩ := hforest.seen
      refine ⟨new ++ (entries.map fun e => e.path.map t.casefold).reverse, by rw [hnew, hread.seen, List.append_assoc], ?_⟩
      refine hsub.trans (List.Perm.subperm ?_)
      exact List.perm_append_comm.trans (List.Perm.append_left _ (List.reverse_perm _).symm)

end LingshuGate.Git

import LingshuGate.Git.Uploads

/-!
# Which Git imports can be built from

`Published` is what the three passes leave: the inventory lists every file of the archive, the directory holds the files that no
ignored name drops, with their bytes. Verification compares the two, so that it accepts as long as nothing below the selected
root was dropped (`verify_published`).
-/

namespace LingshuGate.Git

open Lib

variable {c : Codec} {t : Text} {disk : Path → Bool} {entries : List ZipEntry} {tree tree' : Tree} {root : Path}
  {inventory : List FileEntry}

/-! ## Extraction -/

theorem dictGet_eq_none {β : Type} {pairs : List (Path × β)} {key : Path} :
    Py.dictGet pairs key = none ↔ key ∉ pairs.map (·.1) := by
  simp [Py.dictGet, List.find?_eq_none]
  grind

/-- The path of a member, as every pass reads it. -/
def memberPath (e : ZipEntry) : Path := parts e.filename

theorem planEntry_ok {p p' : Plan} {e : ZipEntry} (h : planEntry t p e = .ok p') : p'.planned = p.planned ++ [(e, memberPath e)] ∧
      p'.entries.map (·.1) = p.entries.map (·.1) ++ [(memberPath e).map t.casefold] ∧
      (memberPath e).map t.casefold ∉ p.entries.map (·.1) := by
  simp only [planEntry, bind_eq_ok, require_eq_ok, pure_eq_ok, exists_const, Prod.exists] at h
  obtain ⟨path, key, hmember, hnew, -, -, -, rfl⟩ := h
  obtain ⟨rfl, rfl, -, -⟩ := validatedZipMember_ok t hmember
  refine ⟨rfl, by simp [memberPath], ?_⟩
  rw [Option.isNone_iff_eq_none] at hnew
  exact dictGet_eq_none.mp hnew

theorem plan_ok {p p' : Plan} (h : entries.foldlM (planEntry t) p = .ok p') (hp : (p.entries.map (·.1)).Nodup) :
    p'.planned = p.planned ++ entries.map (fun e => (e, memberPath e)) ∧
      p'.entries.map (·.1) = p.entries.map (·.1) ++ entries.map (fun e => (memberPath e).map t.casefold) ∧
      (p'.entries.map (·.1)).Nodup := by
  induction entries generalizing p with
  | nil =>
    cases h
    simpa using hp
  | cons e entries ih =>
    rw [List.foldlM_cons, bind_eq_ok] at h
    obtain ⟨p₁, hfirst, hrest⟩ := h
    obtain ⟨hplanned, hkeys, hnew⟩ := planEntry_ok hfirst
    obtain ⟨hplanned', hkeys', hnodup⟩ := ih hrest (by
      rw [hkeys, List.nodup_append]
      refine ⟨hp, List.nodup_singleton _, fun a ha b hb => ?_⟩
      rw [List.mem_singleton] at hb
      exact fun heq => hnew (hb ▸ heq ▸ ha))
    exact ⟨by rw [hplanned', hplanned]; simp, by rw [hkeys', hkeys]; simp, hnodup⟩

/-- A file is written if no name on its path is ignored. -/
def Kept (t : Text) (member : ZipEntry × Path) : Prop := member.1.isDir = false ∧ ignored t member.2 = false

/-- The directory, after these members. -/
structure Extracted (t : Text) (done : List (ZipEntry × Path)) (tree : Tree) : Prop where
  files : ∀ path data, (path, Node.file data) ∈ tree ↔ ∃ m ∈ done, Kept t m ∧ m.2 = path ∧ m.1.data = data
  plain : ∀ row ∈ tree, row.2 = .directory ∨ ∃ data, row.2 = .file data

variable {path : Path}

theorem makeDirectory_ok (h : makeDirectory tree path = .ok tree') :
    (∀ row ∈ tree, row ∈ tree') ∧ ∀ row ∈ tree', row ∈ tree ∨ row.2 = .directory := by
  unfold makeDirectory at h
  split at h
  · rw [expect_eq_ok] at h
    refine ⟨fun row hrow => (Table.mem_insert h).mpr (.inl hrow), fun row hrow => ?_⟩
    rcases (Table.mem_insert h).mp hrow with hrow | rfl
    · exact .inl hrow
    · exact .inr rfl
  · cases h
    exact ⟨fun _ h => h, fun _ h => .inl h⟩
  · cases h

theorem makeDirectories_ok {paths : List Path} (h : paths.foldlM makeDirectory tree = .ok tree') :
    (∀ row ∈ tree, row ∈ tree') ∧ ∀ row ∈ tree', row ∈ tree ∨ row.2 = .directory := by
  induction paths generalizing tree with
  | nil =>
    cases h
    exact ⟨fun _ h => h, fun _ h => .inl h⟩
  | cons path paths ih =>
    rw [List.foldlM_cons, bind_eq_ok] at h
    obtain ⟨tree₁, hfirst, hrest⟩ := h
    obtain ⟨hkeep, hnew⟩ := makeDirectory_ok hfirst
    obtain ⟨hkeep', hnew'⟩ := ih hrest
    refine ⟨fun row h => hkeep' row (hkeep row h), fun row h => ?_⟩
    rcases hnew' row h with h | h
    · exact hnew row h
    · exact .inr h

theorem Extracted.directories {done : List (ZipEntry × Path)} {paths : List Path} (hextracted : Extracted t done tree)
    (h : paths.foldlM makeDirectory tree = .ok tree') : Extracted t done tree' := by
  obtain ⟨hkeep, hnew⟩ := makeDirectories_ok h
  refine ⟨fun path data => ?_, fun row hrow => ?_⟩
  · rw [← hextracted.files]
    refine ⟨fun h => ?_, hkeep _⟩
    rcases hnew _ h with h | h
    · exact h
    · cases h
  · rcases hnew row hrow with hrow | hrow
    · exact hextracted.plain row hrow
    · exact .inl hrow

theorem Extracted.write {done : List (ZipEntry × Path)} {m : ZipEntry × Path} (hextracted : Extracted t done tree)
    (hnew : m.2 ∉ done.map (·.2)) (h : writeMember t disk tree m = .ok tree') : Extracted t (done ++ [m]) tree' := by
  unfold writeMember at h
  split at h
  · rename_i hdropped
    cases h
    have hnot : ¬ Kept t m := by
      rintro ⟨hdir, hignored⟩
      simp [hdir, hignored] at hdropped
    refine ⟨fun path data => ?_, hextracted.plain⟩
    rw [hextracted.files]
    constructor
    · rintro ⟨m', hm', h⟩
      exact ⟨m', List.mem_append_left _ hm', h⟩
    rintro ⟨m', hm', hkept, h⟩
    rcases List.mem_append.mp hm' with hm' | hm'
    · exact ⟨m', hm', hkept, h⟩
    · obtain rfl := List.mem_singleton.mp hm'
      exact absurd hkept hnot
  rename_i hkept
  have hkept : Kept t m := by simpa [Kept] using hkept
  simp only [bind_eq_ok, require_eq_ok, exists_const] at h
  obtain ⟨tree₁, hdirectories, -, -, hwrite⟩ := h
  have hextracted := hextracted.directories hdirectories
  unfold writeFile at hwrite
  split at hwrite
  · rw [expect_eq_ok] at hwrite
    refine ⟨fun path data => ?_, fun row hrow => ?_⟩
    · rw [Table.mem_insert hwrite, hextracted.files]
      constructor
      · rintro (⟨m', hm', h⟩ | heq)
        · exact ⟨m', List.mem_append_left _ hm', h⟩
        · obtain ⟨rfl, hdata⟩ := Prod.mk.inj heq
          exact ⟨m, by simp, hkept, rfl, (Node.file.inj hdata).symm⟩
      rintro ⟨m', hm', hkept', rfl, rfl⟩
      rcases List.mem_append.mp hm' with hm' | hm'
      · exact .inl ⟨m', hm', hkept', rfl, rfl⟩
      · obtain rfl := List.mem_singleton.mp hm'
        exact .inr rfl
    · rcases (Table.mem_insert hwrite).mp hrow with hrow | rfl
      · exact hextracted.plain row hrow
      · exact .inr ⟨_, rfl⟩
  · -- no earlier member has this path
    rename_i path data hfind
    obtain ⟨hmem, hpath⟩ := Table.find_eq_some.mp hfind
    obtain ⟨m', hm', -, hm'path, -⟩ := (hextracted.files _ _).mp hmem
    exact absurd (List.mem_map.mpr ⟨m', hm', hm'path.trans hpath⟩) hnew
  · cases hwrite

theorem Extracted.all {done members : List (ZipEntry × Path)} (hextracted : Extracted t done tree)
    (hnodup : ((done ++ members).map (·.2)).Nodup) (h : members.foldlM (writeMember t disk) tree = .ok tree') :
    Extracted t (done ++ members) tree' := by
  induction members generalizing done tree with
  | nil =>
    cases h
    simpa using hextracted
  | cons m members ih =>
    rw [List.foldlM_cons, bind_eq_ok] at h
    obtain ⟨tree₁, hfirst, hrest⟩ := h
    have hnew : m.2 ∉ done.map (·.2) := by
      rw [List.map_append, List.map_cons] at hnodup
      intro hmem
      exact (List.nodup_append.mp hnodup).2.2 _ hmem _ List.mem_cons_self rfl
    have hsplit : done ++ m :: members = done ++ [m] ++ members := by simp
    rw [hsplit] at hnodup ⊢
    exact ih (hextracted.write hnew hfirst) hnodup hrest

theorem safeExtract_ok {zip : Zip} (h : safeExtract t disk zip = .ok tree) :
    Extracted t (zip.entries.map fun e => (e, memberPath e)) tree ∧ (zip.entries.map memberPath).Nodup := by
  simp only [safeExtract, bind_eq_ok, require_eq_ok, exists_const] at h
  obtain ⟨-, plan, hplan, hwrite⟩ := h
  obtain ⟨hplanned, hkeys, hnodup⟩ := plan_ok hplan List.nodup_nil
  have hpaths : (zip.entries.map memberPath).Nodup := by
    rw [hkeys] at hnodup
    simp only [List.map_nil, List.nil_append] at hnodup
    rw [show (fun e => (memberPath e).map t.casefold) = (fun path : Path => path.map t.casefold) ∘ memberPath from rfl,
      ← List.map_map] at hnodup
    exact List.Nodup.of_map _ hnodup
  rw [hplanned] at hwrite
  have hempty : Extracted t [] (Table.empty : Tree) := ⟨fun path data => by simp [Table.mem_def, Table.empty], fun row hrow => by
    simp [Table.mem_def, Table.empty] at hrow⟩
  have := hempty.all (by simpa [Function.comp_def] using hpaths) hwrite
  exact ⟨by simpa using this, hpaths⟩

/-! ## The inventory -/

def fileEntry (c : Codec) (e : ZipEntry) : FileEntry := ⟨memberPath e, e.data.length, c.sha256 e.data⟩

theorem listEntry_spec {forbidden : List Bytes} {l l' : Listing} {e : ZipEntry} (h : listEntry c t forbidden l e = .ok l') :
    l'.files = l.files ++ (if e.isDir then [] else [fileEntry c e]) ∧
      l'.expanded = l.expanded + (if e.isDir then 0 else e.data.length) ∧ (l.expanded ≤ maxExtractedBytes → l'.expanded ≤ maxExtractedBytes) := by
  simp only [listEntry, bind_eq_ok, require_eq_ok, exists_const, Prod.exists] at h
  obtain ⟨path, key, hpath, -, -, h⟩ := h
  obtain ⟨rfl, rfl, -, -⟩ := validateSnapshotPath_ok t hpath
  split at h
  · rename_i hdir
    cases h
    simp [hdir]
  rename_i hdir
  simp only [bind_eq_ok, require_eq_ok, pure_eq_ok, exists_const, decide_eq_true_eq] at h
  obtain ⟨hexpanded, s, hscan, hsize, rfl⟩ := h
  have hpositive : 0 < snapshotChunkBytes := by decide
  rw [Scanner.of_nil] at hscan
  obtain ⟨-, -, -, rfl⟩ := (scan_ok (fun chunk h => cut_ne_nil hpositive h) (Accepts.nil forbidden)).mp hscan
  rw [cut_flatten hpositive] at hsize ⊢
  simp only [Bool.not_eq_true] at hdir
  simp only [Scanner.of, List.nil_append] at hsize ⊢
  refine ⟨by simp [hdir, fileEntry, memberPath], by simp [hdir, hsize], fun _ => hexpanded⟩

theorem listEntries_spec {forbidden : List Bytes} {l l' : Listing} (h : entries.foldlM (listEntry c t forbidden) l = .ok l') :
    l'.files = l.files ++ (entries.filter fun e => !e.isDir).map (fileEntry c) ∧
      l'.expanded = l.expanded + ((entries.filter fun e => !e.isDir).map (·.data.length)).sum ∧
      (l.expanded ≤ maxExtractedBytes → l'.expanded ≤ maxExtractedBytes) := by
  induction entries generalizing l with
  | nil =>
    cases h
    simp
  | cons e entries ih =>
    rw [List.foldlM_cons, bind_eq_ok] at h
    obtain ⟨l₁, hfirst, hrest⟩ := h
    obtain ⟨hfiles, hexpanded, hbound⟩ := listEntry_spec hfirst
    obtain ⟨hfiles', hexpanded', hbound'⟩ := ih hrest
    cases hdir : e.isDir with
    | true => simp_all
    | false => simp_all [Nat.add_assoc]

/-! ## What is published -/

/-- An import that ended in success. -/
structure Published (c : Codec) (t : Text) (root : Path) (entries : List ZipEntry) (inventory : List FileEntry) (tree : Tree) :
    Prop where
  listed : inventory.Perm ((entries.filter fun e => !e.isDir).map (fileEntry c))
  nonempty : inventory ≠ []
  files : ∀ path data, (path, Node.file data) ∈ tree ↔
    ∃ e ∈ entries, e.isDir = false ∧ ignored t (memberPath e) = false ∧ memberPath e = path ∧ e.data = data
  plain : ∀ row ∈ tree, row.2 = .directory ∨ ∃ data, row.2 = .file data
  paths : (entries.map memberPath).Nodup
  length : inventory.length ≤ maxFiles
  size : (inventory.map (·.size)).sum ≤ maxExtractedBytes

variable {u : Upload}

theorem publish_ok {zip : Zip} {values : List String} (h : publish c t disk zip root values = .ok (u, tree)) :
    ∃ inventory, Published c t root zip.entries inventory tree ∧ u.rootDir = root ∧ u.analysis.gitSource = some root ∧
      u.analysis.includedFiles = some inventory ∧ u.analysis.fileListSha256 = some (digestJson c inventory) := by
  simp only [publish, saveZip, bind_eq_ok, require_eq_ok, pure_eq_ok, exists_const, Prod.exists] at h
  obtain ⟨digest, inventory, hinventory, upload, tree', ⟨-, tree'', hextract, analysis', -, hpair⟩, -, analysis, -, hresult⟩ := h
  obtain ⟨-, rfl⟩ := Prod.mk.inj hpair
  obtain ⟨rfl, rfl⟩ := Prod.mk.inj hresult
  obtain ⟨hextracted, hpaths⟩ := safeExtract_ok hextract
  simp only [snapshotInventory, bind_eq_ok, require_eq_ok, pure_eq_ok, exists_const, Bool.and_eq_true, decide_eq_true_eq] at hinventory
  obtain ⟨-, -, -, forbidden, -, hlength, l, hlist, ⟨hnonempty, -⟩, hpair⟩ := hinventory
  obtain ⟨rfl, rfl⟩ := Prod.mk.inj hpair
  obtain ⟨hfiles, hexpanded, hbound⟩ := listEntries_spec hlist
  simp only [List.nil_append, Nat.zero_add] at hfiles hexpanded
  have hperm := sorted_perm l.files
  refine ⟨sorted l.files, ⟨hfiles ▸ hperm, ?_, ?_, hextracted.plain, hpaths, ?_, ?_⟩, rfl, rfl, rfl, rfl⟩
  · intro hnil
    rw [hnil] at hperm
    exact hnonempty hperm.nil_eq.symm
  · intro path data
    rw [hextracted.files]
    constructor
    · rintro ⟨m, hm, ⟨hdir, hignored⟩, hpath, hdata⟩
      obtain ⟨e, he, rfl⟩ := List.mem_map.mp hm
      exact ⟨e, he, hdir, hignored, hpath, hdata⟩
    · rintro ⟨e, he, hdir, hignored, hpath, hdata⟩
      exact ⟨(e, memberPath e), List.mem_map.mpr ⟨e, he, rfl⟩, ⟨hdir, hignored⟩, hpath, hdata⟩
  · rw [hperm.length_eq, hfiles, List.length_map]
    exact Nat.le_trans (List.length_filter_le _ _) hlength
  · rw [(hperm.map _).sum_nat, hfiles, List.map_map]
    have := hbound (Nat.zero_le _)
    rw [hexpanded] at this
    exact this

theorem Published.mem (h : Published c t root entries inventory tree) {f : FileEntry} :
    f ∈ inventory ↔ ∃ e ∈ entries, e.isDir = false ∧ fileEntry c e = f := by
  rw [h.listed.mem_iff, List.mem_map]
  simp only [List.mem_filter, Bool.not_eq_true', and_assoc]

theorem Published.inventory_paths (h : Published c t root entries inventory tree) : (inventory.map (·.path)).Nodup := by
  rw [(h.listed.map _).nodup_iff, List.map_map]
  exact List.Nodup.sublist (List.Sublist.map _ List.filter_sublist) h.paths

/-- One path, one file of the inventory. -/
theorem Published.path_inj (h : Published c t root entries inventory tree) {f f' : FileEntry} (hf : f ∈ inventory)
    (hf' : f' ∈ inventory) (hpath : f.path = f'.path) : f = f' := List.inj_on_of_nodup_map h.inventory_paths hf hf' hpath

/-! ## Verification -/

/-- What one path of the walk must be. -/
def Passes (c : Codec) (expected : List (Path × FileEntry)) (row : Path × Node) : Prop :=
  match row.2 with
  | .directory => True
  | .file data => ∃ entry, Py.dictGet expected row.1 = some entry ∧ data.length = entry.size ∧ c.sha256 data = entry.sha256
  | _ => False

/-- The files of the walk. -/
def filesOf (rows : List (Path × Node)) : List (Path × Bytes) :=
  rows.filterMap fun row => match row.2 with
    | .file data => some (row.1, data)
    | _ => none

variable {data : Bytes}

theorem mem_filesOf {rows : List (Path × Node)} : (path, data) ∈ filesOf rows ↔ (path, Node.file data) ∈ rows := by
  unfold filesOf
  rw [List.mem_filterMap]
  constructor
  · rintro ⟨⟨path', node⟩, hmem, hsome⟩
    cases node with
    | file data' =>
      obtain ⟨rfl, rfl⟩ := Prod.mk.inj (Option.some.inj hsome)
      exact hmem
    | directory | symlink | special => cases hsome
  · exact fun h => ⟨_, h, rfl⟩

section Verify

variable {late : Path → Bool} {expected : List (Path × FileEntry)} {rows : List (Path × Node)}

theorem verifyRows_ok {s s' : Seen} (h : rows.foldlM (verifyPath c late expected) s = .ok s') :
    (∀ row ∈ rows, Passes c expected row) ∧ s'.actual = s.actual ++ (filesOf rows).map (·.1) := by
  induction rows generalizing s with
  | nil =>
    cases h
    simp [filesOf]
  | cons row rows ih =>
    rw [List.foldlM_cons, bind_eq_ok] at h
    obtain ⟨s₁, hfirst, hrest⟩ := h
    obtain ⟨hpasses, hactual⟩ := ih hrest
    obtain ⟨path, node⟩ := row
    simp only [verifyPath, bind_eq_ok, require_eq_ok, exists_const] at hfirst
    obtain ⟨-, hfirst⟩ := hfirst
    cases node with
    | directory =>
      cases hfirst
      exact ⟨List.forall_mem_cons.mpr ⟨trivial, hpasses⟩, hactual⟩
    | file data =>
      simp only [verifyFile, bind_eq_ok, require_eq_ok, expect_eq_ok, pure_eq_ok, exists_const, decide_eq_true_eq] at hfirst
      obtain ⟨entry, hentry, hsize, -, hdigest, rfl⟩ := hfirst
      refine ⟨List.forall_mem_cons.mpr ⟨⟨entry, hentry, hsize, hdigest⟩, hpasses⟩, ?_⟩
      rw [hactual]
      simp [filesOf]
    | symlink | special => cases hfirst

theorem verifyRows_accepts (hpasses : ∀ row ∈ rows, Passes c expected row) {s : Seen}
    (hlength : s.actual.length + (filesOf rows).length ≤ maxFiles)
    (hsize : s.total + ((filesOf rows).map (·.2.length)).sum ≤ maxExtractedBytes) :
    ∃ total, rows.foldlM (verifyPath c (fun _ => false) expected) s = .ok ⟨s.actual ++ (filesOf rows).map (·.1), total⟩ := by
  induction rows generalizing s with
  | nil => exact ⟨s.total, by simp [filesOf, pure, Except.pure]⟩
  | cons row rows ih =>
    obtain ⟨hrow, hrows⟩ := List.forall_mem_cons.mp hpasses
    obtain ⟨path, node⟩ := row
    cases node with
    | directory =>
      obtain ⟨total, htotal⟩ := ih hrows (s := s) hlength hsize
      refine ⟨total, ?_⟩
      rw [List.foldlM_cons, bind_eq_ok]
      exact ⟨s, rfl, htotal⟩
    | file data =>
      obtain ⟨entry, hentry, hentrySize, hdigest⟩ := hrow
      have hfiles : filesOf ((path, Node.file data) :: rows) = (path, data) :: filesOf rows := rfl
      rw [hfiles] at hlength hsize ⊢
      simp only [List.length_cons, List.map_cons, List.sum_cons] at hlength hsize
      obtain ⟨total, htotal⟩ := ih hrows (s := ⟨s.actual ++ [path], s.total + entry.size⟩)
        (by simp only [List.length_append, List.length_singleton]; omega) (by simp only; omega)
      refine ⟨total, ?_⟩
      rw [List.foldlM_cons, bind_eq_ok]
      refine ⟨⟨s.actual ++ [path], s.total + entry.size⟩, ?_, by simpa using htotal⟩
      simp only [verifyPath, verifyFile, bind_eq_ok, require_eq_ok, expect_eq_ok, pure_eq_ok, exists_const]
      refine ⟨rfl, entry, hentry, decide_eq_true hentrySize, ?_, decide_eq_true hdigest, rfl⟩
      rw [Bool.and_eq_true]
      exact ⟨decide_eq_true (by omega), decide_eq_true (by omega)⟩
    | symlink | special => exact absurd hrow id

end Verify

theorem below_iff : below root path = true ↔ ∃ part rest, path = root ++ part :: rest := by
  unfold below
  rw [Bool.and_eq_true, decide_eq_true_eq, List.isPrefixOf_iff_prefix]
  constructor
  · rintro ⟨⟨rest, rfl⟩, hlength⟩
    cases rest with
    | nil => simp at hlength
    | cons part rest => exact ⟨part, rest, rfl⟩
  · rintro ⟨part, rest, rfl⟩
    exact ⟨⟨_, rfl⟩, by simp⟩

theorem below_drop (h : below root path = true) : root ++ path.drop root.length = path := by
  obtain ⟨part, rest, rfl⟩ := below_iff.mp h
  rw [List.drop_left]

/-- The walk, in paths of the whole directory. -/
theorem mem_rglob {node : Node} :
    (path, node) ∈ rglob tree root ↔ below root (root ++ path) = true ∧ (root ++ path, node) ∈ tree := by
  unfold rglob
  rw [List.mem_map]
  constructor
  · rintro ⟨⟨whole, node'⟩, hmem, heq⟩
    obtain ⟨hmem, hbelow⟩ := List.mem_filter.mp hmem
    obtain ⟨rfl, rfl⟩ := Prod.mk.inj heq
    simp only at hbelow
    rw [below_drop hbelow]
    exact ⟨hbelow, hmem⟩
  · rintro ⟨hbelow, hmem⟩
    exact ⟨(root ++ path, node), List.mem_filter.mpr ⟨hmem, hbelow⟩, by rw [List.drop_left]⟩

/-- What is expected at a path. -/
theorem Published.expected (h : Published c t root entries inventory tree) {entry : FileEntry} :
    Py.dictGet (expectedFiles root inventory) path = some entry ↔
      entry ∈ inventory ∧ entry.path = root ++ path ∧ below root entry.path = true := by
  have hmem {f : FileEntry} : (path, f) ∈ expectedFiles root inventory ↔
      f ∈ inventory ∧ f.path = root ++ path ∧ below root f.path = true := by
    unfold expectedFiles
    rw [List.mem_map]
    constructor
    · rintro ⟨f', hf', heq⟩
      obtain ⟨hf', hbelow⟩ := List.mem_filter.mp hf'
      obtain ⟨rfl, rfl⟩ := Prod.mk.inj heq
      exact ⟨hf', (below_drop hbelow).symm, hbelow⟩
    · rintro ⟨hf, hpath, hbelow⟩
      exact ⟨f, List.mem_filter.mpr ⟨hf, hbelow⟩, by rw [hpath, List.drop_left]⟩
  constructor
  · exact fun hget => hmem.mp (Py.mem_of_dictGet hget)
  intro hentry
  cases hget : Py.dictGet (expectedFiles root inventory) path with
  | none => exact absurd (List.mem_map.mpr ⟨_, hmem.mpr hentry, rfl⟩) (dictGet_eq_none.mp hget)
  | some entry' =>
    obtain ⟨hmem', hpath', -⟩ := hmem.mp (Py.mem_of_dictGet hget)
    rw [h.path_inj hmem' hentry.1 (hpath'.trans hentry.2.1.symm)]

/-- The upload of an import, analysed any number of times, whatever was there to analyse. -/
structure Pinned (c : Codec) (root : Path) (inventory : List FileEntry) (u : Upload) : Prop where
  directory : u.rootDir = root
  source : u.analysis.gitSource = some root
  included : u.analysis.includedFiles = some inventory
  digest : u.analysis.fileListSha256 = some (digestJson c inventory)

/-- `analyze_upload`; a call that raises leaves the upload as it was. -/
def reanalyze (u : Upload) (tree : Tree) : Upload :=
  match analyzeUpload tree u with
  | .ok u' => u'
  | .error _ => u

theorem Pinned.reanalyze (h : Pinned c root inventory u) (tree : Tree) : Pinned c root inventory (reanalyze u tree) := by
  unfold Git.reanalyze
  split
  · rename_i u' hu'
    simp only [analyzeUpload, analyzeProject, h.source, bind_eq_ok, require_eq_ok, pure_eq_ok, exists_const, Option.isNone_some,
      Bool.false_eq_true, if_false] at hu'
    obtain ⟨analysis, ⟨-, rfl⟩, rfl⟩ := hu'
    exact ⟨h.directory, by simp [pinned, h.source], by simp [pinned, h.included], by simp [pinned, h.digest]⟩
  · exact h

theorem Pinned.analyzed (h : Pinned c root inventory u) (trees : List Tree) :
    Pinned c root inventory (trees.foldl Git.reanalyze u) := by
  induction trees generalizing u with
  | nil => exact h
  | cons tree trees ih => exact ih (h.reanalyze tree)

variable {late : Path → Bool}

/-- What verification of a pinned upload has compared. -/
theorem Published.verify_ok (h : Published c t root entries inventory tree) (hu : Pinned c root inventory u)
    (hok : verifyGitSnapshot c late u tree' = .ok ()) : (∀ path data, below root path = true → (path, Node.file data) ∈ tree' →
      ∃ f ∈ inventory, f.path = path ∧ c.sha256 data = f.sha256) ∧
    ∀ f ∈ inventory, below root f.path = true → ∃ data, (f.path, Node.file data) ∈ tree' := by
  simp only [verifyGitSnapshot, hu.source, hu.directory, hu.included, Option.getD_some, bind_eq_ok, require_eq_ok, exists_const,
    Bool.and_eq_true] at hok
  obtain ⟨-, s, hrows, -, hall⟩ := hok
  obtain ⟨hpasses, hactual⟩ := verifyRows_ok hrows
  rw [List.all_eq_true] at hall
  constructor
  · intro path data hbelow hfile
    have hrow : (path.drop root.length, Node.file data) ∈ rglob tree' root := by
      rw [mem_rglob, below_drop hbelow]
      exact ⟨hbelow, hfile⟩
    obtain ⟨entry, hentry, -, hdigest⟩ := hpasses _ hrow
    obtain ⟨hmem, hpath, -⟩ := h.expected.mp hentry
    exact ⟨entry, hmem, by rw [hpath, below_drop hbelow], hdigest⟩
  intro f hf hbelow
  have hkey : f.path.drop root.length ∈ (expectedFiles root inventory).map (·.1) :=
    List.mem_map.mpr ⟨_, List.mem_map.mpr ⟨f, List.mem_filter.mpr ⟨hf, hbelow⟩, rfl⟩, rfl⟩
  have := hall _ hkey
  rw [hactual] at this
  simp only [List.nil_append, List.contains_eq_mem, decide_eq_true_eq] at this
  obtain ⟨⟨path, data⟩, hfile, hpath⟩ := List.mem_map.mp this
  have hrow := (mem_rglob.mp (mem_filesOf.mp hfile)).2
  simp only at hpath
  rw [hpath, below_drop hbelow] at hrow
  exact ⟨data, hrow⟩

/-- What is on the disk is what was listed, where nothing was dropped. -/
theorem Published.file_iff (h : Published c t root entries inventory tree)
    (hkept : ∀ f ∈ inventory, below root f.path = true → ignored t f.path = false)
    (hbelow : below root path = true) :
    (∃ data, (path, Node.file data) ∈ tree) ↔ ∃ f ∈ inventory, f.path = path := by
  constructor
  · rintro ⟨data, hfile⟩
    obtain ⟨e, he, hdir, -, hpath, -⟩ := (h.files path data).mp hfile
    exact ⟨fileEntry c e, h.mem.mpr ⟨e, he, hdir, rfl⟩, hpath⟩
  · rintro ⟨f, hf, rfl⟩
    obtain ⟨e, he, hdir, rfl⟩ := h.mem.mp hf
    exact ⟨e.data, (h.files _ _).mpr ⟨e, he, hdir, hkept _ hf hbelow, rfl, rfl⟩⟩

theorem Published.file_entry (h : Published c t root entries inventory tree)
    (hfile : (path, Node.file data) ∈ tree) : (⟨path, data.length, c.sha256 data⟩ : FileEntry) ∈ inventory := by
  obtain ⟨e, he, hdir, -, rfl, rfl⟩ := (h.files path data).mp hfile
  exact h.mem.mpr ⟨e, he, hdir, rfl⟩

theorem nodup_rglob (tree : Tree) (root : Path) : ((rglob tree root).map (·.1)).Nodup := by
  unfold rglob
  rw [List.map_map]
  have hnodup : ((tree.rows.filter fun row => below root row.1).map Prod.fst).Nodup :=
    tree.nodup.sublist (List.Sublist.map _ List.filter_sublist)
  refine List.Nodup.of_map (fun rest => root ++ rest) ?_
  rw [List.map_map]
  convert hnodup using 1
  refine List.map_congr_left fun row hrow => ?_
  exact below_drop (List.mem_filter.mp hrow).2

theorem sum_le_of_sublist {xs ys : List Nat} (h : xs.Sublist ys) : xs.sum ≤ ys.sum := by
  induction h with
  | slnil => exact Nat.le_refl _
  | cons y _ ih =>
    rw [List.sum_cons]
    exact Nat.le_trans ih (Nat.le_add_left _ _)
  | cons_cons x _ ih =>
    rw [List.sum_cons, List.sum_cons]
    exact Nat.add_le_add_left ih x

/-- **Accepted as it was published.** -/
theorem Published.accepts (h : Published c t root entries inventory tree) (hu : Pinned c root inventory u)
    (hkept : ∀ f ∈ inventory, below root f.path = true → ignored t f.path = false) :
    verifyGitSnapshot c (fun _ => false) u tree = .ok () := by
  have hfiles : ∀ p ∈ filesOf (rglob tree root), (⟨root ++ p.1, p.2.length, c.sha256 p.2⟩ : FileEntry) ∈ inventory :=
    fun p hp => h.file_entry (mem_rglob.mp (mem_filesOf.mp hp)).2
  have hpaths : ((filesOf (rglob tree root)).map (·.1)).Nodup := by
    refine List.Nodup.sublist ?_ (nodup_rglob tree root)
    generalize rglob tree root = rows
    induction rows with
    | nil => exact List.Sublist.refl _
    | cons row rows ih =>
      obtain ⟨path, node⟩ := row
      cases node with
      | file data => exact ih.cons_cons _
      | directory | symlink | special => exact ih.cons _
  -- the files of the walk are some of those listed
  have hsub : ((filesOf (rglob tree root)).map fun p => (⟨root ++ p.1, p.2.length, c.sha256 p.2⟩ : FileEntry)).Subperm inventory := by
    refine List.subperm_of_subset ?_ fun f hf => ?_
    · refine List.Nodup.of_map (·.path.drop root.length) ?_
      rw [List.map_map]
      simpa [Function.comp_def] using hpaths
    · obtain ⟨p, hp, rfl⟩ := List.mem_map.mp hf
      exact hfiles p hp
  have hlength := hsub.length_le
  rw [List.length_map] at hlength
  have hsize : ((filesOf (rglob tree root)).map (·.2.length)).sum ≤ (inventory.map (·.size)).sum := by
    obtain ⟨l, hperm, hsublist⟩ := hsub
    have hsum := (hperm.map (·.size)).sum_nat
    rw [List.map_map] at hsum
    exact Nat.le_trans (Nat.le_of_eq hsum.symm) (sum_le_of_sublist (hsublist.map _))
  have hpasses : ∀ row ∈ rglob tree root, Passes c (expectedFiles root inventory) row := by
    rintro ⟨path, node⟩ hrow
    obtain ⟨hbelow, hmem⟩ := mem_rglob.mp hrow
    rcases h.plain _ hmem with hnode | ⟨data, hnode⟩
    · obtain rfl : node = .directory := hnode
      exact trivial
    · obtain rfl : node = .file data := hnode
      exact ⟨_, h.expected.mpr ⟨h.file_entry hmem, rfl, hbelow⟩, rfl, rfl⟩
  obtain ⟨total, hrows⟩ := verifyRows_accepts hpasses (s := {})
    (by simpa using Nat.le_trans hlength h.length) (by simpa using Nat.le_trans hsize h.size)
  simp only [verifyGitSnapshot, hu.source, hu.directory, hu.included, hu.digest, Option.getD_some, bind_eq_ok, require_eq_ok,
    exists_const]
  refine ⟨by simp [h.nonempty], _, hrows, ?_⟩
  rw [Bool.and_eq_true, List.all_eq_true, List.all_eq_true]
  simp only [List.nil_append, List.contains_eq_mem, decide_eq_true_eq]
  constructor
  · intro path hpath
    obtain ⟨⟨path, data⟩, hfile, rfl⟩ := List.mem_map.mp hpath
    obtain ⟨hbelow, hmem⟩ := mem_rglob.mp (mem_filesOf.mp hfile)
    refine List.mem_map.mpr ⟨_, Py.mem_of_dictGet (h.expected.mpr ⟨h.file_entry hmem, rfl, hbelow⟩), rfl⟩
  intro path hpath
  obtain ⟨⟨path, f⟩, hf, rfl⟩ := List.mem_map.mp hpath
  obtain ⟨f', hf', heq⟩ := List.mem_map.mp hf
  obtain ⟨hf', hbelow⟩ := List.mem_filter.mp hf'
  obtain ⟨rfl, rfl⟩ := Prod.mk.inj heq
  obtain ⟨data, hdata⟩ := (h.file_iff hkept hbelow).mpr ⟨f', hf', rfl⟩
  refine List.mem_map.mpr ⟨(f'.path.drop root.length, data), mem_filesOf.mpr (mem_rglob.mpr ?_), rfl⟩
  rw [below_drop hbelow]
  exact ⟨hbelow, hdata⟩

/-- A regular file below the root was added, removed, or changed. -/
def Edited (root : Path) (tree tree' : Tree) : Prop :=
  ¬ ∀ path data, below root path = true → ((path, Node.file data) ∈ tree' ↔ (path, Node.file data) ∈ tree)

/-- The contents of the files of a directory. -/
def contents (tree : Tree) : Set Bytes := {data | ∃ path, (path, Node.file data) ∈ tree}

/-- **Nothing is accepted after an edit.** -/
theorem Published.edited (h : Published c t root entries inventory tree) (hu : Pinned c root inventory u)
    (hkept : ∀ f ∈ inventory, below root f.path = true → ignored t f.path = false) (hedited : Edited root tree tree')
    (hinj : Set.InjOn c.sha256 (contents tree ∪ contents tree')) (late : Path → Bool) :
    verifyGitSnapshot c late u tree' ≠ .ok () := by
  intro hok
  obtain ⟨hlisted, hthere⟩ := h.verify_ok hu hok
  have hsame {path : Path} {data data' : Bytes} (hbelow : below root path = true) (hfile : (path, Node.file data) ∈ tree)
      (hfile' : (path, Node.file data') ∈ tree') : data' = data := by
    obtain ⟨f, hf, hpath, hdigest⟩ := hlisted path data' hbelow hfile'
    obtain rfl := h.path_inj hf (h.file_entry hfile) hpath
    exact hinj (.inr ⟨path, hfile'⟩) (.inl ⟨path, hfile⟩) hdigest
  refine hedited fun path data hbelow => ⟨fun hfile' => ?_, fun hfile => ?_⟩
  · obtain ⟨f, hf, hpath, -⟩ := hlisted path data hbelow hfile'
    obtain ⟨data₀, hfile⟩ := (h.file_iff hkept hbelow).mpr ⟨f, hf, hpath⟩
    exact hsame hbelow hfile hfile' ▸ hfile
  · obtain ⟨data', hfile'⟩ := hthere _ (h.file_entry hfile) hbelow
    exact hsame hbelow hfile hfile' ▸ hfile'

/-- Verification accepts what was published, after any analyses, and nothing that was edited. -/
def Buildable (c : Codec) (root : Path) (u : Upload) (tree : Tree) : Prop :=
  ∀ trees : List Tree, verifyGitSnapshot c (fun _ => false) (trees.foldl reanalyze u) tree = .ok () ∧
    ∀ tree' late, Edited root tree tree' → Set.InjOn c.sha256 (contents tree ∪ contents tree') →
      verifyGitSnapshot c late (trees.foldl reanalyze u) tree' = .error changed

variable {e : String}

theorem verifyFile_error {expected : List (Path × FileEntry)} {s : Seen}
    (h : verifyFile c expected s path data = .error e) : e = changed := by
  simp only [verifyFile, Lib.require, Lib.expect, bind, Except.bind, pure, Except.pure] at h
  grind

theorem verifyPath_error {expected : List (Path × FileEntry)} {s : Seen} {row : Path × Node}
    (h : verifyPath c late expected s row = .error e) : e = changed := by
  unfold verifyPath at h
  cases hlate : late row.1 with
  | true =>
    rw [hlate] at h
    cases h
    rfl
  | false =>
    rw [hlate] at h
    obtain ⟨path, node⟩ := row
    cases node with
    | file data => exact verifyFile_error h
    | directory => cases h
    | symlink | special => cases h; rfl

/-- It raises one error. -/
theorem verifyGitSnapshot_error (h : verifyGitSnapshot c late u tree = .error e) : e = changed := by
  unfold verifyGitSnapshot at h
  split at h
  · cases h
  rename_i root hsource
  have hbind {α : Type} {x : Except String α} {f : α → Except String Unit} (hx : ∀ e, x = .error e → e = changed)
      (hf : ∀ a e, f a = .error e → e = changed) (h : (x >>= f) = .error e) : e = changed := by
    cases x with
    | error e' =>
      cases h
      exact hx _ rfl
    | ok a => exact hf a e h
  have hrequire {condition : Bool} : ∀ e, Lib.require condition changed = .error e → e = changed := by
    intro e h
    unfold Lib.require at h
    split at h <;> cases h
    rfl
  refine hbind hrequire (fun _ e h => ?_) h
  have hloop (rows : List (Path × Node)) (expected : List (Path × FileEntry)) (s : Seen) :
      ∀ e, rows.foldlM (verifyPath c late expected) s = .error e → e = changed := by
    induction rows generalizing s with
    | nil => nofun
    | cons row rows ih =>
      intro e h
      rw [List.foldlM_cons] at h
      cases hrow : verifyPath c late expected s row with
      | error e' =>
        rw [hrow] at h
        cases h
        exact verifyPath_error hrow
      | ok s' =>
        rw [hrow] at h
        exact ih s' e h
  cases hrows : (rglob tree u.rootDir).foldlM (verifyPath c late (expectedFiles root (u.analysis.includedFiles.getD []))) {} with
  | error e' =>
    simp only [hrows] at h
    cases h
    exact hloop _ _ _ _ hrows
  | ok s =>
    simp only [hrows] at h
    exact hrequire e h

/-- **A published import can be built from if and only if no file below its root was dropped.** -/
theorem verify_published (c : Codec) (t : Text) (disk : Path → Bool) (zip : Zip) (root : Path) (values : List String) (u : Upload)
    (tree : Tree) (h : publish c t disk zip root values = .ok (u, tree)) :
    Buildable c root u tree ↔ ∀ f ∈ u.analysis.includedFiles.getD [], below root f.path = true → ignored t f.path = false := by
  obtain ⟨inventory, hpublished, hroot, hsource, hincluded, hdigest⟩ := publish_ok h
  have hpinned : Pinned c root inventory u := ⟨hroot, hsource, hincluded, hdigest⟩
  rw [hincluded, Option.getD_some]
  constructor
  · intro hbuildable f hf hbelow
    obtain ⟨-, hthere⟩ := hpublished.verify_ok hpinned (hbuildable []).1
    obtain ⟨data, hfile⟩ := hthere f hf hbelow
    obtain ⟨e, -, -, hignored, hpath, -⟩ := (hpublished.files _ _).mp hfile
    exact hpath ▸ hignored
  intro hkept trees
  have hpinned := hpinned.analyzed trees
  refine ⟨hpublished.accepts hpinned hkept, fun tree' late hedited hinj => ?_⟩
  cases hverify : verifyGitSnapshot c late (trees.foldl reanalyze u) tree' with
  | ok _ => exact absurd hverify (hpublished.edited hpinned hkept hedited hinj late)
  | error e => rw [verifyGitSnapshot_error hverify]

/-! ## The repository with a directory `dist` -/

namespace Repository

/-- The import of the exported snapshot. -/
def import? : Except String (Upload × Tree) := publish codec text (fun _ => true) snapshot.content [] []

/-- It ends in success, and is not let through. -/
def refused : Bool :=
  match import? with
  | .ok (u, tree) => decide (verifyGitSnapshot codec (fun _ => false) u tree = .error changed)
  | .error _ => false

theorem import_refused : refused = true := by decide +kernel

theorem import_ok : ∃ u tree, publish codec text (fun _ => true) snapshot.content [] [] = .ok (u, tree) ∧
    verifyGitSnapshot codec (fun _ => false) u tree = .error changed := by
  have h := import_refused
  unfold refused at h
  split at h
  · rename_i u tree himport
    exact ⟨u, tree, himport, of_decide_eq_true h⟩
  · cases h

end Repository

theorem verify_published_repository : ∃ u tree,
    publish Repository.codec Repository.text (fun _ => true) Repository.snapshot.content [] [] = .ok (u, tree) ∧
    (Buildable Repository.codec [] u tree ↔
      ∀ f ∈ u.analysis.includedFiles.getD [], below [] f.path = true → ignored Repository.text f.path = false) := by
  obtain ⟨u, tree, himport, -⟩ := Repository.import_ok
  exact ⟨u, tree, himport, verify_published Repository.codec Repository.text (fun _ => true) Repository.snapshot.content [] [] u tree
    himport⟩

/-- A commit that is exported and imported, and is refused though nothing was touched. -/
theorem exported_dist_refused : ∃ w u tree,
    acquireSnapshot Repository.codec Repository.text Repository.sha1 Repository.reader Repository.compressed Repository.request []
      { reader := [] } = .ok Repository.snapshot w ∧
    publish Repository.codec Repository.text (fun _ => true) Repository.snapshot.content [] [] = .ok (u, tree) ∧
    verifyGitSnapshot Repository.codec (fun _ => false) u tree = .error changed := by
  obtain ⟨w, hrun, -⟩ := Repository.exists_run
  obtain ⟨u, tree, himport, hverify⟩ := Repository.import_ok
  exact ⟨w, u, tree, hrun, himport, hverify⟩

end LingshuGate.Git

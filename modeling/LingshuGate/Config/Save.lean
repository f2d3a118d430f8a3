import LingshuGate.Config.Store
import Mathlib.Data.List.Find

/-!
# Saving and deleting a configuration, step by step (`mcp_config_store.py`)

| here | there |
| --- | --- |
| `Manifest.preserveMasked` | `_preserve_masked_env` (385), `restore_masked_mounts` (manifest_edit.py:8) |
| `saveConfig`              | `_save_config` (210) without a plan |
| `deleteConfig`            | `_delete_config` (277) |

What a save writes and where is `written`; `Fault` says which step of it fails. A failure before the file is replaced
leaves everything as it was. After that, the identity is recorded and the file is read back, and a failure there leaves
the new file: `.replaced`.

`contents` is what the files hold. Two stores with the same contents load the same manifests (`loadManifest_congr`).
-/

namespace LingshuGate.Config

open Lib

/-- `REDACTED_ENDPOINT` (endpoint_security.py). -/
def redactedEndpoint : String := "[REDACTED]"

/-- A masked value stands for the one that is saved. -/
def Manifest.preserveMasked (m existing : Manifest) : Manifest :=
  { m with
    values := m.values.map fun kv => (kv.1, kv.2.or (existing.values.lookup kv.1).join)
    endpoint := if m.endpoint = some redactedEndpoint ∧ existing.endpoint.isSome then existing.endpoint else m.endpoint }

/-- What reaches the file: where a configuration is saved, with its masked values restored; elsewhere with the defaults of
a new one (`with_new_manifest_defaults`). -/
structure Draft where
  manifest : Manifest
  fresh : Manifest
  same_id : fresh.id = manifest.id

/-- A manifest that has been saved before. -/
def Draft.ofSaved (m : Manifest) : Draft := ⟨m, m, rfl⟩

inductive Fault
  | none
  /-- The manifest is refused: its schema, its runtime flags, its HTTP trust, a masked mount. -/
  | refused
  /-- The file is not replaced. -/
  | write
  /-- The file is replaced, and a later step fails. -/
  | after
  deriving DecidableEq

inductive SaveResult
  /-- An exception that leaves the files as they were. -/
  | refused
  /-- An exception after the files have changed. -/
  | replaced (st : Store)
  | saved (st : Store)

def Fault.result : Fault → Store → SaveResult
  | .none, st => .saved st
  | .after, st => .replaced st
  | .refused, _ | .write, _ => .refused

/-- The file and the manifest a save writes. -/
def Store.written (st : Store) (draft : Draft) : String × Manifest :=
  match st.findPath draft.manifest.id with
  | some path => (path, match st.file path with
    | some ⟨_, .manifest existing⟩ => draft.manifest.preserveMasked existing
    -- what else a file can hold has no manifest to restore from
    | _ => draft.manifest)
  | none => (draft.manifest.id ++ ".yaml", draft.fresh)

def Store.saveConfig (st : Store) (draft : Draft) (expectedId : Option String) (overwrite : Bool) (fault : Fault) : SaveResult :=
  if expectedId.all (· = draft.manifest.id) ∧ ((st.findPath draft.manifest.id).isNone ∨ overwrite = true) then
    fault.result (st.write (st.written draft).1 (.manifest (st.written draft).2))
  else .refused

def Store.deleteConfig (st : Store) (serverId : String) (fault : Fault) : SaveResult :=
  match st.findPath serverId with
  | none => .refused
  | some path => match st.loadPath path with
    | .error _ => .refused
    | .ok _ => fault.result (st.unlink path)

/-! ## Reading what is there -/

variable {st st' : Store} {path other serverId : String} {content : Content} {f : String × File}

theorem Store.file_eq_some {file : File} : st.file path = some file ↔ (path, file) ∈ st.files := by
  unfold Store.file
  constructor
  · intro h
    obtain ⟨row, hrow, rfl⟩ := Option.map_eq_some_iff.mp h
    obtain ⟨hmem, rfl⟩ := Table.find_eq_some.mp hrow
    exact hmem
  · intro h
    rw [Table.find_eq_some.mpr ⟨h, rfl⟩]
    rfl

/-- The first file that says it is of the id. -/
def Store.byContent (st : Store) (serverId : String) : Option (String × File) :=
  st.iterFiles.find? fun f => f.2.content.rawId = some serverId

theorem Store.findPath_eq (st : Store) (serverId : String) : st.findPath serverId =
    ((st.byContent serverId).map Prod.fst).or ((namesOf serverId).find? fun path => (st.file path).isSome) := by
  unfold findPath byContent
  cases st.iterFiles.find? fun f => f.2.content.rawId = some serverId <;> rfl

theorem Store.byContent_eq_some : st.byContent serverId = some f ↔ f ∈ st.files ∧ f.2.content.rawId = some serverId ∧
    ∀ g ∈ st.files, g.2.content.rawId = some serverId → f.1 ≤ g.1 := by
  simp only [byContent, iterFiles, Table.find?_sorted, decide_eq_true_eq]

theorem Store.file_of_byContent (h : st.byContent serverId = some f) : st.file f.1 = some f.2 :=
  file_eq_some.mpr (byContent_eq_some.mp h).1

/-- A file is found by what it says, or by its name if no file says it is of the id. -/
theorem Store.findPath_some (h : st.findPath serverId = some path) : (∃ file, st.byContent serverId = some (path, file)) ∨
    st.byContent serverId = none ∧ path ∈ namesOf serverId ∧ (st.file path).isSome = true := by
  rcases Option.or_eq_some_iff.mp (findPath_eq st serverId ▸ h) with hfirst | ⟨hnone, hfirst⟩
  · obtain ⟨f, hf, rfl⟩ := Option.map_eq_some_iff.mp hfirst
    exact .inl ⟨f.2, hf⟩
  · exact .inr ⟨Option.map_eq_none_iff.mp hnone, List.mem_of_find?_eq_some hfirst, by simpa using List.find?_some hfirst⟩

theorem Store.file_of_findPath (h : st.findPath serverId = some path) : (st.file path).isSome = true := by
  rcases findPath_some h with ⟨file, hfirst⟩ | ⟨-, -, hfile⟩
  · rw [file_of_byContent hfirst]
    rfl
  · exact hfile

theorem Store.findPath_of_same (hfirst : (st'.byContent serverId).map Prod.fst = (st.byContent serverId).map Prod.fst)
    (hfile : ∀ path ∈ namesOf serverId, (st'.file path).isSome = (st.file path).isSome) :
    st'.findPath serverId = st.findPath serverId := by
  rw [findPath_eq, findPath_eq, hfirst, List.find?_congr hfile]

def Store.contents (st : Store) : List (String × Content) := st.files.rows.map fun f => (f.1, f.2.content)

def content? (contents : List (String × Content)) (path : String) : Option Content :=
  (contents.find? (·.1 = path)).map Prod.snd

theorem Store.file_content (st : Store) (path : String) : (st.file path).map File.content = content? st.contents path := by
  simp only [file, Table.find, content?, contents, List.find?_map, Option.map_map, Function.comp_def]

theorem Store.iterFiles_contents (st : Store) :
    st.iterFiles.map (fun f => (f.1, f.2.content)) = st.contents.insertionSort fun a b => a.1 ≤ b.1 := by
  unfold iterFiles Table.sorted contents
  refine List.map_insertionSort _ _ _ _ ?_
  intro a _ b _
  rfl

theorem Store.findPath_congr (h : st'.contents = st.contents) (serverId : String) : st'.findPath serverId = st.findPath serverId := by
  have hfirst : ∀ s : Store, (s.byContent serverId).map Prod.fst =
      ((s.contents.insertionSort fun a b => a.1 ≤ b.1).find? fun f => f.2.rawId = some serverId).map Prod.fst := by
    intro s
    rw [← s.iterFiles_contents, List.find?_map, Option.map_map]
    rfl
  refine findPath_of_same (by rw [hfirst st', hfirst st, h]) fun p _ => ?_
  rw [← Option.isSome_map (f := File.content), st'.file_content, h, ← st.file_content, Option.isSome_map]

theorem Store.loadPath_congr (h : st'.contents = st.contents) (path : String) : st'.loadPath path = st.loadPath path := by
  have hcontent : (st'.file path).map File.content = (st.file path).map File.content := by
    rw [st'.file_content, h, ← st.file_content]
  unfold loadPath
  rcases hfile' : st'.file path with _ | ⟨marker', content'⟩ <;> rcases hfile : st.file path with _ | ⟨marker, content⟩ <;>
    rw [hfile', hfile] at hcontent
  · cases hcontent
  · cases hcontent
  · obtain rfl : content' = content := Option.some.inj hcontent
    cases content' <;> rfl

/-- The manifest of a server is a matter of what the files hold. -/
theorem Store.loadManifest_congr (h : st'.contents = st.contents) (serverId : String) :
    st'.loadManifest serverId = st.loadManifest serverId := by
  simp only [loadManifest, findPath_congr h, loadPath_congr h]

/-! ## Writing and taking it back -/

/-- No file with the id of the server comes before the one that is found. -/
theorem Store.findPath_least (h : st.findPath serverId = some path) (hf : f ∈ st.files)
    (hid : f.2.content.rawId = some serverId) : path ≤ f.1 := by
  rcases findPath_some h with ⟨file, hfirst⟩ | ⟨hnone, -⟩
  · exact (byContent_eq_some.mp hfirst).2.2 f hf hid
  · have hnot := List.find?_eq_none.mp hnone f (Table.mem_sorted.mpr hf)
    exact absurd hid (by simpa using hnot)

theorem Store.findPath_none (h : st.findPath serverId = none) (hf : f ∈ st.files) :
    f.2.content.rawId ≠ some serverId ∧ f.1 ≠ serverId ++ ".yaml" := by
  obtain ⟨hfirst, hnames⟩ := Option.or_eq_none_iff.mp (findPath_eq st serverId ▸ h)
  have hnot := List.find?_eq_none.mp (Option.map_eq_none_iff.mp hfirst) f (Table.mem_sorted.mpr hf)
  refine ⟨by simpa using hnot, ?_⟩
  intro hname
  have hmissing := List.find?_eq_none.mp hnames (serverId ++ ".yaml") (List.mem_map.mpr ⟨".yaml", by simp, rfl⟩)
  simp [file_eq_some.mpr (hname ▸ hf : (serverId ++ ".yaml", f.2) ∈ st.files)] at hmissing

theorem Store.mem_write : f ∈ (st.write path content).files ↔ f = (path, ⟨st.nextMarker, content⟩) ∨ f ∈ st.files ∧ f.1 ≠ path := by
  constructor
  · intro h
    rcases Table.mem_upsert h with ⟨hf, hne⟩ | ⟨rfl, -⟩ | ⟨g, -, hg, rfl⟩
    · exact .inr ⟨hf, hne⟩
    · exact .inl rfl
    · exact .inl (Prod.ext hg rfl)
  rintro (rfl | ⟨hf, hne⟩)
  · by_cases hnew : ∀ g ∈ st.files, g.1 ≠ path
    · exact Table.mem_upsert_new hnew
    · obtain ⟨g, hg, hname⟩ : ∃ g ∈ st.files, g.1 = path := by simpa using hnew
      have hmem : (g.1, (⟨st.nextMarker, content⟩ : File)) ∈ (st.write path content).files :=
        Table.mem_upsert_key hg hname
      rwa [hname] at hmem
  · exact Table.mem_upsert_other hf hne

variable {m : Manifest}

/-- The first file with the id is the one that is found. -/
theorem Store.findPath_of_least {file : File} (hfile : st.file path = some file) (hid : file.content.rawId = some serverId)
    (hleast : ∀ f ∈ st.files, f.2.content.rawId = some serverId → path ≤ f.1) : st.findPath serverId = some path := by
  have hfirst : st.byContent serverId = some (path, file) := byContent_eq_some.mpr ⟨file_eq_some.mp hfile, hid, hleast⟩
  rw [findPath_eq, hfirst]
  rfl

theorem Store.file_write : (st.write path content).file path = some ⟨st.nextMarker, content⟩ :=
  file_eq_some.mpr (mem_write.mpr (.inl rfl))

theorem Store.file_write_of_ne (h : other ≠ path) : (st.write path content).file other = st.file other := by
  simp only [file, write, Table.find_upsert, if_neg h]

theorem Store.mem_unlink : f ∈ (st.unlink path).files ↔ f ∈ st.files ∧ f.1 ≠ path := by
  unfold unlink
  rw [Table.mem_delete]
  simp

theorem Store.file_unlink_self : (st.unlink path).file path = none := by
  simp [file, unlink, Table.find_delete]

theorem Store.file_unlink_of_ne (h : other ≠ path) : (st.unlink path).file other = st.file other := by
  simp only [file, unlink, Table.find_delete, if_neg h]

/-- A manifest written before every other file with its id is the one that is found. -/
theorem Store.findPath_write (hleast : ∀ f ∈ st.files, f.2.content.rawId = some m.id → path ≤ f.1) :
    (st.write path (.manifest m)).findPath m.id = some path := by
  refine findPath_of_least file_write rfl ?_
  intro f hf hid
  rcases mem_write.mp hf with rfl | ⟨hf, -⟩
  · exact le_refl _
  · exact hleast f hf hid

theorem Store.loadManifest_write (hleast : ∀ f ∈ st.files, f.2.content.rawId = some m.id → path ≤ f.1) :
    (st.write path (.manifest m)).loadManifest m.id = .ok m := by
  simp [loadManifest, findPath_write hleast, expect, loadPath, file_write, bind, Except.bind]

theorem Store.contents_write_of_mem (hf : f ∈ st.files) (hname : f.1 = path) :
    (st.write path content).contents = st.contents.map fun kc => if kc.1 = path then (kc.1, content) else kc := by
  have htaken : st.files.insert (path, ⟨st.nextMarker, content⟩) = none := by
    unfold Table.insert
    exact dif_pos (List.mem_map.mpr ⟨f, hf, hname⟩)
  simp only [contents, write, Table.upsert, htaken, Table.update, List.map_map]
  refine List.map_congr_left ?_
  intro g _
  by_cases hg : g.1 = path
  · simp [hg]
  · simp [hg]

theorem Store.contents_write_of_not_mem (hnew : ∀ f ∈ st.files, f.1 ≠ path) :
    (st.write path content).contents = st.contents ++ [(path, content)] := by
  obtain ⟨files, hinsert⟩ := Table.insert_isSome (a := (path, (⟨st.nextMarker, content⟩ : File))) hnew
  simp only [contents, write, Table.upsert, hinsert, (Table.insert_eq_some hinsert).1, List.map_append, List.map_singleton]

/-- Writing a file over and then writing back what it held changes nothing. -/
theorem Store.contents_write_back {file : File} (other : Content) (h : st.file path = some file) :
    ((st.write path other).write path file.content).contents = st.contents := by
  obtain ⟨f, hf, rfl⟩ : ∃ f, st.files.find path = some f ∧ f.2 = file := by simpa [Store.file] using h
  obtain ⟨hmem, hname⟩ := Table.find_eq_some.mp hf
  rw [contents_write_of_mem (f := (path, ⟨st.nextMarker, other⟩)) (mem_write.mpr (.inl rfl)) rfl,
    contents_write_of_mem hmem hname, List.map_map]
  conv_rhs => rw [← List.map_id st.contents]
  refine List.map_congr_left ?_
  rintro ⟨name, content⟩ hkc
  by_cases hk : name = path
  · obtain ⟨g, hg, hgc⟩ := List.mem_map.mp hkc
    obtain ⟨rfl, rfl⟩ := Prod.mk.inj hgc
    obtain rfl : g = f := Table.eq_of_key hg hmem (hk.trans hname.symm)
    simp [hk]
  · simp [hk]

/-- So does writing a file that was not there and removing it. -/
theorem Store.contents_write_unlink (hnew : ∀ f ∈ st.files, f.1 ≠ path) :
    ((st.write path content).unlink path).contents = st.contents := by
  have hfilter : ∀ s : Store, (s.unlink path).contents = s.contents.filter fun kc => kc.1 ≠ path := by
    intro s
    simp only [contents, unlink, Table.delete, List.filter_map]
    refine congrArg _ (List.filter_congr ?_)
    intro f _
    simp
  rw [hfilter, contents_write_of_not_mem hnew, List.filter_append]
  have hall : st.contents.filter (fun kc => decide (kc.1 ≠ path)) = st.contents := by
    refine List.filter_eq_self.mpr ?_
    intro kc hkc
    obtain ⟨f, hf, rfl⟩ := List.mem_map.mp hkc
    simpa using hnew f hf
  rw [hall]
  simp

/-! ## A save, and the next one -/

variable {draft : Draft} {expectedId : Option String} {overwrite : Bool} {fault : Fault}

theorem Store.written_id (st : Store) (draft : Draft) : (st.written draft).2.id = draft.manifest.id := by
  unfold written
  split
  · split <;> rfl
  · exact draft.same_id

/-- No file with the id of the server comes before the one that a save writes. -/
theorem Store.written_least (hf : f ∈ st.files) (hid : f.2.content.rawId = some draft.manifest.id) :
    (st.written draft).1 ≤ f.1 := by
  unfold written
  cases hpath : st.findPath draft.manifest.id with
  | none => exact absurd hid (findPath_none hpath hf).1
  | some path => exact findPath_least hpath hf hid

/-- The store after a save. -/
def Store.afterSave (st : Store) (draft : Draft) : Store := st.write (st.written draft).1 (.manifest (st.written draft).2)

theorem Store.findPath_afterSave : (st.afterSave draft).findPath draft.manifest.id = some (st.written draft).1 := by
  unfold afterSave
  rw [← st.written_id draft]
  refine findPath_write ?_
  intro f hf hid
  exact written_least hf (st.written_id draft ▸ hid)

theorem Store.loadManifest_afterSave (st : Store) (draft : Draft) :
    (st.afterSave draft).loadManifest draft.manifest.id = .ok (st.written draft).2 := by
  unfold afterSave
  rw [← st.written_id draft]
  refine loadManifest_write ?_
  intro f hf hid
  exact written_least hf (st.written_id draft ▸ hid)

theorem Store.loadManifest_ok (h : st.loadManifest serverId = .ok m) :
    ∃ path marker, st.findPath serverId = some path ∧ st.file path = some ⟨marker, .manifest m⟩ := by
  simp only [loadManifest, bind_eq_ok, expect_eq_ok] at h
  obtain ⟨path, hpath, hload⟩ := h
  unfold loadPath at hload
  split at hload
  · rename_i marker m' hfile
    obtain rfl : m' = m := by simpa using hload
    exact ⟨path, marker, hpath, hfile⟩
  · cases hload

theorem Store.loadManifest_notFound (h : st.loadManifest serverId = .error .notFound) : st.findPath serverId = none := by
  unfold loadManifest at h
  cases hpath : st.findPath serverId with
  | none => rfl
  | some path =>
    simp only [hpath, expect, bind, Except.bind, loadPath] at h
    split at h <;> simp at h

/-- A save that may overwrite what is there, under the id of its manifest, writes the file, up to its fault. -/
theorem Store.saveConfig_eq (hid : ∀ id, expectedId = some id → id = draft.manifest.id)
    (hfree : (st.findPath draft.manifest.id).isNone ∨ overwrite = true) :
    st.saveConfig draft expectedId overwrite fault = fault.result (st.afterSave draft) := by
  have hall : expectedId.all (· = draft.manifest.id) = true := by
    cases expectedId with
    | none => rfl
    | some id => simp [hid id rfl]
  exact if_pos ⟨hall, hfree⟩

theorem Store.saveConfig_refused (h : ¬ (expectedId.all (· = draft.manifest.id) = true ∧
    ((st.findPath draft.manifest.id).isNone ∨ overwrite = true))) :
    st.saveConfig draft expectedId overwrite fault = .refused :=
  if_neg h

/-- What a second save of the same server writes, after the first. -/
theorem Store.written_afterSave (hid : m.id = draft.manifest.id) :
    (st.afterSave draft).written (.ofSaved m) = ((st.written draft).1, m.preserveMasked (st.written draft).2) := by
  have hfile : (st.afterSave draft).file (st.written draft).1 = some ⟨st.nextMarker, .manifest (st.written draft).2⟩ := file_write
  simp only [written, Draft.ofSaved, hid, findPath_afterSave]
  rw [← written, hfile]

/-- Saving a manifest over the saved one and then saving the old one again changes nothing, if no value of the old one is
masked. -/
theorem Store.contents_save_back (h : st.loadManifest draft.manifest.id = .ok m) (hid : m.id = draft.manifest.id)
    (hmasked : m.preserveMasked (st.written draft).2 = m) :
    ((st.afterSave draft).afterSave (.ofSaved m)).contents = st.contents := by
  obtain ⟨path, marker, hpath, hfile⟩ := loadManifest_ok h
  have hwritten : (st.written draft).1 = path := by simp only [written, hpath]
  have hback := contents_write_back (.manifest (st.written draft).2) hfile
  rw [afterSave, written_afterSave hid, hmasked, afterSave, hwritten]
  exact hback

/-- Saving a new configuration and deleting it changes nothing. -/
theorem Store.contents_save_delete (h : st.findPath draft.manifest.id = none) :
    ((st.afterSave draft).unlink (st.written draft).1).contents = st.contents := by
  refine contents_write_unlink ?_
  intro f hf
  have hwritten : (st.written draft).1 = draft.manifest.id ++ ".yaml" := by simp only [written, h]
  rw [hwritten]
  exact (findPath_none h hf).2

theorem Store.deleteConfig_afterSave :
    (st.afterSave draft).deleteConfig draft.manifest.id fault = fault.result ((st.afterSave draft).unlink (st.written draft).1) := by
  have hload : (st.afterSave draft).loadPath (st.written draft).1 = .ok (st.written draft).2 := by
    simp [loadPath, afterSave, file_write]
  simp only [deleteConfig, findPath_afterSave, hload]

/-! ## What the other ids read -/

/-- A save leaves what is read under another id: its file is not the one that is read; or it is by what it says, and the other
files read alike; or it is by its name, and holds what is written already. -/
def Store.Spares (st : Store) (draft : Draft) (other : String) : Prop :=
  st.findPath other = some (st.written draft).1 →
    if (st.file (st.written draft).1).bind (·.content.rawId) = some other then
      (st.unlink (st.written draft).1).loadManifest other = st.loadManifest other
    else st.loadPath (st.written draft).1 = .ok (st.written draft).2

theorem namesOf_disjoint (hpath : path ∈ namesOf serverId) (hother : path ∈ namesOf other) : other = serverId := by
  obtain ⟨a, ha, rfl⟩ := List.mem_map.mp hpath
  obtain ⟨b, hb, heq⟩ := List.mem_map.mp hother
  have hlast := congrArg (fun s : String => s.toList.reverse) heq
  simp only [List.mem_cons, List.not_mem_nil, or_false] at ha hb
  rw [← String.toList_inj]
  rcases ha with rfl | rfl | rfl <;> rcases hb with rfl | rfl | rfl <;> simp at hlast <;> exact hlast

theorem Store.byContent_congr (h : ∀ f : String × File, f.2.content.rawId = some other → (f ∈ st'.files ↔ f ∈ st.files)) :
    st'.byContent other = st.byContent other := by
  ext f
  simp only [byContent_eq_some]
  grind

/-- Without a file that is not the first, the first is the same. -/
theorem Store.byContent_unlink (h : ∀ f, st.byContent other = some f → f.1 ≠ path) :
    (st.unlink path).byContent other = st.byContent other := by
  cases hfirst : st.byContent other with
  | none =>
    refine List.find?_eq_none.mpr ?_
    intro f hf
    exact List.find?_eq_none.mp hfirst f (Table.mem_sorted.mpr (mem_unlink.mp (Table.mem_sorted.mp hf)).1)
  | some f =>
    obtain ⟨hf, hid, hleast⟩ := byContent_eq_some.mp hfirst
    exact byContent_eq_some.mpr ⟨mem_unlink.mpr ⟨hf, h f hfirst⟩, hid, fun g hg => hleast g (mem_unlink.mp hg).1⟩

theorem Store.loadManifest_of_same (hfind : st'.findPath other = st.findPath other)
    (hfile : ∀ q, st.findPath other = some q → st'.file q = st.file q) : st'.loadManifest other = st.loadManifest other := by
  simp only [loadManifest, hfind]
  cases hpath : st.findPath other with
  | none => rfl
  | some q =>
    show st'.loadPath q = st.loadPath q
    rw [loadPath, hfile q hpath, ← loadPath]

/-- The file of a save has a name of another id only where it says that it is of the id of the save. -/
theorem Store.written_rawId (hname : (st.written draft).1 ∈ namesOf other) (hne : other ≠ draft.manifest.id) :
    ∃ file, st.file (st.written draft).1 = some file ∧ file.content.rawId = some draft.manifest.id := by
  unfold written at hname ⊢
  cases hpath : st.findPath draft.manifest.id with
  | none =>
    rw [hpath] at hname
    exact absurd (namesOf_disjoint (List.mem_map.mpr ⟨".yaml", by simp, rfl⟩) hname) hne
  | some q =>
    rw [hpath] at hname
    rcases findPath_some hpath with ⟨file, hfirst⟩ | ⟨-, hown, -⟩
    · exact ⟨file, file_of_byContent hfirst, (byContent_eq_some.mp hfirst).2.1⟩
    · exact absurd (namesOf_disjoint hown hname) hne

theorem Store.loadManifest_afterSave_other (hne : other ≠ draft.manifest.id) :
    (st.afterSave draft).loadManifest other = st.loadManifest other ↔ st.Spares draft other := by
  have hid := st.written_id draft
  unfold Spares afterSave
  generalize hp : (st.written draft).1 = p
  generalize hm : (st.written draft).2 = m at hid
  have hwrite : ∀ q ≠ p, (st.write p (.manifest m)).file q = st.file q := fun q => file_write_of_ne
  have hunlink : ∀ q ≠ p, (st.unlink p).file q = st.file q := fun q => file_unlink_of_ne
  have hfirst : (st.write p (.manifest m)).byContent other = (st.unlink p).byContent other := by
    refine byContent_congr ?_
    intro f hf
    rw [mem_write, mem_unlink]
    refine or_iff_right ?_
    rintro rfl
    exact hne ((Option.some.inj hf).symm.trans hid)
  by_cases hname : p ∈ namesOf other
  · -- the file says that it is of the id of the save, so that it is read by its name
    obtain ⟨file, hfile, hraw⟩ := written_rawId (hp ▸ hname) hne
    rw [hp] at hfile
    have hkept : (st.unlink p).byContent other = st.byContent other := by
      refine byContent_unlink ?_
      rintro f hf rfl
      obtain rfl : f.2 = file := Option.some.inj ((file_of_byContent hf).symm.trans hfile)
      exact hne (Option.some.inj ((byContent_eq_some.mp hf).2.1.symm.trans hraw))
    have hfind : (st.write p (.manifest m)).findPath other = st.findPath other := by
      refine findPath_of_same (by rw [hfirst, hkept]) fun q _ => ?_
      by_cases hq : q = p
      · simp [hq, file_write, hfile]
      · rw [hwrite q hq]
    by_cases hpath : st.findPath other = some p
    · have hload : (st.write p (.manifest m)).loadManifest other = .ok m := by
        simp [loadManifest, hfind, hpath, expect, bind, Except.bind, loadPath, file_write]
      have hbefore : st.loadManifest other = st.loadPath p := by simp [loadManifest, hpath, expect, bind, Except.bind]
      rw [hload, hbefore, hfile, Option.bind_some, hraw, if_neg fun heq => hne (Option.some.inj heq).symm]
      exact ⟨fun h _ => h.symm, fun h => (h hpath).symm⟩
    · exact iff_of_true (loadManifest_of_same hfind fun q hq => hwrite q fun heq => hpath (heq ▸ hq)) fun h => absurd h hpath
  -- the file can only be read by what it says: after the save the id reads what the other files hold
  have hnames : ∀ q ∈ namesOf other, q ≠ p := fun q hq heq => hname (heq ▸ hq)
  have hload : (st.write p (.manifest m)).loadManifest other = (st.unlink p).loadManifest other := by
    refine loadManifest_of_same (findPath_of_same (by rw [hfirst]) fun q hq => ?_) fun q hq => ?_
    · rw [hwrite q (hnames q hq), hunlink q (hnames q hq)]
    · have hqp : q ≠ p := by
        rintro rfl
        simpa [file_unlink_self] using file_of_findPath hq
      rw [hwrite q hqp, hunlink q hqp]
  rw [hload]
  by_cases hpath : st.findPath other = some p
  · have hraw : (st.file p).bind (·.content.rawId) = some other := by
      rcases findPath_some hpath with ⟨file, hfirst⟩ | ⟨-, hown, -⟩
      · rw [file_of_byContent hfirst]
        exact (byContent_eq_some.mp hfirst).2.1
      · exact absurd hown hname
    rw [if_pos hraw]
    exact ⟨fun h _ => h, fun h => h hpath⟩
  have hkept : (st.unlink p).byContent other = st.byContent other := by
    refine byContent_unlink fun f hf heq => hpath ?_
    rw [findPath_eq, hf, ← heq]
    rfl
  refine iff_of_true (loadManifest_of_same ?_ fun q hq => hunlink q fun heq => hpath (heq ▸ hq)) fun h => absurd h hpath
  exact findPath_of_same (by rw [hkept]) fun q hq => by rw [hunlink q (hnames q hq)]

/-- A save that finds its manifest there leaves what every id reads. -/
theorem Store.loadManifest_afterSave_same (h : st.loadManifest draft.manifest.id = .ok (st.written draft).2) (serverId : String) :
    (st.afterSave draft).loadManifest serverId = st.loadManifest serverId := by
  by_cases hid : serverId = draft.manifest.id
  · rw [hid, loadManifest_afterSave, h]
  refine (loadManifest_afterSave_other hid).mpr fun _ => ?_
  obtain ⟨path, marker, hpath, hfile⟩ := loadManifest_ok h
  have hwritten : (st.written draft).1 = path := by simp only [written, hpath]
  rw [hwritten, hfile, if_neg]
  · simp only [loadPath, hfile]
  · intro heq
    exact hid ((Option.some.inj heq).symm.trans (st.written_id draft))

end LingshuGate.Config

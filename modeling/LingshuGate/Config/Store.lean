import LingshuGate.Lib.Check
import LingshuGate.Lib.Table
import LingshuGate.Runtime.Server
import Mathlib.Data.String.Basic
import Mathlib.Logic.Function.Basic

/-!
# Saved configurations and the identity of a service (`mcp_config_store.py`, `mcp_authorization_policy.py`)

| here | there |
| --- | --- |
| `Manifest`, `Content`, `File`   | a file of `config_dir` and what reading it gives |
| `iterFiles`, `findPath`, `loadManifest` | `_iter_files`, `_find_path`, `load_manifest` (mcp_config_store.py:293, 300, 188) |
| `Identity`                      | `gate_mcp_authorization_identities` (mcp_authorization_identity_migration.py:11) |
| `serverBinding`                 | `server_binding` (mcp_authorization_policy.py:31) |
| `ensureServerIdentity`          | `ensure_server_identity` (23) |
| `recordConfigIdentity`          | `record_config_identity` (74) |

A binding is a `uuid4().hex`: a number that was not given out before. So is the marker of a file: it holds the time of
the last change of its inode, and whoever writes or moves the file changes that. A digest stands for what it is of.
Only files with a suffix that `_iter_files` reads are here.
-/

namespace LingshuGate.Config

open Lib
open LingshuGate.Runtime (LaunchType TransportType)

/-- What configuration management reads of `McpServerManifest`. -/
structure Manifest where
  id : String
  /-- What the runtime reads. -/
  runtime : Runtime.Manifest := { launch := .external, transport := .streamableHttp }
  endpoint : Option String := none
  /-- The credential references of `transport.headers`. -/
  headerRefs : List String := []
  /-- The values that are shown masked (environment, headers, mounts), by their place; `none` is the mask itself. -/
  values : List (String × Option String) := []
  deriving DecidableEq

def Manifest.launch (m : Manifest) : LaunchType := m.runtime.launch

def Manifest.transport (m : Manifest) : TransportType := m.runtime.transport

/-- What `_load_raw` and the validation make of a file: not an object, an object that is no manifest, a manifest. -/
inductive Content
  | unreadable
  | invalid (id : String)
  | manifest (m : Manifest)
  deriving DecidableEq

/-- `str(raw.get("id", ""))`. -/
def Content.rawId : Content → Option String
  | .unreadable => none
  | .invalid id => some id
  | .manifest m => some m.id

structure File where
  marker : Nat
  content : Content
  deriving DecidableEq

/-- The target of a manifest, which `target_digest` is of (mcp_config_store.py:92). -/
structure Target where
  launch : LaunchType
  transport : TransportType
  endpoint : Option String
  deriving DecidableEq

def Manifest.target (m : Manifest) : Target :=
  ⟨m.launch, m.transport, if m.transport = .streamableHttp then m.endpoint else none⟩

structure Identity where
  binding : Nat
  target : Option Target := none
  /-- `file_path` and `file_marker`. -/
  file : Option (String × Nat) := none
  deriving DecidableEq

structure Store where
  /-- The name of a file in `config_dir`, and the file. -/
  files : Table (String × File) Prod.fst := ∅
  identities : String → Option Identity := fun _ => none
  nextMarker : Nat := 0
  nextBinding : Nat := 0

/-! ## Files -/

def Store.file (st : Store) (path : String) : Option File := (st.files.find path).map Prod.snd

/-- A file is written, by Gate or by anybody else. -/
def Store.write (st : Store) (path : String) (content : Content) : Store :=
  { st with
    files := st.files.upsert (path, ⟨st.nextMarker, content⟩) (fun f => (f.1, ⟨st.nextMarker, content⟩)) fun _ => rfl
    nextMarker := st.nextMarker + 1 }

/-- `unlink`. -/
def Store.unlink (st : Store) (path : String) : Store := { st with files := st.files.delete (·.1 = path) }

def Store.iterFiles (st : Store) : List (String × File) := st.files.sorted

/-- The files that may have the name of an id. -/
def namesOf (serverId : String) : List String := [".yaml", ".yml", ".json"].map (serverId ++ ·)

def Store.findPath (st : Store) (serverId : String) : Option String :=
  match st.iterFiles.find? fun f => f.2.content.rawId = some serverId with
  | some f => some f.1
  | none => (namesOf serverId).find? fun path => (st.file path).isSome

inductive LoadError
  | notFound
  | unreadable
  deriving DecidableEq

/-- `_load_manifest`. -/
def Store.loadPath (st : Store) (path : String) : Except LoadError Manifest :=
  match st.file path with
  | some ⟨_, .manifest m⟩ => .ok m
  | _ => .error .unreadable

def Store.loadManifest (st : Store) (serverId : String) : Except LoadError Manifest := do
  let path ← expect (st.findPath serverId) .notFound
  st.loadPath path

/-! ## Identities -/

def Store.setIdentity (st : Store) (serverId : String) (identity : Option Identity) : Store :=
  { st with identities := Function.update st.identities serverId identity }

inductive ScopeError
  /-- `server_scope_unavailable` -/
  | unavailable
  /-- `server_scope_changed` -/
  | changed
  deriving DecidableEq

def Store.serverBinding (st : Store) (serverId : String) : Except ScopeError Nat := do
  let row ← expect (st.identities serverId) .unavailable
  match row.file with
  | none => pure row.binding
  | some (path, marker) =>
    let file ← expect (st.file path) .unavailable
    require (file.marker = marker) .changed
    pure row.binding

/-- `_current_binding` (mcp_http_trust.py:78). -/
def Store.currentBinding (st : Store) (serverId : String) : Option Nat := (st.serverBinding serverId).toOption

/-- Tool discovery only adds an identity. -/
def Store.ensureServerIdentity (st : Store) (serverId : String) : Store :=
  match st.identities serverId with
  | some _ => st
  | none => { st.setIdentity serverId (some { binding := st.nextBinding }) with nextBinding := st.nextBinding + 1 }

/-- The binding a save keeps: there is one, it is not to be replaced, and the target has not changed. -/
def Store.keptBinding (st : Store) (serverId : String) (target : Target) (replace : Bool) : Option Nat :=
  match st.identities serverId with
  | none => none
  | some row => if replace || row.target.any (· ≠ target) then none else some row.binding

/-- The binding of a saved configuration; `none` is a file that is gone. -/
def Store.recordConfigIdentity (st : Store) (serverId path : String) (target : Target) (replace : Bool) : Option (Store × Nat) := do
  let file ← st.file path
  let (binding, nextBinding) := match st.keptBinding serverId target replace with
    | some binding => (binding, st.nextBinding)
    | none => (st.nextBinding, st.nextBinding + 1)
  let identity : Identity := { binding, target := some target, file := some (path, file.marker) }
  return ({ st.setIdentity serverId (some identity) with nextBinding }, binding)

/-! ## Facts -/

variable {st st' : Store} {serverId : String} {binding : Nat}

theorem Store.currentBinding_eq_some : st.currentBinding serverId = some binding ↔ st.serverBinding serverId = .ok binding := by
  unfold currentBinding
  cases st.serverBinding serverId with
  | error e | ok b => simp [Except.toOption]

/-- A binding in force is the one of the row. -/
theorem Store.serverBinding_ok (h : st.serverBinding serverId = .ok binding) :
    ∃ row, st.identities serverId = some row ∧ row.binding = binding := by
  simp only [serverBinding, bind_eq_ok, expect_eq_ok] at h
  obtain ⟨row, hrow, h⟩ := h
  refine ⟨row, hrow, ?_⟩
  cases hfile : row.file with
  | none => simpa [hfile] using h
  | some f =>
    simp only [hfile, bind_eq_ok, pure_eq_ok] at h
    obtain ⟨_, -, _, -, h⟩ := h
    exact h

/-- Every binding was given out. -/
def Store.Issued (st : Store) : Prop := ∀ s row, st.identities s = some row → row.binding < st.nextBinding

theorem Store.Issued.current (h : st.Issued) (hb : st.currentBinding serverId = some binding) : binding < st.nextBinding := by
  obtain ⟨row, hrow, rfl⟩ := serverBinding_ok (currentBinding_eq_some.mp hb)
  exact h serverId row hrow

variable {target : Target} {replace : Bool}

theorem Store.recordConfigIdentity_ok {path : String}
    (h : st.recordConfigIdentity serverId path target replace = some (st', binding)) :
    ∃ file, st.file path = some file ∧ st'.identities = Function.update st.identities serverId
        (some { binding, target := some target, file := some (path, file.marker) }) ∧
      st'.files = st.files ∧
      (st.keptBinding serverId target replace = some binding ∧ st'.nextBinding = st.nextBinding ∨
        st.keptBinding serverId target replace = none ∧ binding = st.nextBinding ∧ st'.nextBinding = st.nextBinding + 1) := by
  simp only [recordConfigIdentity, Option.bind_eq_bind, Option.bind_eq_some_iff, Option.pure_def, Option.some.injEq,
    Prod.mk.injEq] at h
  obtain ⟨file, hfile, rfl, rfl⟩ := h
  refine ⟨file, hfile, rfl, rfl, ?_⟩
  cases hkept : st.keptBinding serverId target replace with
  | none => exact .inr ⟨rfl, rfl, rfl⟩
  | some b => exact .inl ⟨rfl, rfl⟩

theorem Store.keptBinding_some (h : st.keptBinding serverId target replace = some binding) :
    ∃ row, st.identities serverId = some row ∧ row.binding = binding := by
  unfold keptBinding at h
  split at h
  · cases h
  · rename_i row hrow
    split at h
    · cases h
    · exact ⟨row, hrow, by simpa using h⟩

/-- How a step may change the identities: nothing is given out twice, and a service that gets another binding than it
had gets a new one. -/
structure Store.Advances (st st' : Store) : Prop where
  next : st.nextBinding ≤ st'.nextBinding
  binding : ∀ s row, st'.identities s = some row → row.binding < st'.nextBinding ∧ st.nextBinding ≤ row.binding ∨
    ∃ row', st.identities s = some row' ∧ row'.binding = row.binding

theorem Store.Advances.refl (st : Store) : st.Advances st :=
  ⟨Nat.le_refl _, fun _ row h => .inr ⟨row, h, rfl⟩⟩

theorem Store.Advances.issued (h : st.Advances st') (hissued : st.Issued) : st'.Issued := by
  intro s row hrow
  rcases h.binding s row hrow with ⟨hlt, -⟩ | ⟨row', hrow', heq⟩
  · exact hlt
  · rw [← heq]
    exact Nat.lt_of_lt_of_le (hissued s row' hrow') h.next

/-- Only the row of one server is set. -/
theorem Store.Advances.set {identity : Option Identity} (hnext : st.nextBinding ≤ st'.nextBinding)
    (hset : st'.identities = Function.update st.identities serverId identity)
    (h : ∀ row, identity = some row → row.binding < st'.nextBinding ∧ st.nextBinding ≤ row.binding ∨
      ∃ row', st.identities serverId = some row' ∧ row'.binding = row.binding) : st.Advances st' := by
  refine ⟨hnext, ?_⟩
  intro s row hrow
  rw [hset] at hrow
  by_cases hs : s = serverId
  · subst hs
    rw [Function.update_self] at hrow
    exact h row hrow
  · rw [Function.update_of_ne hs] at hrow
    exact .inr ⟨row, hrow, rfl⟩

theorem Store.Advances.record {path : String}
    (h : st.recordConfigIdentity serverId path target replace = some (st', binding)) : st.Advances st' := by
  obtain ⟨file, -, hset, -, ⟨hkept, hnext⟩ | ⟨-, hbinding, hnext⟩⟩ := recordConfigIdentity_ok h
  · refine .set (by omega) hset ?_
    rintro row hrow
    obtain rfl := Option.some.inj hrow
    exact .inr (keptBinding_some hkept)
  · refine .set (by omega) hset ?_
    rintro row hrow
    obtain rfl := Option.some.inj hrow
    exact .inl ⟨by simp only; omega, by simp only; omega⟩

theorem Store.Advances.ensure (st : Store) (serverId : String) : st.Advances (st.ensureServerIdentity serverId) := by
  unfold ensureServerIdentity
  split
  · exact .refl st
  · refine .set (Nat.le_succ _) rfl ?_
    rintro row hrow
    obtain rfl := Option.some.inj hrow
    exact .inl ⟨Nat.lt_succ_self _, Nat.le_refl _⟩

theorem Store.Advances.drop (st : Store) (serverId : String) : st.Advances (st.setIdentity serverId none) :=
  .set (Nat.le_refl _) rfl (by simp)

theorem Store.Advances.write (st : Store) (path : String) (content : Content) : st.Advances (st.write path content) :=
  ⟨Nat.le_refl _, fun _ row h => .inr ⟨row, h, rfl⟩⟩

theorem Store.Advances.unlink (st : Store) (path : String) : st.Advances (st.unlink path) :=
  ⟨Nat.le_refl _, fun _ row h => .inr ⟨row, h, rfl⟩⟩

end LingshuGate.Config

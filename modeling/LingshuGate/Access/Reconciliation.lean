import Mathlib.Data.List.Dedup
import Mathlib.Data.String.Basic
import LingshuGate.Lib.Dict
import LingshuGate.Lib.Json
import LingshuGate.Access.Classification

/-!
# Reconciling a server's tools (`access_control.py`)

| here | there |
| --- | --- |
| `Row`                  | a row of `mcp_tool_classifications` (database.py:281); `evidence` is what `_loads` reads from `evidence_json` |
| `Catalogue`            | the table with its two constraints |
| `Scanned`              | a definition with `_server_id`, `_tool_fingerprint`, `_suggest_tool` of it and the `uuid4()` an insertion takes |
| `syncOne`, `syncTools` | the loop of `_synchronize_tools` (access_control.py:737-866) |
| `byTool`               | `{item["tool_id"]: item for item in list_classifications(server_id=…)}` (access_control.py:896, 1008) |
| `retireOne`, `reappearOne` | the `UPDATE`s of the two loops (access_control.py:904-968) |
| `report`               | the sets and counts of the answer (access_control.py:970-1006) |
| `reconcileServerTools` | `reconcile_server_tools` (access_control.py:876) |

`existing_rows` is refreshed after each write of the same transaction, so it is the current row. The identity rows that the
pass may add are of another table. No other writer runs between the transactions.
-/

namespace LingshuGate.Reconciliation

open Lib AccessControl
open Classifications (Origin)

/-! ## The table -/

abbrev Evidence := Dict String Json

/-- `isinstance(lifecycle, dict) and lifecycle.get("status") == "retired"`. -/
def retiredIn (evidence : Evidence) : Bool :=
  match (evidence.get "lifecycle").bind fun lifecycle => lifecycle.get? "status" with
  | some (.str status) => status = "retired"
  | _ => false

structure Row where
  id : String
  serverId : String
  toolId : String
  toolName : String
  fingerprint : String
  suggestedAccess : Access
  effectiveAccess : Access
  status : Status
  confidence : String
  source : Origin
  destructive : Bool
  idempotent : Bool
  openWorld : Bool
  evidence : Evidence
  reviewedBy : Option String := none
  reviewedAt : Option String := none
  createdAt : String
  updatedAt : String

/-- `UNIQUE(server_id, tool_id)`. -/
def Row.key (r : Row) : String × String := (r.serverId, r.toolId)

/-- The table, with its primary key. -/
structure Catalogue where
  table : Table Row Row.key
  ids : (table.rows.map Row.id).Nodup

namespace Catalogue

/-- `SELECT … WHERE server_id = ? AND tool_id = ?`. -/
def find (c : Catalogue) (key : String × String) : Option Row := c.table.find key

/-- `UPDATE … WHERE …`; the columns set include neither key. -/
def update (c : Catalogue) (cond : Row → Bool) (f : Row → Row) (hf : ∀ r, (f r).id = r.id ∧ (f r).key = r.key) : Catalogue where
  table := c.table.update cond f fun r => (hf r).2
  ids := by
    have hmap : (c.table.update cond f fun r => (hf r).2).rows.map Row.id = c.table.rows.map Row.id := by
      simp only [Table.update, List.map_map]
      refine List.map_congr_left ?_
      intro r _
      simp only [Function.comp]
      split
      · exact (hf r).1
      · rfl
    rw [hmap]
    exact c.ids

/-- `INSERT … ON CONFLICT(server_id, tool_id) DO NOTHING`; `none` is the `IntegrityError` of a taken id. -/
def insert (c : Catalogue) (r : Row) : Option Catalogue :=
  if hkey : (c.find r.key).isSome then some c
  else if hid : r.id ∈ c.table.rows.map Row.id then none
  else some
    { table := ⟨c.table.rows ++ [r], by
        rw [List.map_append, List.nodup_append]
        refine ⟨c.table.nodup, by simp, ?_⟩
        intro a ha b hb hab
        obtain ⟨r', hr', rfl⟩ := List.mem_map.mp ha
        simp only [List.map_singleton, List.mem_singleton] at hb
        subst hb
        exact hkey (by rw [find, Table.find_eq_some.mpr ⟨hr', hab⟩]; rfl)⟩
      ids := by
        rw [List.map_append, List.nodup_append]
        refine ⟨c.ids, by simp, ?_⟩
        intro a ha b hb hab
        simp only [List.map_singleton, List.mem_singleton] at hb
        subst hb
        exact hid (hab ▸ ha) }

end Catalogue

/-! ## Synchronization -/

/-- `_suggest_tool`: its answer, the evidence in its three parts. -/
structure Suggestion where
  access : Access
  confidence : String
  source : Origin
  destructive : Bool
  idempotent : Bool
  openWorld : Bool
  annotations : Json
  /-- `definition_snapshot`, the digest of each field -/
  snapshot : List (String × String)
  rule : Json

structure Scanned where
  definition : ToolDefinition
  fingerprint : String
  suggestion : Suggestion
  /-- `isinstance(definition.metadata.get("outputSchema"), dict)` -/
  outputSchemaRecorded : Bool
  newId : String

def Scanned.key (d : Scanned) : String × String := (serverIdOf d.definition, d.definition.id)

def snapshotJson (snapshot : List (String × String)) : Json := .obj (snapshot.map fun f => (f.1, .str f.2))

def Suggestion.evidence (s : Suggestion) : Evidence :=
  ((((∅ : Evidence).set "annotations" s.annotations).set "definition_snapshot" (snapshotJson s.snapshot)).set "rule" s.rule)

/-- `for evidence_key in ("invalidation", "lifecycle"): …`. -/
def carryOver (previous evidence : Evidence) : Evidence :=
  ["invalidation", "lifecycle"].foldl
    (fun evidence k => match previous.get k with
      | some value => evidence.set k value
      | none => evidence) evidence

/-- `value == digest` of a JSON value and a text. -/
def sameText (value : Option Json) (text : String) : Bool :=
  match value with
  | some (.str s) => s = text
  | _ => false

/-- `changed_fields`. -/
def changedFields (previous : Option Json) (snapshot : List (String × String)) : List String :=
  match previous with
  | some (.obj fields) =>
    ((snapshot.filter fun f => !sameText ((Json.obj fields).get? f.1) f.2).map Prod.fst).insertionSort (· ≤ ·)
  | _ => []

/-- `invalidation_evidence["invalidation"]`. -/
def invalidation (now : String) (existing : Row) (d : Scanned) : Json :=
  let previous := existing.evidence.get "definition_snapshot"
  let recorded := match previous with
    | some (.obj fields) => some (Json.obj fields)
    | _ => none
  .obj [("reason", .str "tool_definition_changed"), ("at", .str now),
    ("previous_fingerprint", .str existing.fingerprint), ("current_fingerprint", .str d.fingerprint),
    ("changed_fields", .arr ((changedFields previous d.suggestion.snapshot).map .str)),
    ("previous_definition_unrecorded", .bool recorded.isNone), ("output_schema_recorded", .bool d.outputSchemaRecorded),
    ("previous_definition_snapshot", recorded.getD .null), ("current_definition_snapshot", snapshotJson d.suggestion.snapshot)]

/-- The columns that a fresh suggestion fills. -/
def suggested (now : String) (d : Scanned) (evidence : Evidence) (r : Row) : Row :=
  { r with
    toolName := d.definition.name, suggestedAccess := d.suggestion.access, confidence := d.suggestion.confidence
    source := d.suggestion.source, destructive := d.suggestion.destructive, idempotent := d.suggestion.idempotent
    openWorld := d.suggestion.openWorld, evidence := evidence, updatedAt := now }

/-- The `UPDATE` of a changed definition. -/
def invalidate (now : String) (existing : Row) (d : Scanned) (r : Row) : Row :=
  { suggested now d (d.suggestion.evidence.set "invalidation" (invalidation now existing d)) r with
    fingerprint := d.fingerprint, effectiveAccess := .unknown, status := .stale }

/-- The `UPDATE` of an unpublished row of the same definition. -/
def resuggest (now : String) (existing : Row) (d : Scanned) (r : Row) : Row :=
  suggested now d (carryOver existing.evidence d.suggestion.evidence) r

def discovered (now : String) (d : Scanned) : Row where
  id := d.newId
  serverId := d.key.1
  toolId := d.key.2
  toolName := d.definition.name
  fingerprint := d.fingerprint
  suggestedAccess := d.suggestion.access
  effectiveAccess := .unknown
  status := .pending
  confidence := d.suggestion.confidence
  source := d.suggestion.source
  destructive := d.suggestion.destructive
  idempotent := d.suggestion.idempotent
  openWorld := d.suggestion.openWorld
  evidence := d.suggestion.evidence
  createdAt := now
  updatedAt := now

/-- `existing["fingerprint"] == fingerprint and (published or manual)`. -/
def kept (existing : Row) (d : Scanned) : Bool :=
  existing.fingerprint = d.fingerprint && (existing.status = .published || existing.source = .manual)

/-- One definition of the loop. -/
def syncOne (now : String) (c : Catalogue) (d : Scanned) : Option Catalogue :=
  match c.find d.key with
  | none => c.insert (discovered now d)
  | some existing =>
    if kept existing d then some c
    else if existing.fingerprint ≠ d.fingerprint then
      some (c.update (·.id = existing.id) (invalidate now existing d) fun _ => ⟨rfl, rfl⟩)
    else some (c.update (·.id = existing.id) (resuggest now existing d) fun _ => ⟨rfl, rfl⟩)

def syncTools (now : String) (c : Catalogue) (definitions : List Scanned) : Option Catalogue :=
  definitions.foldlM (syncOne now) c

/-! ## Reconciliation -/

/-- `list_classifications(server_id=…)`: an empty server id is no filter. -/
def listClassifications (c : Catalogue) (serverId : String) : List Row :=
  (c.table.rows.filter fun r => serverId = "" || r.serverId = serverId).insertionSort fun a b =>
    a.serverId < b.serverId ∨ a.serverId = b.serverId ∧ a.toolName ≤ b.toolName

def byTool (c : Catalogue) (serverId : String) : Dict String Row :=
  (listClassifications c serverId).foldl (fun d r => d.set r.toolId r) ∅

/-- `sorted(…)` of a set of ids. -/
def sortedIds (ids : List String) : List String := ids.insertionSort (· ≤ ·)

/-- `retired_ids`. -/
def retiredIds (before : Dict String Row) (currentIds : List String) : List String :=
  (sortedIds (before.keys.filter fun toolId => !currentIds.contains toolId)).filter fun toolId =>
    match before.get toolId with
    | some r => !retiredIn r.evidence
    | none => false

def lifecycle (status reason reviewer now : String) : Json :=
  .obj [("status", .str status), ("reason", .str reason), ("actor_id", .str reviewer), ("at", .str now)]

def retireOne (before : Dict String Row) (serverId reviewer now : String) (c : Catalogue) (toolId : String) : Catalogue :=
  match before.get toolId with
  | none => c
  | some previous =>
    let evidence := previous.evidence.set "lifecycle" (lifecycle "retired" "missing_from_latest_tools_list" reviewer now)
    c.update (fun r => r.key = (serverId, toolId))
      (fun r => { r with suggestedAccess := .unknown, effectiveAccess := .unknown, status := .stale, evidence := evidence
                         reviewedAt := none, updatedAt := now }) fun _ => ⟨rfl, rfl⟩

/-- `reappeared_ids`. -/
def reappearedIds (before : Dict String Row) (definitions : List Scanned) : List String :=
  (definitions.filter fun d => match before.get d.definition.id with
    | some r => retiredIn r.evidence
    | none => false).map (·.definition.id)

def reappearOne (serverId reviewer now : String) (c : Catalogue) (toolId : String) : Catalogue :=
  let previous := match c.find (serverId, toolId) with
    | some row => row.evidence
    | none => ∅
  let evidence := previous.set "lifecycle" (lifecycle "active" "reappeared_in_tools_list" reviewer now)
  c.update (fun r => r.key = (serverId, toolId))
    (fun r => { r with effectiveAccess := .unknown, status := .stale, evidence := evidence, reviewedAt := none
                       updatedAt := now }) fun _ => ⟨rfl, rfl⟩

inductive Failure
  /-- `ValueError`: the definitions of another server -/
  | mismatch (ids : List String)
  /-- `IntegrityError` of the insertion -/
  | integrity
  /-- `KeyError` -/
  | missing (toolId : String)
  /-- `RuntimeError("tool reconciliation unexpectedly expanded effective permissions")` -/
  | expanded
  deriving DecidableEq

structure Counts where
  discovered : Nat
  unchanged : Nat
  new : Nat
  changed : Nat
  reappeared : Nat
  retired : Nat
  needsReview : Nat
  deriving DecidableEq

structure Report where
  serverId : String
  counts : Counts
  newToolIds : List String
  changedToolIds : List String
  reappearedToolIds : List String
  retiredToolIds : List String
  needsReviewToolIds : List String
  effectivePermissionsExpanded : Bool := false
  deriving DecidableEq

/-- `d[k]`. -/
def at? (d : Dict String Row) (toolId : String) : Except Failure Row :=
  match d.get toolId with
  | some r => .ok r
  | none => .error (.missing toolId)

/-- `unchanged_ids`. -/
def unchangedIds (currentIds new changed reappeared : List String) : List String :=
  sortedIds (currentIds.filter fun toolId => !new.contains toolId && !changed.contains toolId && !reappeared.contains toolId)

/-- `ACCESS_RANK.get(str(before.get(tool_id, {}).get("effective_access", "unknown")), -1)`. -/
def rankBefore (before : Dict String Row) (toolId : String) : Int :=
  match before.get toolId with
  | some r => r.effectiveAccess.rank
  | none => Access.unknown.rank

def report (serverId : String) (before after : Dict String Row) (currentIds retired reappeared : List String) :
    Except Failure Report := do
  let new := sortedIds (currentIds.filter fun toolId => !before.has toolId)
  let changed ← (currentIds.filter before.has).filterM fun toolId => do
    let was ← at? before toolId
    let is ← at? after toolId
    return was.fingerprint ≠ is.fingerprint && !reappeared.contains toolId
  let changed := sortedIds changed
  let unchanged := unchangedIds currentIds new changed reappeared
  let expanded ← currentIds.anyM fun toolId => do
    let is ← at? after toolId
    return decide (is.effectiveAccess.rank > rankBefore before toolId)
  if expanded then throw .expanded
  let needsReview ← currentIds.filterM fun toolId => do
    let is ← at? after toolId
    return is.status ≠ .published
  return {
    serverId := serverId
    counts := {
      discovered := currentIds.length, unchanged := unchanged.length, new := new.length, changed := changed.length
      reappeared := reappeared.length, retired := retired.length, needsReview := needsReview.length }
    newToolIds := new
    changedToolIds := changed
    reappearedToolIds := sortedIds reappeared
    retiredToolIds := retired
    needsReviewToolIds := sortedIds needsReview }

/-- `reconcile_server_tools`: the table after the call, and its answer. -/
def reconcileServerTools (c : Catalogue) (serverId : String) (definitions : List Scanned) (reviewer syncedAt now : String) :
    Catalogue × Except Failure Report :=
  let mismatched := sortedIds ((definitions.filter fun d => d.key.1 ≠ serverId).map (·.definition.id))
  if mismatched ≠ [] then (c, .error (.mismatch mismatched))
  else
    let before := byTool c serverId
    match syncTools syncedAt c definitions with
    | none => (c, .error .integrity)
    | some synced =>
      let currentIds := (definitions.map (·.definition.id)).dedup
      let retired := retiredIds before currentIds
      let reappeared := reappearedIds before definitions
      let retiring := retired.foldl (retireOne before serverId reviewer now) synced
      let final := reappeared.foldl (reappearOne serverId reviewer now) retiring
      (final, report serverId before (byTool final serverId) currentIds retired reappeared)

/-! ## What is found after a statement -/

variable {c c' : Catalogue} {r existing : Row} {k key : String × String}

theorem find_eq_some : c.find k = some r ↔ r ∈ c.table ∧ r.key = k := Table.find_eq_some

/-- An update by id is seen at the key of that row and nowhere else. -/
theorem find_update_id {f : Row → Row} {hf : ∀ r, (f r).id = r.id ∧ (f r).key = r.key} (h : c.find key = some existing) :
    (c.update (·.id = existing.id) f hf).find k = if k = key then some (f existing) else c.find k := by
  obtain ⟨hmem, rfl⟩ := find_eq_some.mp h
  show (c.table.update _ f fun r => (hf r).2).find k = _
  rw [Table.find_update]
  cases hfind : c.table.find k with
  | none =>
    have hne : k ≠ existing.key := by
      rintro rfl
      rw [show c.table.find existing.key = some existing from h] at hfind
      cases hfind
    rw [if_neg hne]
    exact hfind.symm
  | some r =>
    obtain ⟨hr, rfl⟩ := Table.find_eq_some.mp hfind
    by_cases hid : r.id = existing.id
    · obtain rfl : r = existing := List.inj_on_of_nodup_map c.ids hr hmem hid
      simp
    · have hne : r.key ≠ existing.key := fun hkey => hid (congrArg Row.id (Table.eq_of_key hr hmem hkey))
      rw [if_neg hne, Option.map_some, if_neg (by simpa using hid)]
      exact hfind.symm

theorem find_update_key {f : Row → Row} {hf : ∀ r, (f r).id = r.id ∧ (f r).key = r.key} :
    (c.update (fun r => r.key = key) f hf).find k = if k = key then (c.find k).map f else c.find k :=
  @Table.find_update_key _ _ _ f (fun r => (hf r).2) _ c.table key k

theorem find_insert (hnone : c.find r.key = none) (h : c.insert r = some c') :
    c'.find k = if k = r.key then some r else c.find k := by
  unfold Catalogue.insert at h
  rw [dif_neg (by simp [hnone])] at h
  split at h
  · cases h
  injection h with h
  subst h
  apply Option.ext
  intro r'
  by_cases hk : k = r.key
  · rw [if_pos hk, find_eq_some, Option.some.injEq]
    constructor
    · rintro ⟨hmem, hkey⟩
      rcases List.mem_append.mp hmem with hmem | hmem
      · have hfound := find_eq_some.mpr ⟨hmem, hkey.trans hk⟩
        rw [hnone] at hfound
        cases hfound
      · exact (List.mem_singleton.mp hmem).symm
    · rintro rfl
      exact ⟨List.mem_append_right _ (List.mem_singleton_self _), hk.symm⟩
  rw [if_neg hk, find_eq_some, find_eq_some]
  constructor
  · rintro ⟨hmem, hkey⟩
    rcases List.mem_append.mp hmem with hmem | hmem
    · exact ⟨hmem, hkey⟩
    · rw [List.mem_singleton.mp hmem] at hkey
      exact absurd hkey.symm hk
  · rintro ⟨hmem, hkey⟩
    exact ⟨List.mem_append_left _ hmem, hkey⟩

/-! ## What synchronization makes of a row -/

/-- The row of a definition after its turn, from the row it found. -/
def synced (now : String) (d : Scanned) : Option Row → Row
  | none => discovered now d
  | some existing =>
    if kept existing d then existing
    else if existing.fingerprint ≠ d.fingerprint then invalidate now existing d existing
    else resuggest now existing d existing

variable {now : String} {d : Scanned} {definitions : List Scanned}

theorem find_syncOne (h : syncOne now c d = some c') :
    c'.find k = if k = d.key then some (synced now d (c.find d.key)) else c.find k := by
  unfold syncOne at h
  cases hfind : c.find d.key with
  | none =>
    rw [hfind] at h
    have hkey : (discovered now d).key = d.key := rfl
    rw [find_insert (by rw [hkey, hfind]) h, hkey]
    rfl
  | some existing =>
    rw [hfind] at h
    simp only [synced]
    by_cases hkept : kept existing d = true
    · simp only [if_pos hkept, Option.some.injEq] at h ⊢
      subst h
      by_cases hk : k = d.key
      · rw [if_pos hk, hk, hfind]
      · rw [if_neg hk]
    by_cases hfp : existing.fingerprint ≠ d.fingerprint
    · simp only [if_neg hkept, if_pos hfp, Option.some.injEq] at h ⊢
      subst h
      exact find_update_id hfind
    · simp only [if_neg hkept, if_neg hfp, Option.some.injEq] at h ⊢
      subst h
      exact find_update_id hfind

/-- A pass over definitions with different keys gives each its turn on the row that was there before the pass. -/
theorem find_syncTools (hkeys : (definitions.map Scanned.key).Nodup) (h : syncTools now c definitions = some c') :
    (∀ d ∈ definitions, c'.find d.key = some (synced now d (c.find d.key))) ∧
      ∀ k, k ∉ definitions.map Scanned.key → c'.find k = c.find k := by
  induction definitions generalizing c with
  | nil =>
    injection h with h
    subst h
    exact ⟨by simp, fun _ _ => rfl⟩
  | cons d definitions ih =>
    rw [List.map_cons, List.nodup_cons] at hkeys
    obtain ⟨c₁, hone, h⟩ := Option.bind_eq_some_iff.mp h
    obtain ⟨hin, hout⟩ := ih hkeys.2 h
    constructor
    · intro d' hd'
      rcases List.mem_cons.mp hd' with rfl | hd'
      · rw [hout _ hkeys.1, find_syncOne hone, if_pos rfl]
      · have hne : d'.key ≠ d.key := by
          intro heq
          exact hkeys.1 (heq ▸ List.mem_map_of_mem hd')
        rw [hin d' hd', find_syncOne hone, if_neg hne]
    · intro k hk
      rw [List.map_cons, List.mem_cons, not_or] at hk
      rw [hout k hk.2, find_syncOne hone, if_neg hk.1]

/-- The pass fails only on an id that is taken. -/
theorem syncOne_isSome (hfresh : ∀ r ∈ c.table, r.id ≠ d.newId) : (syncOne now c d).isSome = true := by
  unfold syncOne
  cases hfind : c.find d.key with
  | some existing =>
    simp only
    split
    · rfl
    split
    · rfl
    · rfl
  | none =>
    have hkey : (discovered now d).key = d.key := rfl
    have hid : (discovered now d).id ∉ c.table.rows.map Row.id := by
      intro hmem
      obtain ⟨r, hr, hrid⟩ := List.mem_map.mp hmem
      exact hfresh r hr hrid
    simp only [Catalogue.insert]
    rw [dif_neg (by rw [hkey, hfind]; simp), dif_neg hid]
    rfl

theorem synced_id : (synced now d (c.find d.key)).id = d.newId ∨ ∃ r ∈ c.table, (synced now d (c.find d.key)).id = r.id := by
  cases hfind : c.find d.key with
  | none => exact .inl rfl
  | some existing =>
    refine .inr ⟨existing, (find_eq_some.mp hfind).1, ?_⟩
    simp only [synced]
    split
    · rfl
    split
    · rfl
    · rfl

/-- Fresh and different ids let the whole pass through. -/
theorem syncTools_isSome (hfresh : ∀ d ∈ definitions, ∀ r ∈ c.table, r.id ≠ d.newId)
    (hids : (definitions.map Scanned.newId).Nodup) : (syncTools now c definitions).isSome = true := by
  induction definitions generalizing c with
  | nil => rfl
  | cons d definitions ih =>
    rw [List.map_cons, List.nodup_cons] at hids
    have hsome : (syncOne now c d).isSome = true := syncOne_isSome (hfresh d List.mem_cons_self)
    obtain ⟨c₁, hone⟩ := Option.isSome_iff_exists.mp hsome
    have hrest : (syncTools now c₁ definitions).isSome = true := by
      refine ih ?_ hids.2
      intro d' hd' r hr hid
      have hfind := find_eq_some.mpr ⟨hr, rfl⟩
      rw [find_syncOne hone] at hfind
      split at hfind
      · obtain rfl := Option.some.inj hfind
        rcases synced_id with heq | ⟨r', hr', heq⟩
        · exact hids.1 (List.mem_map.mpr ⟨d', hd', hid.symm.trans heq⟩)
        · exact hfresh d' (List.mem_cons_of_mem _ hd') r' hr' (heq.symm.trans hid)
      · exact hfresh d' (List.mem_cons_of_mem _ hd') r (find_eq_some.mp hfind).1 hid
    simp only [syncTools, List.foldlM_cons, hone]
    exact hrest

/-! ## The two loops -/

/-- What a loop makes of a row: the access is withdrawn, and the lifecycle says whether it is retired. -/
structure Withdrawn (retired : Bool) (r r' : Row) : Prop where
  id : r'.id = r.id
  fingerprint : r'.fingerprint = r.fingerprint
  access : r'.effectiveAccess = .unknown
  status : r'.status = .stale
  lifecycle : retiredIn r'.evidence = retired

/-- A loop over tool ids that withdraws the row of each. -/
theorem find_withdraw {retired : Bool} {serverId : String} {one : Catalogue → String → Catalogue} {ids : List String}
    (hother : ∀ c, ∀ t ∈ ids, ∀ k, k ≠ (serverId, t) → (one c t).find k = c.find k)
    (hone : ∀ c, ∀ t ∈ ids, ∀ r, c.find (serverId, t) = some r → ∃ r', (one c t).find (serverId, t) = some r' ∧
      Withdrawn retired r r') (hnone : ∀ c, ∀ t ∈ ids, c.find (serverId, t) = none → (one c t).find (serverId, t) = none)
    (c : Catalogue) :
    (∀ k, k ∉ ids.map (serverId, ·) → (ids.foldl one c).find k = c.find k) ∧
      (∀ t ∈ ids, ∀ r, c.find (serverId, t) = some r → ∃ r', (ids.foldl one c).find (serverId, t) = some r' ∧
        Withdrawn retired r r') ∧ ∀ k, c.find k = none → (ids.foldl one c).find k = none := by
  induction ids generalizing c with
  | nil => exact ⟨fun _ _ => rfl, by simp, fun _ h => h⟩
  | cons t ids ih =>
    obtain ⟨hout, hin, habsent⟩ := ih (fun c t' ht' => hother c t' (List.mem_cons_of_mem _ ht'))
      (fun c t' ht' => hone c t' (List.mem_cons_of_mem _ ht')) (fun c t' ht' => hnone c t' (List.mem_cons_of_mem _ ht')) (one c t)
    refine ⟨?_, ?_, ?_⟩
    · intro k hk
      rw [List.map_cons, List.mem_cons, not_or] at hk
      rw [List.foldl_cons, hout k hk.2, hother c t List.mem_cons_self k hk.1]
    · intro t' ht' r hr
      rw [List.foldl_cons]
      by_cases heq : t' = t
      · subst heq
        obtain ⟨r₁, hr₁, hw⟩ := hone c t' List.mem_cons_self r hr
        by_cases hmem : t' ∈ ids
        · -- the id comes again: the row is withdrawn once more
          obtain ⟨r₂, hr₂, hw'⟩ := hin t' hmem r₁ hr₁
          exact ⟨r₂, hr₂, hw'.id.trans hw.id, hw'.fingerprint.trans hw.fingerprint, hw'.access, hw'.status, hw'.lifecycle⟩
        · refine ⟨r₁, ?_, hw⟩
          rw [hout (serverId, t') (by simpa using hmem), hr₁]
      · have hmem : t' ∈ ids := by simpa [heq] using ht'
        have hsame : (one c t).find (serverId, t') = c.find (serverId, t') := by
          refine hother c t List.mem_cons_self _ ?_
          simpa using heq
        exact hin t' hmem r (hsame.trans hr)
    intro k hk
    refine habsent k ?_
    by_cases heq : k = (serverId, t)
    · subst heq
      exact hnone c t List.mem_cons_self hk
    · rw [hother c t List.mem_cons_self k heq, hk]

theorem retiredIn_set (evidence : Evidence) (status reason reviewer now : String) :
    retiredIn (evidence.set "lifecycle" (lifecycle status reason reviewer now)) = decide (status = "retired") := by
  unfold retiredIn
  rw [Dict.get_set, if_pos rfl]
  simp [lifecycle, Json.get?]

variable {before after : Dict String Row} {serverId toolId reviewer : String}

theorem find_retireOne {previous : Row} (hbefore : before.get toolId = some previous) :
    (∀ k, k ≠ (serverId, toolId) → (retireOne before serverId reviewer now c toolId).find k = c.find k) ∧
      (∀ r, c.find (serverId, toolId) = some r → ∃ r', (retireOne before serverId reviewer now c toolId).find (serverId, toolId) =
        some r' ∧ Withdrawn true r r') ∧
      (c.find (serverId, toolId) = none → (retireOne before serverId reviewer now c toolId).find (serverId, toolId) = none) := by
  unfold retireOne
  simp only [hbefore]
  refine ⟨?_, ?_, ?_⟩
  · intro k hk
    rw [find_update_key, if_neg hk]
  · intro r hr
    rw [find_update_key, if_pos rfl, hr]
    exact ⟨_, rfl, rfl, rfl, rfl, rfl, retiredIn_set _ _ _ _ _⟩
  · intro hnone
    rw [find_update_key, if_pos rfl, hnone]
    rfl

theorem find_reappearOne : (∀ k, k ≠ (serverId, toolId) → (reappearOne serverId reviewer now c toolId).find k = c.find k) ∧
    (∀ r, c.find (serverId, toolId) = some r → ∃ r', (reappearOne serverId reviewer now c toolId).find (serverId, toolId) =
      some r' ∧ Withdrawn false r r') ∧
    (c.find (serverId, toolId) = none → (reappearOne serverId reviewer now c toolId).find (serverId, toolId) = none) := by
  unfold reappearOne
  refine ⟨?_, ?_, ?_⟩
  · intro k hk
    rw [find_update_key, if_neg hk]
  · intro r hr
    rw [find_update_key, if_pos rfl, hr]
    exact ⟨_, rfl, rfl, rfl, rfl, rfl, retiredIn_set _ _ _ _ _⟩
  · intro hnone
    rw [find_update_key, if_pos rfl, hnone]
    rfl

/-! ## The listings -/

theorem get_foldl_rows (rows : List Row) (toolId : String) :
    (rows.foldl (fun (d : Dict String Row) r => d.set r.toolId r) ∅).get toolId = rows.reverse.find? fun r => r.toolId = toolId := by
  induction rows using List.reverseRecOn with
  | nil => rfl
  | append_singleton rows r ih =>
    rw [List.foldl_append, List.foldl_cons, List.foldl_nil, Dict.get_set, List.reverse_append, List.reverse_singleton,
      List.singleton_append, List.find?_cons, ih]
    by_cases h : r.toolId = toolId
    · simp [h]
    · simp [h, Ne.symm h]

/-- Of a server with a name, the listing holds the server's rows by tool. -/
theorem byTool_get (hserver : serverId ≠ "") : (byTool c serverId).get toolId = c.find (serverId, toolId) := by
  have hmem : ∀ r, r ∈ (listClassifications c serverId).reverse ↔ r ∈ c.table ∧ r.serverId = serverId := by
    intro r
    rw [List.mem_reverse, listClassifications, List.mem_insertionSort, List.mem_filter]
    simp [hserver, Table.mem_def]
  rw [byTool, get_foldl_rows]
  apply Option.ext
  intro r
  rw [find_eq_some]
  constructor
  · intro hfind
    obtain ⟨hr, hserverId⟩ := (hmem r).mp (List.mem_of_find?_eq_some hfind)
    have htool : r.toolId = toolId := by simpa using List.find?_some hfind
    exact ⟨hr, by rw [Row.key, hserverId, htool]⟩
  rintro ⟨hr, hkey⟩
  obtain ⟨hserverId, htool⟩ := Prod.mk.inj hkey
  have hsome : ((listClassifications c serverId).reverse.find? fun r => r.toolId = toolId).isSome :=
    List.find?_isSome.mpr ⟨r, (hmem r).mpr ⟨hr, hserverId⟩, by simpa using htool⟩
  obtain ⟨r', hfind⟩ := Option.isSome_iff_exists.mp hsome
  obtain ⟨hr', hserverId'⟩ := (hmem r').mp (List.mem_of_find?_eq_some hfind)
  have htool' : r'.toolId = toolId := by simpa using List.find?_some hfind
  obtain rfl := Table.eq_of_key hr' hr (by rw [hkey, Row.key, hserverId', htool'])
  exact hfind

theorem mem_retiredIds {currentIds : List String} : toolId ∈ retiredIds before currentIds ↔
    toolId ∉ currentIds ∧ ∃ r, before.get toolId = some r ∧ retiredIn r.evidence = false := by
  simp only [retiredIds, sortedIds, List.mem_filter, List.mem_insertionSort, Dict.mem_keys, Bool.not_eq_true', List.contains_eq_mem,
    decide_eq_false_iff_not]
  cases before.get toolId with
  | none | some r => simp

theorem mem_reappearedIds : toolId ∈ reappearedIds before definitions ↔
    (∃ d ∈ definitions, d.definition.id = toolId) ∧ ∃ r, before.get toolId = some r ∧ retiredIn r.evidence = true := by
  simp only [reappearedIds, List.mem_map, List.mem_filter]
  constructor
  · rintro ⟨d, ⟨hd, hretired⟩, rfl⟩
    refine ⟨⟨d, hd, rfl⟩, ?_⟩
    cases hget : before.get d.definition.id with
    | none => simp [hget] at hretired
    | some r => exact ⟨r, rfl, by simpa [hget] using hretired⟩
  · rintro ⟨⟨d, hd, rfl⟩, r, hget, hretired⟩
    exact ⟨d, ⟨hd, by simpa [hget] using hretired⟩, rfl⟩

/-! ## The answer -/

theorem filterM_ok {α ε : Type} {f : α → Except ε Bool} {p : α → Bool} {l : List α} (h : ∀ a ∈ l, f a = .ok (p a)) :
    l.filterM f = .ok (l.filter p) := by
  have haux : ∀ (l acc : List α), (∀ a ∈ l, f a = .ok (p a)) → List.filterAuxM f l acc = .ok ((l.filter p).reverse ++ acc) := by
    intro l
    induction l with
    | nil =>
      intro acc _
      rfl
    | cons a l ih =>
      intro acc h
      have hrest := ih (if p a then a :: acc else acc) fun b hb => h b (List.mem_cons_of_mem _ hb)
      have hcons : List.filterAuxM f (a :: l) acc = List.filterAuxM f l (cond (p a) (a :: acc) acc) := by
        rw [List.filterAuxM, h a List.mem_cons_self]
        rfl
      rw [hcons]
      cases hp : p a with
      | true | false => simpa [hp] using hrest
  unfold List.filterM
  rw [haux l [] h]
  simp [bind, Except.bind, pure, Except.pure]

theorem anyM_ok {α ε : Type} {f : α → Except ε Bool} {p : α → Bool} {l : List α} (h : ∀ a ∈ l, f a = .ok (p a)) :
    l.anyM f = .ok (l.any p) := by
  induction l with
  | nil => rfl
  | cons a l ih =>
    rw [List.anyM, h a List.mem_cons_self, List.any_cons]
    cases hp : p a with
    | true => rfl
    | false =>
      rw [Bool.false_or, ← ih fun b hb => h b (List.mem_cons_of_mem _ hb)]
      rfl

/-- `before[tool_id]["fingerprint"] != after[tool_id]["fingerprint"]`. -/
def fingerprintChanged (before after : Dict String Row) (toolId : String) : Bool :=
  (before.get toolId).map (·.fingerprint) ≠ (after.get toolId).map (·.fingerprint)

/-- The answer, when no rank is above the one before. -/
theorem report_ok {currentIds retired reappeared : List String}
    (hafter : ∀ t ∈ currentIds, ∃ r, after.get t = some r ∧ r.effectiveAccess.rank ≤ rankBefore before t) :
    ∃ answer, report serverId before after currentIds retired reappeared = .ok answer ∧
      answer.newToolIds = sortedIds (currentIds.filter fun t => !before.has t) ∧
      answer.changedToolIds = sortedIds ((currentIds.filter before.has).filter fun t =>
        fingerprintChanged before after t && !reappeared.contains t) ∧
      answer.reappearedToolIds = sortedIds reappeared ∧ answer.counts.discovered = currentIds.length ∧
      answer.counts.unchanged = (unchangedIds currentIds answer.newToolIds answer.changedToolIds reappeared).length := by
  have hchanged : (currentIds.filter before.has).filterM (fun toolId => do
      let was ← at? before toolId
      let is ← at? after toolId
      return was.fingerprint ≠ is.fingerprint && !reappeared.contains toolId) =
      .ok ((currentIds.filter before.has).filter fun t => fingerprintChanged before after t && !reappeared.contains t) := by
    refine filterM_ok ?_
    intro t ht
    obtain ⟨hcurrent, hbefore⟩ := List.mem_filter.mp ht
    obtain ⟨was, hwas⟩ := Option.isSome_iff_exists.mp hbefore
    obtain ⟨is, his, -⟩ := hafter t hcurrent
    simp [at?, hwas, his, fingerprintChanged, bind, Except.bind, pure, Except.pure]
  have hexpanded : currentIds.anyM (fun toolId => do
      let is ← at? after toolId
      return decide (is.effectiveAccess.rank > rankBefore before toolId)) = (.ok false : Except Failure Bool) := by
    rw [anyM_ok (p := fun _ => false)]
    · simp
    · intro t ht
      obtain ⟨is, his, hrank⟩ := hafter t ht
      simp [at?, his, bind, Except.bind, pure, Except.pure, hrank]
  have hneeds : currentIds.filterM (fun toolId => do
      let is ← at? after toolId
      return is.status ≠ .published) = (.ok (currentIds.filter fun t => (after.get t).map (·.status) ≠ some .published) :
        Except Failure (List String)) := by
    refine filterM_ok ?_
    intro t ht
    obtain ⟨is, his, -⟩ := hafter t ht
    simp [at?, his, bind, Except.bind, pure, Except.pure]
  unfold report
  simp only [hchanged, hexpanded, hneeds]
  exact ⟨_, rfl, rfl, rfl, rfl, rfl, rfl⟩

theorem mem_sortedIds {ids : List String} : toolId ∈ sortedIds ids ↔ toolId ∈ ids := List.mem_insertionSort _

theorem nodup_sortedIds {ids : List String} (h : ids.Nodup) : (sortedIds ids).Nodup :=
  (List.perm_insertionSort _ ids).nodup_iff.mpr h

/-- The four sets share no id and are the discovered ones. -/
theorem sets_partition {currentIds reappeared : List String} (hcurrent : currentIds.Nodup) (hnodup : reappeared.Nodup)
    (hreappeared : ∀ t ∈ reappeared, t ∈ currentIds ∧ before.has t = true) :
    let new := sortedIds (currentIds.filter fun t => !before.has t)
    let changed := sortedIds ((currentIds.filter before.has).filter fun t =>
      fingerprintChanged before after t && !reappeared.contains t)
    let unchanged := unchangedIds currentIds new changed reappeared
    (new ++ changed ++ sortedIds reappeared ++ unchanged).Nodup ∧
      ∀ t, t ∈ new ++ changed ++ sortedIds reappeared ++ unchanged ↔ t ∈ currentIds := by
  intro new changed unchanged
  have hnew : ∀ t, t ∈ new ↔ t ∈ currentIds ∧ before.has t = false := by simp [new, mem_sortedIds]
  have hchanged : ∀ t, t ∈ changed ↔ (t ∈ currentIds ∧ before.has t = true) ∧ fingerprintChanged before after t = true ∧
      t ∉ reappeared := by
    intro t
    simp only [changed, mem_sortedIds, List.mem_filter, Bool.and_eq_true, Bool.not_eq_true', List.contains_eq_mem,
      decide_eq_false_iff_not]
  have hunchanged : ∀ t, t ∈ unchanged ↔ t ∈ currentIds ∧ (t ∉ new ∧ t ∉ changed) ∧ t ∉ reappeared := by
    simp [unchanged, unchangedIds, mem_sortedIds]
  constructor
  · simp only [List.nodup_append]
    refine ⟨⟨⟨nodup_sortedIds (hcurrent.filter _), nodup_sortedIds ((hcurrent.filter _).filter _), ?_⟩, nodup_sortedIds hnodup, ?_⟩,
      nodup_sortedIds (hcurrent.filter _), ?_⟩
    · rintro t ht _ ht' rfl
      have hhas := ((hchanged t).mp ht').1.2
      rw [((hnew t).mp ht).2] at hhas
      cases hhas
    · rintro t ht _ ht' rfl
      rw [mem_sortedIds] at ht'
      rcases List.mem_append.mp ht with ht | ht
      · have hhas := (hreappeared t ht').2
        rw [((hnew t).mp ht).2] at hhas
        cases hhas
      · exact ((hchanged t).mp ht).2.2 ht'
    rintro t ht _ ht' rfl
    obtain ⟨-, ⟨hnot, hnot'⟩, hnot''⟩ := (hunchanged t).mp ht'
    rcases List.mem_append.mp ht with ht | ht
    · rcases List.mem_append.mp ht with ht | ht
      · exact hnot ht
      · exact hnot' ht
    · exact hnot'' (mem_sortedIds.mp ht)
  intro t
  simp only [List.mem_append, mem_sortedIds, hunchanged]
  constructor
  · rintro (((ht | ht) | ht) | ht)
    · exact ((hnew t).mp ht).1
    · exact ((hchanged t).mp ht).1.1
    · exact (hreappeared t ht).1
    · exact ht.1
  intro ht
  by_cases hn : t ∈ new
  · exact .inl (.inl (.inl hn))
  by_cases hc : t ∈ changed
  · exact .inl (.inl (.inr hc))
  by_cases hr : t ∈ reappeared
  · exact .inl (.inr hr)
  exact .inr ⟨ht, ⟨hn, hc⟩, hr⟩

/-! ## The whole call -/

theorem serverIdOf_ne_empty (d : ToolDefinition) : serverIdOf d ≠ "" := by
  unfold serverIdOf
  have hsource : (if d.source = "" then "builtin" else d.source) ≠ "" := by
    split
    · decide
    · assumption
  split
  · split
    · exact hsource
    · assumption
  · exact hsource

theorem unknown_le (a : Access) : Access.unknown.rank ≤ a.rank := by
  cases a <;> decide

theorem synced_existing (existing : Row) : (synced now d (some existing)).id = existing.id ∧
    (synced now d (some existing)).effectiveAccess.rank ≤ existing.effectiveAccess.rank := by
  simp only [synced]
  split
  · exact ⟨rfl, le_refl _⟩
  split
  · exact ⟨rfl, unknown_le _⟩
  · exact ⟨rfl, le_refl _⟩

/-- A published row of the same definition is left as it is. -/
theorem synced_published (hfp : existing.fingerprint = d.fingerprint) (hstatus : existing.status = .published) :
    synced now d (some existing) = existing := by
  simp only [synced]
  rw [if_pos (by simp [kept, hfp, hstatus])]

/-- The table after a call that does not fail, row by row. -/
structure Reconciled (c : Catalogue) (serverId : String) (definitions : List Scanned) (syncedAt : String) (after : Catalogue) :
    Prop where
  other : ∀ k : String × String, k.1 ≠ serverId → after.find k = c.find k
  /-- a tool of the definitions, by whether it was retired -/
  active : ∀ d ∈ definitions, (∀ r, c.find d.key = some r → retiredIn r.evidence = false) →
    after.find d.key = some (synced syncedAt d (c.find d.key))
  reappears : ∀ d ∈ definitions, ∀ r, c.find d.key = some r → retiredIn r.evidence = true →
    ∃ r', after.find d.key = some r' ∧ Withdrawn false (synced syncedAt d (some r)) r'
  /-- a tool that is missing -/
  absent : ∀ k, c.find k = none → k ∉ definitions.map Scanned.key → after.find k = none
  missing : ∀ k r, c.find k = some r → k ∉ definitions.map Scanned.key →
    after.find k = some r ∨ ∃ r', after.find k = some r' ∧ Withdrawn true r r'
  retires : serverId ≠ "" → ∀ toolId r, c.find (serverId, toolId) = some r → (serverId, toolId) ∉ definitions.map Scanned.key →
    retiredIn r.evidence = false → ∃ r', after.find (serverId, toolId) = some r' ∧ Withdrawn true r r'

theorem reconciled {syncedAt : String} {c₁ : Catalogue} (hids : (definitions.map (·.definition.id)).Nodup)
    (hserver : ∀ d ∈ definitions, d.key.1 = serverId) (hsync : syncTools syncedAt c definitions = some c₁) :
    Reconciled c serverId definitions syncedAt
      ((reappearedIds (byTool c serverId) definitions).foldl (reappearOne serverId reviewer now)
        ((retiredIds (byTool c serverId) (definitions.map (·.definition.id)).dedup).foldl
          (retireOne (byTool c serverId) serverId reviewer now) c₁)) := by
  have hkey : ∀ d ∈ definitions, d.key = (serverId, d.definition.id) := fun d hd => by rw [← hserver d hd]; rfl
  have hnamed : ∀ d ∈ definitions, serverId ≠ "" := fun d hd => hserver d hd ▸ serverIdOf_ne_empty d.definition
  have hmemKeys : ∀ t, (serverId, t) ∈ definitions.map Scanned.key ↔ ∃ d ∈ definitions, d.definition.id = t := by
    intro t
    simp only [List.mem_map]
    constructor
    · rintro ⟨d, hd, heq⟩
      rw [hkey d hd] at heq
      exact ⟨d, hd, (Prod.mk.inj heq).2⟩
    · rintro ⟨d, hd, rfl⟩
      exact ⟨d, hd, hkey d hd⟩
  have hkeys : (definitions.map Scanned.key).Nodup := by
    have hcongr : definitions.map Scanned.key = (definitions.map (·.definition.id)).map (serverId, ·) := by
      rw [List.map_map]
      exact List.map_congr_left hkey
    rw [hcongr]
    exact hids.map fun a b h => (Prod.mk.inj h).2
  obtain ⟨hturn, hleft⟩ := find_syncTools hkeys hsync
  have hfirst : ∀ t, t ∈ retiredIds (byTool c serverId) (definitions.map (·.definition.id)).dedup →
      ∃ previous, (byTool c serverId).get t = some previous := by
    intro t ht
    obtain ⟨-, previous, hget, -⟩ := mem_retiredIds.mp ht
    exact ⟨previous, hget⟩
  obtain ⟨hout, hin, hnone⟩ := @find_withdraw true serverId (retireOne (byTool c serverId) serverId reviewer now)
    (retiredIds (byTool c serverId) (definitions.map (·.definition.id)).dedup)
    (fun c₂ t ht => (find_retireOne (hfirst t ht).choose_spec).1)
    (fun c₂ t ht => (find_retireOne (hfirst t ht).choose_spec).2.1)
    (fun c₂ t ht => (find_retireOne (hfirst t ht).choose_spec).2.2) c₁
  generalize hretiring : (retiredIds (byTool c serverId) (definitions.map (·.definition.id)).dedup).foldl
    (retireOne (byTool c serverId) serverId reviewer now) c₁ = c₂ at hout hin hnone ⊢
  obtain ⟨hout', hin', hnone'⟩ := @find_withdraw false serverId (reappearOne serverId reviewer now)
    (reappearedIds (byTool c serverId) definitions) (fun c₃ t _ => find_reappearOne.1) (fun c₃ t _ => find_reappearOne.2.1)
    (fun c₃ t _ => find_reappearOne.2.2) c₂
  -- a tool of the definitions is not retired, so its row after the first loop is the synchronized one
  have hpresent : ∀ d ∈ definitions, c₂.find d.key = some (synced syncedAt d (c.find d.key)) := by
    intro d hd
    rw [hout d.key ?_, hturn d hd]
    rw [hkey d hd, List.mem_map]
    rintro ⟨t, ht, heq⟩
    obtain ⟨hnot, -⟩ := mem_retiredIds.mp ht
    refine hnot (List.mem_dedup.mpr ?_)
    rw [(Prod.mk.inj heq).2]
    exact List.mem_map_of_mem hd
  -- a missing tool does not reappear
  have hgone : ∀ k, k ∉ definitions.map Scanned.key → k ∉ (reappearedIds (byTool c serverId) definitions).map (serverId, ·) := by
    rintro k hk hmem
    obtain ⟨t, ht, rfl⟩ := List.mem_map.mp hmem
    exact hk ((hmemKeys t).mpr (mem_reappearedIds.mp ht).1)
  constructor
  · intro k hk
    have hnotin : ∀ ids : List String, k ∉ ids.map (serverId, ·) := by
      intro ids hmem
      obtain ⟨t, -, rfl⟩ := List.mem_map.mp hmem
      exact hk rfl
    rw [hout' k (hnotin _), hout k (hnotin _), hleft k]
    intro hmem
    obtain ⟨d, hd, rfl⟩ := List.mem_map.mp hmem
    exact hk (hserver d hd)
  · intro d hd hactive
    rw [hout' d.key ?_, hpresent d hd]
    rw [hkey d hd, List.mem_map]
    rintro ⟨t, ht, heq⟩
    obtain ⟨-, r, hget, hretired⟩ := mem_reappearedIds.mp ht
    rw [byTool_get (hnamed d hd), (Prod.mk.inj heq).2, ← hkey d hd] at hget
    rw [hactive r hget] at hretired
    cases hretired
  · intro d hd r hr hretired
    have hmem : d.definition.id ∈ reappearedIds (byTool c serverId) definitions := by
      refine mem_reappearedIds.mpr ⟨⟨d, hd, rfl⟩, r, ?_, hretired⟩
      rw [byTool_get (hnamed d hd), ← hkey d hd, hr]
    have hrow := hpresent d hd
    rw [hr, hkey d hd] at hrow
    rw [hkey d hd]
    exact hin' _ hmem _ hrow
  · intro k hk hmissing
    rw [hout' k (hgone k hmissing)]
    refine hnone k ?_
    rw [hleft k hmissing, hk]
  · intro k r hr hmissing
    rw [hout' k (hgone k hmissing)]
    by_cases hmem : k ∈ (retiredIds (byTool c serverId) (definitions.map (·.definition.id)).dedup).map (serverId, ·)
    · obtain ⟨t, ht, rfl⟩ := List.mem_map.mp hmem
      exact .inr (hin t ht r ((hleft _ hmissing).trans hr))
    · refine .inl ?_
      rw [hout k hmem, hleft k hmissing, hr]
  intro hname toolId r hr hmissing hactive
  rw [hout' _ (hgone _ hmissing)]
  refine hin toolId (mem_retiredIds.mpr ⟨?_, r, ?_, hactive⟩) r ((hleft _ hmissing).trans hr)
  · intro hmem
    obtain ⟨d, hd, rfl⟩ := List.mem_map.mp (List.mem_dedup.mp hmem)
    exact hmissing ((hmemKeys _).mpr ⟨d, hd, rfl⟩)
  · rw [byTool_get hname, hr]

variable {syncedAt : String}

/-- The row of a listed tool, from the row it had. -/
theorem Reconciled.listed (h : Reconciled c serverId definitions syncedAt c') (hd : d ∈ definitions) (hr : c.find d.key = some r) :
    (retiredIn r.evidence = false ∧ c'.find d.key = some (synced syncedAt d (some r))) ∨
      ∃ r', c'.find d.key = some r' ∧ Withdrawn false (synced syncedAt d (some r)) r' := by
  cases hretired : retiredIn r.evidence with
  | true => exact .inr (h.reappears d hd r hr hretired)
  | false =>
    refine .inl ⟨rfl, ?_⟩
    rw [h.active d hd ?_, hr]
    intro r₁ hr₁
    rw [hr] at hr₁
    exact Option.some.inj hr₁ ▸ hretired

theorem Reconciled.ranks (h : Reconciled c serverId definitions syncedAt c') (hr : c.find k = some r) :
    ∃ r', c'.find k = some r' ∧ r'.id = r.id ∧ r'.effectiveAccess.rank ≤ r.effectiveAccess.rank := by
  by_cases hmem : k ∈ definitions.map Scanned.key
  · obtain ⟨d, hd, rfl⟩ := List.mem_map.mp hmem
    obtain ⟨hid, hrank⟩ := @synced_existing syncedAt d r
    rcases h.listed hd hr with ⟨-, hfind⟩ | ⟨r', hfind, hw⟩
    · exact ⟨_, hfind, hid, hrank⟩
    · refine ⟨r', hfind, hw.id.trans hid, ?_⟩
      rw [hw.access]
      exact unknown_le _
  · rcases h.missing k r hr hmem with hfind | ⟨r', hfind, hw⟩
    · exact ⟨r, hfind, rfl, le_refl _⟩
    · refine ⟨r', hfind, hw.id, ?_⟩
      rw [hw.access]
      exact unknown_le _

theorem Reconciled.new (h : Reconciled c serverId definitions syncedAt c') (hnone : c.find k = none) (hr : c'.find k = some r) :
    r.effectiveAccess = .unknown := by
  by_cases hmem : k ∈ definitions.map Scanned.key
  · obtain ⟨d, hd, rfl⟩ := List.mem_map.mp hmem
    have hfind := h.active d hd (by simp [hnone])
    rw [hr, hnone] at hfind
    obtain rfl := Option.some.inj hfind
    rfl
  · rw [h.absent k hnone hmem] at hr
    cases hr

/-- Every listed tool has a row after the call, whose access is not above the one before. -/
theorem Reconciled.covered (h : Reconciled c serverId definitions syncedAt c') (hserver : ∀ d ∈ definitions, d.key.1 = serverId)
    (hd : d ∈ definitions) : ∃ r, (byTool c' serverId).get d.definition.id = some r ∧
      r.effectiveAccess.rank ≤ rankBefore (byTool c serverId) d.definition.id := by
  have hname : serverId ≠ "" := hserver d hd ▸ serverIdOf_ne_empty d.definition
  have hkey : d.key = (serverId, d.definition.id) := by
    rw [← hserver d hd]
    rfl
  simp only [rankBefore, byTool_get hname, ← hkey]
  cases hfind : c.find d.key with
  | some r =>
    obtain ⟨r', hr', -, hrank⟩ := h.ranks hfind
    exact ⟨r', hr', hrank⟩
  | none =>
    have hrow := h.active d hd (by simp [hfind])
    exact ⟨_, hrow, by rw [h.new hfind hrow]⟩

/-- **Reconciliation only tightens.** Of any table, server id and definitions of that server with different ids: no row's access
is raised, a new row's access is `unknown`, the rows of other servers stay as they are, and the guard against expanded
permissions never fires; the call fails only on a taken row id, and then nothing has changed. When it answers, the rows of
missing tools that were not retired are, under a server id that is not empty, stale, `unknown` and retired; the rows of retired
tools that are listed again are stale and `unknown`; a published tool with the same definition keeps its row as it is; and the
new, changed, reappeared and unchanged ids are different and make up the discovered ones. -/
theorem reconciliation_tightens (c : Catalogue) (serverId : String) (definitions : List Scanned) (reviewer syncedAt now : String)
    (hids : (definitions.map (·.definition.id)).Nodup) (hserver : ∀ d ∈ definitions, d.key.1 = serverId) :
    let after := (reconcileServerTools c serverId definitions reviewer syncedAt now).1
    let answer := (reconcileServerTools c serverId definitions reviewer syncedAt now).2
    (∀ k r, c.find k = some r → ∃ r', after.find k = some r' ∧ r'.id = r.id ∧ r'.effectiveAccess.rank ≤ r.effectiveAccess.rank) ∧
    (∀ k r', c.find k = none → after.find k = some r' → r'.effectiveAccess = .unknown) ∧
    (∀ k : String × String, k.1 ≠ serverId → after.find k = c.find k) ∧
    (answer = .error .integrity ∧ after = c ∨ ∃ report, answer = .ok report) ∧
    ((∀ d ∈ definitions, ∀ r ∈ c.table, r.id ≠ d.newId) → (definitions.map Scanned.newId).Nodup → ∃ report, answer = .ok report) ∧
    ∀ report, answer = .ok report →
      (serverId ≠ "" → ∀ toolId r, c.find (serverId, toolId) = some r → (∀ d ∈ definitions, d.definition.id ≠ toolId) →
        retiredIn r.evidence = false → ∃ r', after.find (serverId, toolId) = some r' ∧ r'.status = .stale ∧
          r'.effectiveAccess = .unknown ∧ retiredIn r'.evidence = true) ∧
      (∀ d ∈ definitions, ∀ r, c.find d.key = some r → retiredIn r.evidence = true → ∃ r', after.find d.key = some r' ∧
        r'.status = .stale ∧ r'.effectiveAccess = .unknown) ∧
      (∀ d ∈ definitions, ∀ r, c.find d.key = some r → retiredIn r.evidence = false → r.fingerprint = d.fingerprint →
        r.status = .published → after.find d.key = some r) ∧
      let unchanged := unchangedIds (definitions.map (·.definition.id)).dedup report.newToolIds report.changedToolIds
        report.reappearedToolIds
      report.counts.unchanged = unchanged.length ∧
        (report.newToolIds ++ report.changedToolIds ++ report.reappearedToolIds ++ unchanged).Nodup ∧
        ∀ t, t ∈ report.newToolIds ++ report.changedToolIds ++ report.reappearedToolIds ++ unchanged ↔
          ∃ d ∈ definitions, d.definition.id = t := by
  intro after answer
  have hkey : ∀ d ∈ definitions, d.key = (serverId, d.definition.id) := fun d hd => by rw [← hserver d hd]; rfl
  have hmatched : ¬sortedIds ((definitions.filter fun d => d.key.1 ≠ serverId).map (·.definition.id)) ≠ [] := by
    have hnone : (definitions.filter fun d => d.key.1 ≠ serverId) = [] := by
      rw [List.filter_eq_nil_iff]
      intro d hd
      simpa using hserver d hd
    rw [hnone]
    simp [sortedIds]
  cases hsync : syncTools syncedAt c definitions with
  | none =>
    have hcall : reconcileServerTools c serverId definitions reviewer syncedAt now = (c, .error .integrity) := by
      unfold reconcileServerTools
      rw [if_neg hmatched, hsync]
    have hafter : after = c := congrArg Prod.fst hcall
    have hanswer : answer = .error .integrity := congrArg Prod.snd hcall
    rw [hafter, hanswer]
    refine ⟨fun k r hr => ⟨r, hr, rfl, le_refl _⟩, ?_, fun _ _ => rfl, .inl ⟨rfl, rfl⟩, ?_, ?_⟩
    · intro k r' hnone hr'
      rw [hnone] at hr'
      cases hr'
    · intro hfresh hnew
      have hsome : (syncTools syncedAt c definitions).isSome = true := syncTools_isSome hfresh hnew
      rw [hsync] at hsome
      cases hsome
    · intro report hreport
      cases hreport
  | some c₁ =>
    obtain ⟨final, hfinal⟩ : ∃ final, (reappearedIds (byTool c serverId) definitions).foldl (reappearOne serverId reviewer now)
      ((retiredIds (byTool c serverId) (definitions.map (·.definition.id)).dedup).foldl
        (retireOne (byTool c serverId) serverId reviewer now) c₁) = final := ⟨_, rfl⟩
    have hrows : Reconciled c serverId definitions syncedAt final := hfinal ▸ reconciled hids hserver hsync
    obtain ⟨said, hreport, hnew, hchanged, hreappeared, -, hcount⟩ := @report_ok (byTool c serverId) (byTool final serverId)
      serverId (definitions.map (·.definition.id)).dedup (retiredIds (byTool c serverId) (definitions.map (·.definition.id)).dedup)
      (reappearedIds (byTool c serverId) definitions) (by
        intro t ht
        obtain ⟨d, hd, rfl⟩ := List.mem_map.mp (List.mem_dedup.mp ht)
        exact hrows.covered hserver hd)
    have hcall : reconcileServerTools c serverId definitions reviewer syncedAt now = (final, .ok said) := by
      unfold reconcileServerTools
      rw [if_neg hmatched, hsync, ← hreport, ← hfinal]
    have hafter : after = final := congrArg Prod.fst hcall
    have hanswer : answer = .ok said := congrArg Prod.snd hcall
    rw [hafter, hanswer]
    refine ⟨fun k r hr => hrows.ranks hr, fun k r' hnone hr' => hrows.new hnone hr', hrows.other, .inr ⟨said, rfl⟩,
      fun _ _ => ⟨said, rfl⟩, ?_⟩
    rintro report ⟨⟩
    refine ⟨?_, ?_, ?_, ?_⟩
    · intro hname toolId r hr hmissing hactive
      have hnot : (serverId, toolId) ∉ definitions.map Scanned.key := by
        intro hmem
        obtain ⟨d, hd, heq⟩ := List.mem_map.mp hmem
        rw [hkey d hd] at heq
        exact hmissing d hd (Prod.mk.inj heq).2
      obtain ⟨r', hr', hw⟩ := hrows.retires hname toolId r hr hnot hactive
      exact ⟨r', hr', hw.status, hw.access, hw.lifecycle⟩
    · intro d hd r hr hretired
      obtain ⟨r', hr', hw⟩ := hrows.reappears d hd r hr hretired
      exact ⟨r', hr', hw.status, hw.access⟩
    · intro d hd r hr hactive hfp hstatus
      rw [hrows.active d hd ?_, hr, synced_published hfp hstatus]
      intro r₁ hr₁
      rw [hr] at hr₁
      exact Option.some.inj hr₁ ▸ hactive
    intro unchanged
    have hsame : unchanged = unchangedIds (definitions.map (·.definition.id)).dedup said.newToolIds said.changedToolIds
        (reappearedIds (byTool c serverId) definitions) := by
      simp only [unchanged, unchangedIds, hreappeared, List.contains_eq_mem, mem_sortedIds]
    have hids' : (reappearedIds (byTool c serverId) definitions).Nodup := hids.sublist (List.filter_sublist.map _)
    obtain ⟨hnodup, hunion⟩ := @sets_partition (byTool c serverId) (byTool final serverId)
      (definitions.map (·.definition.id)).dedup (reappearedIds (byTool c serverId) definitions) (List.nodup_dedup _) hids' (by
        intro t ht
        obtain ⟨⟨d, hd, rfl⟩, r, hget, -⟩ := mem_reappearedIds.mp ht
        refine ⟨List.mem_dedup.mpr (List.mem_map_of_mem hd), ?_⟩
        rw [Dict.has, hget]
        rfl)
    rw [← hnew, ← hchanged, ← hreappeared, ← hsame] at hnodup hunion
    refine ⟨hcount.trans (by rw [hsame]), hnodup, ?_⟩
    intro t
    rw [hunion, List.mem_dedup, List.mem_map]

/-- A published row of tool `t`. -/
def rowOf (id serverId : String) (evidence : Evidence) : Row where
  id := id
  serverId := serverId
  toolId := "t"
  toolName := "t"
  fingerprint := "f1"
  suggestedAccess := .read
  effectiveAccess := .read
  status := .published
  confidence := "0.78"
  source := .rule
  destructive := false
  idempotent := true
  openWorld := false
  evidence := evidence
  createdAt := "2026-01-01"
  updatedAt := "2026-01-01"

/-- The server `files` stops listing its tool `t`. -/
def filesTable : Catalogue where
  table := ⟨[rowOf "row1" "files" ∅], by decide⟩
  ids := by decide

theorem reconciliation_tightens_files : ∃ r', (reconcileServerTools filesTable "files" [] "alice" "2026-01-02" "2026-01-03").1.find
    ("files", "t") = some r' ∧ r'.status = .stale ∧ r'.effectiveAccess = .unknown ∧ retiredIn r'.evidence = true := by
  obtain ⟨-, -, -, -, hanswers, hreport⟩ := reconciliation_tightens filesTable "files" [] "alice" "2026-01-02" "2026-01-03"
    (by decide) (by simp)
  obtain ⟨report, hok⟩ := hanswers (by simp) (by simp)
  exact (hreport report hok).1 (by decide) "t" (rowOf "row1" "files" ∅) rfl (by simp) rfl

/-- A row under the empty server id, and the retired row of a tool with the same id on another server. -/
def namelessTable : Catalogue where
  table := ⟨[rowOf "row1" "" ∅,
    rowOf "row2" "files" ((∅ : Evidence).set "lifecycle" (lifecycle "retired" "missing_from_latest_tools_list" "alice" "2026-01-01"))],
    by decide⟩
  ids := by decide

/-- The listing of the empty server id is the whole table, where the row of the other server hides this one: it is missing and
not retired, and stays published. -/
theorem nameless_row_stays_published :
    (namelessTable.find ("", "t")).map (fun r => (r.status, r.effectiveAccess, retiredIn r.evidence)) = some (.published, .read, false) ∧
    ((reconcileServerTools namelessTable "" [] "alice" "2026-01-02" "2026-01-03").1.find ("", "t")).map
      (fun r => (r.status, r.effectiveAccess, retiredIn r.evidence)) = some (.published, .read, false) ∧
    ∃ report, (reconcileServerTools namelessTable "" [] "alice" "2026-01-02" "2026-01-03").2 = .ok report := by
  refine ⟨by decide, by decide +kernel, ?_⟩
  exact ⟨_, rfl⟩

end LingshuGate.Reconciliation

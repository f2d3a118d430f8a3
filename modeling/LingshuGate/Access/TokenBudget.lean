import Mathlib.Data.Finset.Card
import Mathlib.Data.Finset.Image
import LingshuGate.Access.GrantMap

/-!
# The budget of an independent token (`access_control.py`, `mcp_runtime.py`)

| here | there |
| --- | --- |
| `usePolicy`, `currentPolicies` | `policies` (access_control.py:48-54) |
| `budgetRows`        | the `SELECT` (access_control.py:58-70) |
| `counts`            | the three conditions of the inner loop (access_control.py:75-81) |
| `countRow`          | one turn of it; `none` is `return False` (access_control.py:82-85) |
| `countBatch`        | one `fetchmany(250)` (access_control.py:72-85) |
| `tokenAuthorizationBudgetValid` | `token_authorization_budget_valid` (access_control.py:44) |
| `McpTool.definition` | the definition that `_mcp_tool_records` builds (mcp_runtime.py:1376-1395) |

The counter and `_evaluate` read the same database at one instant. The metadata of a tool of a downstream server is written by
Gate, so none of the keys that policy reads but `server_id` is in it.
-/

namespace LingshuGate.AccessControl

open Lib

/-! ## The code -/

/-- One policy of the loop: it is used when its binding is the server's. -/
def usePolicy (env : Env) (db : AccessDb) (policies : Dict String Access) (policy : String × String × Access) : Dict String Access :=
  match serverBinding env db policy.1 with
  | .ok binding => if binding = policy.2.1 then policies.set policy.1 policy.2.2 else policies
  | .error _ => policies

def currentPolicies (env : Env) (db : AccessDb) (p : AuthPrincipal) : Dict String Access :=
  p.apiTokenServerPolicies.foldl (usePolicy env db) ∅

/-- `dict(principal.api_token_tool_snapshots)`. -/
def selectedSnapshots (p : AuthPrincipal) : Dict String String :=
  p.apiTokenToolSnapshots.foldl (fun selected kv => selected.set kv.1 kv.2) ∅

def budgetRows (db : AccessDb) (policies : Dict String Access) (selected : Dict String String) : List ClassificationRow :=
  db.classifications.filter fun r => r.classification.status = .published && r.classification.effectiveAccess.usable &&
    (policies.has r.serverId || selected.has r.toolId)

/-- `scope`. -/
def budgetScope (access : Access) : String := if access = .read then "tools.read" else "tools.invoke"

def counts (p : AuthPrincipal) (policies : Dict String Access) (selected : Dict String String)
    (grants : Dict (String × String) Access) (r : ClassificationRow) : Bool :=
  let access := r.classification.effectiveAccess
  (tokenScopeAllows p access && principalControlAllows p (budgetScope access)) &&
    !decide (((grants.get (r.serverId, r.toolId)).getD .none).rank < access.rank) &&
    !(!selected.has r.toolId && decide (((policies.get r.serverId).getD .none).rank < access.rank))

/-- `count` and `servers`. -/
abbrev Tally := Nat × List String

def countRow (p : AuthPrincipal) (policies : Dict String Access) (selected : Dict String String)
    (grants : Dict (String × String) Access) (acc : Tally) (r : ClassificationRow) : Option Tally :=
  if counts p policies selected grants r then
    let acc : Tally := (acc.1 + 1, acc.2.insert r.serverId)
    if acc.1 > 5000 ∨ acc.2.length > 100 then none else some acc
  else some acc

def countBatch (o : Reading) (db : AccessDb) (now : Int) (p : AuthPrincipal) (policies : Dict String Access)
    (selected : Dict String String) (acc : Tally) (rows : List ClassificationRow) : Option Tally :=
  let grants := effectiveAccessMap o db now p (rows.map fun r => (r.serverId, r.toolId))
  rows.foldlM (countRow p policies selected grants) acc

/-- `token_authorization_budget_valid`. -/
def tokenAuthorizationBudgetValid (o : Reading) (order : Order ClassificationRow) (env : Env) (db : AccessDb) (now : Int)
    (p : AuthPrincipal) : Bool :=
  if p.apiTokenAuthorizationMode ≠ .independent then true
  else
    let policies := currentPolicies env db p
    let selected := selectedSnapshots p
    if selected.keys.length > 5000 ∨ policies.keys.length > 100 then false
    else if policies.keys = [] ∧ selected.keys = [] then true
    else
      ((batches 250 (order.of (budgetRows db policies selected))).foldlM (countBatch o db now p policies selected) (0, [])).isSome

/-- What a server's manifest and one of its tools give. -/
structure McpTool where
  serverId : String
  originalName : String
  title : String
  description : String
  permission : String
  deriving DecidableEq

def McpTool.definition (t : McpTool) : ToolDefinition where
  id := "mcp." ++ t.serverId ++ "." ++ t.originalName
  name := t.title
  description := t.description
  permission := t.permission
  source := "mcp"
  metadata := { serverId := some t.serverId }

/-! ## What the counter has seen -/

variable {o : Reading} {order : Order ClassificationRow} {env : Env} {db : AccessDb} {now : Int} {p : AuthPrincipal}
  {policies : Dict String Access} {selected : Dict String String} {f : ClassificationRow → Bool}

/-- The tally after some rows, of which the ones that `f` accepts were counted. -/
structure Tallied (f : ClassificationRow → Bool) (rows : List ClassificationRow) (acc : Tally) : Prop where
  count : acc.1 = rows.countP f
  servers : ∀ r ∈ rows, f r = true → r.serverId ∈ acc.2
  count_le : acc.1 ≤ 5000
  servers_le : acc.2.length ≤ 100

variable {grants : Dict (String × String) Access} {acc acc' : Tally}

theorem Tallied.row {rows : List ClassificationRow}
    {r : ClassificationRow} (h : Tallied f rows acc) (hf : f r = counts p policies selected grants r)
    (hstep : countRow p policies selected grants acc r = some acc') : Tallied f (rows ++ [r]) acc' := by
  unfold countRow at hstep
  by_cases hcounts : counts p policies selected grants r = true
  · simp only [if_pos hcounts] at hstep
    split at hstep
    · cases hstep
    rename_i hsmall
    simp only [not_or, Nat.not_lt] at hsmall
    injection hstep with hstep
    subst hstep
    refine ⟨?_, ?_, hsmall.1, hsmall.2⟩
    · rw [List.countP_append, ← h.count]
      simp [hf, hcounts]
    intro r' hr' hf'
    rcases List.mem_append.mp hr' with hr' | hr'
    · exact List.mem_insert_of_mem (h.servers r' hr' hf')
    · obtain rfl := List.mem_singleton.mp hr'
      exact List.mem_insert_self
  rw [if_neg hcounts] at hstep
  injection hstep with hstep
  subst hstep
  refine ⟨?_, ?_, h.count_le, h.servers_le⟩
  · rw [List.countP_append, ← h.count]
    simp [hf, hcounts]
  intro r' hr' hf'
  rcases List.mem_append.mp hr' with hr' | hr'
  · exact h.servers r' hr' hf'
  · obtain rfl := List.mem_singleton.mp hr'
    rw [hf] at hf'
    exact absurd hf' hcounts

theorem Tallied.rows {rows more : List ClassificationRow}
    (h : Tallied f rows acc) (hf : ∀ r ∈ more, f r = counts p policies selected grants r)
    (hstep : more.foldlM (countRow p policies selected grants) acc = some acc') : Tallied f (rows ++ more) acc' := by
  induction more generalizing rows acc with
  | nil =>
    injection hstep with hstep
    subst hstep
    simpa using h
  | cons r more ih =>
    obtain ⟨acc₁, hone, hrest⟩ := Option.bind_eq_some_iff.mp hstep
    have hnext := ih (h.row (hf r List.mem_cons_self) hone) (fun r' hr' => hf r' (List.mem_cons_of_mem _ hr')) hrest
    rwa [List.append_assoc, List.singleton_append] at hnext

/-- What decides whether a row counts, read from the database. -/
def countsFor (db : AccessDb) (now : Int) (p : AuthPrincipal) (policies : Dict String Access) (selected : Dict String String)
    (r : ClassificationRow) : Bool :=
  let access := r.classification.effectiveAccess
  (tokenScopeAllows p access && principalControlAllows p (budgetScope access)) &&
    decide (access.rank ≤ (effectiveAccess db now p r.serverId r.toolId).rank) &&
    (selected.has r.toolId || decide (access.rank ≤ ((policies.get r.serverId).getD .none).rank))

/-- A batch counts by the grants it has just read, which are the grants of each of its rows. -/
theorem counts_eq {rows : List ClassificationRow} {r : ClassificationRow} (hr : r ∈ rows) : countsFor db now p policies selected r =
      counts p policies selected (effectiveAccessMap o db now p (rows.map fun r => (r.serverId, r.toolId))) r := by
  have hget : (effectiveAccessMap o db now p (rows.map fun r => (r.serverId, r.toolId))).get (r.serverId, r.toolId) =
      some (effectiveAccess db now p r.serverId r.toolId) := by
    have hmem : (r.serverId, r.toolId) ∈ rows.map fun r => (r.serverId, r.toolId) := List.mem_map.mpr ⟨r, hr, rfl⟩
    rw [effectiveAccessMap_get p hmem, effectiveAccess_eq]
  unfold countsFor counts
  rw [hget]
  have hlt : ∀ a b : Int, (!decide (a < b)) = decide (b ≤ a) := by
    intro a b
    by_cases h : a < b
    · simp [h]
    · simp [h, Int.not_lt.mp h]
  simp only [Option.getD_some, Bool.not_and, Bool.not_not, hlt]

theorem Tallied.batches {rows : List ClassificationRow} {more : List (List ClassificationRow)}
    (h : Tallied (countsFor db now p policies selected) rows acc)
    (hstep : more.foldlM (countBatch o db now p policies selected) acc = some acc') :
    Tallied (countsFor db now p policies selected) (rows ++ more.flatten) acc' := by
  induction more generalizing rows acc with
  | nil =>
    injection hstep with hstep
    subst hstep
    simpa using h
  | cons batch more ih =>
    obtain ⟨acc₁, hone, hrest⟩ := Option.bind_eq_some_iff.mp hstep
    have hnext := ih (h.rows (fun r hr => counts_eq hr) hone) hrest
    rwa [List.append_assoc, ← List.flatten_cons] at hnext

/-- What a `True` of an independent token says, when there is a policy or a selected tool. -/
theorem budget_tallied (hmode : p.apiTokenAuthorizationMode = .independent)
    (hvalid : tokenAuthorizationBudgetValid o order env db now p = true) :
    ((currentPolicies env db p).keys = [] ∧ (selectedSnapshots p).keys = []) ∨
      ∃ acc, Tallied (countsFor db now p (currentPolicies env db p) (selectedSnapshots p))
        (order.of (budgetRows db (currentPolicies env db p) (selectedSnapshots p))) acc := by
  unfold tokenAuthorizationBudgetValid at hvalid
  rw [if_neg (by simp [hmode])] at hvalid
  simp only at hvalid
  split at hvalid
  · cases hvalid
  split at hvalid
  · next hnone => exact .inl hnone
  obtain ⟨acc, hacc⟩ := Option.isSome_iff_exists.mp hvalid
  have hstart : Tallied (countsFor db now p (currentPolicies env db p) (selectedSnapshots p)) [] (0, []) :=
    ⟨rfl, by simp, by simp, by simp⟩
  have hall := hstart.batches hacc
  rw [List.nil_append, flatten_batches (by decide)] at hall
  exact .inr ⟨acc, hall⟩

/-! ## What the evaluator allows -/

theorem serverPolicyAllows_true {serverId : String} {required : Access} {l : List (String × String × Access)}
    (h : serverPolicyAllows env db serverId required l = some true) :
    ∃ binding access, (serverId, binding, access) ∈ l ∧ serverBinding env db serverId = .ok binding ∧ required.rank ≤ access.rank := by
  induction l with
  | nil => cases h
  | cons policy l ih =>
    obtain ⟨candidate, binding, access⟩ := policy
    unfold serverPolicyAllows at h
    by_cases hsame : candidate = serverId
    · subst hsame
      rw [if_neg (by simp)] at h
      split at h
      · cases h
      · next current hcurrent =>
        simp only [Option.some.injEq, Bool.and_eq_true, beq_iff_eq, decide_eq_true_eq] at h
        exact ⟨binding, access, List.mem_cons_self, by rw [hcurrent, h.1], h.2⟩
    · rw [if_pos hsame] at h
      obtain ⟨binding', access', hmem, hrest⟩ := ih h
      exact ⟨binding', access', List.mem_cons_of_mem _ hmem, hrest⟩

theorem usePolicy_other {policy : String × String × Access} {serverId : String} (h : serverId ≠ policy.1) :
    (usePolicy env db policies policy).get serverId = policies.get serverId := by
  unfold usePolicy
  split
  · split
    · rw [Dict.get_set, if_neg h]
    · rfl
  · rfl

theorem get_policies {l : List (String × String × Access)} {serverId binding : String} {access : Access}
    (hl : (l.map Prod.fst).Nodup) (hmem : (serverId, binding, access) ∈ l) (hbinding : serverBinding env db serverId = .ok binding)
    (policies : Dict String Access) : (l.foldl (usePolicy env db) policies).get serverId = some access := by
  have hother : ∀ (l : List (String × String × Access)) (policies : Dict String Access), serverId ∉ l.map Prod.fst →
      (l.foldl (usePolicy env db) policies).get serverId = policies.get serverId := by
    intro l
    induction l with
    | nil =>
      intro _ _
      rfl
    | cons policy l ih =>
      intro policies hnot
      rw [List.map_cons, List.mem_cons, not_or] at hnot
      rw [List.foldl_cons, ih _ hnot.2, usePolicy_other hnot.1]
  induction l generalizing policies with
  | nil => cases hmem
  | cons policy l ih =>
    rw [List.map_cons, List.nodup_cons] at hl
    rw [List.foldl_cons]
    rcases List.mem_cons.mp hmem with rfl | hmem
    · -- no later policy names the server
      rw [hother l _ hl.1]
      simp [usePolicy, hbinding, Dict.get_set]
    · exact ih hl.2 hmem _

theorem has_selected {toolId expected : String} (h : Py.dictGet p.apiTokenToolSnapshots toolId = some expected) :
    (selectedSnapshots p).has toolId = true := by
  have hfold : ∀ (l : List (String × String)) (d : Dict String String), d.has toolId = true ∨ toolId ∈ l.map Prod.fst →
      (l.foldl (fun selected kv => selected.set kv.1 kv.2) d).has toolId = true := by
    intro l
    induction l with
    | nil =>
      intro d hd
      simpa using hd
    | cons kv l ih =>
      intro d hd
      refine ih _ ?_
      rw [Dict.has, Dict.get_set]
      by_cases hk : toolId = kv.1
      · exact .inl (by simp [hk])
      rw [if_neg hk]
      rcases hd with hd | hd
      · exact .inl hd
      · rw [List.map_cons, List.mem_cons] at hd
        exact .inr (hd.resolve_left hk)
  exact hfold _ _ (.inr (List.mem_map.mpr ⟨_, Py.mem_of_dictGet h, rfl⟩))

/-- The common policy of a tool of a downstream server: its scopes, permissions and grant are the ones that are counted. -/
theorem commonDecision_tool {t : McpTool} {c : Classification} (hpublished : c.isPublished = true)
    (h : (commonDecision p t.definition (some c)
      (effectiveAccess db now p (serverIdOf t.definition) t.definition.id)).allowed = true) :
    tokenScopeAllows p c.effectiveAccess = true ∧ principalControlAllows p (budgetScope c.effectiveAccess) = true ∧
      c.effectiveAccess.rank ≤ (effectiveAccess db now p (serverIdOf t.definition) t.definition.id).rank := by
  have hcontrol : isClassificationControl t.definition = false := rfl
  have husable : c.effectiveAccess.usable = true := by
    simp only [Classification.isPublished, Bool.and_eq_true] at hpublished
    exact hpublished.2
  rw [commonDecision_mcp rfl] at h
  simp only [hcontrol, isPublished, hpublished, Bool.false_eq_true, if_false, Bool.not_true, Bool.and_false] at h
  by_cases hadmin : p.isAdmin = true
  · rw [if_pos hadmin, adminDecision_allowed] at h
    have hrequired : adminRequired (some c) = c.effectiveAccess := by simp [adminRequired, husable]
    rw [hrequired] at h
    refine ⟨h.2.1, h.1, ?_⟩
    rw [effectiveAccess_eq, if_pos hadmin]
    cases c.effectiveAccess <;> decide
  · rw [if_neg hadmin, memberDecision] at h
    simp only [hpublished, Bool.not_true, Bool.false_eq_true, if_false] at h
    obtain ⟨hpermission, hscope, -, hgrant⟩ := grantDecision_allowed.mp h
    exact ⟨hscope, hpermission, hgrant⟩

/-- A tool of a downstream server that the evaluator allows has a row that is read and counted. -/
theorem allowed_counts {t : McpTool} (htoken : p.authType = .token) (hmode : p.apiTokenAuthorizationMode = .independent)
    (hpolicies : (p.apiTokenServerPolicies.map Prod.fst).Nodup) (h : (evaluate env db now p t.definition).allowed = true) :
    ∃ r ∈ budgetRows db (currentPolicies env db p) (selectedSnapshots p),
      (r.serverId, r.toolId) = (serverIdOf t.definition, t.definition.id) ∧
        countsFor db now p (currentPolicies env db p) (selectedSnapshots p) r = true := by
  have hindependent : isIndependent p = true := by simp [isIndependent, htoken, hmode]
  have hsource : t.definition.source = "mcp" := rfl
  rw [evaluate, evaluateWith_allowed, hindependent, hsource] at h
  simp only [htoken, reduceCtorEq, if_false, decide_true, Bool.and_self, Bool.not_true, Bool.false_or, Bool.and_eq_true] at h
  obtain ⟨hpolicy, hcommon⟩ := h
  cases hload : loadClassification db (serverIdOf t.definition) t.definition.id with
  | none =>
    rw [hload] at hpolicy
    cases hpolicy
  | some c =>
    rw [hload] at hpolicy hcommon
    obtain ⟨r, hfind, rfl⟩ := Option.map_eq_some_iff.mp hload
    have hrow : r.serverId = serverIdOf t.definition ∧ r.toolId = t.definition.id := by
      simpa using List.find?_some hfind
    unfold tokenMcpPolicyAllows at hpolicy
    cases hpublished : r.classification.isPublished with
    | false =>
      simp [hpublished] at hpolicy
    | true =>
      simp only [hpublished, Bool.not_true, Bool.false_eq_true, if_false] at hpolicy
      obtain ⟨hscope, hpermission, hgrant⟩ := commonDecision_tool hpublished hcommon
      obtain ⟨hstatus, husable⟩ : r.classification.status = .published ∧ r.classification.effectiveAccess.usable = true := by
        simpa [Classification.isPublished] using hpublished
      -- the policy of the server, or the snapshot of the tool
      have hcovered : (selectedSnapshots p).has r.toolId = true ∨ ∃ access, (currentPolicies env db p).get r.serverId = some access ∧
          r.classification.effectiveAccess.rank ≤ access.rank := by
        rw [hrow.1, hrow.2]
        split at hpolicy
        · next allowed hallowed =>
          subst hpolicy
          obtain ⟨binding, access, hmem, hbinding, hrank⟩ := serverPolicyAllows_true hallowed
          exact .inr ⟨access, get_policies hpolicies hmem hbinding ∅, hrank⟩
        refine .inl ?_
        unfold snapshotAllows at hpolicy
        split at hpolicy
        · next hsnapshot _ => exact has_selected hsnapshot
        · cases hpolicy
      refine ⟨r, ?_, by rw [hrow.1, hrow.2], ?_⟩
      · refine List.mem_filter.mpr ⟨List.mem_of_find?_eq_some hfind, ?_⟩
        rcases hcovered with hselected | ⟨access, hget, -⟩
        · simp [hstatus, husable, hselected]
        · simp [hstatus, husable, Dict.has, hget]
      · rw [← hrow.1, ← hrow.2] at hgrant
        rcases hcovered with hselected | ⟨access, hget, hrank⟩
        · simp [countsFor, hscope, hpermission, hgrant, hselected]
        · simp [countsFor, hscope, hpermission, hgrant, hget, hrank]

/-- A published row of a tool of a downstream server that the evaluator allows. -/
structure McpAllowed (env : Env) (db : AccessDb) (now : Int) (p : AuthPrincipal) (t : McpTool) : Prop where
  published : ∃ r ∈ db.classifications, (r.serverId, r.toolId) = (serverIdOf t.definition, t.definition.id) ∧
    r.classification.status = .published
  allowed : (evaluate env db now p t.definition).allowed = true

/-- **The budget of an independent token is sound.** When `token_authorization_budget_valid` returns `True` for an independent
token whose policies name each server at most once, the published rows of tools of downstream servers that `_evaluate` allows
are at most 5000, and of at most 100 servers. -/
theorem token_budget_sound (o : Reading) (order : Order ClassificationRow) (env : Env) (db : AccessDb) (now : Int)
    (p : AuthPrincipal) (htoken : p.authType = .token) (hmode : p.apiTokenAuthorizationMode = .independent)
    (hpolicies : (p.apiTokenServerPolicies.map Prod.fst).Nodup)
    (hvalid : tokenAuthorizationBudgetValid o order env db now p = true) (s : Finset (String × String))
    (hs : ∀ k ∈ s, ∃ t, k = (serverIdOf t.definition, t.definition.id) ∧ McpAllowed env db now p t) :
    s.card ≤ 5000 ∧ (s.image Prod.fst).card ≤ 100 := by
  -- each pair has a row that counts
  have hrows : ∀ k ∈ s, ∃ r ∈ budgetRows db (currentPolicies env db p) (selectedSnapshots p), (r.serverId, r.toolId) = k ∧
      countsFor db now p (currentPolicies env db p) (selectedSnapshots p) r = true := by
    intro k hk
    obtain ⟨t, rfl, ht⟩ := hs k hk
    exact allowed_counts htoken hmode hpolicies ht.allowed
  rcases budget_tallied hmode hvalid with ⟨hnone, hnone'⟩ | ⟨acc, hacc⟩
  · -- without a policy and a selected tool no row is read
    have hempty : s = ∅ := by
      refine Finset.eq_empty_of_forall_notMem ?_
      intro k hk
      obtain ⟨r, hr, -, -⟩ := hrows k hk
      obtain ⟨-, hcond⟩ := List.mem_filter.mp hr
      simp only [Bool.and_eq_true, Bool.or_eq_true, Dict.has, ← Dict.mem_keys, hnone, hnone'] at hcond
      simpa using hcond.2
    subst hempty
    simp
  have hmem : ∀ r, r ∈ order.of (budgetRows db (currentPolicies env db p) (selectedSnapshots p)) ↔
      r ∈ budgetRows db (currentPolicies env db p) (selectedSnapshots p) := fun r => order.mem_of
  generalize order.of (budgetRows db (currentPolicies env db p) (selectedSnapshots p)) = rows at hacc hmem
  constructor
  · have hsub : s ⊆ ((rows.filter (countsFor db now p (currentPolicies env db p) (selectedSnapshots p))).map fun r =>
        (r.serverId, r.toolId)).toFinset := by
      intro k hk
      obtain ⟨r, hr, hkey, hcounts⟩ := hrows k hk
      rw [List.mem_toFinset, List.mem_map]
      exact ⟨r, List.mem_filter.mpr ⟨(hmem r).mpr hr, hcounts⟩, hkey⟩
    calc s.card ≤ _ := Finset.card_le_card hsub
      _ ≤ _ := List.toFinset_card_le _
      _ = acc.1 := by rw [List.length_map, ← List.countP_eq_length_filter, hacc.count]
      _ ≤ 5000 := hacc.count_le
  have hsub : s.image Prod.fst ⊆ acc.2.toFinset := by
    intro server hserver
    obtain ⟨k, hk, rfl⟩ := Finset.mem_image.mp hserver
    obtain ⟨r, hr, hkey, hcounts⟩ := hrows k hk
    rw [List.mem_toFinset, ← hkey]
    exact hacc.servers r ((hmem r).mpr hr) hcounts
  calc (s.image Prod.fst).card ≤ _ := Finset.card_le_card hsub
    _ ≤ acc.2.length := List.toFinset_card_le _
    _ ≤ 100 := hacc.servers_le

def noFiles : Env where
  fileMarker _ := none
  toolSnapshot _ _ _ := ""
  managementToolSnapshot _ := ""
  managementResource := id

/-- One published tool, which the user may read. -/
def oneTool : AccessDb where
  permissionTypes := [⟨"read", .read, true⟩]
  resourceGrants := [⟨.user, "alice", "files", "", "read", .absent⟩]
  classifications := [⟨"files", "mcp.files.list", ⟨.read, .published, some ("f1", none)⟩⟩]
  identities := [{ serverId := "files", binding := "b1" }]

/-- A token with a policy for the server. -/
def readerToken : AuthPrincipal where
  id := "alice"
  role := "dev"
  authType := .token
  permissions := ["tools.read"]
  scopes := ["tools.read"]
  apiTokenAuthorizationMode := .independent
  apiTokenServerPolicies := [("files", "b1", .read)]

theorem token_budget_sound_one : (evaluate noFiles oneTool 0 readerToken (McpTool.definition ⟨"files", "list", "", "", "mcp"⟩)).allowed = true ∧
    ({("files", "mcp.files.list")} : Finset (String × String)).card ≤ 5000 := by
  have hallowed : (evaluate noFiles oneTool 0 readerToken (McpTool.definition ⟨"files", "list", "", "", "mcp"⟩)).allowed = true := by
    decide
  have hvalid : tokenAuthorizationBudgetValid ⟨.kept, .kept⟩ .kept noFiles oneTool 0 readerToken = true := by
    decide
  refine ⟨hallowed, (token_budget_sound ⟨.kept, .kept⟩ .kept noFiles oneTool 0 readerToken rfl rfl (by decide) hvalid _ ?_).1⟩
  intro k hk
  obtain rfl := Finset.mem_singleton.mp hk
  exact ⟨⟨"files", "list", "", "", "mcp"⟩, by decide, ⟨_, List.mem_cons_self, by decide, rfl⟩, hallowed⟩

end LingshuGate.AccessControl

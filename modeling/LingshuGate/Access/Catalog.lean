import LingshuGate.Access.Delegation

/-!
# Catalog search authorizes as `evaluate` does (`access_control.py`, `tool_catalog.py`)

| here | there |
| --- | --- |
| `instanceFor`        | `instance_for` (tool_catalog.py:107) |
| `CatalogRow`         | the seven arguments of `gate_catalog_allowed` (tool_catalog.py:249) |
| `catalogRow`         | a synchronized row of `gate_tool_catalog` (tool_catalog.py:166-184) joined with its classification |
| `catalogGranted`     | `granted` (access_control.py:1360) |
| `rowDecision`        | the body of `authorize` past the cache (access_control.py:1381-1390) |
| `authorize`          | `authorize` (access_control.py:1358), the dictionary `decisions` passed along |

`policy_json` is the sorted JSON text of at most three keys, so the row carries the three values it stands
for; the two columns of the `LEFT JOIN` are `NULL` together.
-/

namespace LingshuGate.AccessControl

open Lib.Py

/-! ## The search path -/

/-- `instance_for`: `str(server_id or source or "builtin")`. -/
def instanceFor (d : ToolDefinition) : String :=
  match d.metadata.serverId with
  | some s => if s = "" then (if d.source = "" then "builtin" else d.source) else s
  | none => if d.source = "" then "builtin" else d.source

structure CatalogRow where
  toolId : String
  serverId : String
  source : String
  permission : String
  policy : Policy
  /-- `effective_access` and `status` -/
  classified : Option (Access × Status)
  deriving DecidableEq

/-- The row of a synchronized tool. -/
def catalogRow (db : AccessDb) (d : ToolDefinition) : CatalogRow where
  toolId := d.id
  serverId := instanceFor d
  source := d.source
  permission := d.permission
  policy := d.metadata.policy
  classified := (loadClassification db (instanceFor d) d.id).map fun c => (c.effectiveAccess, c.status)

/-- `granted`, over the grants read once for the search. -/
def catalogGranted (db : AccessDb) (now : Int) (p : AuthPrincipal) (serverId toolId : String) : Access :=
  let grants := liveGrants db now p.id
  match directGrant grants p.id serverId toolId with
  | some level => level
  | none => maxLevel ((grantRoleIds grants).map fun roleId => (roleGrant grants serverId toolId roleId).getD .none)

/-- `cache_key`. -/
structure CacheKey where
  serverId : String
  source : String
  permission : String
  policy : Policy
  classified : Option (Access × Status)
  granted : Access
  toolId : Option String
  deriving DecidableEq

def cacheKey (db : AccessDb) (now : Int) (p : AuthPrincipal) (row : CatalogRow) : CacheKey where
  serverId := row.serverId
  source := row.source
  permission := row.permission
  policy := row.policy
  classified := row.classified
  granted := catalogGranted db now p row.serverId row.toolId
  toolId := if row.source = "builtin" then some row.toolId else none

/-- `ToolDefinition.model_construct(…)`: names are blank, the server is the row's. -/
def rowDefinition (row : CatalogRow) : ToolDefinition where
  id := row.toolId
  source := row.source
  permission := row.permission
  metadata := { serverId := some row.serverId, policy := row.policy }

/-- The projection, or the full row when an independent token names the tool. -/
def rowClassification (db : AccessDb) (p : AuthPrincipal) (row : CatalogRow) : Option Classification :=
  if isIndependent p && (dictGet p.apiTokenToolSnapshots row.toolId).isSome then
    loadClassification db row.serverId row.toolId
  else row.classified.map fun c => { effectiveAccess := c.1, status := c.2 }

def rowDecision (env : Env) (db : AccessDb) (now : Int) (p : AuthPrincipal) (row : CatalogRow) : Nat :=
  if (evaluateWith env db now p (rowDefinition row) (rowClassification db p row)
      (catalogGranted db now p row.serverId row.toolId)).allowed then 1 else 0

/-- `principal.oauth_resource and principal.oauth_resource.endswith("/mcp/manage")`. -/
def manageResource (p : AuthPrincipal) : Bool :=
  match p.oauthResource with
  | some r => endsWith r "/mcp/manage"
  | none => false

/-- `authorize`: the answer and the dictionary after the call. -/
def authorize (env : Env) (db : AccessDb) (now : Int) (p : AuthPrincipal) (decisions : List (CacheKey × Nat))
    (row : CatalogRow) : Nat × List (CacheKey × Nat) :=
  if manageResource p then (0, decisions)
  else if p.authType = .oauth ∧ (row.source ≠ "mcp" ∨ row.toolId ∉ p.externalToolIds ∨
      row.serverId ∉ p.externalServerIds) then (0, decisions)
  else if p.authType ≠ .oauth ∧ ¬ isIndependent p then
    memoCall (cacheKey db now p) (rowDecision env db now p) decisions row
  else (rowDecision env db now p row, decisions)

/-- The dictionary after a sequence of calls. -/
def authorizeAll (env : Env) (db : AccessDb) (now : Int) (p : AuthPrincipal) (rows : List CatalogRow) : List (CacheKey × Nat) :=
  rows.foldl (fun decisions row => (authorize env db now p decisions row).2) []

/-! ## Grants: one read for all tools, one read for one tool -/

variable {db : AccessDb} {now : Int} {p : AuthPrincipal}

theorem liveGrants_level {g : (SubjectType × String × String × String) × Access}
    (h : g ∈ liveGrants db now p.id) : g.2 ≠ .unknown := by
  simp only [liveGrants, List.mem_filterMap] at h
  obtain ⟨r, -, hr⟩ := h
  split at hr
  · obtain ⟨level, hlevel, rfl⟩ := Option.map_eq_some_iff.mp hr
    obtain ⟨t, ht, rfl⟩ := Option.map_eq_some_iff.mp hlevel
    exact db.base_level t (List.mem_of_find?_eq_some ht)
  · cases hr

variable {grants : List ((SubjectType × String × String × String) × Access)}

theorem roleGrant_cases
    {serverId toolId roleId : String} {level : Access} (h : roleGrant grants serverId toolId roleId = some level) :
    ∃ tool, ((.role, roleId, serverId, tool), level) ∈ grants := by
  rcases Option.or_eq_some_iff.mp h with h | ⟨-, h⟩
  · exact ⟨toolId, mem_of_dictGet h⟩
  · exact ⟨"", mem_of_dictGet h⟩

theorem mem_grantRoleIds
    {roleId serverId tool : String} {level : Access} (h : ((.role, roleId, serverId, tool), level) ∈ grants) :
    roleId ∈ grantRoleIds grants := by
  simp only [grantRoleIds, List.mem_dedup, List.mem_map, List.mem_filter]
  exact ⟨_, ⟨h, by simp⟩, rfl⟩

/-- The highest level, read off the members. -/
theorem maxLevel_eq {levels : List Access} (h : .unknown ∉ levels) :
    maxLevel levels = if .write ∈ levels then .write else if .read ∈ levels then .read else .none := by
  have hfold : ∀ (rest : List Access) (best : Access), best ≠ .unknown → .unknown ∉ rest →
      rest.foldl (fun best level => if best.rank < level.rank then level else best) best =
        if .write ∈ best :: rest then .write else if .read ∈ best :: rest then .read else .none := by
    intro rest
    induction rest with
    | nil =>
      intro best hbest _
      cases best <;> simp_all
    | cons level rest ih =>
      intro best hbest hrest
      simp only [List.mem_cons, not_or] at hrest
      rw [List.foldl_cons, ih _ (by split <;> simp_all [eq_comm]) hrest.2]
      cases best <;> cases level <;> simp_all [Access.rank]
  cases levels with
  | nil => simp [maxLevel]
  | cons level rest =>
    simp only [List.mem_cons, not_or] at h
    exact hfold rest level (Ne.symm h.1) h.2

/-- A level above `none` that one role holds on the server is among the levels either read collects. -/
theorem mem_roleLevels {serverId toolId : String} {level : Access} (hlevel : level ≠ .none) :
    level ∈ ((grantRoleIds (liveGrants db now p.id)).map fun roleId =>
        (roleGrant (liveGrants db now p.id) serverId toolId roleId).getD .none) ↔
      level ∈ (grantRoleIds ((liveGrants db now p.id).filter fun g => g.1.2.2.1 = serverId)).filterMap
        (roleGrant (liveGrants db now p.id) serverId toolId) := by
  simp only [List.mem_map, List.mem_filterMap]
  constructor
  · rintro ⟨roleId, -, hget⟩
    have hsome : roleGrant (liveGrants db now p.id) serverId toolId roleId = some level := by
      cases hg : roleGrant (liveGrants db now p.id) serverId toolId roleId with
      | none => simp [hg, hlevel.symm] at hget
      | some l => simpa [hg] using hget
    obtain ⟨tool, hmem⟩ := roleGrant_cases hsome
    exact ⟨roleId, mem_grantRoleIds (List.mem_filter.mpr ⟨hmem, by simp⟩), hsome⟩
  · rintro ⟨roleId, -, hsome⟩
    obtain ⟨tool, hmem⟩ := roleGrant_cases hsome
    exact ⟨roleId, mem_grantRoleIds hmem, by simp [hsome]⟩

theorem unknown_not_mem_roleLevels {serverId toolId : String} (roleIds : List String) :
    .unknown ∉ roleIds.filterMap (roleGrant (liveGrants db now p.id) serverId toolId) := by
  intro h
  obtain ⟨roleId, -, hsome⟩ := List.mem_filterMap.mp h
  obtain ⟨tool, hmem⟩ := roleGrant_cases hsome
  exact liveGrants_level hmem rfl

/-- For a member, the catalog's grant is the one `_effective_access_map` resolves: rows of other servers add
roles that hold nothing here, and `none` never wins. -/
theorem catalogGranted_eq (hmember : p.isAdmin = false) (serverId toolId : String) :
    catalogGranted db now p serverId toolId = effectiveAccess db now p serverId toolId := by
  have hget : ∀ st id tool, dictGet ((liveGrants db now p.id).filter fun g => g.1.2.2.1 = serverId)
      (st, id, serverId, tool) = dictGet (liveGrants db now p.id) (st, id, serverId, tool) :=
    fun st id tool => dictGet_filter (by simp)
  have hdirect : directGrant ((liveGrants db now p.id).filter fun g => g.1.2.2.1 = serverId) p.id serverId toolId =
      directGrant (liveGrants db now p.id) p.id serverId toolId := by
    simp only [directGrant, hget]
  have hrole : roleGrant ((liveGrants db now p.id).filter fun g => g.1.2.2.1 = serverId) serverId toolId =
      roleGrant (liveGrants db now p.id) serverId toolId := by
    funext roleId
    simp only [roleGrant, hget]
  simp only [catalogGranted, effectiveAccess, hmember, hdirect, hrole]
  cases directGrant (liveGrants db now p.id) p.id serverId toolId with
  | some level => rfl
  | none =>
    simp only [Bool.false_eq_true, if_false]
    have hwrite := @mem_roleLevels db now p serverId toolId .write (by decide)
    have hread := @mem_roleLevels db now p serverId toolId .read (by decide)
    have hunknown := @unknown_not_mem_roleLevels db now p serverId toolId
    rw [maxLevel_eq (mt (mem_roleLevels (by decide)).mp (hunknown _)), maxLevel_eq (hunknown _)]
    simp only [hwrite, hread]

/-! ## What the decision reads -/

/-- What `_evaluate` reads of a definition when the tool's id does not matter to the credential. -/
structure SamePolicy (d d' : ToolDefinition) : Prop where
  source : d.source = d'.source
  permission : d.permission = d'.permission
  server : serverIdOf d = serverIdOf d'
  policy : d.metadata.policy = d'.metadata.policy
  /-- built-in tools are told apart by id -/
  builtin : d.source = "builtin" → d.id = d'.id

/-- The columns that both paths have. -/
def projection (c : Option Classification) : Option (Access × Status) :=
  c.map fun c => (c.effectiveAccess, c.status)

variable {d d' : ToolDefinition} {c c' : Option Classification}

theorem isPublished_congr (h : projection c = projection c') : isPublished c = isPublished c' := by
  cases c <;> cases c' <;> simp_all [projection, isPublished, Classification.isPublished]

theorem requiredText_congr (h : projection c = projection c') : requiredText c = requiredText c' := by
  cases c <;> cases c' <;> simp_all [projection, requiredText]

theorem SamePolicy.requiredControlPermission (h : SamePolicy d d') :
    requiredControlPermission d = requiredControlPermission d' := by
  unfold AccessControl.requiredControlPermission
  rw [h.policy]

theorem SamePolicy.extraControlAllowed (h : SamePolicy d d') : extraControlAllowed p d = extraControlAllowed p d' := by
  unfold AccessControl.extraControlAllowed
  rw [h.requiredControlPermission]

theorem SamePolicy.adminDecision (h : SamePolicy d d') (hc : projection c = projection c') :
    (adminDecision p d c).allowed = (adminDecision p d' c').allowed := by
  have hreq : adminRequired c = adminRequired c' := by
    cases c <;> cases c' <;> simp_all [projection, adminRequired]
  simp only [AccessControl.adminDecision, hreq, h.extraControlAllowed]

theorem SamePolicy.memberDecision (h : SamePolicy d d') (hc : projection c = projection c') (granted : Access) :
    (memberDecision p d c granted).allowed = (memberDecision p d' c' granted).allowed := by
  cases c <;> cases c' <;> simp only [projection, Option.map_none, Option.map_some, reduceCtorEq,
    Option.some.injEq, Prod.mk.injEq] at hc
  · rfl
  obtain ⟨haccess, hstatus⟩ := hc
  rename_i c c'
  have hpub : c.isPublished = c'.isPublished := by
    simp only [Classification.isPublished, haccess, hstatus]
  simp only [AccessControl.memberDecision, hpub]
  by_cases hp : (!c'.isPublished) = true
  · simp [hp, unpublishedDecision]
  · rw [if_neg hp, if_neg hp, Bool.eq_iff_iff, grantDecision_allowed, grantDecision_allowed, haccess, h.extraControlAllowed]

/-- The common policy gives the same answer on two views of a tool, whatever grant an administrator is shown. -/
theorem SamePolicy.commonDecision (h : SamePolicy d d') (hc : projection c = projection c') {granted granted' : Access}
    (hg : p.isAdmin = false → granted = granted') :
    (commonDecision p d c granted).allowed = (commonDecision p d' c' granted').allowed := by
  have hcontrol : isClassificationControl d = isClassificationControl d' := by
    unfold isClassificationControl
    rw [h.policy, h.requiredControlPermission]
  have hclass : (classificationControlDecision p d).allowed = (classificationControlDecision p d').allowed := by
    simp only [classificationControlDecision, h.permission]
  have htail : (if isClassificationControl d then classificationControlDecision p d
      else if isDelegated p && !isPublished c then unpublishedDecision d c granted
      else if p.isAdmin then AccessControl.adminDecision p d c
      else AccessControl.memberDecision p d c granted).allowed =
      (if isClassificationControl d' then classificationControlDecision p d'
      else if isDelegated p && !isPublished c' then unpublishedDecision d' c' granted'
      else if p.isAdmin then AccessControl.adminDecision p d' c'
      else AccessControl.memberDecision p d' c' granted').allowed := by
    rw [hcontrol, isPublished_congr hc]
    split
    · exact hclass
    split
    · rfl
    split
    · exact h.adminDecision hc
    · rename_i hadmin
      rw [hg (by simpa using hadmin)]
      exact h.memberDecision hc _
  unfold AccessControl.commonDecision
  by_cases hb : d.source = "builtin"
  · have hid := h.builtin hb
    have h1 : isHttpManagement d = isHttpManagement d' := by
      simp only [isHttpManagement, h.source, hid, h.server]
    have h2 : isGroupManagement d = isGroupManagement d' := by
      simp only [isGroupManagement, h.source, h.server, h.policy]
    have h3 : (httpManagementDecision p d).allowed = (httpManagementDecision p d').allowed := by
      simp only [httpManagementDecision, hid]
    have h4 : (groupDecision p d).allowed = (groupDecision p d').allowed := by
      simp only [groupDecision, hid, h.permission]
    rw [h1, h2]
    split
    · exact h3
    split
    · exact h4
    · exact htail
  · have hb' : d'.source ≠ "builtin" := h.source ▸ hb
    simpa [isHttpManagement, isGroupManagement, hb, hb'] using htail

/-! ## Agreement -/

variable {env : Env}

theorem evaluateWith_common (ho : p.authType ≠ .oauth) (hi : isIndependent p = false) (granted : Access) :
    evaluateWith env db now p d c granted = commonDecision p d c granted := by
  simp [evaluateWith, ho, hi]

/-- The cache key holds everything the decision reads, for the principals whose decisions are cached. -/
theorem rowDecision_of_cacheKey (ho : p.authType ≠ .oauth) (hi : isIndependent p = false) {row row' : CatalogRow}
    (h : cacheKey db now p row = cacheKey db now p row') :
    rowDecision env db now p row = rowDecision env db now p row' := by
  obtain ⟨toolId, serverId, source, permission, policy, classified⟩ := row
  obtain ⟨toolId', serverId', source', permission', policy', classified'⟩ := row'
  simp only [cacheKey, CacheKey.mk.injEq] at h
  obtain ⟨rfl, rfl, rfl, rfl, rfl, hgranted, hid⟩ := h
  have hsame : SamePolicy (rowDefinition ⟨toolId, serverId, source, permission, policy, classified⟩)
      (rowDefinition ⟨toolId', serverId, source, permission, policy, classified⟩) := by
    refine ⟨rfl, rfl, rfl, rfl, ?_⟩
    intro (hb : source = "builtin")
    show toolId = toolId'
    simpa [hb] using hid
  simp only [rowDecision, rowClassification, hi, evaluateWith_common ho hi, hgranted, Bool.false_and, Bool.false_eq_true, if_false]
  rw [hsame.commonDecision rfl fun _ => rfl]

theorem authorizeAll_sound (ho : p.authType ≠ .oauth) (hi : isIndependent p = false) (rows : List CatalogRow) :
    MemoSound (cacheKey db now p) (rowDecision env db now p) (authorizeAll env db now p rows) := by
  have hstep : ∀ decisions row, MemoSound (cacheKey db now p) (rowDecision env db now p) decisions →
      MemoSound (cacheKey db now p) (rowDecision env db now p) (authorize env db now p decisions row).2 := by
    intro decisions row hs
    unfold authorize
    split
    · exact hs
    split
    · exact hs
    split
    · exact (memoCall_spec (fun _ _ => rowDecision_of_cacheKey ho hi) hs row).2
    · exact hs
  -- the induction is on the calls made so far, oldest first
  suffices h : ∀ (rows : List CatalogRow) decisions, MemoSound (cacheKey db now p) (rowDecision env db now p) decisions →
      MemoSound (cacheKey db now p) (rowDecision env db now p)
        (rows.foldl (fun decisions row => (authorize env db now p decisions row).2) decisions) from
    h rows [] (memoSound_nil _ _)
  intro rows
  induction rows with
  | nil => exact fun decisions hs => hs
  | cons row rows ih => exact fun decisions hs => ih _ (hstep decisions row hs)

theorem instanceFor_ne_empty (d : ToolDefinition) : instanceFor d ≠ "" := by
  unfold instanceFor
  cases d.metadata.serverId with
  | none => by_cases hs : d.source = "" <;> simp [hs]
  | some s => by_cases h : s = "" <;> by_cases hs : d.source = "" <;> simp [h, hs]

theorem serverIdOf_eq_instanceFor (hs : strip (instanceFor d) = instanceFor d) : serverIdOf d = instanceFor d := by
  unfold serverIdOf instanceFor at *
  cases h : d.metadata.serverId with
  | none => rfl
  | some s =>
    simp only [h] at hs ⊢
    by_cases he : s = ""
    · subst he
      rfl
    · rw [if_neg he] at hs
      simp [he, hs]

theorem serverIdOf_rowDefinition (hs : strip (instanceFor d) = instanceFor d) :
    serverIdOf (rowDefinition (catalogRow db d)) = instanceFor d := by
  simp [serverIdOf, rowDefinition, catalogRow, hs, instanceFor_ne_empty]

theorem samePolicy_catalogRow (hs : strip (instanceFor d) = instanceFor d) : SamePolicy (rowDefinition (catalogRow db d)) d where
  source := rfl
  permission := rfl
  server := (serverIdOf_rowDefinition hs).trans (serverIdOf_eq_instanceFor hs).symm
  policy := rfl
  builtin _ := rfl

theorem projection_rowClassification : projection (rowClassification db p (catalogRow db d)) =
      projection (loadClassification db (instanceFor d) d.id) := by
  unfold rowClassification
  split
  · rfl
  · simp only [projection, catalogRow, Option.map_map]
    rfl

/-- The independent policy reads the review columns only for tools it has a snapshot of, and those rows are
loaded in full. -/
theorem tokenMcpPolicyAllows_catalogRow (hs : strip (instanceFor d) = instanceFor d) (hi : isIndependent p = true) :
    tokenMcpPolicyAllows env db p (rowDefinition (catalogRow db d)) (rowClassification db p (catalogRow db d)) =
      tokenMcpPolicyAllows env db p d (loadClassification db (instanceFor d) d.id) := by
  have hserver := (@samePolicy_catalogRow db d hs).server
  cases hsnap : dictGet p.apiTokenToolSnapshots d.id with
  | some expected =>
    have hload : rowClassification db p (catalogRow db d) = loadClassification db (instanceFor d) d.id := by
      simp [rowClassification, catalogRow, hi, hsnap]
    rw [hload]
    cases loadClassification db (instanceFor d) d.id with
    | none => rfl
    | some c =>
      simp only [tokenMcpPolicyAllows, snapshotAllows, hserver]
      rfl
  | none =>
    have hrow : rowClassification db p (catalogRow db d) =
        (loadClassification db (instanceFor d) d.id).map fun c => ⟨c.effectiveAccess, c.status, none⟩ := by
      simp [rowClassification, catalogRow, hsnap, Function.comp_def]
    rw [hrow]
    cases loadClassification db (instanceFor d) d.id with
    | none => rfl
    | some c =>
      simp only [Option.map_some, tokenMcpPolicyAllows, Classification.isPublished, snapshotAllows, hserver, hsnap,
        show (rowDefinition (catalogRow db d)).id = d.id from rfl]

theorem externalAllows_catalogRow (hs : strip (instanceFor d) = instanceFor d) :
    externalAllows now p (rowDefinition (catalogRow db d)) (rowClassification db p (catalogRow db d)) =
      externalAllows now p d (loadClassification db (instanceFor d) d.id) := by
  simp only [externalAllows, requiredText_congr projection_rowClassification, (samePolicy_catalogRow hs).server]
  rfl

theorem isManagementResource_false (hp : manageResource p = false) : isManagementResource p = false := by
  have hres : isManagementResource p = (p.oauthBuiltin && manageResource p) := rfl
  rw [hres, hp, Bool.and_false]

/-- Past the cache, a synchronized row is decided as the tool is. -/
theorem rowDecision_catalogRow (hp : manageResource p = false) (hs : strip (instanceFor d) = instanceFor d) :
    rowDecision env db now p (catalogRow db d) = if (evaluate env db now p d).allowed then 1 else 0 := by
  have hmanage := isManagementResource_false hp
  have hgrant : p.isAdmin = false → catalogGranted db now p (catalogRow db d).serverId (catalogRow db d).toolId =
      effectiveAccess db now p (instanceFor d) d.id := fun hm => catalogGranted_eq hm _ _
  have hcommon := (@samePolicy_catalogRow db d hs).commonDecision (@projection_rowClassification db p d) hgrant
  suffices h : (evaluateWith env db now p (rowDefinition (catalogRow db d)) (rowClassification db p (catalogRow db d))
      (catalogGranted db now p (catalogRow db d).serverId (catalogRow db d).toolId)).allowed =
      (evaluate env db now p d).allowed by
    rw [rowDecision, h]
  rw [evaluate, serverIdOf_eq_instanceFor hs, evaluateWith_allowed, evaluateWith_allowed, hmanage,
    externalAllows_catalogRow hs, hcommon]
  simp only [Bool.false_eq_true, if_false]
  cases hi : isIndependent p with
  | false => simp only [Bool.false_and, Bool.not_false, Bool.true_or]
  | true => rw [tokenMcpPolicyAllows_catalogRow hs hi, show (rowDefinition (catalogRow db d)).source = d.source from rfl]

/-- **Catalog search and direct evaluation agree**: after any calls on any rows, the memoizing function answers 1
for a synchronized tool exactly when `evaluate` allows it. -/
theorem catalog_search_agrees (env : Env) (db : AccessDb) (now : Int) (p : AuthPrincipal) (d : ToolDefinition)
    (rows : List CatalogRow) (hp : manageResource p = false) (hs : strip (instanceFor d) = instanceFor d) :
    (authorize env db now p (authorizeAll env db now p rows) (catalogRow db d)).1 = 1 ↔
      (evaluate env db now p d).allowed = true := by
  have hrow := @rowDecision_catalogRow db now p d env hp hs
  have hanswer : rowDecision env db now p (catalogRow db d) = 1 ↔ (evaluate env db now p d).allowed = true := by
    rw [hrow]
    split <;> simp_all
  unfold authorize
  rw [if_neg (by simp [hp])]
  by_cases hearly : p.authType = .oauth ∧ ((catalogRow db d).source ≠ "mcp" ∨
      (catalogRow db d).toolId ∉ p.externalToolIds ∨ (catalogRow db d).serverId ∉ p.externalServerIds)
  · -- the early exit of an OAuth client is the external check of `_evaluate`
    have hexternal : externalAllows now p d (loadClassification db (instanceFor d) d.id) = false := by
      rw [externalAllows, serverIdOf_eq_instanceFor hs]
      rcases hearly.2 with h | h | h <;> simp_all [catalogRow]
    rw [if_pos hearly, evaluate, serverIdOf_eq_instanceFor hs, evaluateWith_allowed, hexternal]
    have hmanage : isManagementResource p = false := isManagementResource_false hp
    simp [hearly.1, hmanage]
  rw [if_neg hearly]
  by_cases hcached : p.authType ≠ .oauth ∧ ¬ isIndependent p = true
  · have hi : isIndependent p = false := by simpa using hcached.2
    rw [if_pos hcached, (memoCall_spec (fun _ _ => rowDecision_of_cacheKey hcached.1 hi)
      (authorizeAll_sound hcached.1 hi rows) _).1]
    exact hanswer
  · rw [if_neg hcached]
    exact hanswer

/-- The second call on the row is answered from the dictionary. -/
theorem catalog_search_agrees_viewer : (authorize plainEnv viewerDb 0 viewerToken
        (authorizeAll plainEnv viewerDb 0 viewerToken [catalogRow viewerDb listTool])
        (catalogRow viewerDb listTool)).1 = 1 :=
  (catalog_search_agrees plainEnv viewerDb 0 viewerToken listTool [catalogRow viewerDb listTool] rfl
    (by decide)).mpr (by decide)

end LingshuGate.AccessControl

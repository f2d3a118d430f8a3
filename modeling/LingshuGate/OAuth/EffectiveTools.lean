import Mathlib
import LingshuGate.OAuth.Script
import LingshuGate.OAuth.Target

/-!
# The effective tools of a grant (`oauth_server.py`, `oauth_candidate_catalog.py`)

| here | there |
| --- | --- |
| `Published`        | what `catalog` (oauth_server.py:454) lists with no `tool_ids` |
| `Unchanged`        | `tool_scope_matches` and the binding check of a saved tool (oauth_server.py:113, 535) |
| `Covered`          | the condition of `result.update` (oauth_server.py:542-549) |
| `Synchronized`     | `gate_tool_catalog` after `synchronize` (tool_catalog.py:150) |
| `replaceIdentity`  | the identity row deleted (mcp_config_store.py:287) and written anew (mcp_authorization_policy.py:24, 74) |

`_grant_tools` guesses candidates, from the SQL index or from the buckets of the registry, and intersects them
with the catalog afterwards. The guess has to contain every covered tool and may contain any other
(`covered_candidate`); then neither the index nor the registry is left in the result (`grantTools_get`).

A tool saved before bindings existed has no `server_binding`, and it is not checked (`unbound_tool_survives`).
-/

namespace LingshuGate.OAuth

open Lib AccessControl AuthStore

variable {D : Type} {P : Params D} {s : Snapshot} {principal : AuthPrincipal} {grant : Grant} {scopes : Finset Scope}
  {t v : Tool} {d : ToolDefinition} {tools : List Tool}

/-! ## What the result should be -/

/-- The owner's published catalog under the scopes. -/
def Published (s : Snapshot) (principal : AuthPrincipal) (scopes : Finset Scope) (t : Tool) : Prop :=
  ∃ d ∈ s.out.registry, businessTool s principal scopes d = .ok (some t)

/-- The saved entry is still the catalog's entry, and its server the one it was saved for. -/
def Unchanged (s : Snapshot) (saved t : Tool) : Prop :=
  toolScopeMatches saved t = true ∧ ∀ binding, saved.serverBinding = some binding →
      serverBinding s.out.env s.out.auth.access saved.serverId = .ok binding

/-- A server policy whose identity is the server's, and whose level is enough for the tool. -/
def Covered (s : Snapshot) (grant : Grant) (t : Tool) : Prop :=
  ∃ policy ∈ grant.serverPolicies, policy.serverId = t.serverId ∧
    serverBinding s.out.env s.out.auth.access policy.serverId = .ok policy.serverBinding ∧
    (t.access = .read ∨ policy.access = .write)

/-- A grant of the business resource, with the server policies `bind_server_policies` writes. -/
structure BusinessGrant (s : Snapshot) (grant : Grant) : Prop where
  resource : grant.resource = s.db.config.resource
  targetRevision : grant.targetRevision = 0
  /-- `tools_json` is a dictionary -/
  tools : (grant.tools.map Tool.id).Nodup
  servers : (grant.serverPolicies.map ServerPolicy.serverId).Nodup
  valid : ∀ policy ∈ grant.serverPolicies, Py.idText 512 policy.serverId = true ∧ policy.access.usable = true

/-- The index holds the rows of the registry's definitions, and no others. -/
def Synchronized (s : Snapshot) : Prop :=
  ∀ rows, s.out.candidates = some rows →
    ∀ row, row ∈ rows.map CandidateRow.row ↔ ∃ d ∈ s.out.registry, row = catalogRow s.out.auth.access d

/-- The server was deleted and built anew, with this identity row. -/
def replaceIdentity (s : Snapshot) (row : Identity) : Snapshot :=
  let access := s.out.auth.access
  { s with
    out := { s.out with
      auth := { s.out.auth with
        access := { access with identities := (access.identities.filter (·.serverId ≠ row.serverId)) ++ [row] } } } }

/-- The same state, with the candidates from another source: an index, or the registry when there is none. -/
def withCandidates (s : Snapshot) (candidates : Option (List CandidateRow))
    (ids : ∀ rows, candidates = some rows → (rows.map fun c => c.row.toolId).Nodup) : Snapshot :=
  { s with out := { s.out with candidates := candidates, candidateIds := ids } }

/-! ## Tool dictionaries -/

theorem toolGet_eq_some (h : (tools.map Tool.id).Nodup) {id : String} : toolGet tools id = some t ↔ t ∈ tools ∧ t.id = id := by
  constructor
  · intro hget
    exact ⟨List.mem_of_find?_eq_some hget, by simpa using List.find?_some hget⟩
  rintro ⟨hmem, rfl⟩
  cases hget : toolGet tools t.id with
  | none =>
    have := List.find?_eq_none.mp hget t hmem
    simp at this
  | some u =>
    have hu : u.id = t.id := by simpa using List.find?_some hget
    rw [List.inj_on_of_nodup_map h (List.mem_of_find?_eq_some hget) hmem hu]

theorem toolGet_none_of_notMem {id : String} (h : id ∉ tools.map Tool.id) : toolGet tools id = none := by
  rw [toolGet, List.find?_eq_none]
  intro u hu heq
  exact h (List.mem_map.mpr ⟨u, hu, by simpa using heq⟩)

theorem toolGet_filter (h : (tools.map Tool.id).Nodup) (f : Tool → Bool) (id : String) :
    toolGet (tools.filter f) id = (toolGet tools id).filter f := by
  ext u
  rw [toolGet_eq_some (h.sublist (List.filter_sublist.map _)), Option.filter_eq_some_iff, toolGet_eq_some h, List.mem_filter]
  tauto

theorem toolGet_id {id : String} (h : toolGet tools id = some t) : t.id = id := by
  simpa using List.find?_some h

/-- `result[t.id] = t`. -/
theorem toolGet_put (result : List Tool) (t : Tool) (id : String) :
    toolGet (if (toolGet result t.id).isSome then result.map fun r => if r.id = t.id then t else r else result ++ [t]) id =
      if t.id = id then some t else toolGet result id := by
  split
  · rename_i hsome
    have hids : (fun r : Tool => decide (r.id = id)) ∘ (fun r => if r.id = t.id then t else r) = fun r => decide (r.id = id) := by
      funext r
      by_cases hr : r.id = t.id <;> simp [hr]
    rw [toolGet, List.find?_map, hids, ← toolGet]
    split
    · rename_i hid
      obtain ⟨u, hu⟩ := Option.isSome_iff_exists.mp hsome
      rw [← hid, hu]
      simp [toolGet_id hu]
    · rename_i hid
      cases hu : toolGet result id with
      | none => rfl
      | some u => simp [toolGet_id hu, Ne.symm hid]
  rename_i hnone
  have hnone : toolGet result t.id = none := by simpa using hnone
  by_cases hid : t.id = id
  · subst hid
    simp only [toolGet] at hnone
    simp [toolGet, List.find?_append, hnone]
  · simp [toolGet, List.find?_append, hid]

/-- `result.update(new)`, read back. -/
theorem toolGet_toolsUpdate {new : List Tool} (h : (new.map Tool.id).Nodup) (result : List Tool) (id : String) :
    toolGet (toolsUpdate result new) id = (toolGet new id).or (toolGet result id) := by
  induction new generalizing result with
  | nil => rfl
  | cons t new ih =>
    rw [List.map_cons, List.nodup_cons] at h
    rw [toolsUpdate, List.foldl_cons, ← toolsUpdate, ih h.2, toolGet_put]
    by_cases hid : t.id = id
    · subst hid
      have hhead : toolGet (t :: new) t.id = some t := by simp [toolGet]
      rw [toolGet_none_of_notMem h.1, hhead, if_pos rfl, Option.none_or, Option.some_or]
    · have hhead : toolGet (t :: new) id = toolGet new id := by simp [toolGet, hid]
      rw [hhead, if_neg hid]

/-- The loop over the live policies, read back. -/
theorem toolGet_policies {current : List Tool} (h : (current.map Tool.id).Nodup) (covers : ServerPolicy → Tool → Bool)
    (policies : List ServerPolicy) (result : List Tool) (id : String) :
    toolGet (policies.foldl (fun result policy => toolsUpdate result (current.filter (covers policy))) result) id =
      ((toolGet current id).filter fun t => policies.any (covers · t)).or (toolGet result id) := by
  induction policies generalizing result with
  | nil => simp
  | cons policy policies ih =>
    rw [List.foldl_cons, ih, toolGet_toolsUpdate (h.sublist (List.filter_sublist.map _)), toolGet_filter h]
    cases toolGet current id with
    | none => simp
    | some t =>
      cases hc : covers policy t <;> cases hp : policies.any (covers · t) <;>
        simp [Option.filter_some, hc, hp]

/-! ## The catalog -/

/-- What an entry of the business catalog says of its definition. -/
structure Listed (s : Snapshot) (principal : AuthPrincipal) (scopes : Finset Scope) (d : ToolDefinition) (t : Tool) : Prop where
  id : t.id = d.id
  allowed : (evaluate s.out.env s.out.auth.access s.out.now principal d).allowed = true
  source : d.source = "mcp"
  server : d.metadata.serverId = some t.serverId
  serverId : t.serverId ≠ ""
  access : t.access.usable = true
  scope : accessScope t.access ∈ scopes
  classified : ∃ c, loadClassification s.out.auth.access t.serverId d.id = some c ∧ c.status = .published ∧
    c.effectiveAccess = t.access

theorem businessTool_listed (h : businessTool s principal scopes d = .ok (some t)) : Listed s principal scopes d t := by
  simp only [businessTool] at h
  split at h
  · cases h
  rename_i hallowed
  split at h
  · cases h
  rename_i hkeep
  simp only [Bool.or_eq_true, not_or, decide_eq_true_eq, Bool.not_eq_true, Bool.not_eq_false', ne_eq, Decidable.not_not] at hkeep
  obtain ⟨⟨⟨⟨hsource, -⟩, husable⟩, hscope⟩, hserver⟩ := hkeep
  split at h
  · cases h
  rename_i c hc
  split at h
  · cases h
  rename_i hstill
  simp only [Bool.or_eq_true, not_or, decide_eq_true_eq, ne_eq, Decidable.not_not] at hstill
  split at h
  · cases h
  simp only [Except.ok.injEq, Option.some.injEq] at h
  subst h
  refine ⟨rfl, by simpa using hallowed, hsource, ?_, hserver, husable, hscope, c, hc, hstill.1, hstill.2⟩
  cases hs : d.metadata.serverId with
  | none => simp [hs] at hserver
  | some id => rfl

theorem Published.unique (ht : Published s principal scopes t) (hv : Published s principal scopes v) (hid : t.id = v.id) :
    t = v := by
  obtain ⟨d, hd, ht⟩ := ht
  obtain ⟨e, he, hv⟩ := hv
  have hde : d = e := by
    refine List.inj_on_of_nodup_map s.out.registryIds hd he ?_
    rw [← businessTool_id ht, ← businessTool_id hv, hid]
  subst hde
  simpa using ht.symm.trans hv

/-- The definitions of a list of ids, each once. -/
theorem mem_definitions {ids : List String} : d ∈ definitions s (some ids) ↔ d ∈ s.out.registry ∧ d.id ∈ ids := by
  simp only [definitions, List.mem_filterMap, List.mem_eraseDups]
  constructor
  · rintro ⟨id, hid, hfind⟩
    have hd : d.id = id := by simpa using List.find?_some hfind
    exact ⟨List.mem_of_find?_eq_some hfind, hd ▸ hid⟩
  rintro ⟨hmem, hid⟩
  refine ⟨d.id, hid, ?_⟩
  cases hfind : s.out.registry.find? (·.id = d.id) with
  | none =>
    have := List.find?_eq_none.mp hfind d hmem
    simp at this
  | some e =>
    have he : e.id = d.id := by simpa using List.find?_some hfind
    rw [List.inj_on_of_nodup_map s.out.registryIds (List.mem_of_find?_eq_some hfind) hmem he]

theorem definitions_ids (ids : List String) : ((definitions s (some ids)).map ToolDefinition.id).Nodup := by
  have hsub : ∀ keys : List String, ((keys.filterMap fun id => s.out.registry.find? (·.id = id)).map
      ToolDefinition.id).Sublist keys := by
    intro keys
    induction keys with
    | nil => exact List.Sublist.refl _
    | cons key keys ih =>
      cases hfind : s.out.registry.find? (·.id = key) with
      | none =>
        simp only [List.filterMap_cons, hfind]
        exact ih.cons _
      | some e =>
        have he : e.id = key := by simpa using List.find?_some hfind
        simp only [List.filterMap_cons, hfind, List.map_cons, he]
        exact ih.cons_cons _
  exact (Py.nodup_eraseDups ids).sublist (hsub _)

/-- A catalog restricted to ids holds the published entries with these ids. -/
theorem businessCatalog_get {ids : List String} (h : businessCatalog s principal scopes (some ids) = .ok tools) :
    (tools.map Tool.id).Nodup ∧ ∀ id t, toolGet tools id = some t ↔ id ∈ ids ∧ t.id = id ∧ Published s principal scopes t := by
  simp only [businessCatalog, bind_eq_ok, require_eq_ok, pure_eq_ok] at h
  obtain ⟨entries, hentries, -, -, rfl⟩ := h
  have hnodup := (definitions_ids ids).sublist (businessTools_ids hentries)
  refine ⟨hnodup, fun id t => ?_⟩
  rw [toolGet_eq_some hnodup, List.mem_filterMap]
  constructor
  · rintro ⟨⟨entry, hentry, hsome⟩, rfl⟩
    obtain rfl : entry = some t := hsome
    obtain ⟨d, hd, hbusiness⟩ := mem_mapM_ok hentries hentry
    obtain ⟨hreg, hid⟩ := mem_definitions.mp hd
    exact ⟨businessTool_id hbusiness ▸ hid, rfl, d, hreg, hbusiness⟩
  rintro ⟨hid, rfl, d, hreg, hbusiness⟩
  have hd : d ∈ definitions s (some ids) := mem_definitions.mpr ⟨hreg, businessTool_id hbusiness ▸ hid⟩
  obtain ⟨entry, hentry, hok⟩ := mapM_ok_mem hentries hd
  obtain rfl : some t = entry := by simpa using hbusiness.symm.trans hok
  exact ⟨⟨_, hentry, rfl⟩, rfl⟩

theorem catalog_business {ids : Option (List String)} {resource : String} (hres : resource = s.db.config.resource)
    (h : catalog P s principal scopes resource ids = .ok tools) : businessCatalog s principal scopes ids = .ok tools := by
  simp only [catalog, bind_eq_ok] at h
  obtain ⟨policy, hpolicy, h⟩ := h
  rcases (resourcePolicy_ok hpolicy).2 with ⟨hkind, -, -⟩ | ⟨-, -, hne, -⟩
  · rw [hkind] at h
    exact h
  · exact absurd hres hne

/-! ## Candidates -/

theorem isSpace_false_of_idChar {c : Char} (h : Py.idChar c = true) : Py.isSpace c = false := by
  simp only [Py.idChar, Char.isAlphanum, Char.isAlpha, Char.isUpper, Char.isLower, Char.isDigit, Bool.or_eq_true,
    Bool.and_eq_true, decide_eq_true_eq, ge_iff_le, UInt32.le_iff_toNat_le] at h
  have hn : c.toNat = c.val.toNat := rfl
  simp only [Py.isSpace, Bool.or_eq_false_iff, Bool.and_eq_false_iff, decide_eq_false_iff_not, beq_eq_false_iff_ne]
  rcases h with ((((h | h) | h) | rfl) | rfl) | rfl
  · simp at h
    omega
  · simp at h
    omega
  · simp at h
    omega
  all_goals decide

theorem strip_of_idText {id : String} (h : Py.idText 512 id = true) : Py.strip id = id := by
  simp only [Py.idText, Bool.and_eq_true, List.all_eq_true] at h
  exact Py.strip_eq_self fun c hc => isSpace_false_of_idChar (h.2 c hc)

variable {allowed : Finset Scope} {c : CandidateRow}

/-- A listed tool of a well-named server passes the clauses of the index query. -/
theorem Listed.candidateVisible (h : Listed s principal scopes d t) (howner : manageResource principal = false)
    (hid : Py.idText 512 t.serverId = true) (hscope : accessScope t.access ∈ allowed) (hrow : c.row = catalogRow s.out.auth.access d) :
    candidateVisible s principal allowed c = true ∧ c.row.serverId = t.serverId ∧ c.row.toolId = t.id := by
  have hinstance : instanceFor d = t.serverId := by
    simp [instanceFor, h.server, h.serverId]
  have hstrip : Py.strip (instanceFor d) = instanceFor d := by
    rw [hinstance]
    exact strip_of_idText hid
  obtain ⟨cls, hload, hstatus, heffective⟩ := h.classified
  have hclassified : c.row.classified = some (t.access, .published) := by
    rw [hrow]
    simp [catalogRow, hinstance, hload, hstatus, heffective]
  have hdecision : rowDecision s.out.env s.out.auth.access s.out.now principal c.row = 1 := by
    rw [hrow, rowDecision_catalogRow howner hstrip, if_pos h.allowed]
  have hsource : c.row.source = "mcp" := by
    rw [hrow]
    exact h.source
  have hserver : c.row.serverId = t.serverId := by
    rw [hrow]
    exact hinstance
  refine ⟨?_, hserver, ?_⟩
  · simp [OAuth.candidateVisible, hsource, hserver, h.serverId, hdecision, hclassified, h.access, hscope]
  · rw [hrow]
    exact h.id.symm

/-- What `resolve` returns, when it returns. -/
theorem mem_resolve {rows : List CandidateRow} {serverIds ids : List String}
    (h : resolve s rows principal allowed serverIds = .ok ids) (hc : c ∈ rows)
    (hvisible : candidateVisible s principal allowed c = true) (hserver : c.row.serverId ∈ serverIds) :
    c.row.toolId ∈ ids := by
  simp only [resolve, bind_eq_ok, require_eq_ok, pure_eq_ok] at h
  obtain ⟨-, -, -, -, -, -, rfl⟩ := h
  refine List.mem_map.mpr ⟨c, List.mem_filter.mpr ⟨hc, ?_⟩, rfl⟩
  simp [hvisible, hserver]

/-- The query of one level, left out when no policy has that level. -/
theorem mem_levelCandidates {rows : List CandidateRow} {serverIds ids : List String}
    (h : levelCandidates s rows principal allowed serverIds = .ok ids) (hc : c ∈ rows)
    (hvisible : candidateVisible s principal allowed c = true) (hserver : c.row.serverId ∈ serverIds) :
    c.row.toolId ∈ ids := by
  rw [levelCandidates] at h
  split at h
  · rename_i hempty
    rw [hempty] at hserver
    cases hserver
  · exact mem_resolve h hc hvisible hserver

theorem accessScope_business (access : Access) : accessScope access ∈ businessScopes := by
  simp only [accessScope, businessScopes]
  split <;> simp

/-- Every tool a live policy covers is among its candidates, whichever source they come from. -/
theorem covered_candidate (hindex : Synchronized s) (howner : manageResource principal = false)
    {policies : List ServerPolicy} {ids : List String} (h : policyCandidates s principal scopes policies = .ok ids)
    (ht : Published s principal scopes t) {policy : ServerPolicy} (hpolicy : policy ∈ policies)
    (hserver : policy.serverId = t.serverId) (hvalid : Py.idText 512 policy.serverId = true)
    (husable : policy.access.usable = true) (hlevel : t.access = .read ∨ policy.access = .write) : t.id ∈ ids := by
  obtain ⟨d, hd, hbusiness⟩ := ht
  have hlisted := businessTool_listed hbusiness
  have hne : policies ≠ [] := List.ne_nil_of_mem hpolicy
  rw [hserver] at hvalid
  simp only [policyCandidates, if_neg hne] at h
  split at h
  · rename_i rows hrows
    -- the index holds the tool's row, and one of the two queries asks for it
    obtain ⟨c, hc, hrow⟩ := List.mem_map.mp ((hindex rows hrows (catalogRow s.out.auth.access d)).mpr ⟨d, hd, rfl⟩)
    simp only [bind_eq_ok, pure_eq_ok] at h
    obtain ⟨reads, hreads, writes, hwrites, rfl⟩ := h
    have hmem : ∀ access : Access, policy.access = access →
        c.row.serverId ∈ (policies.filter (·.access = access)).map ServerPolicy.serverId := by
      intro access haccess
      rw [hrow]
      refine List.mem_map.mpr ⟨policy, List.mem_filter.mpr ⟨hpolicy, by simpa using haccess⟩, ?_⟩
      simp [catalogRow, instanceFor, hlisted.server, hlisted.serverId, hserver]
    by_cases hwrite : policy.access = .write
    · obtain ⟨hvisible, -, hid⟩ := hlisted.candidateVisible howner hvalid
        (Finset.mem_inter.mpr ⟨hlisted.scope, accessScope_business t.access⟩) hrow
      have hfound := mem_levelCandidates hwrites hc hvisible (hmem .write hwrite)
      exact List.mem_append_right _ (hid ▸ hfound)
    have hread : policy.access = .read := by
      cases ha : policy.access <;> simp_all [Access.usable]
    have htool : t.access = .read := hlevel.resolve_right hwrite
    have hscope : accessScope t.access ∈ scopes ∩ {.toolsRead} := by
      refine Finset.mem_inter.mpr ⟨hlisted.scope, ?_⟩
      simp [accessScope, htool]
    obtain ⟨hvisible, -, hid⟩ := hlisted.candidateVisible howner hvalid hscope hrow
    have hfound := mem_levelCandidates hreads hc hvisible (hmem .read hread)
    exact List.mem_append_left _ (hid ▸ hfound)
  simp only [bind_eq_ok, require_eq_ok, pure_eq_ok] at h
  obtain ⟨-, -, rfl⟩ := h
  refine List.mem_map.mpr ⟨d, List.mem_filter.mpr ⟨hd, ?_⟩, hlisted.id.symm⟩
  have hany : ∃ q ∈ policies, q.serverId = t.serverId := ⟨policy, hpolicy, hserver⟩
  simpa [hlisted.source, hlisted.server] using hany

/-! ## The result -/

theorem bindingIs_iff {serverId binding : String} :
    bindingIs s serverId binding = true ↔ serverBinding s.out.env s.out.auth.access serverId = .ok binding := by
  unfold bindingIs
  split
  · rename_i current hcurrent
    simp [hcurrent]
  · rename_i hcurrent
    simp [hcurrent]

theorem unchanged_iff {saved : Tool} :
    (toolScopeMatches saved t && saved.serverBinding.all (bindingIs s saved.serverId)) = true ↔ Unchanged s saved t := by
  rw [Bool.and_eq_true, Unchanged, Option.all_eq_true]
  simp only [bindingIs_iff]

theorem Unchanged.id {saved : Tool} (h : Unchanged s saved t) : t.id = saved.id := by
  have hmatch := h.1
  simp only [toolScopeMatches, Bool.and_eq_true, decide_eq_true_eq] at hmatch
  exact hmatch.1.1.1.symm

/-- What `_grant_tools` finds at an id: the catalog's entry under a live policy, else the saved entry. -/
theorem grantTools_get (hgrant : BusinessGrant s grant) (hindex : Synchronized s) (howner : manageResource principal = false)
    (h : grantTools P s principal grant scopes = .ok tools) (id : String) (v : Tool) :
    toolGet tools id = some v ↔ (v.id = id ∧ Published s principal scopes v ∧ Covered s grant v) ∨ (v ∈ grant.tools ∧ v.id = id ∧
        ∃ t, Published s principal scopes t ∧ Unchanged s v t ∧ ¬ Covered s grant t) := by
  simp only [grantTools, bind_eq_ok, require_eq_ok, pure_eq_ok, hgrant.targetRevision, if_true] at h
  obtain ⟨-, -, extra, hextra, current, hcurrent, rfl⟩ := h
  obtain ⟨hnodup, hget⟩ := businessCatalog_get (catalog_business hgrant.resource hcurrent)
  set live := grant.serverPolicies.filter fun policy => bindingIs s policy.serverId policy.serverBinding with hlive
  have hcovers : ∀ t, (live.any fun policy =>
      decide (t.serverId = policy.serverId) && (decide (policy.access = .write) || decide (t.access = .read))) = true ↔
      Covered s grant t := by
    intro t
    simp only [List.any_eq_true, hlive, List.mem_filter, bindingIs_iff, Bool.and_eq_true, Bool.or_eq_true,
      decide_eq_true_eq, Covered]
    constructor
    · rintro ⟨policy, ⟨hmem, hbinding⟩, hserver, hlevel⟩
      exact ⟨policy, hmem, hserver.symm, hbinding, hlevel.symm⟩
    · rintro ⟨policy, hmem, hserver, hbinding, hlevel⟩
      exact ⟨policy, ⟨hmem, hbinding⟩, hserver.symm, hlevel.symm⟩
  have hcandidate : ∀ t, Published s principal scopes t → Covered s grant t → t.id ∈ extra := by
    rintro t ht ⟨policy, hmem, hserver, hbinding, hlevel⟩
    have hpolicy : policy ∈ live := List.mem_filter.mpr ⟨hmem, bindingIs_iff.mpr hbinding⟩
    obtain ⟨hvalid, husable⟩ := hgrant.valid policy hmem
    exact covered_candidate hindex howner hextra ht hpolicy hserver hvalid husable hlevel
  have hkept := hgrant.tools.sublist ((List.filter_sublist (p := fun t =>
    (toolGet current t.id).any (toolScopeMatches t) && t.serverBinding.all (bindingIs s t.serverId))).map Tool.id)
  rw [toolGet_policies hnodup (fun policy t =>
      decide (t.serverId = policy.serverId) && (decide (policy.access = .write) || decide (t.access = .read))),
    Option.or_eq_some_iff, Option.filter_eq_some_iff, toolGet_eq_some hkept, List.mem_filter, hget, hcovers]
  have hnone : (toolGet current id).filter (fun t => live.any fun policy =>
      decide (t.serverId = policy.serverId) && (decide (policy.access = .write) || decide (t.access = .read))) = none ↔
      ∀ t, t.id = id → Published s principal scopes t → ¬ Covered s grant t := by
    rw [Option.filter_eq_none_iff]
    constructor
    · intro hall t hid ht hcov
      exact hall t ((hget id t).mpr ⟨List.mem_append_right _ (hid ▸ hcandidate t ht hcov), hid, ht⟩) ((hcovers t).mpr hcov)
    · intro hall t htget hcov
      obtain ⟨-, hid, ht⟩ := (hget id t).mp htget
      exact hall t hid ht ((hcovers t).mp hcov)
  rw [hnone]
  constructor
  · rintro (⟨⟨-, hid, hpub⟩, hcov⟩ | ⟨hnot, ⟨hmem, hcheck⟩, hid⟩)
    · exact .inl ⟨hid, hpub, hcov⟩
    rw [Bool.and_eq_true, Option.any_eq_true] at hcheck
    obtain ⟨⟨t, htget, hmatch⟩, hbinding⟩ := hcheck
    obtain ⟨-, htid, ht⟩ := (hget v.id t).mp htget
    refine .inr ⟨hmem, hid, t, ht, unchanged_iff.mp ?_, hnot t (htid.trans hid) ht⟩
    rw [hmatch, hbinding, Bool.and_self]
  rintro (⟨hid, hpub, hcov⟩ | ⟨hmem, hid, t, ht, hunchanged, hnot⟩)
  · exact .inl ⟨⟨List.mem_append_right _ (hid ▸ hcandidate v hpub hcov), hid, hpub⟩, hcov⟩
  have hcheck := unchanged_iff.mpr hunchanged
  rw [Bool.and_eq_true] at hcheck
  have htid : t.id = v.id := hunchanged.id
  have htget : toolGet current v.id = some t :=
    (hget v.id t).mpr ⟨List.mem_append_left _ (List.mem_map_of_mem hmem), htid, ht⟩
  refine .inr ⟨?_, ⟨hmem, ?_⟩, hid⟩
  · intro u huid hu hcov
    have : u = t := hu.unique ht (by rw [huid, htid, hid])
    exact hnot (this ▸ hcov)
  · simp [htget, hcheck.1, hcheck.2]

/-- The keys of the result, in terms of the catalog. -/
theorem grantTools_keys (hgrant : BusinessGrant s grant) (hindex : Synchronized s) (howner : manageResource principal = false)
    (h : grantTools P s principal grant scopes = .ok tools) (id : String) :
    (toolGet tools id).isSome ↔ ∃ t, t.id = id ∧ Published s principal scopes t ∧
        ((∃ saved ∈ grant.tools, Unchanged s saved t) ∨ Covered s grant t) := by
  rw [Option.isSome_iff_exists]
  simp only [grantTools_get hgrant hindex howner h]
  constructor
  · rintro ⟨v, ⟨hid, hpub, hcov⟩ | ⟨hmem, hid, t, ht, hunchanged, -⟩⟩
    · exact ⟨v, hid, hpub, .inr hcov⟩
    · exact ⟨t, hunchanged.id.trans hid, ht, .inl ⟨v, hmem, hunchanged⟩⟩
  rintro ⟨t, hid, ht, hcase⟩
  by_cases hcov : Covered s grant t
  · exact ⟨t, .inl ⟨hid, ht, hcov⟩⟩
  · obtain ⟨saved, hmem, hunchanged⟩ := hcase.resolve_right hcov
    exact ⟨saved, .inr ⟨hmem, hunchanged.id.symm.trans hid, t, ht, hunchanged, hcov⟩⟩

/-- The only row of the rebuilt server is the new one. -/
theorem serverBinding_replaceIdentity {row : Identity} {binding : String}
    (h : serverBinding (replaceIdentity s row).out.env (replaceIdentity s row).out.auth.access row.serverId = .ok binding) :
    binding = row.binding := by
  have hfind : (replaceIdentity s row).out.auth.access.identities.find? (·.serverId = row.serverId) = some row := by
    have hold : (s.out.auth.access.identities.filter (·.serverId ≠ row.serverId)).find? (·.serverId = row.serverId) = none := by
      rw [List.find?_eq_none]
      intro r hr
      simpa using (List.mem_filter.mp hr).2
    show ((s.out.auth.access.identities.filter (·.serverId ≠ row.serverId)) ++ [row]).find? (·.serverId = row.serverId) = _
    rw [List.find?_append, hold]
    simp
  rw [serverBinding, hfind] at h
  simp only at h
  split at h
  · exact (Except.ok.inj h).symm
  split at h
  · cases h
  split at h
  · exact (Except.ok.inj h).symm
  · cases h

/-- **The effective tools of a grant**: the keys of the result are the published tools that are saved and unchanged or
covered by a live policy; the result is the same from the index and from the registry; a tool of a rebuilt server is
there only under a policy or a saved tool with the new identity, or under a tool saved with no identity. -/
theorem effective_tools (P : Params D) (s : Snapshot) (principal : AuthPrincipal) (grant : Grant) (scopes : Finset Scope)
    (tools : List Tool) (hgrant : BusinessGrant s grant) (hindex : Synchronized s)
    (howner : manageResource principal = false) (h : grantTools P s principal grant scopes = .ok tools) :
    (∀ id, (toolGet tools id).isSome ↔ ∃ t, t.id = id ∧ Published s principal scopes t ∧
        ((∃ saved ∈ grant.tools, Unchanged s saved t) ∨ Covered s grant t)) ∧
    (∀ candidates ids tools', Synchronized (withCandidates s candidates ids) →
      grantTools P (withCandidates s candidates ids) principal grant scopes = .ok tools' →
      ∀ id, toolGet tools' id = toolGet tools id) ∧
    ∀ before row, s = replaceIdentity before row → ∀ id v, toolGet tools id = some v → v.serverId = row.serverId →
        (∃ policy ∈ grant.serverPolicies, policy.serverId = row.serverId ∧ policy.serverBinding = row.binding) ∨
        ∃ saved ∈ grant.tools, saved.id = id ∧ saved.serverId = row.serverId ∧
          (saved.serverBinding = some row.binding ∨ saved.serverBinding = none) := by
  refine ⟨grantTools_keys hgrant hindex howner h, ?_, ?_⟩
  · intro candidates ids tools' hindex' h' id
    have hgrant' : BusinessGrant (withCandidates s candidates ids) grant := { hgrant with resource := hgrant.resource }
    ext v
    -- nothing on the right side of `grantTools_get` reads the candidates
    rw [grantTools_get hgrant hindex howner h, grantTools_get hgrant' hindex' howner h']
    exact Iff.rfl
  intro before row hs id v hv hserver
  rcases (grantTools_get hgrant hindex howner h id v).mp hv with ⟨-, -, policy, hmem, hpolicy, hbinding, -⟩ |
    ⟨hmem, hid, t, -, ⟨-, hbinding⟩, -⟩
  · have hrow : policy.serverId = row.serverId := hpolicy.trans hserver
    rw [hrow, hs] at hbinding
    exact .inl ⟨policy, hmem, hrow, serverBinding_replaceIdentity hbinding⟩
  refine .inr ⟨v, hmem, hid, hserver, ?_⟩
  cases hsaved : v.serverBinding with
  | none => exact .inr rfl
  | some binding =>
    have := hbinding binding hsaved
    rw [hserver, hs] at this
    rw [serverBinding_replaceIdentity this]
    exact .inl rfl

/-- The viewer's `files`, with the candidate index of the registry. -/
def indexedState : Snapshot where
  db := { config := ⟨true, demoIssuer, demoResource, 1⟩ }
  out := { demoOut 5 with
    candidates := some [⟨catalogRow demoAuth.access listTool, "", "f1", some "r1"⟩]
    candidateIds := by simp }

/-- A grant for whatever `files` offers to read. -/
def policyGrant : Grant where
  id := "grant"
  userId := "u1"
  clientId := "client"
  resource := demoResource
  scopes := {.toolsRead}
  tools := []
  expiresAt := 100
  ratePerMinute := 60
  concurrency := 2
  serverPolicies := [⟨"files", .read, "files-1"⟩]

theorem indexedState_synchronized : Synchronized indexedState := by
  intro rows hrows row
  obtain rfl : [⟨catalogRow demoAuth.access listTool, "", "f1", some "r1"⟩] = rows := by simpa [indexedState] using hrows
  simp [indexedState, demoOut]

theorem registryState_synchronized (s : Snapshot) : Synchronized (withCandidates s none (by simp)) := by
  intro rows hrows
  cases hrows

theorem policyGrant_business : BusinessGrant indexedState policyGrant := ⟨rfl, rfl, by decide, by decide, by decide⟩

theorem indexedState_tools : grantTools demo indexedState demoViewer policyGrant {.toolsRead} =
    .ok [⟨"files.list", "", "files", .read, "f1", none⟩] := by
  decide +kernel

/-- The tool is found through the index, and the registry gives the same. -/
theorem effective_tools_files : (∃ t, t.id = "files.list" ∧ Published indexedState demoViewer {.toolsRead} t ∧
      ((∃ saved ∈ policyGrant.tools, Unchanged indexedState saved t) ∨ Covered indexedState policyGrant t)) ∧
    ∀ tools', grantTools demo (withCandidates indexedState none (by simp)) demoViewer policyGrant {.toolsRead} = .ok tools' →
      toolGet tools' "files.list" = some ⟨"files.list", "", "files", .read, "f1", none⟩ := by
  have hspec := effective_tools demo indexedState demoViewer policyGrant {.toolsRead}
    [⟨"files.list", "", "files", .read, "f1", none⟩] policyGrant_business indexedState_synchronized (by decide)
  obtain ⟨hkeys, hsame, -⟩ := hspec indexedState_tools
  refine ⟨(hkeys "files.list").mp (by simp [toolGet]), fun tools' h' => ?_⟩
  rw [hsame none (by simp) tools' (registryState_synchronized _) h' "files.list"]
  simp [toolGet]

/-- `files` built anew, with the identity `files-2`. -/
def rebuiltState : Snapshot := replaceIdentity indexedState ⟨"files", "files-2", "", ""⟩

/-- The tool of `files` as it was saved before bindings existed, under the name of a server. -/
def unboundGrant (serverId : String) : Grant :=
  { policyGrant with
    tools := [⟨"files.list", "", serverId, .read, "f1", none⟩]
    serverPolicies := [] }

/-- The tool of the rebuilt server comes back although nothing in the grant names the new identity; and a tool saved
with the same access and snapshot for another server does not. -/
theorem unbound_tool_survives : grantTools demo rebuiltState demoViewer (unboundGrant "files") {.toolsRead} =
        .ok [⟨"files.list", "", "files", .read, "f1", none⟩] ∧
      BusinessGrant rebuiltState (unboundGrant "files") ∧ Synchronized rebuiltState ∧
      manageResource demoViewer = false ∧
      (¬ ∃ policy ∈ (unboundGrant "files").serverPolicies, policy.serverBinding = "files-2") ∧
      (¬ ∃ saved ∈ (unboundGrant "files").tools, saved.serverBinding = some "files-2") ∧
      grantTools demo rebuiltState demoViewer (unboundGrant "archive") {.toolsRead} = .ok [] := by
  refine ⟨by decide +kernel, ⟨rfl, rfl, by decide, by decide, by decide⟩, indexedState_synchronized, by decide, by decide,
    by decide, by decide +kernel⟩

end LingshuGate.OAuth

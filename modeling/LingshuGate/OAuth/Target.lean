import LingshuGate.OAuth.Scope

/-!
# A preview and its update come to the same target

| here | there |
| --- | --- |
| `Agree`           | what equal catalog digests say about two catalogs |
| `Bound`           | what `_scope_policies` returns for the policies submitted (oauth_server.py:612-665) |
| `Chosen`          | a change that is not quota-only (oauth_server.py:715-739) |
| `Tool.approved`   | a tool but for its display name |

The confirmed target is not stored. `update_scope` builds a target of its own, from its own request and its own reading
of the catalog, and compares digests; the digest covers the ids and server bindings of the tools, the rest of a tool is
covered by the catalog digest, and for a quota change by the revision of the grant. `same_tools` puts the three together.
-/

namespace LingshuGate.OAuth

open Lib AccessControl AuthStore

variable {D : Type} [DecidableEq D] {P : Params D} {s s₁ s₂ : Snapshot}

/-! ## Catalogs -/

/-- Tools of one id are one tool, up to its display name. -/
def Agree (a b : List Tool) : Prop := ∀ t ∈ a, ∀ t' ∈ b, t.id = t'.id → t.row = t'.row

theorem Agree.of_rows {a b : List Tool} (h : toolRows a = toolRows b) (hb : (b.map Tool.id).Nodup) : Agree a b := by
  intro t ht t' ht' hid
  have hrow : t.row ∈ toolRows b := by
    rw [← h]
    exact List.mem_toFinset.mpr (List.mem_map_of_mem ht)
  obtain ⟨t'', ht'', hrow''⟩ := List.mem_map.mp (List.mem_toFinset.mp hrow)
  have hid'' : t''.id = t'.id := (congrArg Prod.fst hrow'').trans hid
  rw [← hrow'', List.inj_on_of_nodup_map hb ht'' ht' hid'']

variable {scopes : Finset Scope} {principal : AuthPrincipal}

theorem businessTool_id {d : ToolDefinition} {t : Tool} (h : businessTool s principal scopes d = .ok (some t)) : t.id = d.id := by
  simp only [businessTool] at h
  split at h
  · cases h
  split at h
  · cases h
  split at h
  · cases h
  split at h
  · cases h
  split at h
  · cases h
  · simp only [Except.ok.injEq, Option.some.injEq] at h
    subst h
    rfl

theorem businessTools_ids {ds : List ToolDefinition}
    {entries : List (Option Tool)} (h : ds.mapM (businessTool s principal scopes) = .ok entries) :
    ((entries.filterMap id).map Tool.id).Sublist (ds.map ToolDefinition.id) := by
  induction ds generalizing entries with
  | nil =>
    obtain rfl := pure_eq_ok.mp h
    exact List.Sublist.refl _
  | cons d ds ih =>
    simp only [List.mapM_cons, bind_eq_ok, pure_eq_ok] at h
    obtain ⟨entry, hentry, rest, hrest, rfl⟩ := h
    cases entry with
    | none => exact (ih hrest).cons _
    | some t =>
      have hid := businessTool_id hentry
      simp only [List.filterMap_cons, id, List.map_cons, hid]
      exact (ih hrest).cons_cons _

theorem scopeCatalog_ids {client : Client} {eligible visible : List Tool}
    (h : scopeCatalog s principal scopes client = .ok (eligible, visible)) : (eligible.map Tool.id).Nodup := by
  simp only [scopeCatalog, businessCatalog, bind_eq_ok, require_eq_ok, pure_eq_ok, Prod.mk.injEq] at h
  obtain ⟨-, ⟨entries, hentries, -, -, rfl⟩, rfl, -⟩ := h
  have hvisible := s.out.registryIds.sublist (businessTools_ids hentries)
  exact hvisible.sublist (List.filter_sublist.map _)

variable {caller caller₁ caller₂ : AuthPrincipal} {session session₁ session₂ grantId grantId₁ grantId₂ : String}
  {toolIds toolIds₁ toolIds₂ : List String} {page₁ page₂ : Option (Page D)} {ctx ctx₁ ctx₂ : ScopeContext D}

/-- An unpaged call reads the registry; its binding has the digest of what it read. -/
theorem scopeContext_whole (h : scopeContext P s caller session grantId toolIds none = .ok ctx) :
    ctx.binding.catalogDigest = P.catalogDigest (toolRows ctx.catalog) ∧ (ctx.catalog.map Tool.id).Nodup := by
  simp only [scopeContext, wholeContext, bind_eq_ok, pure_eq_ok] at h
  obtain ⟨principal, -, ⟨grant, client, config⟩, -, ⟨eligible, visible⟩, hcatalog, rfl⟩ := h
  exact ⟨rfl, scopeCatalog_ids hcatalog⟩

theorem selected_mem {rows : List CandidateRow} {owner : AuthPrincipal} {ids : List String}
    {tools : List Tool} (h : selected s rows owner scopes ids = .ok tools) {t : Tool} (ht : t ∈ tools) :
    ∃ c ∈ rows, t = c.summary s := by
  unfold selected at h
  split at h
  · obtain rfl := pure_eq_ok.mp h
    cases ht
  · simp only [bind_eq_ok, require_eq_ok, pure_eq_ok] at h
    obtain ⟨-, -, rfl⟩ := h
    obtain ⟨c, hc, rfl⟩ := List.mem_map.mp ht
    exact ⟨c, (List.mem_filter.mp hc).1, rfl⟩

/-- A paged call reads the candidate index; its binding has the digest of the index's revision marker. -/
theorem scopeContext_paged {page : Page D} (h : scopeContext P s caller session grantId toolIds (some page) = .ok ctx) :
    (∃ rows, s.out.candidates = some rows ∧ ∀ t ∈ ctx.catalog, ∃ c ∈ rows, t = c.summary s) ∧
      ∃ state, ctx.binding.catalogDigest = P.candidateDigest state ∧ state.marker = s.out.marker := by
  simp only [scopeContext, pagedContext, candidateBinding, bind_eq_ok, expect_eq_ok, require_eq_ok, pure_eq_ok] at h
  obtain ⟨principal, -, ⟨grant, client, config⟩, -, -, -, ceiling, -, rows, hrows, tools, htools, binding, ⟨-, -, rfl⟩, -, -,
    rfl⟩ := h
  exact ⟨⟨rows, hrows, fun t ht => selected_mem htools ht⟩, _, rfl, rfl⟩

/-- What a paged catalog also rests on: the rows of the index and the pure `tool_snapshot`. -/
def SameIndex (a b : Outside) : Prop := a.candidates = b.candidates ∧ a.env.toolSnapshot = b.env.toolSnapshot

/-- Two readings under one catalog digest agree on every tool they share. -/
theorem scopeContext_agree (h₁ : scopeContext P s₁ caller₁ session₁ grantId₁ toolIds₁ page₁ = .ok ctx₁)
    (h₂ : scopeContext P s₂ caller₂ session₂ grantId₂ toolIds₂ page₂ = .ok ctx₂) (hpaged : page₁.isSome = page₂.isSome)
    (hdigest : ctx₁.binding.catalogDigest = ctx₂.binding.catalogDigest) (hinj : Function.Injective P.catalogDigest)
    (hindex : page₂.isSome = true → SameIndex s₁.out s₂.out) : Agree ctx₁.catalog ctx₂.catalog := by
  cases page₁ with
  | none =>
    cases page₂ with
    | none =>
      obtain ⟨hd₁, -⟩ := scopeContext_whole h₁
      obtain ⟨hd₂, hnodup⟩ := scopeContext_whole h₂
      exact .of_rows (hinj (hd₁.symm.trans (hdigest.trans hd₂))) hnodup
    | some page => cases hpaged
  | some page =>
    cases page₂ with
    | none => cases hpaged
    | some page' =>
      obtain ⟨⟨rows, hrows, hmem₁⟩, -⟩ := scopeContext_paged h₁
      obtain ⟨⟨rows', hrows', hmem₂⟩, -⟩ := scopeContext_paged h₂
      obtain ⟨hcandidates, hsnapshot⟩ := hindex rfl
      rw [hcandidates, hrows'] at hrows
      obtain rfl := Option.some.inj hrows
      intro t ht t' ht' hid
      obtain ⟨c, hc, rfl⟩ := hmem₁ t ht
      obtain ⟨c', hc', rfl⟩ := hmem₂ t' ht'
      obtain rfl := List.inj_on_of_nodup_map (s₂.out.candidateIds _ hrows') hc hc' hid
      simp only [Tool.row, CandidateRow.summary, hsnapshot]

/-! ## Policies -/

/-- The policies bound for a submission: one for each, of the same intent and of the binding it names. -/
structure Bound (submitted : List SubmittedPolicy) (policies : List ServerPolicy) : Prop where
  extraKeys : submitted.any SubmittedPolicy.extraKeys = false
  serverIds : (submitted.map SubmittedPolicy.serverId).Nodup
  intents : (submitted.map SubmittedPolicy.intent).Perm (policies.map ServerPolicy.intent)
  bindings : ∀ p ∈ submitted, ∀ b, p.serverBinding = some b → ∃ q ∈ policies, q.serverId = p.serverId ∧ q.serverBinding = b

theorem bindServer_ok {policy : SubmittedPolicy} {result : ServerPolicy} (h : bindServer s policy = .ok result) :
    result.intent = policy.intent ∧ ∀ b, policy.serverBinding = some b → result.serverBinding = b := by
  obtain ⟨⟨-, hmode, -⟩, -, hnamed, hresult⟩ := bindServerPolicy_ok.mp (mapError_eq_ok.mp h)
  refine ⟨?_, fun b hb => (hnamed b hb).symm⟩
  rw [hresult]
  simp [ServerPolicy.intent, SubmittedPolicy.intent, hmode]

variable {previous : List ServerPolicy}

theorem bindPolicy_ok {policy : SubmittedPolicy} {bound : BoundPolicy} (h : bindPolicy s previous policy = .ok bound) :
    bound.policy.intent = policy.intent ∧ ∀ b, policy.serverBinding = some b → bound.policy.serverBinding = b := by
  unfold bindPolicy at h
  split at h
  · simp only [bind_eq_ok, pure_eq_ok] at h
    obtain ⟨result, hresult, rfl⟩ := h
    exact bindServer_ok hresult
  rename_i old hfind
  split at h
  · rename_i hkept
    obtain rfl := pure_eq_ok.mp h
    have hid : old.serverId = policy.serverId := by simpa using List.find?_some hfind
    simp only [SubmittedPolicy.unchanged, Bool.and_eq_true, decide_eq_true_eq] at hkept
    refine ⟨by simp [ServerPolicy.intent, SubmittedPolicy.intent, hid, hkept.1.1, hkept.1.2], ?_⟩
    intro b hb
    simpa [hb] using hkept.2.symm
  simp only [bind_eq_ok, pure_eq_ok] at h
  obtain ⟨result, hresult, rfl⟩ := h
  obtain ⟨hintent, hbinding⟩ := bindServer_ok hresult
  refine ⟨hintent, ?_⟩
  intro b hb
  exact hbinding b (by simp [hb])

variable {submitted : List SubmittedPolicy}

theorem bindPolicies_bound {seen : List String}
    {bound : List BoundPolicy} (h : bindPolicies s previous seen submitted = .ok bound) :
    Bound submitted (bound.map BoundPolicy.policy) ∧ ∀ p ∈ submitted, p.serverId ∉ seen := by
  induction submitted generalizing seen bound with
  | nil =>
    obtain rfl := pure_eq_ok.mp h
    exact ⟨⟨rfl, List.nodup_nil, List.Perm.refl _, fun p hp => by cases hp⟩, fun p hp => by cases hp⟩
  | cons policy rest ih =>
    simp only [bindPolicies, bind_eq_ok, require_eq_ok, pure_eq_ok, Bool.and_eq_true, Bool.not_eq_true'] at h
    obtain ⟨-, ⟨hseen, hextra⟩, b, hb, others, hothers, rfl⟩ := h
    obtain ⟨hbound, hnew⟩ := ih hothers
    obtain ⟨hintent, hbinding⟩ := bindPolicy_ok hb
    refine ⟨⟨?_, ?_, ?_, ?_⟩, ?_⟩
    · rw [List.any_cons, hextra, hbound.extraKeys, Bool.or_false]
    · refine List.nodup_cons.mpr ⟨?_, hbound.serverIds⟩
      intro hmem
      obtain ⟨p, hp, hid⟩ := List.mem_map.mp hmem
      exact hnew p hp (by simp [hid])
    · simp only [List.map_cons, hintent]
      exact hbound.intents.cons _
    · intro p hp b' hb'
      rcases List.mem_cons.mp hp with rfl | hp
      · exact ⟨b.policy, by simp, congrArg Prod.fst hintent, hbinding b' hb'⟩
      · obtain ⟨q, hq, hrest⟩ := hbound.bindings p hp b' hb'
        exact ⟨q, by simp [hq], hrest⟩
    · intro p hp
      rcases List.mem_cons.mp hp with rfl | hp
      · simpa using hseen
      · exact fun hmem => hnew p hp (List.mem_cons_of_mem _ hmem)

theorem scopePolicies_bound {targetRevision : Nat} {client : Client} {picked : List Tool}
    {policies : List ServerPolicy}
    (h : scopePolicies s principal targetRevision scopes previous client submitted picked = .ok policies) :
    Bound submitted policies := by
  simp only [scopePolicies] at h
  split at h
  · rename_i hnil
    obtain rfl := pure_eq_ok.mp h
    subst hnil
    exact ⟨rfl, List.nodup_nil, List.Perm.refl _, fun p hp => by cases hp⟩
  simp only [bind_eq_ok, require_eq_ok, pure_eq_ok] at h
  obtain ⟨-, -, -, -, bound, hbound, ceiling, -, -, -, -, -, rfl⟩ := h
  obtain ⟨hb, -⟩ := bindPolicies_bound hbound
  have hperm := (List.perm_insertionSort (fun a b : BoundPolicy => a.policy.serverId ≤ b.policy.serverId) bound).map
    BoundPolicy.policy
  refine ⟨hb.extraKeys, hb.serverIds, hb.intents.trans (hperm.map _).symm, ?_⟩
  intro p hp b' hb'
  obtain ⟨q, hq, hrest⟩ := hb.bindings p hp b' hb'
  exact ⟨q, hperm.mem_iff.mpr hq, hrest⟩

/-- What is bound to the saved policies keeps every saved binding. -/
theorem Bound.keepsBinding {saved : List ServerPolicy} (h : Bound submitted saved) :
    submitted.all (·.keepsBinding saved) = true := by
  have hids : (saved.map ServerPolicy.serverId).Nodup := by
    have hperm := h.intents.map Prod.fst
    rw [List.map_map, List.map_map] at hperm
    exact hperm.nodup_iff.mp h.serverIds
  refine List.all_eq_true.mpr ?_
  intro p hp
  refine (Option.all_eq_true _ _).mpr ?_
  intro b hb
  obtain ⟨q, hq, hid, hbinding⟩ := h.bindings p hp b hb
  obtain ⟨old, hfind⟩ : ∃ old, saved.find? (·.serverId = p.serverId) = some old := by
    refine Option.isSome_iff_exists.mp (List.find?_isSome.mpr ⟨q, hq, ?_⟩)
    simpa using hid
  have holdId : old.serverId = p.serverId := by simpa using List.find?_some hfind
  obtain rfl := List.inj_on_of_nodup_map hids (List.mem_of_find?_eq_some hfind) hq (holdId.trans hid.symm)
  simp [hfind, hbinding]

/-! ## Changes -/

/-- A change that is not quota-only: the tools asked for, as the catalog has them, bound to their servers. -/
structure Chosen (ctx : ScopeContext D) (request : ScopeRequest) (change : ScopeChange D) : Prop where
  toolIds : change.tools.map Tool.id = request.toolIds.insertionSort (· ≤ ·)
  nodup : request.toolIds.Nodup
  rows : ∀ t ∈ change.tools, ∃ t₀ ∈ ctx.catalog, t.row = t₀.row
  policies : Bound (submittedPolicies ctx.grant request) change.policies

theorem toolGet_ids {catalog : List Tool} {ids : List String} (h : ids.all fun id => (toolGet catalog id).isSome) :
    (ids.filterMap (toolGet catalog)).map Tool.id = ids := by
  induction ids with
  | nil => rfl
  | cons id ids ih =>
    simp only [List.all_cons, Bool.and_eq_true] at h
    obtain ⟨t, ht⟩ := Option.isSome_iff_exists.mp h.1
    have hid : t.id = id := by simpa using List.find?_some ht
    rw [List.filterMap_cons_some ht, List.map_cons, hid, ih h.2]

/-- Binding a tool to its server changes nothing else. -/
theorem bindToolSnapshots_rows {tools bound : List Tool} (h : bindToolSnapshots s tools = .ok bound) :
    bound.map Tool.row = tools.map Tool.row := by
  refine map_mapM_ok ?_ h
  intro t b hb
  split at hb
  · rename_i hbind
    simp only [bindTool, bind_eq_ok, pure_eq_ok] at hbind
    obtain ⟨binding, -, rfl⟩ := hbind
    obtain rfl := Except.ok.inj hb
    rfl
  · cases hb

omit [DecidableEq D] in
theorem scopeChange_chosen {request : ScopeRequest} {change : ScopeChange D} (h : scopeChange P s ctx request = .ok change)
    (hquota : quotaOnlyTarget ctx.grant request (submittedPolicies ctx.grant request) = false) :
    Chosen ctx request change := by
  simp only [scopeChange, bind_eq_ok, pure_eq_ok, hquota, changePolicies, changeTools, targetTools, Bool.false_eq_true,
    if_false] at h
  obtain ⟨policies, hpolicies, u, hvalid, tools, htools, rfl⟩ := h
  simp only [scopeTargetValid, bind_eq_ok, require_eq_ok, Bool.false_or] at hvalid
  obtain ⟨-, -, -, hdraft, -, -, -, hall, -⟩ := hvalid
  have hrows := bindToolSnapshots_rows htools
  have hsorted : (request.toolIds.insertionSort (· ≤ ·)).all fun id => (toolGet ctx.catalog id).isSome := by
    refine List.all_eq_true.mpr ?_
    intro id hid
    exact List.all_eq_true.mp hall id ((List.perm_insertionSort _ _).mem_iff.mp hid)
  refine ⟨?_, ?_, ?_, scopePolicies_bound hpolicies⟩
  · have hids := congrArg (List.map Prod.fst) hrows
    rw [List.map_map, List.map_map] at hids
    exact hids.trans (toolGet_ids hsorted)
  · simp only [draftIdsValid, Bool.and_eq_true, decide_eq_true_eq] at hdraft
    exact hdraft.2.1.2
  intro t ht
  have hrow : t.row ∈ tools.map Tool.row := List.mem_map_of_mem ht
  rw [hrows] at hrow
  obtain ⟨t₀, ht₀, hrow₀⟩ := List.mem_map.mp hrow
  exact ⟨t₀, toolGet_mem ht₀, hrow₀.symm⟩

section Same

variable {request request₁ request₂ : ScopeRequest} {change change₁ change₂ : ScopeChange D}

omit [DecidableEq D] in
/-- A change of the quotas alone, to the saved policies and tools, is what the code calls quota-only. -/
theorem scopeChange_quota (h : scopeChange P s ctx request = .ok change) (hexpires : request.expiresAt = ctx.grant.expiresAt)
    (hlimits : ¬ (request.ratePerMinute = ctx.grant.ratePerMinute ∧ request.concurrency = ctx.grant.concurrency))
    (htools : change.tools.map Tool.id = ctx.grant.tools.map Tool.id) (hpolicies : change.policies = ctx.grant.serverPolicies) :
    quotaOnlyTarget ctx.grant request (submittedPolicies ctx.grant request) = true := by
  by_contra hquota
  have hchosen := scopeChange_chosen h (by simpa using hquota)
  have hids : request.toolIds.toFinset = (ctx.grant.tools.map Tool.id).toFinset := by
    rw [← htools, hchosen.toolIds]
    exact List.toFinset_eq_of_perm _ _ (List.perm_insertionSort _ _).symm
  have hbound := hpolicies ▸ hchosen.policies
  refine hquota ?_
  simp only [quotaOnlyTarget, hexpires, hids, hbound.extraKeys, hbound.keepsBinding, decide_true, Bool.true_and,
    Bool.not_false, Bool.and_true, Bool.and_eq_true, Bool.not_eq_true', Bool.and_eq_false_iff, decide_eq_true_eq,
    decide_eq_false_iff_not]
  exact ⟨not_and_or.mp hlimits, hbound.intents⟩

/-- All of a tool but its display name. -/
def Tool.approved (t : Tool) : (String × String × Access × String) × Option String := (t.row, t.serverBinding)

theorem map_approved_eq {a b : List Tool} (hids : a.map Tool.id = b.map Tool.id)
    (h : ∀ t ∈ a, ∀ t' ∈ b, t.id = t'.id → t.approved = t'.approved) : a.map Tool.approved = b.map Tool.approved := by
  induction a generalizing b with
  | nil =>
    obtain rfl := List.map_eq_nil_iff.mp hids.symm
    rfl
  | cons t a ih =>
    obtain ⟨t', b', rfl, hid, hrest⟩ := List.map_eq_cons_iff.mp hids.symm
    rw [List.map_cons, List.map_cons, h t (by simp) t' (by simp) hid.symm, ih hrest.symm]
    intro x hx y hy
    exact h x (by simp [hx]) y (by simp [hy])

/-- Equal binding digests, different ids: one binding for each tool. -/
theorem toolBindings_eq {a b : List Tool} (h : toolBindings a = toolBindings b) (hb : (b.map Tool.id).Nodup) {t t' : Tool}
    (ht : t ∈ a) (ht' : t' ∈ b) (hid : t.id = t'.id) : t.serverBinding = t'.serverBinding := by
  have hmem : (t.id, t.serverBinding) ∈ toolBindings b := by
    rw [← h]
    exact List.mem_toFinset.mpr (List.mem_map.mpr ⟨t, ht, rfl⟩)
  obtain ⟨t'', ht'', heq⟩ := List.mem_map.mp (List.mem_toFinset.mp hmem)
  obtain ⟨hid'', hbinding⟩ := Prod.mk.inj heq
  rw [← hbinding, List.inj_on_of_nodup_map hb ht'' ht' (hid''.trans hid)]

omit [DecidableEq D] in
/-- The target tells whether a change is quota-only. -/
theorem quotaOnlyTarget_of_same (h₁ : scopeChange P s₁ ctx₁ request₁ = .ok change₁)
    (h₂ : scopeChange P s₂ ctx₂ request₂ = .ok change₂) (hgrant : ctx₁.grant = ctx₂.grant)
    (htarget : change₁.target = change₂.target)
    (hquota : quotaOnlyTarget ctx₁.grant request₁ (submittedPolicies ctx₁.grant request₁) = true) :
    quotaOnlyTarget ctx₂.grant request₂ (submittedPolicies ctx₂.grant request₂) = true := by
  have hof := scopeChange_ok h₁
  obtain ⟨htools, hsaved⟩ := hof.quota hquota
  rw [hof.target, (scopeChange_ok h₂).target] at htarget
  simp only [targetOf, Target.mk.injEq] at htarget
  obtain ⟨hids, hpolicies, hexpires, hrate, hconcurrency, -⟩ := htarget
  simp only [quotaOnlyTarget, Bool.and_eq_true, Bool.not_eq_true', Bool.and_eq_false_iff, decide_eq_true_eq,
    decide_eq_false_iff_not] at hquota
  refine scopeChange_quota h₂ ?_ ?_ ?_ ?_
  · rw [← hexpires, hquota.1.1.1.1.1, hgrant]
  · rw [← hrate, ← hconcurrency, ← hgrant]
    exact not_and_or.mpr hquota.1.1.1.2
  · rw [← hids, htools, hgrant]
  · rw [← hpolicies, hsaved, hgrant]

omit [DecidableEq D] in
/-- **One target, one set of tools.** Two changes of one grant with one target write the same tools, if their catalogs
agree: a quota change writes the saved ones, and the target tells whether a change is one. -/
theorem same_tools (h₁ : scopeChange P s₁ ctx₁ request₁ = .ok change₁) (h₂ : scopeChange P s₂ ctx₂ request₂ = .ok change₂)
    (hgrant : ctx₁.grant = ctx₂.grant) (htarget : change₁.target = change₂.target)
    (hinj : Function.Injective P.bindingDigest) (hagree : Agree ctx₁.catalog ctx₂.catalog) :
    change₁.tools.map Tool.approved = change₂.tools.map Tool.approved := by
  have hof₁ := scopeChange_ok h₁
  have hof₂ := scopeChange_ok h₂
  have hquota : quotaOnlyTarget ctx₁.grant request₁ (submittedPolicies ctx₁.grant request₁) =
      quotaOnlyTarget ctx₂.grant request₂ (submittedPolicies ctx₂.grant request₂) :=
    Bool.eq_iff_iff.mpr ⟨quotaOnlyTarget_of_same h₁ h₂ hgrant htarget, quotaOnlyTarget_of_same h₂ h₁ hgrant.symm htarget.symm⟩
  rw [hof₁.target, hof₂.target] at htarget
  simp only [targetOf, Target.mk.injEq] at htarget
  obtain ⟨hids, -, -, -, -, hbindings⟩ := htarget
  cases hq : quotaOnlyTarget ctx₂.grant request₂ (submittedPolicies ctx₂.grant request₂) with
  | true => rw [(hof₁.quota (hquota.trans hq)).1, (hof₂.quota hq).1, hgrant]
  | false =>
    have hc₁ := scopeChange_chosen h₁ (hquota.trans hq)
    have hc₂ := scopeChange_chosen h₂ hq
    have hnodup : (change₂.tools.map Tool.id).Nodup := by
      rw [hc₂.toolIds]
      exact (List.perm_insertionSort _ _).nodup_iff.mpr hc₂.nodup
    refine map_approved_eq hids ?_
    intro t ht t' ht' hid
    obtain ⟨t₀, ht₀, hrow⟩ := hc₁.rows t ht
    obtain ⟨t₀', ht₀', hrow'⟩ := hc₂.rows t' ht'
    have hid₀ : t₀.id = t₀'.id := (congrArg Prod.fst hrow).symm.trans (hid.trans (congrArg Prod.fst hrow'))
    refine Prod.ext ?_ (toolBindings_eq (hinj hbindings) hnodup ht ht' hid)
    exact hrow.trans ((hagree t₀ ht₀ t₀' ht₀' hid₀).trans hrow'.symm)

end Same

end LingshuGate.OAuth

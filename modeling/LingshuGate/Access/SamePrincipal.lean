import LingshuGate.Access.Delegation
import LingshuGate.Results.Callers

/-!
# The same invocation principal has the same authority (`tool_catalog.py`, `access_control.py`)

A caller that is read again during a request has to be the same one as before: `_same_invocation_principal`
(tool_catalog.py:41) compares the roles, permissions, scopes and external lists as sets and everything else exactly.
`SameAuthority` is what `_evaluate` (access_control.py:1421) can tell apart; each part of the decision is the same for two
such principals (`SameAuthority.evaluateWith`).

The roles are read in two ways: as `set(principal.roles or (principal.role,))`, and in the check of the management resource
(access_control.py:1452) as `principal.roles`. The comparison uses the first only, so it does not tell an administrator
without `roles` from one with the role in `roles`, and the management check does.
-/

namespace LingshuGate.AccessControl

open Lib.Py

/-- The same elements. -/
def SameElements {α : Type} (xs ys : List α) : Prop := ∀ x, x ∈ xs ↔ x ∈ ys

theorem SameElements.contains {α : Type} [DecidableEq α] {xs ys : List α} (h : SameElements xs ys) (x : α) :
    xs.contains x = ys.contains x := by
  rw [Bool.eq_iff_iff, List.contains_iff_mem, List.contains_iff_mem]
  exact h x

theorem SameElements.any {α : Type} {xs ys : List α} (h : SameElements xs ys) (f : α → Bool) : xs.any f = ys.any f := by
  rw [Bool.eq_iff_iff, List.any_eq_true, List.any_eq_true]
  constructor
  · rintro ⟨x, hx, hf⟩
    exact ⟨x, (h x).mp hx, hf⟩
  · rintro ⟨x, hx, hf⟩
    exact ⟨x, (h x).mpr hx, hf⟩

/-- Each tool id has one snapshot. -/
def BindsOnce (snapshots : List (String × String)) : Prop := (snapshots.map Prod.fst).Nodup

theorem dictGet_eq_some {snapshots : List (String × String)} (h : BindsOnce snapshots) {toolId snapshot : String} :
    dictGet snapshots toolId = some snapshot ↔ (toolId, snapshot) ∈ snapshots := by
  constructor
  · exact mem_of_dictGet
  intro hmem
  cases hget : dictGet snapshots toolId with
  | none =>
    simp only [dictGet, Option.map_eq_none_iff, List.find?_eq_none, List.mem_reverse, decide_eq_true_eq] at hget
    exact absurd rfl (hget _ hmem)
  | some snapshot' =>
    have hsame := List.inj_on_of_nodup_map h (mem_of_dictGet hget) hmem rfl
    rw [(Prod.mk.inj hsame).2]

/-- What `_evaluate` reads of a principal. -/
structure SameAuthority (p q : AuthPrincipal) : Prop where
  authType : p.authType = q.authType
  mode : p.apiTokenAuthorizationMode = q.apiTokenAuthorizationMode
  policies : p.apiTokenServerPolicies = q.apiTokenServerPolicies
  snapshots : p.apiTokenToolSnapshots = q.apiTokenToolSnapshots
  bindings : p.apiTokenToolBindings = q.apiTokenToolBindings
  externalGrantId : p.externalGrantId = q.externalGrantId
  externalExpiresAt : p.externalExpiresAt = q.externalExpiresAt
  oauthBuiltin : p.oauthBuiltin = q.oauthBuiltin
  oauthIssuer : p.oauthIssuer = q.oauthIssuer
  oauthResource : p.oauthResource = q.oauthResource
  oauthClientId : p.oauthClientId = q.oauthClientId
  oauthFamilyId : p.oauthFamilyId = q.oauthFamilyId
  isAdmin : p.isAdmin = q.isAdmin
  roleSet : SameElements p.roleSet q.roleSet
  permissions : SameElements p.permissions q.permissions
  scopes : SameElements p.scopes q.scopes
  delegated : (p.delegatedScopes = none ∧ q.delegatedScopes = none) ∨
    ∃ s t, p.delegatedScopes = some s ∧ q.delegatedScopes = some t ∧ SameElements s t
  externalServerIds : SameElements p.externalServerIds q.externalServerIds
  externalToolIds : SameElements p.externalToolIds q.externalToolIds
  externalAccess : SameElements p.externalAccess q.externalAccess
  oauthSnapshots : ∀ toolId, dictGet p.oauthToolSnapshots toolId = dictGet q.oauthToolSnapshots toolId
  /-- on the management resource the check reads `roles` -/
  manager : isManagementResource p = true → p.authType = .oauth → p.roles.contains "admin" = q.roles.contains "admin"

variable {p q : AuthPrincipal} {env : Env} {db : AccessDb} {now : Int} {d : ToolDefinition} {c : Option Classification}
  {granted : Access}

namespace SameAuthority

/-! ## The limits and permissions -/

/-- A test of the limits that looks at their elements only. -/
theorem all_limits (h : SameAuthority p q) {f : List String → Bool} (hf : ∀ s t, SameElements s t → f s = f t) :
    (scopeLimits p).all f = (scopeLimits q).all f := by
  have hdelegated : p.delegatedScopes.toList.all f = q.delegatedScopes.toList.all f := by
    rcases h.delegated with ⟨hp, hq⟩ | ⟨s, t, hp, hq, hst⟩
    · rw [hp, hq]
    · simp [hp, hq, hf s t hst]
  have hscopes : f p.scopes = f q.scopes := hf _ _ h.scopes
  unfold scopeLimits
  rw [List.all_append, List.all_append, hdelegated, h.authType]
  by_cases hlimited : q.authType = .token ∨ q.authType = .oauth
  · simp [hlimited, hscopes]
  · simp [hlimited]

theorem hasControlPermission (h : SameAuthority p q) (code : String) : hasControlPermission p code = hasControlPermission q code := by
  unfold AccessControl.hasControlPermission
  rw [h.isAdmin, h.permissions.contains]
  congr 1
  refine h.all_limits ?_
  intro s t hst
  rw [hst.contains, hst.contains]

theorem tokenScopeAllows (h : SameAuthority p q) (required : Access) : tokenScopeAllows p required = tokenScopeAllows q required := by
  refine h.all_limits ?_
  intro s t hst
  rw [hst.contains, hst.any]

theorem principalControlAllows (h : SameAuthority p q) (code : String) :
    principalControlAllows p code = principalControlAllows q code := by
  unfold AccessControl.principalControlAllows
  rw [h.isAdmin, h.permissions.contains, h.permissions.contains]

theorem extraControlAllowed (h : SameAuthority p q) : extraControlAllowed p d = extraControlAllowed q d := by
  unfold AccessControl.extraControlAllowed
  split
  · rfl
  · exact h.hasControlPermission _

/-! ## The decisions -/

theorem tokenMcpPolicyAllows (h : SameAuthority p q) : tokenMcpPolicyAllows env db p d c = tokenMcpPolicyAllows env db q d c := by
  cases c with
  | none => rfl
  | some c =>
    simp only [AccessControl.tokenMcpPolicyAllows, snapshotAllows, h.policies, h.snapshots, h.bindings]

theorem managementScopesAllow (h : SameAuthority p q) : managementScopesAllow p d = managementScopesAllow q d := by
  unfold AccessControl.managementScopesAllow
  rcases h.delegated with ⟨hp, hq⟩ | ⟨s, t, hp, hq, hst⟩
  · rw [hp, hq]
  · simp only [hp, hq, h.scopes.contains, h.permissions.contains, hst.contains]

theorem managementDecision (h : SameAuthority p q) (hmanager : p.roles.contains "admin" = q.roles.contains "admin") :
    (managementDecision env db now p d).allowed = (managementDecision env db now q d).allowed := by
  have hconfigured : managementConfigured env db p = managementConfigured env db q := by
    simp only [managementConfigured, h.oauthResource, h.oauthIssuer]
  have hgrant : managementGrantAllows env now p d = managementGrantAllows env now q d := by
    simp only [managementGrantAllows, hmanager, h.permissions.contains, h.externalGrantId, h.oauthFamilyId, h.oauthClientId,
      h.externalExpiresAt, h.externalToolIds.contains, h.oauthSnapshots]
  simp only [AccessControl.managementDecision, hconfigured, hgrant, h.managementScopesAllow]

theorem externalAllows (h : SameAuthority p q) : externalAllows now p d c = externalAllows now q d c := by
  simp only [AccessControl.externalAllows, h.externalGrantId, h.externalServerIds.contains, h.externalToolIds.contains,
    h.externalAccess.contains, h.externalExpiresAt]

theorem isDelegated (h : SameAuthority p q) : isDelegated p = isDelegated q := by
  unfold AccessControl.isDelegated
  rw [h.authType]
  rcases h.delegated with ⟨hp, hq⟩ | ⟨s, t, hp, hq, -⟩
  · rw [hp, hq]
  · rw [hp, hq]
    rfl

theorem adminDecision (h : SameAuthority p q) : (adminDecision p d c).allowed = (adminDecision q d c).allowed := by
  simp only [AccessControl.adminDecision, h.principalControlAllows, h.tokenScopeAllows, h.extraControlAllowed]

theorem memberDecision (h : SameAuthority p q) : (memberDecision p d c granted).allowed = (memberDecision q d c granted).allowed := by
  cases c with
  | none => rfl
  | some c =>
    unfold AccessControl.memberDecision
    by_cases hpublished : (!c.isPublished) = true
    · simp only [if_pos hpublished]
    · simp only [if_neg hpublished]
      rw [Bool.eq_iff_iff, grantDecision_allowed, grantDecision_allowed, h.principalControlAllows, h.tokenScopeAllows,
        h.extraControlAllowed]

theorem commonDecision (h : SameAuthority p q) : (commonDecision p d c granted).allowed = (commonDecision q d c granted).allowed := by
  have hadmin : p.roleSet.contains "admin" = q.roleSet.contains "admin" := h.roleSet.contains "admin"
  unfold AccessControl.commonDecision
  split
  · simp only [httpManagementDecision, h.authType, hadmin, h.permissions.contains, h.hasControlPermission]
  split
  · simp only [groupDecision, h.authType, hadmin, h.hasControlPermission, h.tokenScopeAllows]
  split
  · simp only [classificationControlDecision, h.hasControlPermission, h.tokenScopeAllows]
  rw [h.isDelegated]
  split
  · rfl
  rw [h.isAdmin]
  split
  · exact h.adminDecision
  · exact h.memberDecision

/-- The whole decision. -/
theorem evaluateWith (h : SameAuthority p q) :
    (evaluateWith env db now p d c granted).allowed = (evaluateWith env db now q d c granted).allowed := by
  have hindependent : isIndependent p = isIndependent q := by simp only [isIndependent, h.authType, h.mode]
  have hresource : isManagementResource p = isManagementResource q := by
    simp only [isManagementResource, h.oauthBuiltin, h.oauthResource]
  rw [evaluateWith_allowed, evaluateWith_allowed, hindependent, h.tokenMcpPolicyAllows, h.externalAllows, h.commonDecision]
  by_cases hoauth : p.authType = .oauth
  · rw [if_pos hoauth, if_pos (h.authType.symm.trans hoauth)]
    by_cases hmanage : isManagementResource p = true
    · rw [if_pos hmanage, if_pos (hresource.symm.trans hmanage), h.managementDecision (h.manager hmanage hoauth)]
    · rw [if_neg hmanage, if_neg (hresource ▸ hmanage)]
  · rw [if_neg hoauth, if_neg (h.authType ▸ hoauth)]

end SameAuthority

/-! ## The comparison -/

variable {left right other : Actor}

theorem same_iff : sameInvocationPrincipal left right = true ↔ ∃ n, normalized left = some n ∧ normalized right = some n := by
  unfold sameInvocationPrincipal
  cases hleft : normalized left with
  | none | some n => simp

theorem toFinset_eq {α : Type} [DecidableEq α] {xs ys : List α} (h : xs.toFinset = ys.toFinset) : SameElements xs ys := by
  intro x
  rw [← List.mem_toFinset, h, List.mem_toFinset]

/-- The primary role is one of the roles, so an administrator is one by its roles. -/
theorem isAdmin_eq {p : AuthPrincipal} (h : p.role ∈ p.roleSet) : p.isAdmin = p.roleSet.contains "admin" := by
  unfold AuthPrincipal.isAdmin
  by_cases hrole : p.role = "admin"
  · have hmem : p.roleSet.contains "admin" = true := by
      rw [List.contains_iff_mem, ← hrole]
      exact h
    rw [hmem, Bool.or_true]
  · simp [hrole]

/-- What the comparison relates has the same authority, but for the second reading of the roles. -/
theorem sameAuthority_of_same (h : sameInvocationPrincipal left right = true) (hleft : BindsOnce left.oauthToolSnapshots)
    (hright : BindsOnce right.oauthToolSnapshots)
    (hmanager : isManagementResource left.toAuthPrincipal = true → left.authType = .oauth →
      left.roles.contains "admin" = right.roles.contains "admin") :
    SameAuthority left.toAuthPrincipal right.toAuthPrincipal := by
  obtain ⟨n, hn, hn'⟩ := same_iff.mp h
  unfold normalized at hn hn'
  split at hn
  · next hrole =>
    split at hn'
    · next hrole' =>
      have heq := Option.some.inj (hn.trans hn'.symm)
      have hrest := congrArg Normalized.rest heq
      have hroles : SameElements left.roleSet right.roleSet := toFinset_eq (congrArg Normalized.roles heq)
      have hoauth : SameElements left.oauthToolSnapshots right.oauthToolSnapshots :=
        toFinset_eq (congrArg Normalized.oauthToolSnapshots heq)
      exact {
        authType := congrArg (·.authType) hrest
        mode := congrArg (·.apiTokenAuthorizationMode) hrest
        policies := congrArg (·.apiTokenServerPolicies) hrest
        snapshots := congrArg (·.apiTokenToolSnapshots) hrest
        bindings := congrArg (·.apiTokenToolBindings) hrest
        externalGrantId := congrArg (·.externalGrantId) hrest
        externalExpiresAt := congrArg (·.externalExpiresAt) hrest
        oauthBuiltin := congrArg (·.oauthBuiltin) hrest
        oauthIssuer := congrArg (·.oauthIssuer) hrest
        oauthResource := congrArg (·.oauthResource) hrest
        oauthClientId := congrArg (·.oauthClientId) hrest
        oauthFamilyId := congrArg (·.oauthFamilyId) hrest
        isAdmin := by rw [isAdmin_eq hrole, isAdmin_eq hrole', hroles.contains]
        roleSet := hroles
        permissions := toFinset_eq (congrArg Normalized.permissions heq)
        scopes := toFinset_eq (congrArg Normalized.scopes heq)
        delegated := by
          have hdelegated : left.delegatedScopes.map (·.toFinset) = right.delegatedScopes.map (·.toFinset) :=
            congrArg Normalized.delegatedScopes heq
          cases hl : left.delegatedScopes with
          | none =>
            rw [hl] at hdelegated
            exact .inl ⟨rfl, by simpa using hdelegated.symm⟩
          | some s =>
            rw [hl, Option.map_some] at hdelegated
            obtain ⟨t, ht, hst⟩ := Option.map_eq_some_iff.mp hdelegated.symm
            exact .inr ⟨s, t, rfl, ht, toFinset_eq hst.symm⟩
        externalServerIds := toFinset_eq (congrArg Normalized.externalServerIds heq)
        externalToolIds := toFinset_eq (congrArg Normalized.externalToolIds heq)
        externalAccess := toFinset_eq (congrArg Normalized.externalAccess heq)
        oauthSnapshots := by
          intro toolId
          apply Option.ext
          intro snapshot
          rw [dictGet_eq_some hleft, dictGet_eq_some hright]
          exact hoauth _
        manager := hmanager }
    · cases hn'
  · cases hn

/-- **The same invocation principal has the same authority.** The comparison is symmetric and transitive, and `_evaluate` gives
two principals it relates, whose snapshots bind each tool id once, the same decision on every definition, classification,
grant and database. On the management resource of the built-in authorization server this asks that `admin` stands in the
`roles` of both or of neither. -/
theorem same_principal_same_decision : (∀ left right, sameInvocationPrincipal left right = sameInvocationPrincipal right left) ∧
    (∀ left right other, sameInvocationPrincipal left right = true → sameInvocationPrincipal right other = true →
      sameInvocationPrincipal left other = true) ∧
    ∀ left right, sameInvocationPrincipal left right = true → BindsOnce left.oauthToolSnapshots →
      BindsOnce right.oauthToolSnapshots →
      (isManagementResource left.toAuthPrincipal = true → left.authType = .oauth →
        left.roles.contains "admin" = right.roles.contains "admin") →
      ∀ env db now d c granted, (evaluateWith env db now left.toAuthPrincipal d c granted).allowed =
        (evaluateWith env db now right.toAuthPrincipal d c granted).allowed := by
  refine ⟨?_, ?_, ?_⟩
  · intro left right
    rw [Bool.eq_iff_iff, same_iff, same_iff]
    constructor
    · rintro ⟨n, hl, hr⟩
      exact ⟨n, hr, hl⟩
    · rintro ⟨n, hr, hl⟩
      exact ⟨n, hl, hr⟩
  · intro left right other hlr hro
    obtain ⟨n, hl, hr⟩ := same_iff.mp hlr
    obtain ⟨m, hr', ho⟩ := same_iff.mp hro
    rw [hr] at hr'
    obtain rfl := Option.some.inj hr'
    exact same_iff.mpr ⟨n, hl, ho⟩
  · intro left right hsame hleft hright hmanager env db now d c granted
    exact (sameAuthority_of_same hsame hleft hright hmanager).evaluateWith

/-- The management resource of `gate.example`. -/
def managementEnv : Env where
  fileMarker _ := none
  toolSnapshot _ _ _ := ""
  managementToolSnapshot _ := "s1"
  managementResource _ := "https://gate.example/mcp/manage"

def managementDb : AccessDb where
  oauthConfig := some ⟨true, "https://gate.example", "https://gate.example/mcp"⟩
  oauthManagementEnabled := some true

def planTool : ToolDefinition where
  id := "gate_mcp_config_plan"
  metadata := { serverId := some "gate_mcp_configuration" }

/-- An administrator on the management resource, with its role in `roles` or not. -/
def manager (roles : List String) : Actor where
  id := "alice"
  role := "admin"
  roles := roles
  authType := .oauth
  permissions := ["operations.manage"]
  scopes := ["operations.manage"]
  delegatedScopes := some ["operations.manage"]
  externalGrantId := some "g1"
  externalToolIds := ["gate_mcp_config_plan"]
  externalExpiresAt := .instant 10
  oauthBuiltin := true
  oauthIssuer := some "https://gate.example"
  oauthResource := some "https://gate.example/mcp/manage"
  oauthClientId := some "c1"
  oauthFamilyId := some "f1"
  oauthToolSnapshots := [("gate_mcp_config_plan", "s1")]

/-- The comparison reads `roles or (role,)`, the management check `roles`: one of two related principals is let through. -/
theorem related_managers_differ :
    sameInvocationPrincipal (manager []) (manager ["admin"]) = true ∧ BindsOnce (manager []).oauthToolSnapshots ∧
      BindsOnce (manager ["admin"]).oauthToolSnapshots ∧
      (evaluateWith managementEnv managementDb 0 (manager []).toAuthPrincipal planTool none .none).allowed = false ∧
      (evaluateWith managementEnv managementDb 0 (manager ["admin"]).toAuthPrincipal planTool none .none).allowed = true := by
  refine ⟨by decide, by unfold BindsOnce; decide, by unfold BindsOnce; decide, by decide, by decide⟩

/-- A caller with a role listed twice is the same, and decided alike. -/
theorem same_principal_same_decision_manager :
    (evaluateWith managementEnv managementDb 0 (manager ["admin", "dev"]).toAuthPrincipal planTool none .none).allowed =
      (evaluateWith managementEnv managementDb 0 (manager ["admin", "dev", "dev"]).toAuthPrincipal planTool none .none).allowed :=
  same_principal_same_decision.2.2 _ _ (by decide) (by unfold BindsOnce; decide) (by unfold BindsOnce; decide)
    (fun _ _ => by decide) _ _ _ _ _ _

end LingshuGate.AccessControl

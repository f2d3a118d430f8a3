import LingshuGate.Access.Evaluate

/-!
# A delegated credential never exceeds its owner

`_evaluate` (access_control.py:1421) decides a request of a session, of an API token and of an OAuth client
by the same chain of early returns. For a tool of a downstream MCP server the chain factors
(`evaluateWith_allowed_mcp`): a credential gate that only tokens and OAuth clients meet, then the common
policy. `NoTighter p q` says that `q` is the same user under limits no tighter than `p`'s; the common
policy is monotone along it (`NoTighter.commonDecision`), whichever branch each of the two takes.
-/

namespace LingshuGate.AccessControl

/-- The same user under limits that are no tighter. -/
structure NoTighter (p q : AuthPrincipal) : Prop where
  role : q.role = p.role
  roles : q.roles = p.roles
  permissions : q.permissions = p.permissions
  /-- every limit of `q` is open or contains a limit of `p` -/
  limits : ∀ t ∈ scopeLimits q, "*" ∈ t ∨ ∃ s ∈ scopeLimits p, s ⊆ t
  delegated : isDelegated q = true → isDelegated p = true

variable {p q : AuthPrincipal} {d : ToolDefinition} {c : Option Classification}

theorem mem_scopeLimits {t : List String} : t ∈ scopeLimits p ↔
      ((p.authType = .token ∨ p.authType = .oauth) ∧ t = p.scopes) ∨ p.delegatedScopes = some t := by
  simp [scopeLimits, eq_comm]

theorem NoTighter.isAdmin (h : NoTighter p q) : q.isAdmin = p.isAdmin := by
  simp [AuthPrincipal.isAdmin, AuthPrincipal.roleSet, h.role, h.roles]

theorem NoTighter.principalControlAllows (h : NoTighter p q) (code : String) :
    principalControlAllows q code = principalControlAllows p code := by
  simp [AccessControl.principalControlAllows, h.isAdmin, h.permissions]

/-- A test that a larger set of scopes also passes, passes under looser limits. -/
theorem NoTighter.all_limits (h : NoTighter p q) {f : List String → Bool}
    (hf : ∀ s t : List String, s ⊆ t → f s = true → f t = true)
    (hp : ((scopeLimits p).all fun t => t.contains "*" || f t) = true) :
    ((scopeLimits q).all fun t => t.contains "*" || f t) = true := by
  simp only [List.all_eq_true, Bool.or_eq_true, List.contains_iff_mem] at hp ⊢
  intro t ht
  rcases h.limits t ht with hstar | ⟨s, hs, hst⟩
  · exact .inl hstar
  · exact (hp s hs).imp (fun hstar => hst hstar) (hf s t hst)

theorem NoTighter.hasControlPermission (h : NoTighter p q) {code : String}
    (hp : hasControlPermission p code = true) : hasControlPermission q code = true := by
  simp only [AccessControl.hasControlPermission, Bool.and_eq_true] at hp ⊢
  rw [h.isAdmin, h.permissions]
  refine ⟨hp.1, h.all_limits ?_ hp.2⟩
  intro s t hst hs
  simp only [List.contains_iff_mem] at hs ⊢
  exact hst hs

theorem NoTighter.tokenScopeAllows (h : NoTighter p q) {required : Access}
    (hp : tokenScopeAllows p required = true) : tokenScopeAllows q required = true := by
  refine h.all_limits ?_ hp
  intro s t hst hs
  obtain ⟨x, hx, hax⟩ := List.any_eq_true.mp hs
  exact List.any_eq_true.mpr ⟨x, hst hx, hax⟩

theorem NoTighter.extraControlAllowed (h : NoTighter p q)
    (hp : extraControlAllowed p d = true) : extraControlAllowed q d = true := by
  unfold AccessControl.extraControlAllowed at hp ⊢
  cases hr : requiredControlPermission d with
  | none => rfl
  | some code =>
    rw [hr] at hp
    exact h.hasControlPermission hp

theorem adminDecision_allowed : (adminDecision p d c).allowed = true ↔
      principalControlAllows p (requiredPermission (adminRequired c)) = true ∧
        tokenScopeAllows p (adminRequired c) = true ∧ extraControlAllowed p d = true := by
  simp [adminDecision, and_assoc]

variable {granted : Access}

theorem grantDecision_allowed {c : Classification} : (grantDecision p d c granted).allowed = true ↔
      principalControlAllows p (requiredPermission c.effectiveAccess) = true ∧
        tokenScopeAllows p c.effectiveAccess = true ∧ extraControlAllowed p d = true ∧
        c.effectiveAccess.rank ≤ granted.rank := by
  cases h1 : principalControlAllows p (requiredPermission c.effectiveAccess) <;>
    cases h2 : tokenScopeAllows p c.effectiveAccess <;> cases h3 : extraControlAllowed p d <;>
      simp [grantDecision, h1, h2, h3]

theorem NoTighter.adminDecision (h : NoTighter p q) (hp : (adminDecision p d c).allowed = true) :
    (adminDecision q d c).allowed = true := by
  obtain ⟨hc, ht, hx⟩ := adminDecision_allowed.mp hp
  exact adminDecision_allowed.mpr
    ⟨(h.principalControlAllows _).trans hc, h.tokenScopeAllows ht, h.extraControlAllowed hx⟩

theorem NoTighter.grantDecision (h : NoTighter p q) {c : Classification}
    (hp : (grantDecision p d c granted).allowed = true) : (grantDecision q d c granted).allowed = true := by
  obtain ⟨hc, ht, hx, hg⟩ := grantDecision_allowed.mp hp
  exact grantDecision_allowed.mpr
    ⟨(h.principalControlAllows _).trans hc, h.tokenScopeAllows ht, h.extraControlAllowed hx, hg⟩

theorem NoTighter.memberDecision (h : NoTighter p q)
    (hp : (memberDecision p d c granted).allowed = true) : (memberDecision q d c granted).allowed = true := by
  unfold AccessControl.memberDecision at hp ⊢
  cases c with
  | none => exact hp
  | some c =>
    by_cases hpub : (!c.isPublished) = true
    · simp [hpub, unpublishedDecision] at hp
    · simp only [if_neg hpub] at hp ⊢
      exact h.grantDecision hp

theorem NoTighter.classificationControlDecision (h : NoTighter p q) (hp : (classificationControlDecision p d).allowed = true) :
    (classificationControlDecision q d).allowed = true := by
  simp only [AccessControl.classificationControlDecision, Bool.and_eq_true] at hp ⊢
  exact ⟨h.hasControlPermission hp.1, h.tokenScopeAllows hp.2⟩

/-! ## A downstream tool -/

/-- The branches of `_evaluate` that a tool of an MCP server can reach after the credential gates. -/
theorem commonDecision_mcp (hd : d.source = "mcp") (granted : Access) : commonDecision p d c granted =
      if isClassificationControl d then classificationControlDecision p d
      else if isDelegated p && !isPublished c then unpublishedDecision d c granted
      else if p.isAdmin then adminDecision p d c
      else memberDecision p d c granted := by
  have h1 : isHttpManagement d = false := by simp [isHttpManagement, hd]
  have h2 : isGroupManagement d = false := by simp [isGroupManagement, hd]
  simp only [commonDecision, h1, h2, Bool.false_eq_true, if_false]

theorem NoTighter.commonDecision (h : NoTighter p q) (hd : d.source = "mcp") (hp : (commonDecision p d c granted).allowed = true) :
    (commonDecision q d c granted).allowed = true := by
  rw [commonDecision_mcp hd] at hp ⊢
  by_cases hcontrol : isClassificationControl d = true
  · rw [if_pos hcontrol] at hp ⊢
    exact h.classificationControlDecision hp
  rw [if_neg hcontrol] at hp ⊢
  by_cases hp1 : (isDelegated p && !isPublished c) = true
  · simp [hp1, unpublishedDecision] at hp
  -- `q` is delegated only where `p` is, so `q` passes the publication check too
  have hq1 : ¬ (isDelegated q && !isPublished c) = true := by
    simp only [Bool.and_eq_true] at hp1 ⊢
    exact fun hq => hp1 ⟨h.delegated hq.1, hq.2⟩
  rw [if_neg hp1] at hp
  rw [if_neg hq1, h.isAdmin]
  by_cases ha : p.isAdmin = true
  · rw [if_pos ha] at hp ⊢
    exact h.adminDecision hp
  rw [if_neg ha] at hp ⊢
  exact h.memberDecision hp

/-- What only tokens and OAuth clients meet before the common policy. -/
def credentialGate (env : Env) (db : AccessDb) (now : Int) (p : AuthPrincipal) (d : ToolDefinition)
    (c : Option Classification) : Bool :=
  (!isIndependent p || tokenMcpPolicyAllows env db p d c) &&
    (p.authType ≠ .oauth || (!isManagementResource p && externalAllows now p d c))

/-- The management resource holds built-in tools only. -/
theorem managementDecision_mcp (env : Env) (db : AccessDb) (now : Int) (hd : d.source = "mcp") :
    (managementDecision env db now p d).allowed = false := by
  simp [managementDecision, managementGrantAllows, hd]

theorem evaluateWith_allowed_mcp (env : Env) (db : AccessDb) (now : Int) (hd : d.source = "mcp") (granted : Access) :
    (evaluateWith env db now p d c granted).allowed = true ↔
      credentialGate env db now p d c = true ∧ (commonDecision p d c granted).allowed = true := by
  rw [evaluateWith_allowed, credentialGate, managementDecision_mcp env db now hd]
  simp only [hd, decide_true, Bool.and_true]
  by_cases ho : p.authType = .oauth
  · cases isManagementResource p <;> simp [ho, and_assoc]
  · simp [ho]

/-- `_effective_access_map` reads the principal's id and roles, nothing else. -/
theorem effectiveAccess_congr {db : AccessDb} {now : Int} {serverId toolId : String} (hid : q.id = p.id)
    (hrole : q.role = p.role) (hroles : q.roles = p.roles) :
    effectiveAccess db now q serverId toolId = effectiveAccess db now p serverId toolId := by
  simp [effectiveAccess, AuthPrincipal.isAdmin, AuthPrincipal.roleSet, hid, hrole, hroles]

/-- Both sides of a comparison: looser limits and a gate that is no stricter keep a tool allowed. -/
theorem NoTighter.evaluateWith (h : NoTighter p q) (hid : q.id = p.id) {env : Env} {db : AccessDb} {now : Int}
    (hd : d.source = "mcp")
    (hgate : credentialGate env db now p d c = true → credentialGate env db now q d c = true)
    (hp : (evaluateWith env db now p d c (effectiveAccess db now p (serverIdOf d) d.id)).allowed = true) :
    (evaluateWith env db now q d c (effectiveAccess db now q (serverIdOf d) d.id)).allowed = true := by
  obtain ⟨hg, hc⟩ := (evaluateWith_allowed_mcp env db now hd _).mp hp
  rw [effectiveAccess_congr hid h.role h.roles]
  exact (evaluateWith_allowed_mcp env db now hd _).mpr ⟨hgate hg, h.commonDecision hd hc⟩

/-! ## The owner's session and larger scopes -/

/-- The owner signed in at the console: the same user and rights, no limit of a credential. -/
def ownerSession (p : AuthPrincipal) : AuthPrincipal where
  id := p.id
  username := p.username
  role := p.role
  roles := p.roles
  permissions := p.permissions
  authType := .session

theorem noTighter_ownerSession (p : AuthPrincipal) : NoTighter p (ownerSession p) where
  role := rfl
  roles := rfl
  permissions := rfl
  limits := by
    intro t ht
    simp [scopeLimits, ownerSession] at ht
  delegated := by
    intro h
    simp [isDelegated, ownerSession] at h

theorem credentialGate_ownerSession (env : Env) (db : AccessDb) (now : Int) :
    credentialGate env db now (ownerSession p) d c = true := by
  simp [credentialGate, isIndependent, ownerSession]

/-- A delegation is at least as wide as another: no delegation limits nothing. -/
def DelegationLe : Option (List String) → Option (List String) → Prop
  | _, none => True
  | none, some _ => False
  | some narrow, some wide => narrow ⊆ wide

/-- The principal with other scopes and another delegation. -/
def withScopes (p : AuthPrincipal) (scopes : List String) (delegated : Option (List String)) : AuthPrincipal :=
  { p with scopes := scopes, delegatedScopes := delegated }

theorem noTighter_withScopes {scopes : List String} {delegated : Option (List String)}
    (hs : p.scopes ⊆ scopes) (hdel : DelegationLe p.delegatedScopes delegated) :
    NoTighter p (withScopes p scopes delegated) where
  role := rfl
  roles := rfl
  permissions := rfl
  limits := by
    intro t ht
    right
    rcases mem_scopeLimits.mp ht with ⟨ha, rfl⟩ | hw
    · exact ⟨p.scopes, mem_scopeLimits.mpr (.inl ⟨ha, rfl⟩), hs⟩
    · obtain rfl : delegated = some t := hw
      cases hn : p.delegatedScopes with
      | none => simp [hn, DelegationLe] at hdel
      | some narrow => exact ⟨narrow, mem_scopeLimits.mpr (.inr hn), by simpa [hn, DelegationLe] using hdel⟩
  delegated := by
    simp only [isDelegated, withScopes, Bool.or_eq_true]
    intro h
    rcases h with h | h
    · exact .inl h
    · cases hn : p.delegatedScopes with
      | some narrow => exact .inr rfl
      | none =>
        obtain ⟨wide, rfl⟩ := Option.isSome_iff_exists.mp h
        simp [hn, DelegationLe] at hdel

/-- The gate reads neither the scopes nor the delegation. -/
theorem credentialGate_withScopes (env : Env) (db : AccessDb) (now : Int) (scopes : List String)
    (delegated : Option (List String)) :
    credentialGate env db now (withScopes p scopes delegated) d c = credentialGate env db now p d c := by
  cases c <;> rfl

/-- **A delegated credential never exceeds its owner, and grows with its scopes**: what a token or an OAuth
client may do with a downstream tool, its owner's session may do; and larger scopes or a larger delegation
never turn an allowed downstream tool into a denied one. -/
theorem delegation_never_exceeds_owner (env : Env) (db : AccessDb) (now : Int) (p : AuthPrincipal)
    (d : ToolDefinition) (c : Option Classification) (hd : d.source = "mcp")
    (hallowed : (evaluateWith env db now p d c (effectiveAccess db now p (serverIdOf d) d.id)).allowed = true) :
    (evaluateWith env db now (ownerSession p) d c
        (effectiveAccess db now (ownerSession p) (serverIdOf d) d.id)).allowed = true ∧
      ∀ scopes delegated, p.scopes ⊆ scopes → DelegationLe p.delegatedScopes delegated →
        (evaluateWith env db now (withScopes p scopes delegated) d c
          (effectiveAccess db now (withScopes p scopes delegated) (serverIdOf d) d.id)).allowed = true := by
  constructor
  · exact (noTighter_ownerSession p).evaluateWith rfl hd (fun _ => credentialGate_ownerSession env db now) hallowed
  · intro scopes delegated hs hdel
    refine (noTighter_withScopes hs hdel).evaluateWith rfl hd ?_ hallowed
    intro hg
    rw [credentialGate_withScopes]
    exact hg

/-- One user with a server grant, one published tool of server `files`. -/
def viewerDb : AccessDb where
  permissionTypes := [⟨"pt-read", .read, true⟩]
  resourceGrants := [⟨.user, "u1", "files", "", "pt-read", .absent⟩]
  classifications := [⟨"files", "files.list", ⟨.read, .published, some ("f1", some "r1")⟩⟩]

def plainEnv : Env where
  fileMarker _ := some ""
  toolSnapshot fingerprint _ _ := fingerprint
  managementToolSnapshot d := d.description
  managementResource r := r

def viewerToken : AuthPrincipal where
  id := "u1"
  role := "viewer"
  authType := .token
  permissions := ["tools.read"]
  scopes := ["tools.read"]
  delegatedScopes := some ["mcp.read"]

def listTool : ToolDefinition where
  id := "files.list"
  source := "mcp"
  metadata := { serverId := some "files" }

theorem delegation_never_exceeds_owner_viewer : (evaluate plainEnv viewerDb 0 viewerToken listTool).allowed = true ∧
      (evaluate plainEnv viewerDb 0 (ownerSession viewerToken) listTool).allowed = true ∧
      (evaluate plainEnv viewerDb 0 (withScopes viewerToken ["tools.read", "tools.invoke"] none) listTool).allowed
        = true := by
  have h : (evaluate plainEnv viewerDb 0 viewerToken listTool).allowed = true := by decide
  have hall := delegation_never_exceeds_owner plainEnv viewerDb 0 viewerToken listTool
    (loadClassification viewerDb "files" "files.list") rfl h
  refine ⟨h, hall.1, hall.2 _ _ ?_ trivial⟩
  simp [viewerToken]

end LingshuGate.AccessControl

import LingshuGate.OAuth.Script
import LingshuGate.OAuth.Target

/-!
# A grant changes to what was previewed last

| here | there |
| --- | --- |
| `Event.previewed` | a `preview_scope` or `preview_management_targets` that returned (oauth_server.py:979, 1534) |
| `Event.consumed`  | an `update_scope` or `update_management_targets` that returned (oauth_server.py:1033, 1562) |
| `Pending`         | why the one confirmation row of a grant is that of its last preview |
| `LastPreview`     | the preview an update was confirmed with |
| `QuotaOnly`       | same tools, policy intents and expiry, other quotas (oauth_server.py:697) |

Both flows keep their confirmation in one row for each grant, so a preview of either kind ends the pending
confirmation of the other.
-/

namespace LingshuGate.OAuth

open Lib AccessControl AuthStore

variable {D : Type} [DecidableEq D] {P : Params D} {w w' : World D} {e : Event D} {s : Snapshot} {call : Call D}
  {db' : Db} {answer : Answer D} {tr : List (Event D)}

/-! ## Events -/

/-- The grant a preview is of, and the token it seals. -/
def Call.preview : Call D → Option (String × String)
  | .previewScope _ grantId _ _ _ _ text => some (grantId, text)
  | .previewManagementTargets _ _ grantId _ _ text => some (grantId, text)
  | _ => none

def Event.previewed (e : Event D) : Option (String × String) := if e.result.isOk then e.call.preview else none

/-- The grant an update is of, and the confirmation it consumes. -/
def Call.update : Call D → Option (String × String)
  | .updateScope _ grantId _ confirmation _ _ => some (grantId, confirmation)
  | .updateManagementTargets _ _ grantId confirmation _ => some (grantId, confirmation)
  | _ => none

def Event.consumed (e : Event D) : Option (String × String) := if e.result.isOk then e.call.update else none

/-! ## Confirmation rows -/

omit [DecidableEq D] in
/-- What a preview leaves: its row for its grant, and the rows of other grants. -/
theorem putConfirmation_rows {db db' : Db} {now : Int} {row c : Confirmation} {token : String}
    (h : db.putConfirmation now row = .ok db') (hhash : row.tokenHash = P.hash token) (hc : c ∈ db'.confirmations) :
    (c ∈ db.confirmations ∧ c.grantId ≠ row.grantId) ∨ (c.grantId = row.grantId ∧ P.hash token = c.tokenHash) := by
  obtain ⟨t, rfl, ht⟩ := putConfirmation_ok h
  rcases ht c hc with rfl | hold
  · exact .inr ⟨rfl, hhash.symm⟩
  · exact .inl hold

variable {c : Confirmation}

/-- A confirmation row is old, and no preview of its grant, or it is that of a preview. -/
theorem Effect.confirmations (h : Effect P s call db' answer) (hc : c ∈ db'.confirmations) :
    (c ∈ s.db.confirmations ∧ call.preview.all (·.1 ≠ c.grantId) = true) ∨
      ∃ token, call.preview = some (c.grantId, token) ∧ P.hash token = c.tokenHash := by
  cases h with
  | savedConfig | savedManagement => exact .inl ⟨by simpa using hc, rfl⟩
  | updatedClient =>
    rw [Db.endClient_confirmations] at hc
    exact .inl ⟨hc, rfl⟩
  | showed _ htouches => exact .inl ⟨htouches.confirmations ▸ hc, rfl⟩
  | released htouches => exact .inl ⟨(htouches "" 0).confirmations ▸ hc, rfl⟩
  | denied _ _ htouches => exact .inl ⟨htouches.confirmations ▸ hc, rfl⟩
  | accepted haccept =>
    obtain ⟨t, -, hdb₁⟩ := insertGrant_ok.mp haccept.insertGrant
    obtain ⟨t', -, hdb₂⟩ := insertCode_ok.mp haccept.insertCode
    rw [haccept.touches.confirmations, ← hdb₂, ← hdb₁] at hc
    exact .inl ⟨hc, rfl⟩
  | exchanged htoken => exact .inl ⟨htoken.others.2.2.1 ▸ hc, rfl⟩
  | narrowed hnarrow =>
    obtain ⟨grant, -, -, ⟨-, rfl⟩ | ⟨-, tools, scopes, -, -, rfl⟩⟩ := narrowGrant_ok hnarrow
    · exact .inl ⟨hc, rfl⟩
    · exact .inl ⟨hc, rfl⟩
  | previewed hpreview =>
    obtain ⟨row, hput, rfl, hhash⟩ := hpreview.puts
    rcases putConfirmation_rows hput hhash hc with ⟨hold, hne⟩ | ⟨hid, htoken⟩
    · exact .inl ⟨hold, by simpa [Call.preview] using Ne.symm hne⟩
    · exact .inr ⟨_, by rw [hid]; rfl, htoken⟩
  | updated hupdate =>
    obtain ⟨ctx, change, -, -, -, rfl, -⟩ := hupdate.reads
    exact .inl ⟨(Table.mem_delete.mp hc).1, rfl⟩
  | previewedTargets hpreview =>
    obtain ⟨-, row, hput, rfl, hhash⟩ := previewManagementTargets_ok hpreview
    rcases putConfirmation_rows hput hhash hc with ⟨hold, hne⟩ | ⟨hid, htoken⟩
    · exact .inl ⟨hold, by simpa [Call.preview] using Ne.symm hne⟩
    · exact .inr ⟨_, by rw [hid]; rfl, htoken⟩
  | updatedTargets hupdate =>
    obtain ⟨⟨targets, rfl⟩, -⟩ := updateManagementTargets_ok hupdate
    exact .inl ⟨(Table.mem_delete.mp hc).1, rfl⟩
  | _ => exact .inl ⟨hc, rfl⟩

/-- An update consumes the pending row of its grant. -/
theorem Effect.consumes (h : Effect P s call db' answer) {grantId confirmation : String}
    (hcall : call.update = some (grantId, confirmation)) :
    (∃ c ∈ s.db.confirmations, c.grantId = grantId ∧ c.tokenHash = P.hash confirmation) ∧
      ∀ c ∈ db'.confirmations, c ∈ s.db.confirmations ∧ c.grantId ≠ grantId := by
  cases h with
  | updated hupdate =>
    obtain ⟨rfl, rfl⟩ := Prod.mk.inj (Option.some.inj hcall)
    obtain ⟨ctx, change, -, -, -, rfl, -⟩ := hupdate.reads
    refine ⟨hupdate.pending, ?_⟩
    intro c hc
    obtain ⟨hmem, hne⟩ := Table.mem_delete.mp hc
    exact ⟨hmem, by simpa using hne⟩
  | updatedTargets hupdate =>
    obtain ⟨rfl, rfl⟩ := Prod.mk.inj (Option.some.inj hcall)
    obtain ⟨⟨targets, rfl⟩, -, hpending⟩ := updateManagementTargets_ok hupdate
    refine ⟨hpending, ?_⟩
    intro c hc
    obtain ⟨hmem, hne⟩ := Table.mem_delete.mp hc
    exact ⟨hmem, by simpa using hne⟩
  | _ => cases hcall

/-! ## A confirmation is consumed once -/

variable {grantId text : String}

omit [DecidableEq D] in
theorem Call.preview_fresh (h : call.preview = some (grantId, text)) : P.hash text ∈ call.fresh P := by
  cases call with
  | previewScope | previewManagementTargets =>
    obtain ⟨rfl, rfl⟩ := Prod.mk.inj (Option.some.inj h)
    simp [Call.fresh]
  | _ => cases h

/-- A row after a step is old, or has a digest never used before. -/
theorem Step.confirmations (hs : Step P w e w') (hc : c ∈ w'.db.confirmations) :
    c ∈ w.db.confirmations ∨ (c.tokenHash ∈ e.call.fresh P ∧ c.tokenHash ∉ w.used) := by
  have hfresh := hs.fresh
  cases hs.moves with
  | fails => exact .inl hc
  | commits _ _ heffect =>
    rcases heffect.confirmations hc with ⟨hold, -⟩ | ⟨token, hpreview, hhash⟩
    · exact .inl hold
    · have hmem := hhash ▸ Call.preview_fresh hpreview
      exact .inr ⟨hmem, hfresh _ hmem⟩

/-- The digests of the pending rows were used, each by one row. -/
structure Distinct (w : World D) : Prop where
  used : ∀ c ∈ w.db.confirmations, c.tokenHash ∈ w.used
  grantId : ∀ c ∈ w.db.confirmations, ∀ c' ∈ w.db.confirmations, c.tokenHash = c'.tokenHash → c.grantId = c'.grantId

theorem Distinct.step (h : Distinct w) (hs : Step P w e w') : Distinct w' := by
  have hused := hs.used
  refine ⟨?_, ?_⟩
  · intro c hc
    rw [hused]
    rcases hs.confirmations hc with hold | ⟨hnew, -⟩
    · exact List.mem_append_right _ (h.used c hold)
    · exact List.mem_append_left _ hnew
  intro c hc c' hc' heq
  cases hs.moves with
  | fails => exact h.grantId c hc c' hc' heq
  | commits _ _ heffect =>
    have hfresh := hs.fresh
    rcases heffect.confirmations hc with ⟨hold, -⟩ | ⟨token, hpreview, hhash⟩
    · rcases heffect.confirmations hc' with ⟨hold', -⟩ | ⟨token', hpreview', hhash'⟩
      · exact h.grantId c hold c' hold' heq
      · refine absurd (h.used c hold) ?_
        rw [heq, ← hhash']
        exact hfresh _ (Call.preview_fresh hpreview')
    rcases heffect.confirmations hc' with ⟨hold', -⟩ | ⟨token', hpreview', hhash'⟩
    · refine absurd (h.used c' hold') ?_
      rw [← heq, ← hhash]
      exact hfresh _ (Call.preview_fresh hpreview)
    · rw [hpreview] at hpreview'
      exact (Prod.mk.inj (Option.some.inj hpreview')).1

/-- No row waits for this digest, and none will. -/
def Consumed (digest : String) (w : World D) : Prop := digest ∈ w.used ∧ ∀ c ∈ w.db.confirmations, c.tokenHash ≠ digest

theorem Consumed.step {digest : String} (h : Consumed digest w) (hs : Step P w e w') : Consumed digest w' := by
  refine ⟨hs.later.used _ h.1, ?_⟩
  intro c hc
  rcases hs.confirmations hc with hold | ⟨-, hnew⟩
  · exact h.2 c hold
  · rintro rfl
    exact hnew h.1

omit [DecidableEq D] in
theorem Event.consumed_eq (h : e.consumed = some (grantId, text)) :
    e.call.update = some (grantId, text) ∧ ∃ answer, e.result = .ok answer := by
  unfold Event.consumed at h
  cases hresult : e.result with
  | error error => simp [hresult, Except.isOk, Except.toBool] at h
  | ok answer => exact ⟨by simpa [hresult, Except.isOk, Except.toBool] using h, answer, rfl⟩

theorem Step.consumed (hs : Step P w e w') (hw : Distinct w)
    (h : e.consumed = some (grantId, text)) : ¬ Consumed (P.hash text) w ∧ Consumed (P.hash text) w' := by
  obtain ⟨hcall, answer, hresult⟩ := Event.consumed_eq h
  obtain ⟨db', hdb, heffect⟩ := hs.effect hresult
  obtain ⟨⟨c, hc, hid, hhash⟩, hrest⟩ := heffect.consumes hcall
  refine ⟨fun hspent => hspent.2 c hc hhash, hs.later.used _ (hhash ▸ hw.used c hc), ?_⟩
  intro c' hc' heq
  rw [hdb] at hc'
  obtain ⟨hold, hne⟩ := hrest c' hc'
  exact hne ((hw.grantId c' hold c hc (heq.trans hhash.symm)).trans hid)

theorem consumed_once (h : Run (Step P) {} tr w) (text : String) :
    tr.countP (fun e => e.consumed.any (·.2 = text)) ≤ 1 := by
  refine h.once (I := Distinct) (Consumed (P.hash text)) _ ?_ ?_ ?_ ?_
  · exact ⟨fun c hc => absurd hc (Table.not_mem_empty c), fun c hc => absurd hc (Table.not_mem_empty c)⟩
  · intro t e v hI hs
    exact hI.step hs
  · intro t e v _ hs hspent
    exact hspent.step hs
  · intro t e v hI hs he
    obtain ⟨⟨grantId, text'⟩, hx, htext⟩ := (Option.any_eq_true _ _).mp he
    obtain rfl : text' = text := of_decide_eq_true htext
    exact hs.consumed hI hx

/-! ## The row of a grant is that of its last preview -/

/-- The row was left by a preview of its grant, and none was previewed since. -/
def Pending (P : Params D) (tr : List (Event D)) (c : Confirmation) : Prop :=
  ∃ pre pv post text, tr = pre ++ pv :: post ∧ pv.previewed = some (c.grantId, text) ∧ P.hash text = c.tokenHash ∧
    ∀ x ∈ post, x.previewed.all (·.1 ≠ c.grantId) = true

omit [DecidableEq D] in
theorem Pending.snoc (h : Pending P tr c) (he : e.previewed.all (·.1 ≠ c.grantId) = true) : Pending P (tr ++ [e]) c := by
  obtain ⟨pre, pv, post, text, rfl, hpreview, hhash, hpost⟩ := h
  refine ⟨pre, pv, post ++ [e], text, by simp, hpreview, hhash, ?_⟩
  intro x hx
  rcases List.mem_append.mp hx with hx | hx
  · exact hpost x hx
  · obtain rfl := List.mem_singleton.mp hx
    exact he

theorem pending_run (h : Run (Step P) {} tr w) : ∀ c ∈ w.db.confirmations, Pending P tr c := by
  induction h with
  | nil => exact fun c hc => absurd hc (Table.not_mem_empty c)
  | @snoc v u tr e hrun hs ih =>
    intro c hc
    cases hs.moves with
    | fails hresult => exact (ih c hc).snoc (by simp [Event.previewed, hresult, Except.isOk, Except.toBool])
    | commits hresult _ heffect =>
      have hpreviewed : e.previewed = e.call.preview := by simp [Event.previewed, hresult, Except.isOk, Except.toBool]
      rcases heffect.confirmations hc with ⟨hold, hother⟩ | ⟨text, hpreview, hhash⟩
      · exact (ih c hold).snoc (hpreviewed ▸ hother)
      · exact ⟨tr, e, [], text, rfl, hpreviewed.trans hpreview, hhash, fun x hx => by cases hx⟩

/-! ## The preview of an update -/

/-- `hash_secret` does not collide, so neither do the digests made with it. -/
structure NoCollisions (P : Params D) : Prop where
  hash : Function.Injective P.hash
  targetDigest : Function.Injective P.targetDigest
  bindingDigest : Function.Injective P.bindingDigest
  catalogDigest : Function.Injective P.catalogDigest
  candidateDigest : Function.Injective P.candidateDigest

/-- The last preview of the grant was this `preview_scope`, in this session, and returned this token. -/
structure LastPreview (P : Params D) (tr : List (Event D)) (grantId session text : String) (paged : Bool) (pv : Event D)
    (binding : ScopeBinding D) (change : ScopeChange D) : Prop where
  call : ∃ caller csrf request page, pv.call = .previewScope caller grantId session csrf request page text ∧
    page.isSome = paged
  result : ∃ expiresAt, pv.result = .ok (.previewed text
    (.scopeConfirmation paged binding (P.targetDigest change.target) expiresAt) change)
  last : ∃ pre post, tr = pre ++ pv :: post ∧ ∀ x ∈ post, x.previewed.all (·.1 ≠ grantId) = true

/-- The grant has what the change showed. A paged change shows the tools of the candidate index under its revision
marker, so there the rest of a tool is what the index has. -/
structure ScopeChange.Written (change : ScopeChange D) (paged : Bool) (before after : Outside) (grant : Grant) : Prop where
  toolIds : grant.tools.map Tool.id = change.tools.map Tool.id
  bindings : toolBindings grant.tools = toolBindings change.tools
  policies : grant.serverPolicies = change.policies
  expiresAt : grant.expiresAt = change.target.expiresAt
  ratePerMinute : grant.ratePerMinute = change.target.ratePerMinute
  concurrency : grant.concurrency = change.target.concurrency
  marker : paged = true → before.marker = after.marker
  tools : (paged = true → SameIndex before after) → grant.tools.map Tool.approved = change.tools.map Tool.approved

omit [DecidableEq D] in
theorem Event.previewed_eq (h : e.previewed = some (grantId, text)) :
    e.call.preview = some (grantId, text) ∧ ∃ answer, e.result = .ok answer := by
  unfold Event.previewed at h
  cases hresult : e.result with
  | error error => simp [hresult, Except.isOk, Except.toBool] at h
  | ok answer => exact ⟨by simpa [hresult, Except.isOk, Except.toBool] using h, answer, rfl⟩

/-- A token that opens as a scope confirmation is that of a `preview_scope`. -/
theorem Step.previewed_scope (hs : Step P w e w') {t : Sealed D} {paged : Bool}
    {binding : ScopeBinding D} {digest : D} {expiresAt : Int} (hpreview : e.previewed = some (grantId, text))
    (hdecrypt : P.decrypt text = some t) (hpayload : t.payload = .scopeConfirmation paged binding digest expiresAt) :
    ∃ caller session csrf request page change ctx, e.call = .previewScope caller grantId session csrf request page text ∧
      e.result = .ok (.previewed text t.payload change) ∧ page.isSome = paged ∧
      scopeContext P (e.snapshot w) caller session grantId request.toolIds page = .ok ctx ∧
      scopeChange P (e.snapshot w) ctx request = .ok change ∧ ctx.binding = binding ∧
      P.targetDigest change.target = digest := by
  obtain ⟨hcall, answer, hanswer⟩ := Event.previewed_eq hpreview
  cases hs.moves with
  | fails herror =>
    rw [hanswer] at herror
    cases herror
  | commits hresult hseals heffect =>
    cases hc : e.call with
    | previewScope =>
      rw [hc] at hcall heffect
      obtain ⟨rfl, rfl⟩ := Prod.mk.inj (Option.some.inj hcall)
      cases heffect with
      | previewed hpreview =>
        obtain ⟨ctx, hctx, hchange, expiresAt', rfl⟩ := hpreview.reads
        simp only [Answer.issues_previewed, List.mem_singleton, forall_eq, hdecrypt, Option.some.injEq] at hseals
        subst hseals
        obtain ⟨rfl, rfl, rfl, -⟩ := Payload.scopeConfirmation.inj hpayload
        exact ⟨_, _, _, _, _, _, ctx, rfl, hresult, rfl, hctx, hchange, rfl, rfl⟩
    | previewManagementTargets =>
      rw [hc] at hcall heffect
      obtain ⟨rfl, rfl⟩ := Prod.mk.inj (Option.some.inj hcall)
      cases heffect with
      | previewedTargets hpreview =>
        obtain ⟨⟨binding', digest', expiresAt', rfl⟩, -⟩ := previewManagementTargets_ok hpreview
        simp only [Answer.issues_ticket, List.mem_singleton, forall_eq, hdecrypt, Option.some.injEq] at hseals
        subst hseals
        cases hpayload
    | _ =>
      rw [hc] at hcall
      cases hcall

/-- What the binding of a preview says of the grant it read. -/
theorem scopeContext_binding {caller : AuthPrincipal} {session grantId : String} {toolIds : List String}
    {page : Option (Page D)} {ctx : ScopeContext D} (h : scopeContext P s caller session grantId toolIds page = .ok ctx) :
    ctx.binding.sessionHash = P.hash session ∧ ctx.binding.grantRevision = ctx.grant.revision := by
  obtain ⟨digest, hbinding⟩ := (scopeContext_ok h).binding
  rw [hbinding]
  exact ⟨rfl, rfl⟩

/-- A grant read at two times with one revision is one row. -/
theorem same_grant {v : World D} {caller₁ caller₂ : AuthPrincipal} {session₁ session₂ grantId : String}
    {toolIds₁ toolIds₂ : List String} {page₁ page₂ : Option (Page D)} {ctx₁ ctx₂ : ScopeContext D} {e₁ e₂ : Event D}
    (h₁ : scopeContext P (e₁.snapshot v) caller₁ session₁ grantId toolIds₁ page₁ = .ok ctx₁)
    (h₂ : scopeContext P (e₂.snapshot w) caller₂ session₂ grantId toolIds₂ page₂ = .ok ctx₂) (hlater : Evolves v.db w.db)
    (hrevision : ctx₁.grant.revision = ctx₂.grant.revision) : ctx₁.grant = ctx₂.grant := by
  have hreads₁ := scopeContext_ok h₁
  have hreads₂ := scopeContext_ok h₂
  rcases (hlater.grant hreads₁.mem hreads₂.mem (hreads₂.id.trans hreads₁.id.symm)).revision with hlt | heq
  · omega
  · exact heq

theorem ScopeChange.written {s₁ s₂ : Snapshot} {caller₁ caller₂ : AuthPrincipal} {session₁ session₂ grantId : String}
    {request₁ request₂ : ScopeRequest} {page₁ page₂ : Option (Page D)} {ctx₁ ctx₂ : ScopeContext D}
    {change₁ change₂ : ScopeChange D} (hinj : NoCollisions P)
    (hctx₁ : scopeContext P s₁ caller₁ session₁ grantId request₁.toolIds page₁ = .ok ctx₁)
    (hctx₂ : scopeContext P s₂ caller₂ session₂ grantId request₂.toolIds page₂ = .ok ctx₂)
    (hchange₁ : scopeChange P s₁ ctx₁ request₁ = .ok change₁) (hchange₂ : scopeChange P s₂ ctx₂ request₂ = .ok change₂)
    (hpaged : page₁.isSome = page₂.isSome) (hbinding : ctx₁.binding = ctx₂.binding) (hgrant : ctx₁.grant = ctx₂.grant)
    (htarget : change₁.target = change₂.target) :
    change₁.Written page₂.isSome s₁.out s₂.out (rescopedGrant change₂ request₂ ctx₂.grant) := by
  have hof₁ := scopeChange_ok hchange₁
  have hof₂ := scopeChange_ok hchange₂
  have hsame := htarget
  rw [hof₁.target, hof₂.target] at hsame
  simp only [targetOf, Target.mk.injEq] at hsame
  obtain ⟨hids, hpolicies, hexpires, hrate, hconcurrency, hbindings⟩ := hsame
  have hdigest := congrArg ScopeBinding.catalogDigest hbinding
  refine ⟨hids.symm, (hinj.bindingDigest hbindings).symm, hpolicies.symm, ?_, ?_, ?_, ?_, ?_⟩
  · rw [hof₁.target]
    exact hexpires.symm
  · rw [hof₁.target]
    exact hrate.symm
  · rw [hof₁.target]
    exact hconcurrency.symm
  · intro hsome
    obtain ⟨page, rfl⟩ := Option.isSome_iff_exists.mp hsome
    obtain ⟨page', rfl⟩ := Option.isSome_iff_exists.mp hpaged
    obtain ⟨-, state₁, hstate₁, hmarker₁⟩ := scopeContext_paged hctx₁
    obtain ⟨-, state₂, hstate₂, hmarker₂⟩ := scopeContext_paged hctx₂
    have hstate := hinj.candidateDigest (hstate₁.symm.trans (hdigest.trans hstate₂))
    rw [← hmarker₁, ← hmarker₂, hstate]
  · intro hindex
    have hagree := scopeContext_agree hctx₁ hctx₂ hpaged hdigest hinj.catalogDigest hindex
    exact (same_tools hchange₁ hchange₂ hgrant htarget hinj.bindingDigest hagree).symm

/-! ## Quota-only changes -/

/-- The same tools, policy intents and expiry, and another rate or concurrency. -/
structure QuotaOnly (grant : Grant) (request : ScopeRequest) : Prop where
  toolIds : request.toolIds.toFinset = (grant.tools.map Tool.id).toFinset
  intents : ((submittedPolicies grant request).map SubmittedPolicy.intent).Perm (grant.serverPolicies.map ServerPolicy.intent)
  expiresAt : request.expiresAt = grant.expiresAt
  limits : ¬ (request.ratePerMinute = grant.ratePerMinute ∧ request.concurrency = grant.concurrency)

omit [DecidableEq D] in
/-- Unless a binding is submitted that is not the saved one, a quota-only change keeps the saved tools and policies. -/
theorem QuotaOnly.keeps {ctx : ScopeContext D} {request : ScopeRequest} {change : ScopeChange D}
    (h : QuotaOnly ctx.grant request) (hchange : scopeChange P s ctx request = .ok change)
    (hkeeps : (submittedPolicies ctx.grant request).all (·.keepsBinding ctx.grant.serverPolicies) = true) :
    change.tools = ctx.grant.tools ∧ change.policies = ctx.grant.serverPolicies := by
  refine (scopeChange_ok hchange).quota ?_
  by_contra hquota
  -- any other change was bound, so no policy had extra keys
  have hextra := (scopeChange_chosen hchange (by simpa using hquota)).policies.extraKeys
  refine hquota ?_
  simp only [quotaOnlyTarget, h.expiresAt, h.toolIds, hextra, hkeeps, decide_true, Bool.true_and, Bool.not_false,
    Bool.and_true, Bool.and_eq_true, Bool.not_eq_true', Bool.and_eq_false_iff, decide_eq_true_eq, decide_eq_false_iff_not]
  exact ⟨not_and_or.mp h.limits, h.intents⟩

/-! ## Every run -/

/-- **A grant changes to what was previewed last.** In every run a confirmation is consumed at most once, and every
update of a scope writes what the last preview of the grant showed, a preview of the same session at the same revision
of the grant. A quota-only update keeps tools and policies, unless it submits a server binding that is not the saved
one: to submit the current binding is how a policy is bound anew. -/
theorem scope_confirmation (hinj : NoCollisions P) (h : Run (Step P) {} tr w) :
    (∀ text, tr.countP (fun e => e.consumed.any (·.2 = text)) ≤ 1) ∧
      ∀ e w' caller grantId session confirmation request page grant', Step P w e w' →
        e.call = .updateScope caller grantId session confirmation request page → e.result = .ok (.updated grant') →
        ∃ grant ∈ w.db.grants, grant.id = grantId ∧ grant' ∈ w'.db.grants ∧ grant'.id = grantId ∧
          (∃ pv binding change, LastPreview P tr grantId session confirmation page.isSome pv binding change ∧
            binding.grantRevision = grant.revision ∧ change.Written page.isSome pv.out e.out grant') ∧
          (QuotaOnly grant request →
            (submittedPolicies grant request).all (·.keepsBinding grant.serverPolicies) = true →
            grant'.tools = grant.tools ∧ grant'.serverPolicies = grant.serverPolicies) := by
  refine ⟨consumed_once h, ?_⟩
  intro e w' caller grantId session confirmation request page grant' hs hcall hresult
  obtain ⟨db', hdb, heffect⟩ := hs.effect hresult
  rw [hcall] at heffect
  cases heffect with
  | updated hupdate =>
    obtain ⟨ctx, change, hctx, hchange, rfl, hdb', t, expiresAt, hdecrypt, hpayload⟩ := hupdate.reads
    obtain ⟨c, hc, rfl, htoken⟩ := hupdate.pending
    have hreads := scopeContext_ok hctx
    -- the pending row is that of the last preview, whose token is the confirmation
    obtain ⟨pre, pv, post, text, rfl, hpreviewed, hhash, hpost⟩ := pending_run h c hc
    obtain rfl := hinj.hash (hhash.trans htoken)
    obtain ⟨v, v', -, hpv, hrest⟩ := h.split
    obtain ⟨caller', session', csrf, request', page', change', ctx', hcall', hresult', hpaged, hctx', hchange', hbinding,
      hdigest⟩ := hpv.previewed_scope hpreviewed hdecrypt hpayload
    obtain ⟨hsession', hrevision'⟩ := scopeContext_binding hctx'
    obtain ⟨hsession, hrevision⟩ := scopeContext_binding hctx
    obtain rfl : session' = session := hinj.hash (by rw [← hsession', ← hsession, hbinding])
    have hlater : Evolves v.db w.db := hpv.evolves.trans (Run.later hrest).evolves
    have hgrant := same_grant hctx' hctx hlater (by rw [← hrevision', ← hrevision, hbinding])
    have htarget := hinj.targetDigest hdigest
    have hid : (rescopedGrant change request ctx.grant).id = c.grantId := hreads.id
    refine ⟨ctx.grant, hreads.mem, hreads.id, ?_, hid, ⟨pv, ctx.binding, change', ?_, hrevision, ?_⟩, ?_⟩
    · have hwritten : rescopedGrant change request ctx.grant ∈
          (w.db.updateGrant c.grantId (rescopedGrant change request) fun _ => rfl).grants :=
        updateGrant_mem _ hreads.mem hreads.id
      rw [hdb, hdb']
      exact hwritten
    · refine ⟨⟨caller', csrf, request', page', hcall', hpaged⟩, ⟨expiresAt, ?_⟩, pre, post, rfl, hpost⟩
      rw [hresult', hpayload, htarget]
    · exact ScopeChange.written hinj hctx' hctx hchange' hchange hpaged hbinding hgrant htarget
    · intro hquota hkeeps
      exact hquota.keeps hchange hkeeps

/-! ## A policy bound anew -/

def rebindOptions : String := "options-options-options-options-options-options"

def rebindConfirmation : String := "confirm-confirm-confirm-confirm-confirm-confirm"

/-- What the preview and the update read of the grant. -/
def rebindBinding : ScopeBinding Digest where
  userId := "u1"
  sessionHash := "#console"
  grantId := "grant"
  grantRevision := 1
  clientId := "client"
  clientRevision := 1
  configurationRevision := 1
  resource := demoResource
  catalogDigest := .catalog {("files.list", "files", .read, "f1")}

def rebindSeals (text : String) : Option (Sealed Digest) :=
  if text = rebindOptions then some ⟨.scopeOptions false rebindBinding 607, 7⟩
  else if text = rebindConfirmation then
    some ⟨.scopeConfirmation false rebindBinding (.target [] [⟨"files", .read, "files-2"⟩] 2592006 30 2 (.bindings ∅)) 608, 8⟩
  else none

def rebind : Params Digest := demoParams rebindSeals

/-- The service `files` was replaced: its binding is `files-2` now. -/
def rebindOut (now : Int) : Outside :=
  { demoOut now with
    auth := { demoAuth with access := { demoAuth.access with identities := [⟨"files", "files-2", "", ""⟩] } } }

/-- Half the rate, and the binding the service has now. -/
def rebindRequest : ScopeRequest where
  revision := 1
  toolIds := []
  expiresAt := 2592006
  ratePerMinute := 30
  concurrency := 2
  serverPolicies := some [{ serverId := "files", access := .read, serverBinding := some "files-2" }]

/-- The viewer consents to the service, which is then replaced, and previews the change. -/
def rebindScript : List (Entry Digest) :=
  demoScript.take 5 ++
    [{ out := demoOut 6
       call := fun s => .consent s s demoTicketText "browser" "csrf" (some demoViewer)
        { toolIds := [], grantDays := 30, ratePerMinute := 60, concurrency := 2,
          serverPolicies := [{ serverId := "files", access := .read }] } "code" "grant" },
     { out := rebindOut 7, call := fun _ => .scopeOptions demoViewer "grant" "console" rebindOptions },
     { out := rebindOut 8
       call := fun _ => .previewScope demoViewer "grant" "console" rebindOptions rebindRequest none rebindConfirmation }]

def rebindUpdate : Entry Digest where
  out := rebindOut 9
  call := fun _ => .updateScope demoViewer "grant" "console" rebindConfirmation rebindRequest none

def rebindWorld : World Digest := play rebind {} rebindScript

def rebindEvent : Event Digest := rebindUpdate.event rebind rebindWorld

/-- The grant an update answers with. -/
def Event.written (e : Event D) : Option Grant :=
  match e.result with
  | .ok (.updated grant) => some grant
  | _ => none

/-- The script is played once, for all that is said of it. -/
theorem rebind_played : playable rebind {} rebindScript = true ∧ admissible rebind rebindWorld rebindEvent = true ∧
    (∃ grant ∈ rebindWorld.db.grants.rows, grant.id = "grant" ∧ grant.tools = [] ∧
      grant.serverPolicies = [⟨"files", .read, "files-1"⟩] ∧ grant.expiresAt = 2592006 ∧ grant.ratePerMinute = 60) ∧
    rebindEvent.written.map Grant.serverPolicies = some [⟨"files", .read, "files-2"⟩] := by
  decide +kernel

theorem rebind_run : Run (Step rebind) {} (trace rebind {} rebindScript) rebindWorld := play_run .init rebind_played.1

theorem rebind_step : Step rebind rebindWorld rebindEvent (rebindWorld.next rebind rebindEvent) :=
  rebindUpdate.step (.run rebind_run) rebind_played.2.1

omit [DecidableEq D] in
theorem Event.written_eq {grant : Grant} (h : e.written = some grant) : e.result = .ok (.updated grant) := by
  unfold Event.written at h
  split at h
  · rename_i hresult
    rw [hresult, Option.some.inj h]
  · cases h

/-- The grant before and after: other quotas, and the policy of the other service. -/
theorem rebind_grants : (∃ grant ∈ rebindWorld.db.grants, grant.id = "grant" ∧ grant.tools = [] ∧
      grant.serverPolicies = [⟨"files", .read, "files-1"⟩] ∧ grant.expiresAt = 2592006 ∧ grant.ratePerMinute = 60) ∧
    ∃ grant', rebindEvent.result = .ok (.updated grant') ∧ grant'.serverPolicies = [⟨"files", .read, "files-2"⟩] := by
  constructor
  · exact rebind_played.2.2.1
  · obtain ⟨grant', hwritten, hserver⟩ := Option.map_eq_some_iff.mp rebind_played.2.2.2
    exact ⟨grant', Event.written_eq hwritten, hserver⟩

/-- An update with the same tools, intents and expiry and another rate does change the policies. -/
theorem quota_only_rebinds : ∃ (tr : List (Event Digest)) (w w' : World Digest) (e : Event Digest) (grant grant' : Grant),
    Run (Step rebind) {} tr w ∧ Step rebind w e w' ∧
      e.call = .updateScope demoViewer "grant" "console" rebindConfirmation rebindRequest none ∧
      e.result = .ok (.updated grant') ∧ grant ∈ w.db.grants ∧ grant.id = "grant" ∧ QuotaOnly grant rebindRequest ∧
      grant'.serverPolicies ≠ grant.serverPolicies := by
  obtain ⟨⟨grant, hmem, hid, htools, hpolicies, hexpires, hrate⟩, grant', hresult, hpolicies'⟩ := rebind_grants
  refine ⟨_, _, _, _, grant, grant', rebind_run, rebind_step, rfl, hresult, hmem, hid, ⟨?_, ?_, hexpires.symm, ?_⟩, ?_⟩
  · rw [htools]
    rfl
  · rw [hpolicies]
    exact List.Perm.refl _
  · rw [hrate]
    rintro ⟨hsame, -⟩
    exact absurd hsame (by decide)
  · rw [hpolicies, hpolicies']
    decide

theorem rebind_noCollisions : NoCollisions rebind where
  hash := by
    intro a b h
    exact String.append_right_inj "#" |>.mp h
  targetDigest := by
    intro a b h
    cases a
    cases b
    simpa [rebind, demoParams] using h
  bindingDigest := fun a b h => Digest.bindings.inj h
  catalogDigest := fun a b h => Digest.catalog.inj h
  candidateDigest := by
    intro a b h
    cases a
    cases b
    simpa [rebind, demoParams] using h

theorem scope_confirmation_rebind : ∃ pv binding change,
    LastPreview rebind (trace rebind {} rebindScript) "grant" "console" rebindConfirmation false pv binding change ∧
      change.policies = [⟨"files", .read, "files-2"⟩] := by
  obtain ⟨-, grant', hresult, hpolicies⟩ := rebind_grants
  obtain ⟨grant, -, -, -, -, ⟨pv, binding, change, hlast, -, hwritten⟩, -⟩ :=
    (scope_confirmation rebind_noCollisions rebind_run).2 _ _ _ _ _ _ _ _ _ rebind_step rfl hresult
  exact ⟨pv, binding, change, hlast, hwritten.policies.symm.trans hpolicies⟩

end LingshuGate.OAuth

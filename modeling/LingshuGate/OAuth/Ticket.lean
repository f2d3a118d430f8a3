import LingshuGate.OAuth.System

/-!
# Authorization tickets over whole runs

| here | there |
| --- | --- |
| `Started`   | what `start_authorization` checked when it sealed the ticket (oauth_server.py:330-372) |
| `Dated`     | the revisions inside a ticket are not ahead of the tables |
| `Issued`    | both, from the moment of issue on |

A ticket is not stored: all the server knows of it later is what the cipher gives back. So everything a later call
may rely on is a fact about the history at the time of issue, and `Issued` carries it along the run.
-/

namespace LingshuGate.OAuth

open Lib

variable {D : Type} [DecidableEq D] {P : Params D} {w w' : World D} {e : Event D} {s : Snapshot} {call : Call D}
  {db' : Db} {answer : Answer D} {tr : List (Event D)}

/-- The three readings of `start_authorization`, each of a database of the history. -/
structure Started (P : Params D) (history : List Db) (ticket : Ticket) : Prop where
  config : ∃ db ∈ history, db.config.revision = ticket.request.configurationRevision
  client : ∃ db ∈ history, ∃ c ∈ db.clients, c.id = ticket.request.clientId ∧
    c.revision = ticket.request.clientRevision ∧ ticket.request.scopes ⊆ c.scopes
  resource : ∃ s : Snapshot, s.db ∈ history ∧ ticket.expiresAt = s.out.now + 600 ∧
    ∃ policy, resourcePolicy P s ticket.request.resource = .ok policy ∧
      policy.managementRevision = ticket.request.managementRevision ∧
      ticket.request.scopes ⊆ policy.kind.allowedScopes ∧
      (policy.kind = .management → Scope.operationsManage ∈ ticket.request.scopes)

/-- No revision in the request is ahead of the tables. -/
structure Dated (db : Db) (request : AuthorizationRequest) : Prop where
  config : request.configurationRevision ≤ db.config.revision
  client : ∃ c ∈ db.clients, c.id = request.clientId ∧ request.clientRevision ≤ c.revision
  management : ∀ m, request.managementRevision = some m → m ≤ db.management.revision

structure Issued (P : Params D) (w : World D) (text : String) (t : Sealed D) (ticket : Ticket) : Prop where
  decrypt : P.decrypt text = some t
  used : P.hash text ∈ w.used
  started : Started P w.history ticket
  dated : Dated w.db ticket.request

variable {ticket : Ticket}

omit [DecidableEq D] in
theorem Started.mono {history history' : List Db} (h : Started P history ticket)
    (hsub : history ⊆ history') : Started P history' ticket where
  config := h.config.imp fun _ hdb => ⟨hsub hdb.1, hdb.2⟩
  client := h.client.imp fun _ hdb => ⟨hsub hdb.1, hdb.2⟩
  resource := h.resource.imp fun _ hs => ⟨hsub hs.1, hs.2⟩

theorem Dated.evolves {a b : Db} {request : AuthorizationRequest} (h : Dated a request) (he : Evolves a b) : Dated b request where
  config := h.config.trans he.config_le
  client := by
    obtain ⟨c, hc, hid, hrevision⟩ := h.client
    obtain ⟨c', hc', hle⟩ := he.clients c hc
    exact ⟨c', hc', hle.id.trans hid, hrevision.trans hle.revision_le⟩
  management m hm := (h.management m hm).trans he.management_le

omit [DecidableEq D] in
/-- What was read of the history is not ahead of the current tables. -/
theorem Started.dated (h : Started P w.history ticket) (hw : Ordered w) : Dated w.db ticket.request where
  config := by
    obtain ⟨db, hdb, hrevision⟩ := h.config
    exact hrevision ▸ (hw.from_history hdb).config_le
  client := by
    obtain ⟨db, hdb, c, hc, hid, hrevision, -⟩ := h.client
    obtain ⟨c', hc', hle⟩ := (hw.from_history hdb).clients c hc
    exact ⟨c', hc', hle.id.trans hid, hrevision ▸ hle.revision_le⟩
  management := by
    intro m hm
    obtain ⟨s, hs, -, policy, hpolicy, hmanagement, -⟩ := h.resource
    rcases (resourcePolicy_ok hpolicy).2 with ⟨-, hnone, -⟩ | ⟨-, hsome, -⟩
    · rw [hm, hnone] at hmanagement
      cases hmanagement
    · rw [hm, hsome] at hmanagement
      obtain rfl := Option.some.inj hmanagement
      exact (hw.from_history hs).management_le

omit [DecidableEq D] in
theorem startAuthorization_started {atConfig atClient : Snapshot} {params : AuthorizationParams}
    {browser csrf text : String} {payload : Payload D} {history : List Db}
    (h : startAuthorization P s atConfig atClient params browser csrf text = .ok payload)
    (hconfig : atConfig.db ∈ history) (hclient : atClient.db ∈ history) (hs : s.db ∈ history)
    (hticket : payload.ticket = some ticket) : Started P history ticket := by
  obtain ⟨config, row, policy, redirectUri, scopes, request, hready, hrow, hpolicy, hrequest, rfl⟩ := startAuthorization_ok h
  obtain rfl := Option.some.inj hticket
  obtain rfl := readyConfig_ok hready
  obtain ⟨hmem, hid, -⟩ := enabledClient_ok hrow
  simp only [startRequest, bind_eq_ok, require_eq_ok, pure_eq_ok, Bool.and_eq_true, Bool.or_eq_true, decide_eq_true_eq] at hrequest
  obtain ⟨-, ⟨⟨⟨hallowed, -⟩, hmanage⟩, hscopes⟩, rfl⟩ := hrequest
  refine ⟨⟨_, hconfig, rfl⟩, ⟨_, hclient, row, hmem, hid, rfl, hscopes⟩, s, hs, rfl, policy, hpolicy, rfl, hallowed, ?_⟩
  intro hkind
  exact hmanage.resolve_left fun hne => hne hkind

variable {text : String}

/-- Only `start_authorization` seals authorization tickets. -/
theorem Effect.issues_ticket (h : Effect P s call db' answer) {t : Sealed D}
    (hx : (text, t) ∈ answer.issues s.out.now) (hticket : t.payload.ticket = some ticket) :
    answer = .ticket text t.payload ∧
      ∃ atConfig atClient params browser csrf, call = .startAuthorization atConfig atClient params browser csrf text ∧
        startAuthorization P s atConfig atClient params browser csrf text = .ok t.payload := by
  cases h with
  | started hstart =>
    simp only [Answer.issues_ticket, List.mem_singleton, Prod.mk.injEq] at hx
    obtain ⟨rfl, rfl⟩ := hx
    exact ⟨rfl, _, _, _, _, _, rfl, hstart⟩
  | offeredScope hnone | offeredPage hnone | offeredTargets hnone =>
    simp only [Answer.issues_ticket, List.mem_singleton, Prod.mk.injEq] at hx
    obtain ⟨rfl, rfl⟩ := hx
    rw [hnone] at hticket
    cases hticket
  | previewed hpreview =>
    simp only [Answer.issues_previewed, List.mem_singleton, Prod.mk.injEq] at hx
    obtain ⟨rfl, rfl⟩ := hx
    obtain ⟨ctx, -, -, expiresAt, rfl⟩ := hpreview.reads
    cases hticket
  | previewedTargets hpreview =>
    simp only [Answer.issues_ticket, List.mem_singleton, Prod.mk.injEq] at hx
    obtain ⟨rfl, rfl⟩ := hx
    obtain ⟨⟨binding, digest, expiresAt, rfl⟩, -⟩ := previewManagementTargets_ok hpreview
    cases hticket
  | _ => simp [Answer.issues, Answer.sealed] at hx

/-- Every authorization ticket sealed so far. -/
def AllIssued (P : Params D) (w : World D) : Prop :=
  ∀ text t ticket, (text, t) ∈ w.issued → t.payload.ticket = some ticket → Issued P w text t ticket

omit [DecidableEq D] in
theorem Issued.later {t : Sealed D} (h : Issued P w text t ticket) (hl : Later w w') : Issued P w' text t ticket where
  decrypt := h.decrypt
  used := hl.used _ h.used
  started := h.started.mono hl.history.subset
  dated := h.dated.evolves hl.evolves

theorem AllIssued.step (h : AllIssued P w) (hw : Ordered w) (hs : Step P w e w') : AllIssued P w' := by
  have hw' : Ordered w' := hw.step hs
  have hlater := hs.later
  have hfresh := hs.fresh
  have hreads := hs.reads
  intro text t ticket hx hticket
  cases hs.moves with
  | fails => exact (h text t ticket hx hticket).later hlater
  | commits hresult hseals heffect =>
    rcases List.mem_append.mp hx with hnew | hold
    · obtain ⟨-, atConfig, atClient, params, browser, csrf, hcall, hstart⟩ := heffect.issues_ticket hnew hticket
      rw [hcall] at hreads
      obtain ⟨-, -, hconfig, hclient⟩ := hw.reads hreads
      obtain ⟨older, hhead⟩ := hw.head
      have hcurrent : w.db ∈ w.history := hhead ▸ List.mem_cons_self
      have hstarted := (startAuthorization_started hstart hconfig hclient hcurrent hticket).mono hlater.history.subset
      refine ⟨hseals _ hnew, ?_, hstarted, hstarted.dated hw'⟩
      exact List.mem_append_left _ (by simp [hcall, Call.fresh])
    · exact (h text t ticket hold hticket).later hlater

theorem AllIssued.run (h : Run (Step P) {} tr w) : AllIssued P w := by
  have hboth : Ordered w ∧ AllIssued P w := by
    refine h.invariant (I := fun w => Ordered w ∧ AllIssued P w) ⟨.init, ?_⟩ ?_
    · intro text t ticket hx
      cases hx
    · intro t e v hI hs
      exact ⟨hI.1.step hs, hI.2.step hI.1 hs⟩
  exact hboth.2

/-- What a call finds behind an authorization ticket it can open. -/
theorem Step.opened (hs : Step P w e w') (hissued : AllIssued P w) (hpresents : e.call.presents = some text)
    {row : Interaction} {request : AuthorizationRequest} {policy : ResourcePolicy}
    (hi : Interacts P s text row request ticket policy) : ∃ t, (text, t) ∈ w.issued ∧ Issued P w text t ticket := by
  obtain ⟨t, hdecrypt, hticket⟩ := hi.sealed
  have hmem := hs.presents text hpresents t hdecrypt
  exact ⟨t, hmem, hissued text t ticket hmem hticket⟩

/-! ## Seals -/

/-- Every ticket is what the cipher gives back, and no two have one digest. -/
structure Sealing (P : Params D) (w : World D) : Prop where
  decrypt : ∀ x ∈ w.issued, P.decrypt x.1 = some x.2
  used : ∀ x ∈ w.issued, P.hash x.1 ∈ w.used
  distinct : (w.issued.map fun x => P.hash x.1).Nodup

omit [DecidableEq D] in
theorem Sealing.unique (h : Sealing P w) {x y : String × Sealed D} (hx : x ∈ w.issued) (hy : y ∈ w.issued)
    (hhash : P.hash x.1 = P.hash y.1) : x = y :=
  List.inj_on_of_nodup_map h.distinct hx hy hhash

omit [DecidableEq D] in
theorem Answer.issues_nodup (answer : Answer D) (now : Int) : ((answer.issues now).map fun x => P.hash x.1).Nodup := by
  unfold Answer.issues
  cases answer.sealed with
  | none => exact List.nodup_nil
  | some x => exact List.nodup_singleton _

/-- A sealed text is generated by the call. -/
theorem Effect.issues_fresh (h : Effect P s call db' answer) {now : Int} {x : String × Sealed D}
    (hx : x ∈ answer.issues now) : P.hash x.1 ∈ call.fresh P := by
  cases h with
  | started | offeredScope | offeredPage | offeredTargets | previewed | previewedTargets =>
    simp only [Answer.issues_ticket, Answer.issues_previewed, List.mem_singleton] at hx
    subst hx
    simp [Call.fresh]
  | _ => simp [Answer.issues, Answer.sealed] at hx

theorem Sealing.step (h : Sealing P w) (hs : Step P w e w') : Sealing P w' := by
  have hfresh := hs.fresh
  cases hs.moves with
  | fails => exact ⟨h.decrypt, fun x hx => List.mem_append_right _ (h.used x hx), h.distinct⟩
  | commits _ hseals heffect =>
    refine ⟨?_, ?_, ?_⟩
    · intro x hx
      rcases List.mem_append.mp hx with hnew | hold
      · exact hseals x hnew
      · exact h.decrypt x hold
    · intro x hx
      rcases List.mem_append.mp hx with hnew | hold
      · exact List.mem_append_left _ (heffect.issues_fresh hnew)
      · exact List.mem_append_right _ (h.used x hold)
    rw [List.map_append, List.nodup_append]
    refine ⟨Answer.issues_nodup _ _, h.distinct, ?_⟩
    intro k hnew k' hold heq
    obtain ⟨x, hx, rfl⟩ := List.mem_map.mp hnew
    obtain ⟨y, hy, rfl⟩ := List.mem_map.mp hold
    exact hfresh _ (heffect.issues_fresh hx) (heq ▸ h.used y hy)

theorem Sealing.run (h : Run (Step P) {} tr w) : Sealing P w := by
  refine h.invariant (I := Sealing P) ⟨?_, ?_, List.nodup_nil⟩ fun _ _ _ hI hs => hI.step hs
  · intro x hx
    cases hx
  · intro x hx
    cases hx

/-! ## Consents -/

/-- The ticket a consent was accepted for and the digest of the code it got. -/
def Event.accepted (P : Params D) (e : Event D) : Option (String × String) :=
  match e.call, e.result with
  | .consent _ _ text _ _ _ _ code _, .ok (.granted (some _)) => some (text, P.hash code)
  | _, _ => none

/-- The ticket a consent presents. -/
def Event.consents (e : Event D) : Option String :=
  match e.call with
  | .consent _ _ text _ _ _ _ _ _ => some text
  | _ => none

/-- A consent that answers opened its ticket. -/
theorem Step.consents_interacts (hs : Step P w e w') (hconsents : e.consents = some text) (hresult : e.result = .ok answer) :
    ∃ row request ticket policy, Interacts P (e.snapshot w) text row request ticket policy := by
  obtain ⟨db', -, heffect⟩ := hs.effect hresult
  unfold Event.consents at hconsents
  split at hconsents
  · rename_i hcall
    obtain rfl := Option.some.inj hconsents
    rw [hcall] at heffect
    cases heffect with
    | denied hi => exact ⟨_, _, _, _, hi⟩
    | accepted haccept => exact ⟨_, _, _, _, haccept.interacts⟩
  · cases hconsents

end LingshuGate.OAuth

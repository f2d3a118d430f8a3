import LingshuGate.OAuth.Rotation
import LingshuGate.OAuth.Ticket

/-!
# Scopes only shrink, from the ticket to the principal

| here | there |
| --- | --- |
| `Starts`            | the ticket's scopes against the client and the resource (oauth_server.py:343-352) |
| `Accepts.scopes`    | `granted_scopes` against the ticket (oauth_server.py:1182-1197) |
| `family_origin`     | the family's scopes and expiry against the grant (oauth_server.py:1302-1306) |
| `Verified.within`   | the principal's scopes (oauth_server.py:1417) |

A consent computes its scopes from tools it read between two transactions. They lie inside the ticket because the
configuration did not change in between: both transactions found the revision of the ticket.
-/

namespace LingshuGate.OAuth

open Lib AccessControl

variable {D : Type} [DecidableEq D] {P : Params D} {w w' : World D} {e : Event D} {s : Snapshot} {call : Call D}
  {db' : Db} {answer : Answer D} {tr : List (Event D)}

/-! ## The ticket -/

/-- The event issued the ticket, inside the registered scopes of its client and the allowed scopes of its resource. -/
structure Starts (P : Params D) (w : World D) (e : Event D) (text : String) (ticket : Ticket) : Prop where
  answered : ∃ payload, e.result = .ok (.ticket text payload) ∧ payload.ticket = some ticket
  client : ∃ atConfig atClient params browser csrf, e.call = .startAuthorization atConfig atClient params browser csrf text ∧
    ∃ c ∈ atClient.db.clients, c.id = ticket.request.clientId ∧ ticket.request.scopes ⊆ c.scopes
  resource : ∃ policy, resourcePolicy P (e.snapshot w) ticket.request.resource = .ok policy ∧
    ticket.request.scopes ⊆ policy.kind.allowedScopes

variable {text : String} {t : Sealed D}

theorem Step.starts (hs : Step P w e w') (hresult : e.result = .ok answer) {ticket : Ticket}
    (hx : (text, t) ∈ answer.issues e.out.now) (hticket : t.payload.ticket = some ticket) : Starts P w e text ticket := by
  obtain ⟨db', -, heffect⟩ := hs.effect hresult
  obtain ⟨rfl, atConfig, atClient, params, browser, csrf, hcall, hstart⟩ := heffect.issues_ticket hx hticket
  obtain ⟨config, row, policy, redirectUri, scopes, request, -, hrow, hpolicy, hrequest, hpayload⟩ := startAuthorization_ok hstart
  rw [hpayload] at hticket
  obtain rfl := Option.some.inj hticket
  obtain ⟨hmem, hid, -⟩ := enabledClient_ok hrow
  simp only [startRequest, bind_eq_ok, require_eq_ok, pure_eq_ok, Bool.and_eq_true, Bool.or_eq_true, decide_eq_true_eq] at hrequest
  obtain ⟨-, ⟨⟨⟨hallowed, -⟩, -⟩, hscopes⟩, rfl⟩ := hrequest
  exact ⟨⟨t.payload, hresult, hpayload ▸ rfl⟩, ⟨_, _, _, _, _, hcall, row, hmem, hid, hscopes⟩, policy, hpolicy, hallowed⟩

/-- An event of a run and the world it happened in. -/
def Happened (P : Params D) (tr : List (Event D)) (w : World D) (e : Event D) : Prop :=
  ∃ pre post w₁, tr = pre ++ e :: post ∧ Run (Step P) {} pre w ∧ Step P w e w₁

theorem Happened.snoc {e' : Event D} (h : Happened P tr w e) : Happened P (tr ++ [e']) w e := by
  obtain ⟨pre, post, w₁, rfl, hrun, hs⟩ := h
  exact ⟨pre, post ++ [e'], w₁, by simp, hrun, hs⟩

/-- Every authorization ticket was issued by an event of the run. -/
theorem issued_starts (h : Run (Step P) {} tr w) {ticket : Ticket}
    (hx : (text, t) ∈ w.issued) (hticket : t.payload.ticket = some ticket) :
    ∃ w₀ e, Happened P tr w₀ e ∧ Starts P w₀ e text ticket := by
  induction h with
  | nil => cases hx
  | @snoc v u tr e hrun hs ih =>
    rcases hs.issued hx with hold | ⟨answer, hresult, hnew⟩
    · obtain ⟨w₀, e', hhappened, hstarts⟩ := ih hold
      exact ⟨w₀, e', hhappened.snoc, hstarts⟩
    · exact ⟨v, e, ⟨tr, [], u, rfl, hrun, hs⟩, hs.starts hresult hnew hticket⟩

/-! ## The grant -/

omit [DecidableEq D] in
/-- The granted scopes lie inside the ticket. -/
theorem Accepts.scopes {first mid : Snapshot} {text code grantId : String} {grant : Grant}
    (h : Accepts P (e.snapshot w) first mid text code grantId grant db') (hw : Ordered w)
    (hreads : InOrder w.history [mid.db, first.db]) (hissued : Issued P w text t h.ticket) :
    grant.scopes ⊆ h.ticket.request.scopes := by
  rw [h.interacts.request_eq]
  refine consentGrant_scopes h.grant_ok h.interacts.policy_ok ?_ ?_
  · intro hkind tool htool
    obtain ⟨hfirst, hmid, -, -⟩ := hw.reads hreads
    -- the catalog was read under the configuration of both transactions
    have hrevision : first.db.config.revision = w.db.config.revision :=
      h.firstInteracts.configuration.trans h.interacts.configuration.symm
    have hconfig : mid.db.config = w.db.config := (hfirst.config_between hmid hrevision).2
    rcases (resourcePolicy_ok h.interacts.policy_ok).2 with ⟨-, -, hresource⟩ | ⟨hmanagement, -⟩
    · have hcatalog := h.current_ok
      simp only [catalog, bind_eq_ok] at hcatalog
      obtain ⟨policy, hpolicy, hcatalog⟩ := hcatalog
      rcases (resourcePolicy_ok hpolicy).2 with ⟨hbusiness, -, -⟩ | ⟨-, -, hne, -⟩
      · rw [hbusiness] at hcatalog
        exact businessCatalog_scopes hcatalog htool
      · exact absurd (hresource.trans (congrArg Config.resource hconfig.symm)) hne
    · rw [hkind] at hmanagement
      cases hmanagement
  intro hkind
  obtain ⟨s₀, -, -, policy₀, hpolicy₀, hrevision, -, hmanage⟩ := hissued.started.resource
  rw [← h.interacts.request_eq]
  refine hmanage ?_
  have hsome := h.interacts.kind.mp hkind
  rw [← h.interacts.request_eq, ← hrevision] at hsome
  rcases (resourcePolicy_ok hpolicy₀).2 with ⟨-, hnone, -⟩ | ⟨hkind₀, -⟩
  · exact absurd hnone hsome
  · exact hkind₀

omit [DecidableEq D] in
/-- The granted row is stored. -/
theorem Accepts.grant_mem {first mid : Snapshot} {text code grantId : String} {grant : Grant}
    (h : Accepts P s first mid text code grantId grant db') : grant ∈ db'.grants := by
  obtain ⟨t, ht, hdb₁⟩ := insertGrant_ok.mp h.insertGrant
  obtain ⟨t', -, hdb₂⟩ := insertCode_ok.mp h.insertCode
  rw [h.touches.grants, ← hdb₂, ← hdb₁]
  exact (Table.mem_insert ht).mpr (.inr rfl)

/-! ## The family -/

/-- A family is created inside the scopes and the lifetime of its grant. -/
theorem Step.created_within (hs : Step P w e w') {codeHash familyId : String} (h : e.created P = some (codeHash, familyId)) :
    ∃ f ∈ w'.db.families, f.id = familyId ∧ ∃ g ∈ w.db.grants, g.id = f.grantId ∧ f.scopes ⊆ g.scopes ∧
      f.expiresAt ≤ g.expiresAt := by
  obtain ⟨fields, clientId, secret, secrets, response, hcall, hresult, htype, -, rfl⟩ := Event.created_eq h
  obtain ⟨fields', clientId', secret', secrets', hcall', heffect⟩ := hs.exchanged hresult
  rw [hcall] at hcall'
  cases hcall'
  generalize w'.db = db' at heffect
  cases heffect with
  | rotated hpresents =>
    rw [hpresents.grantType] at htype
    exact absurd htype (by decide)
  | @created row grant client policy _ _ _ hpresents _ _ _ _ hfamily hins =>
    obtain ⟨t, ht, rfl⟩ := insertFamily_ok.mp hfamily
    obtain ⟨t', -, rfl⟩ := insertRefresh_ok.mp hins
    refine ⟨_, (Table.mem_insert ht).mpr (.inr rfl), rfl, grant, hpresents.active.mem, rfl, ?_, min_le_right _ _⟩
    intro x hx
    simp only [newFamily, Finset.mem_inter] at hx
    exact hx.1.1

/-- Every family in the tables goes back to its creation. -/
theorem family_origin (h : Run (Step P) {} tr w) {f : Family} (hf : f ∈ w.db.families) :
    ∃ w₀ e codeHash, Happened P tr w₀ e ∧ e.created P = some (codeHash, f.id) ∧
      ∃ g ∈ w₀.db.grants, g.id = f.grantId ∧ f.scopes ⊆ g.scopes ∧ f.expiresAt ≤ g.expiresAt := by
  obtain ⟨e, he, codeHash, hcreated⟩ := family_created h f hf
  obtain ⟨pre, post, rfl⟩ := List.append_of_mem he
  obtain ⟨w₀, w₁, hpre, hs, hpost⟩ := h.split
  obtain ⟨f₁, hf₁, hid, g, hg, hgid, hscopes, hexpires⟩ := hs.created_within hcreated
  have hfresh : Fresh w₁ := (Fresh.run hpre).step hs
  have hle := (Run.later hpost).follows.family hf₁ hf hid.symm (hfresh.families f₁ hf₁)
  refine ⟨w₀, e, codeHash, ⟨pre, post, w₁, rfl, hpre, hs⟩, hcreated, g, hg, hgid.trans hle.grantId.symm,
    hle.scopes.trans hscopes, ?_⟩
  rw [hle.expiresAt]
  exact hexpires

/-! ## The principal -/

/-- The principal's scopes are in the token's claim, the rows of its client, grant and family as they are now, and the
allowed scopes of the resource the token names. -/
structure Within (P : Params D) (db : Db) (later : Snapshot) (text : String) (p : AuthPrincipal) (scopes : Finset Scope) :
    Prop where
  scopes_eq : p.scopes = scopeTexts scopes
  rows : ∃ jwt, P.jwt text = some jwt ∧ (∃ claimed, scopeSet jwt.claims.scope = .ok claimed ∧ scopes ⊆ claimed) ∧
    (∃ c ∈ db.clients, c.id = jwt.claims.clientId ∧ scopes ⊆ c.scopes) ∧
    (∃ g ∈ db.grants, g.id = jwt.claims.gid ∧ scopes ⊆ g.scopes) ∧
    (∃ f ∈ db.families, f.id = jwt.claims.fid ∧ scopes ⊆ f.scopes) ∧
    ∃ policy, resourcePolicy P later jwt.claims.aud = .ok policy ∧ scopes ⊆ policy.kind.allowedScopes

theorem verifiedScopes_subset (claimed : Finset Scope) (client : Client) (grant : Grant) (family : Family) (kind : Kind) :
    verifiedScopes claimed client grant family kind ⊆ claimed ∧ verifiedScopes claimed client grant family kind ⊆ client.scopes ∧
      verifiedScopes claimed client grant family kind ⊆ grant.scopes ∧
      verifiedScopes claimed client grant family kind ⊆ family.scopes ∧
      verifiedScopes claimed client grant family kind ⊆ kind.allowedScopes := by
  have hall : ∀ x ∈ verifiedScopes claimed client grant family kind,
      x ∈ claimed ∧ x ∈ client.scopes ∧ x ∈ grant.scopes ∧ x ∈ family.scopes ∧ x ∈ kind.allowedScopes := by
    intro x hx
    simp only [verifiedScopes, Finset.mem_inter] at hx
    tauto
  exact ⟨fun x hx => (hall x hx).1, fun x hx => (hall x hx).2.1, fun x hx => (hall x hx).2.2.1,
    fun x hx => (hall x hx).2.2.2.1, fun x hx => (hall x hx).2.2.2.2⟩

omit [DecidableEq D] in
theorem verify_within {early later : Snapshot} {expectedResource : Option String} {claims : Claims}
    {p : AuthPrincipal} (h : verify P s early later text expectedResource = .ok (claims, p)) :
    ∃ scopes, Within P s.db later text p scopes := by
  obtain ⟨⟨jwt, hjwt, rfl⟩, hverified⟩ := verify_ok h
  obtain ⟨client, grant, family, kind, hv⟩ := verifiedPrincipal_ok hverified
  obtain ⟨policy, hpolicy, rfl⟩ := hv.policy
  obtain ⟨claimed, hclaimed, hscopes⟩ := hv.scopes
  obtain ⟨hsub, hclient, hgrant, hfamily, hallowed⟩ := verifiedScopes_subset claimed client grant family policy.kind
  refine ⟨_, hscopes, jwt, hjwt, ⟨claimed, hclaimed, hsub⟩, ?_, ?_, ?_, policy, hpolicy, hallowed⟩
  · exact ⟨client, hv.client_mem.1, (Option.some.inj hv.client_mem.2).symm, hclient⟩
  · exact ⟨grant, hv.grant_mem.1, (Option.some.inj hv.grant_mem.2).symm, hgrant⟩
  · exact ⟨family, hv.family_mem.1, (Option.some.inj hv.family_mem.2).symm, hfamily⟩

/-! ## Every run -/

/-- **Scopes only shrink.** In every run: an accepted consent stores scopes inside its ticket, whose scopes were inside
those of the client and the resource when it was issued; a stored grant keeps its row, and its scopes and expiry never
grow; a family began inside the scopes and the expiry of its grant, and never grows; a verified principal is inside its
token, its client, grant and family as they are, and its resource. -/
theorem scope_attenuation (h : Run (Step P) {} tr w) :
    (∀ e w' first mid text browser csrf principal body code grantId grant, Step P w e w' →
        e.call = .consent first mid text browser csrf principal body code grantId → e.result = .ok (.granted (some grant)) →
        grant ∈ w'.db.grants ∧ ∃ ticket w₀ e₀, Happened P tr w₀ e₀ ∧ Starts P w₀ e₀ text ticket ∧
          grant.scopes ⊆ ticket.request.scopes) ∧
      (∀ g ∈ w.db.grants, ∀ post w', Run (Step P) w post w' →
        ∃ g' ∈ w'.db.grants, g'.id = g.id ∧ g'.scopes ⊆ g.scopes ∧ g'.expiresAt ≤ g.expiresAt) ∧
      (∀ f ∈ w.db.families, (∃ w₀ e codeHash, Happened P tr w₀ e ∧ e.created P = some (codeHash, f.id) ∧
          ∃ g ∈ w₀.db.grants, g.id = f.grantId ∧ f.scopes ⊆ g.scopes ∧ f.expiresAt ≤ g.expiresAt) ∧
        ∀ post w', Run (Step P) w post w' → ∀ f' ∈ w'.db.families, f'.id = f.id →
          f'.scopes ⊆ f.scopes ∧ f'.expiresAt = f.expiresAt) ∧
      (∀ e w' early later text expectedResource p, Step P w e w' → e.call = .verify early later text expectedResource →
        e.result = .ok (.verified p) → ∃ scopes, Within P w.db later text p scopes) := by
  have hordered : Ordered w := .run h
  have hfresh : Fresh w := .run h
  refine ⟨?_, ?_, ?_, ?_⟩
  · intro e w' first mid text browser csrf principal body code grantId grant hs hcall hresult
    obtain ⟨db', hdb, heffect⟩ := hs.effect hresult
    have hreads := hs.reads
    rw [hcall] at heffect hreads
    cases heffect with
    | accepted haccept =>
      obtain ⟨t, hx, hissued⟩ := hs.opened (.run h) (by rw [hcall]; rfl) haccept.interacts
      obtain ⟨t', hdecrypt, hticket⟩ := haccept.interacts.sealed
      rw [hissued.decrypt] at hdecrypt
      obtain rfl := Option.some.inj hdecrypt
      obtain ⟨w₀, e₀, hhappened, hstarts⟩ := issued_starts h hx hticket
      rw [hdb]
      exact ⟨haccept.grant_mem, _, w₀, e₀, hhappened, hstarts, haccept.scopes hordered hreads hissued⟩
  · intro g hg post w' hpost
    obtain ⟨g', hg', hle⟩ := (Run.later hpost).evolves.grants g hg
    exact ⟨g', hg', hle.id, hle.scopes, hle.expiresAt⟩
  · intro f hf
    refine ⟨family_origin h hf, ?_⟩
    intro post w' hpost f' hf' hid
    have hle := (Run.later hpost).follows.family hf hf' hid (hfresh.families f hf)
    exact ⟨hle.scopes, hle.expiresAt⟩
  · intro e w' early later text expectedResource p hs hcall hresult
    obtain ⟨db', -, heffect⟩ := hs.effect hresult
    rw [hcall] at heffect
    cases heffect with
    | verified hverify => exact verify_within hverify

theorem scope_attenuation_demo : ∃ f ∈ demoWorld.db.families, f.id = "family" ∧
      ∃ w₀ e codeHash, Happened demo (trace demo {} demoScript) w₀ e ∧ e.created demo = some (codeHash, f.id) ∧
        ∃ g ∈ w₀.db.grants, g.id = f.grantId ∧ f.scopes ⊆ g.scopes ∧ f.expiresAt ≤ g.expiresAt := by
  obtain ⟨f, hf, hid, -⟩ := demo_family
  exact ⟨f, hf, hid, ((scope_attenuation demo_run).2.2.1 f hf).1⟩

end LingshuGate.OAuth

import LingshuGate.OAuth.Rotation
import LingshuGate.OAuth.Ticket

/-!
# Revocation is permanent

| here | there |
| --- | --- |
| `Uses`      | a success of `verify`, `refresh_verified_principal`, `management_authority` or a refresh, for one family |
| `CutsOff`   | `save_config`, `save_management_config`, `update_client` that disable, rotate or change a URL |
| `Ends`      | these, `narrow_grant(revoke=True)` and `revoke_token`: the families they revoke |

A revoked family stays revoked because no statement clears `revoked_at` and no family takes a used id. Codes and
tickets are cut off in three different ways: the rows are deleted, the grant is revoked, or a revision in the ticket
falls behind the tables for good.
-/

namespace LingshuGate.OAuth

open Lib AccessControl

variable {D : Type} [DecidableEq D] {P : Params D} {w w' w'' : World D} {e : Event D} {s : Snapshot} {call : Call D}
  {db' : Db} {answer : Answer D} {tr : List (Event D)}

/-! ## Uses of a family -/

/-- The event succeeded for the family. -/
inductive Uses (P : Params D) (w : World D) (e : Event D) (familyId : String) : Prop
  | verify {early later : Snapshot} {text : String} {expectedResource : Option String} {p : AuthPrincipal} :
    e.call = .verify early later text expectedResource → e.result = .ok (.verified p) →
    p.oauthFamilyId = some familyId → Uses P w e familyId
  | refreshVerifiedPrincipal {early later : Snapshot} {p : AuthPrincipal} {answer : Answer D} :
    e.call = .refreshVerifiedPrincipal early later p → p.oauthFamilyId = some familyId → e.result = .ok answer →
    Uses P w e familyId
  | managementAuthority {context : AuthPrincipal} {request : AuthorityRequest} {answer : Answer D} :
    e.call = .managementAuthority context request → context.oauthFamilyId = some familyId → e.result = .ok answer →
    Uses P w e familyId
  | refresh {r : Refresh} : r ∈ w.db.refresh → r.familyId = familyId → e.rotated P = some r.tokenHash →
    Uses P w e familyId

/-- An exchanged refresh token was open, and its family live. -/
theorem Step.rotated_live (hs : Step P w e w') {tokenHash : String} (h : e.rotated P = some tokenHash) :
    ∃ row ∈ w.db.refresh, row.tokenHash = tokenHash ∧ ∃ f ∈ w.db.families, f.id = row.familyId ∧ f.revokedAt = none := by
  obtain ⟨fields, clientId, secret, secrets, response, hcall, hresult, htype, rfl⟩ := Event.rotated_eq h
  obtain ⟨fields', clientId', secret', secrets', hcall', heffect⟩ := hs.exchanged hresult
  rw [hcall] at hcall'
  cases hcall'
  generalize w'.db = db' at heffect
  cases heffect with
  | created hpresents =>
    rw [hpresents.grantType] at htype
    exact absurd htype (by decide)
  | rotated hpresents _ hlive =>
    exact ⟨_, hpresents.mem, hpresents.tokenHash, _, hpresents.family_mem, hpresents.familyId, hlive⟩

/-- Whatever uses a family finds it in the tables and not revoked. -/
theorem Uses.live {familyId : String} (h : Uses P w e familyId) (hs : Step P w e w') :
    ∃ f ∈ w.db.families, f.id = familyId ∧ f.revokedAt = none := by
  cases h with
  | verify hcall hresult hfamily =>
    obtain ⟨db', -, heffect⟩ := hs.effect hresult
    rw [hcall] at heffect
    cases heffect with
    | verified hverify =>
      obtain ⟨client, grant, family, kind, hv⟩ := verifiedPrincipal_ok (verify_ok hverify).2
      rw [hv.familyId] at hfamily
      exact ⟨family, hv.family_mem.1, Option.some.inj hfamily, hv.live⟩
  | refreshVerifiedPrincipal hcall hfamily hresult =>
    obtain ⟨db', -, heffect⟩ := hs.effect hresult
    rw [hcall] at heffect
    cases heffect with
    | reverified hverify =>
      simp only [OAuth.refreshVerifiedPrincipal, bind_eq_ok, require_eq_ok] at hverify
      obtain ⟨-, -, hverify⟩ := hverify
      obtain ⟨client, grant, family, kind, hv⟩ := verifiedPrincipal_ok hverify
      have hproof : some familyId = some family.id := hfamily ▸ hv.family_mem.2
      exact ⟨family, hv.family_mem.1, (Option.some.inj hproof).symm, hv.live⟩
  | managementAuthority hcall hfamily hresult =>
    obtain ⟨db', -, heffect⟩ := hs.effect hresult
    rw [hcall] at heffect
    cases heffect with
    | authorized hauthority =>
      obtain ⟨family, hmem, hid, hlive⟩ := managementAuthority_ok hauthority
      rw [hfamily] at hid
      exact ⟨family, hmem, (Option.some.inj hid).symm, hlive⟩
  | @refresh r hmem hfamily hrotated =>
    obtain ⟨row, hrow, hhash, f, hf, hid, hlive⟩ := hs.rotated_live hrotated
    rw [Table.eq_of_key hrow hmem hhash] at hid
    exact ⟨f, hf, hid.trans hfamily, hlive⟩

omit [DecidableEq D] in
/-- A revoked family is never live again. -/
theorem revoked_stays {f f' : Family} (hfresh : Fresh w) (hl : Later w w') (hf : f ∈ w.db.families)
    (hrevoked : f.revokedAt ≠ none) (hf' : f' ∈ w'.db.families) (hid : f'.id = f.id) : f'.revokedAt ≠ none :=
  (hl.follows.family hf hf' hid (hfresh.families f hf)).revokedAt hrevoked

theorem revoked_unusable {f : Family} (hfresh : Fresh w) (hf : f ∈ w.db.families) (hrevoked : f.revokedAt ≠ none)
    (hl : Later w w') (hs : Step P w' e w'') : ¬ Uses P w' e f.id := by
  intro huses
  obtain ⟨f', hf', hid, hlive⟩ := huses.live hs
  exact revoked_stays hfresh hl hf hrevoked hf' hid hlive

/-! ## What cuts off -/

/-- The call takes the resource from the client: it disables the server or changes its URLs, disables the management
resource, or disables the client or rotates its secret. -/
inductive CutsOff (P : Params D) (db : Db) (clientId resource : String) : Call D → Prop
  | config {payload : ConfigPayload} {revision : Nat} : (payload.changes db.config || !payload.enabled) = true →
    CutsOff P db clientId resource (.saveConfig payload revision)
  | management {revision : Nat} {caller : Option (AuthPrincipal × String)} :
    resource = P.managementResource db.config.resource → resource ≠ db.config.resource →
    CutsOff P db clientId resource (.saveManagementConfig false revision caller)
  | client {revision : Nat} {enabled rotate keepResources : Bool} {fields : ClientFields} {secret : String} :
    (!enabled || rotate) = true →
    CutsOff P db clientId resource (.updateClient clientId revision enabled rotate fields keepResources secret)

/-- The families a call revokes. -/
inductive Ends (P : Params D) (s : Snapshot) (f : Family) : Call D → Prop
  | cutsOff {grant : Grant} {call : Call D} : grant ∈ s.db.grants → grant.id = f.grantId →
    CutsOff P s.db grant.clientId grant.resource call → Ends P s f call
  | grant {userId : String} {request : NarrowRequest} : Ends P s f (.narrowGrant userId f.grantId request true)
  | token {text clientId secret : String} : revokedFamily P s text clientId = some f.id →
    Ends P s f (.revokeToken text clientId secret)

theorem Effect.ends {f : Family} (h : Effect P s call db' answer) (hf : f ∈ s.db.families) (hends : Ends P s f call) :
    Ended db' f.id := by
  cases hends with
  | cutsOff hgrant hid hcuts =>
    cases hcuts with
    | config hreset =>
      cases h with
      | savedConfig => exact .writeConfig hreset hf
    | management hresource =>
      cases h with
      | savedManagement => exact .writeManagement hf hgrant hid hresource
    | client hrevoke =>
      cases h with
      | updatedClient =>
        rw [hrevoke]
        exact .endClient hf hgrant hid rfl
  | grant =>
    cases h with
    | narrowed hnarrow =>
      obtain ⟨grant, -, -, ⟨-, rfl⟩ | ⟨hkeep, -⟩⟩ := narrowGrant_ok hnarrow
      · exact Ended.revokeFamilies hf (by simp)
      · cases hkeep
  | token hfamily =>
    cases h with
    | revoked hcond => exact Ended.revokeFamilies hf (hcond f hfamily)

/-! ## Codes -/

/-- The call stops the code: it cuts the client off, or revokes the code's grant. -/
inductive StopsCode (P : Params D) (db : Db) (c : Code) : Call D → Prop
  | cutsOff {call : Call D} : CutsOff P db c.clientId c.resource call → StopsCode P db c call
  | grant {userId : String} {request : NarrowRequest} : StopsCode P db c (.narrowGrant userId c.grantId request true)

/-- The code is gone, or its grant revoked. -/
def CodeStopped (codeHash grantId : String) (w : World D) : Prop :=
  codeHash ∈ w.used ∧ ∀ c ∈ w.db.codes, c.codeHash = codeHash →
    c.grantId = grantId ∧ ∃ g ∈ w.db.grants, g.id = grantId ∧ g.revokedAt ≠ none

omit [DecidableEq D] in
theorem CodeStopped.later {codeHash grantId : String} (h : CodeStopped codeHash grantId w) (hl : Later w w') :
    CodeStopped codeHash grantId w' := by
  refine ⟨hl.used _ h.1, ?_⟩
  intro c hc hhash
  obtain ⟨c₀, hc₀, hle⟩ := hl.follows.code hc (hhash ▸ h.1)
  obtain ⟨hgrant, g, hg, hid, hrevoked⟩ := h.2 c₀ hc₀ (hle.codeHash.symm.trans hhash)
  obtain ⟨g', hg', hgle⟩ := hl.evolves.grants g hg
  exact ⟨hle.grantId.trans hgrant, g', hg', hgle.id.trans hid, hgle.revokedAt hrevoked⟩

/-- The exchange of a code needs its row and its grant live. -/
theorem Step.created_live (hs : Step P w e w') {codeHash familyId : String} (h : e.created P = some (codeHash, familyId)) :
    ∃ c ∈ w.db.codes, c.codeHash = codeHash ∧ ∃ g ∈ w.db.grants, g.id = c.grantId ∧ g.revokedAt = none := by
  obtain ⟨fields, clientId, secret, secrets, response, hcall, hresult, htype, rfl, -⟩ := Event.created_eq h
  obtain ⟨fields', clientId', secret', secrets', hcall', heffect⟩ := hs.exchanged hresult
  rw [hcall] at hcall'
  cases hcall'
  generalize w'.db = db' at heffect
  cases heffect with
  | rotated hpresents =>
    rw [hpresents.grantType] at htype
    exact absurd htype (by decide)
  | created hpresents =>
    exact ⟨_, hpresents.mem, hpresents.codeHash, _, hpresents.active.mem, hpresents.grantId, hpresents.active.revokedAt⟩

theorem CodeStopped.not_created {codeHash grantId familyId : String} (h : CodeStopped codeHash grantId w)
    (hs : Step P w e w') : e.created P ≠ some (codeHash, familyId) := by
  intro hcreated
  obtain ⟨c, hc, hhash, g, hg, hgid, hlive⟩ := hs.created_live hcreated
  obtain ⟨hgrant, g', hg', hid, hrevoked⟩ := h.2 c hc hhash
  rw [Table.eq_of_key hg hg' (hgid.trans (hgrant.trans hid.symm))] at hlive
  exact hrevoked hlive

/-- No code of a client that is cut off is left. -/
theorem Effect.cutsOff_codes {clientId resource : String} (h : Effect P s call db' answer)
    (hcuts : CutsOff P s.db clientId resource call) :
    ∀ c ∈ db'.codes, ¬ (c.clientId = clientId ∧ c.resource = resource) := by
  rintro c hc ⟨hclient, hresource⟩
  cases hcuts with
  | config hreset =>
    cases h with
    | savedConfig => exact writeConfig_codes hreset c hc
  | management heq =>
    cases h with
    | savedManagement => exact writeManagement_codes hc (hresource.trans heq)
  | client =>
    cases h with
    | updatedClient => exact endClient_codes _ hc hclient

theorem Step.stops_code {c : Code} (hs : Step P w e w') (hfresh : Fresh w) (hresult : e.result = .ok answer)
    (hc : c ∈ w.db.codes) (hstops : StopsCode P w.db c e.call) : CodeStopped c.codeHash c.grantId w' := by
  have hused := hfresh.codes c hc
  refine ⟨hs.later.used _ hused, ?_⟩
  intro c' hc' hhash
  obtain ⟨c₀, hc₀, hle⟩ := hs.follows.code hc' (hhash ▸ hused)
  obtain rfl : c₀ = c := Table.eq_of_key hc₀ hc (hle.codeHash.symm.trans hhash)
  obtain ⟨db', hdb, heffect⟩ := hs.effect hresult
  rw [hdb] at hc' ⊢
  generalize e.call = call at hstops heffect
  cases hstops with
  | cutsOff hcuts => exact absurd ⟨hle.clientId, hle.resource⟩ (heffect.cutsOff_codes hcuts c' hc')
  | grant =>
    refine ⟨hle.grantId, ?_⟩
    cases heffect with
    | narrowed hnarrow => exact narrowGrant_revokes hnarrow

/-! ## Tickets -/

/-- The code with this digest belongs to the client and resource of the request. -/
def CodeFor (request : AuthorizationRequest) (codeHash : String) (w : World D) : Prop :=
  codeHash ∈ w.used ∧ ∀ c ∈ w.db.codes, c.codeHash = codeHash → c.clientId = request.clientId ∧ c.resource = request.resource

variable {request : AuthorizationRequest}

omit [DecidableEq D] in
theorem CodeFor.later {codeHash : String} (h : CodeFor request codeHash w) (hl : Later w w') : CodeFor request codeHash w' := by
  refine ⟨hl.used _ h.1, ?_⟩
  intro c hc hhash
  obtain ⟨c₀, hc₀, hle⟩ := hl.follows.code hc (hhash ▸ h.1)
  rw [hle.clientId, hle.resource]
  exact h.2 c₀ hc₀ (hle.codeHash.symm.trans hhash)

theorem Step.accepted_code (hs : Step P w e w') (hfresh : Fresh w) {text codeHash : String}
    (h : e.accepted P = some (text, codeHash)) :
    ∃ t ticket, P.decrypt text = some t ∧ t.payload.ticket = some ticket ∧ CodeFor ticket.request codeHash w' := by
  unfold Event.accepted at h
  split at h
  · rename_i code grantId grant hcall hresult
    obtain ⟨rfl, rfl⟩ := Prod.mk.inj (Option.some.inj h)
    obtain ⟨db', hdb, heffect⟩ := hs.effect hresult
    have hnew := hs.fresh (P.hash code) (by simp [hcall, Call.fresh])
    rw [hcall] at heffect
    cases heffect with
    | accepted haccept =>
      obtain ⟨t, hdecrypt, hticket⟩ := haccept.interacts.sealed
      refine ⟨t, haccept.ticket, hdecrypt, hticket, ?_, ?_⟩
      · rw [hs.used]
        exact List.mem_append_left _ (by simp [hcall, Call.fresh])
      intro c hc hhash
      rw [hdb] at hc
      obtain ⟨t₁, -, hdb₁⟩ := insertGrant_ok.mp haccept.insertGrant
      obtain ⟨t₂, ht₂, hdb₂⟩ := insertCode_ok.mp haccept.insertCode
      have hc₂ := haccept.touches.codes c hc
      rw [← hdb₂, ← hdb₁] at hc₂
      rw [← hdb₁] at ht₂
      rcases (Table.mem_insert ht₂).mp hc₂ with hold | rfl
      · exact absurd (hhash ▸ hfresh.codes c hold) hnew
      · rw [haccept.interacts.request_eq]
        exact ⟨rfl, rfl⟩
  · cases h

theorem accepted_run (h : Run (Step P) {} tr w) {text codeHash : String} {e : Event D} (he : e ∈ tr)
    (haccepted : e.accepted P = some (text, codeHash)) :
    ∃ t ticket, P.decrypt text = some t ∧ t.payload.ticket = some ticket ∧ CodeFor ticket.request codeHash w := by
  obtain ⟨pre, post, rfl⟩ := List.append_of_mem he
  obtain ⟨w₁, w₂, hpre, hs, hpost⟩ := h.split
  obtain ⟨t, ticket, hdecrypt, hticket, hcode⟩ := hs.accepted_code (.run hpre) haccepted
  exact ⟨t, ticket, hdecrypt, hticket, hcode.later (Run.later hpost)⟩

/-- A ticket is behind the tables for good: no later reading takes it. -/
theorem Step.cutsOff_ticket (hs : Step P w e w') (hresult : e.result = .ok answer)
    (hdated : Dated w.db request) (hcuts : CutsOff P w.db request.clientId request.resource e.call)
    (he : Evolves w'.db s.db) {text : String} {row : Interaction} {ticket : Ticket} {policy : ResourcePolicy} :
    ¬ Interacts P s text row request ticket policy := by
  intro hi
  obtain ⟨db', hdb, heffect⟩ := hs.effect hresult
  have hall : Evolves w.db s.db := hs.evolves.trans he
  rw [hdb] at he
  generalize e.call = call at hcuts heffect
  cases hcuts with
  | config =>
    cases heffect with
    | savedConfig =>
      have hle := he.config_le
      have hconfig := hi.configuration
      have hold := hdated.config
      simp only [Db.writeConfig, Event.snapshot] at hle
      omega
  | management hresource hne =>
    cases heffect with
    | savedManagement =>
      have hle := he.management_le
      simp only [Db.writeManagement, Event.snapshot] at hle
      rcases (resourcePolicy_ok hi.policy_ok).2 with ⟨-, -, hbusiness⟩ | ⟨-, hmanagement, -⟩
      · -- the configuration did not change since the ticket was issued
        have hconfig : w.db.config = s.db.config := by
          rcases hall.config with hlt | heq
          · have hcurrent := hi.configuration
            have hold := hdated.config
            omega
          · exact heq
        exact hne (hconfig ▸ hbusiness)
      · have hsome := hmanagement.symm.trans hi.management
        have hold := hdated.management _ hsome.symm
        omega
  | client =>
    cases heffect with
    | updatedClient =>
      obtain ⟨c, hc, hcid, hold⟩ := hdated.client
      obtain ⟨c', hc', hcid', hrevision⟩ := hi.client
      obtain ⟨c₁, hc₁, hcid₁, hnew⟩ := editClient_revision hc hcid
      have hle := (he.client hc₁ hc' (hcid'.trans hcid₁.symm)).revision_le
      omega

theorem Step.cutsOff_consent (hs : Step P w e w') (hresult : e.result = .ok answer) {text : String} {t : Sealed D}
    {ticket : Ticket} (hissued : Issued P w text t ticket) (hticket : t.payload.ticket = some ticket)
    (hcuts : CutsOff P w.db ticket.request.clientId ticket.request.resource e.call) {v v' : World D} {e' : Event D}
    (hl : Later w' v) (hs' : Step P v e' v') (hconsents : e'.consents = some text) : ∃ error, e'.result = .error error := by
  cases hresult' : e'.result with
  | error error => exact ⟨error, rfl⟩
  | ok answer' =>
    obtain ⟨row, request, ticket', policy, hi⟩ := hs'.consents_interacts hconsents hresult'
    obtain ⟨t', hdecrypt, hticket'⟩ := hi.sealed
    rw [hissued.decrypt] at hdecrypt
    obtain rfl := Option.some.inj hdecrypt
    obtain rfl : ticket = ticket' := Option.some.inj (hticket.symm.trans hticket')
    obtain rfl := hi.request_eq
    exact absurd hi (hs.cutsOff_ticket hresult hissued.dated hcuts hl.evolves)

/-- The code of a request that is cut off is gone. -/
theorem Step.cutsOff_code (hs : Step P w e w') (hresult : e.result = .ok answer)
    {codeHash : String} (hcode : CodeFor request codeHash w)
    (hcuts : CutsOff P w.db request.clientId request.resource e.call) (grantId : String) : CodeStopped codeHash grantId w' := by
  refine ⟨hs.later.used _ hcode.1, ?_⟩
  intro c hc hhash
  obtain ⟨hclient, hresource⟩ := (hcode.later hs.later).2 c hc hhash
  obtain ⟨db', hdb, heffect⟩ := hs.effect hresult
  rw [hdb] at hc
  exact absurd ⟨hclient, hresource⟩ (heffect.cutsOff_codes hcuts c hc)

/-! ## Every run -/

/-- **Revocation is permanent.** From any reachable state on: a revoked family is never used again; a call that disables,
rotates or revokes leaves the families it names revoked; and after it neither a code it stops nor a ticket of the client
and resource it cuts off makes a family: the ticket can no longer be consented to, and the codes of earlier consents to
it are not exchanged. -/
theorem revocation_permanent {pre : List (Event D)} (h : Run (Step P) {} pre w) :
    (∀ f ∈ w.db.families, f.revokedAt ≠ none → ∀ post w' e w'', Run (Step P) w post w' → Step P w' e w'' → ¬ Uses P w' e f.id) ∧
      ∀ e w₁ answer, Step P w e w₁ → e.result = .ok answer →
        (∀ f ∈ w.db.families, Ends P (e.snapshot w) f e.call → Ended w₁.db f.id) ∧
        ∀ post w' e' w'', Run (Step P) w₁ post w' → Step P w' e' w'' →
          (∀ c ∈ w.db.codes, StopsCode P w.db c e.call → ∀ familyId, e'.created P ≠ some (c.codeHash, familyId)) ∧
          ∀ text t ticket, (text, t) ∈ w.issued → t.payload.ticket = some ticket →
            CutsOff P w.db ticket.request.clientId ticket.request.resource e.call →
            (e'.consents = some text → ∃ error, e'.result = .error error) ∧
            ∀ a ∈ pre, ∀ codeHash, a.accepted P = some (text, codeHash) → ∀ familyId, e'.created P ≠ some (codeHash, familyId) := by
  have hfresh : Fresh w := .run h
  constructor
  · intro f hf hrevoked post w' e w'' hpost hs
    exact revoked_unusable hfresh hf hrevoked (Run.later hpost) hs
  intro e w₁ answer hs hresult
  constructor
  · intro f hf hends
    obtain ⟨db', hdb, heffect⟩ := hs.effect hresult
    rw [hdb]
    exact heffect.ends hf hends
  intro post w' e' w'' hpost hs'
  have hlater := Run.later hpost
  refine ⟨fun c hc hstops familyId => ((hs.stops_code hfresh hresult hc hstops).later hlater).not_created hs', ?_⟩
  intro text t ticket hx hticket hcuts
  have hissued := AllIssued.run h text t ticket hx hticket
  refine ⟨hs.cutsOff_consent hresult hissued hticket hcuts hlater hs', ?_⟩
  intro a ha codeHash haccepted familyId
  obtain ⟨t', ticket', hdecrypt, hticket', hcode⟩ := accepted_run h ha haccepted
  rw [hissued.decrypt] at hdecrypt
  obtain rfl := Option.some.inj hdecrypt
  obtain rfl : ticket = ticket' := Option.some.inj (hticket.symm.trans hticket')
  exact ((hs.cutsOff_code hresult hcode hcuts "").later hlater).not_created hs'

/-- The client of `demoScript` is disabled. -/
def demoDisable : Entry Digest :=
  { out := demoOut 9
    call := fun _ => .updateClient "client" 1 false false ⟨"cli", [demoCallback], ["tools.read"], ["business"]⟩ true "" }

theorem disable_played : admissible demo demoWorld (demoDisable.event demo demoWorld) = true ∧
    (demoDisable.event demo demoWorld).failed = false := by
  decide +kernel

theorem revocation_permanent_demo : (demoDisable.event demo demoWorld).failed = false ∧
      Ended (demoWorld.next demo (demoDisable.event demo demoWorld)).db "family" := by
  obtain ⟨hadmissible, hdone⟩ := disable_played
  obtain ⟨f, hf, hid, -, g, hg, hgid, hclient⟩ := demo_family
  refine ⟨hdone, ?_⟩
  cases hresult : (demoDisable.event demo demoWorld).result with
  | error => simp [Event.failed, hresult] at hdone
  | ok answer =>
    have hends : Ends demo ⟨demoWorld.db, demoOut 9⟩ f (demoDisable.event demo demoWorld).call :=
      .cutsOff hg hgid (hclient ▸ .client rfl)
    have hstep := demoDisable.step (.run demo_run) hadmissible
    rw [← hid]
    exact ((revocation_permanent demo_run).2 _ _ answer hstep hresult).1 f hf hends

end LingshuGate.OAuth

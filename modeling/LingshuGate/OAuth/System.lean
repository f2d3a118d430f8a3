import LingshuGate.Lib.Run
import LingshuGate.OAuth.Scope

/-!
# The OAuth server as a system of interleaved calls

A call writes in one transaction; what it read in earlier ones is a snapshot of an earlier committed database. So a
run is a sequence of calls, each taking effect at its last transaction, with the earlier readings drawn from the
history in order (`InOrder`). Everything outside the OAuth tables (users, roles, registry, clock) is given anew with
each event. The boundary assumptions are those of `Step`:

* time does not go back;
* generated ids and secrets are fresh: their ids and digests were never used (`fresh`);
* the ticket cipher is unforgeable: a text that decrypts was issued by the server (`presents`, `seals`).
-/

namespace LingshuGate.OAuth

open Lib AccessControl AuthStore

/-! ## Calls -/

inductive Call (D : Type) where
  | saveConfig (payload : ConfigPayload) (revision : Nat)
  | saveManagementConfig (enabled : Bool) (revision : Nat) (caller : Option (AuthPrincipal × String))
  | rotateKey (kid : String)
  | createClient (fields : ClientFields) (clientId secret : String)
  | updateClient (clientId : String) (revision : Nat) (enabled rotate : Bool) (fields : ClientFields)
      (keepResources : Bool) (secret : String)
  | startAuthorization (atConfig atClient : Snapshot) (params : AuthorizationParams) (browser csrf text : String)
  | consentContext (first mid : Snapshot) (text browser : String) (session : Option String)
  | releaseInteraction (text browser csrf : String)
  | consent (first mid : Snapshot) (text browser csrf : String) (principal : Option AuthPrincipal)
      (request : ConsentRequest) (code grantId : String)
  | cleanupInteractions
  | token (fields : TokenFields) (clientId secret : String) (secrets : TokenSecrets)
  | verify (early later : Snapshot) (text : String) (expectedResource : Option String)
  | refreshVerifiedPrincipal (early later : Snapshot) (principal : AuthPrincipal)
  | managementAuthority (context : AuthPrincipal) (request : AuthorityRequest)
  | revokeToken (text clientId secret : String)
  | narrowGrant (userId grantId : String) (request : NarrowRequest) (revoke : Bool)
  | scopeOptions (caller : AuthPrincipal) (grantId session text : String)
  | scopeCatalog (caller : AuthPrincipal) (grantId session : String) (generation : Nat) (catalogRevision : Option D)
      (text : String)
  | previewScope (caller : AuthPrincipal) (grantId session csrf : String) (request : ScopeRequest)
      (page : Option (Page D)) (token : String)
  | updateScope (caller : AuthPrincipal) (grantId session confirmation : String) (request : ScopeRequest)
      (page : Option (Page D))
  | managementTargetOptions (caller : AuthPrincipal) (session grantId text : String)
  | previewManagementTargets (caller : AuthPrincipal) (session grantId csrf : String) (request : TargetRequest)
      (token : String)
  | updateManagementTargets (caller : AuthPrincipal) (session grantId confirmation : String) (request : TargetRequest)

/-- What a committed call returns, as far as later calls or the claims look at it. -/
inductive Answer (D : Type) where
  | done
  | ticket (text : String) (payload : Payload D)
  | granted (grant : Option Grant)
  | tokens (result : Except Error TokenResponse)
  | verified (principal : AuthPrincipal)
  | authority (grant : Grant)
  | previewed (token : String) (payload : Payload D) (change : ScopeChange D)
  | updated (grant : Grant)

/-- The ticket an answer hands out. -/
def Answer.sealed {D : Type} : Answer D → Option (String × Payload D)
  | .ticket text payload => some (text, payload)
  | .previewed token payload _ => some (token, payload)
  | _ => none

variable {D : Type} [DecidableEq D] (P : Params D)

/-- One call against the committed database; an error rolls back. -/
def exec (s : Snapshot) : Call D → Except Error (Db × Answer D)
  | .saveConfig payload revision => do return (← saveConfig P s payload revision, .done)
  | .saveManagementConfig enabled revision caller => do return (← saveManagementConfig P s enabled revision caller, .done)
  | .rotateKey kid => do return (← rotateKey s kid, .done)
  | .createClient fields clientId secret => do return (← createClient P s fields clientId secret, .done)
  | .updateClient clientId revision enabled rotate fields keepResources secret => do
    return (← updateClient P s clientId revision enabled rotate fields keepResources secret, .done)
  | .startAuthorization atConfig atClient params browser csrf text => do
    return (s.db, .ticket text (← startAuthorization P s atConfig atClient params browser csrf text))
  | .consentContext first mid text browser session => do
    return (← consentContext P s first mid text browser session, .done)
  | .releaseInteraction text browser csrf => do return (← releaseInteraction P s text browser csrf, .done)
  | .consent first mid text browser csrf principal request code grantId => do
    let (db, grant) ← consent P s first mid text browser csrf principal request code grantId
    return (db, .granted grant)
  | .cleanupInteractions => .ok (s.db.cleanupInteractions s.out.now, .done)
  | .token fields clientId secret secrets => do
    let (db, result) ← token P s fields clientId secret secrets
    return (db, .tokens result)
  | .verify early later text expectedResource => do
    let (_, principal) ← verify P s early later text expectedResource
    return (s.db, .verified principal)
  | .refreshVerifiedPrincipal early later principal => do
    return (s.db, .verified (← refreshVerifiedPrincipal P s early later principal))
  | .managementAuthority context request => do return (s.db, .authority (← managementAuthority P s context request))
  | .revokeToken text clientId secret => do return (← revokeToken P s text clientId secret, .done)
  | .narrowGrant userId grantId request revoke => do return (← narrowGrant P s userId grantId request revoke, .done)
  | .scopeOptions caller grantId session text => do
    return (s.db, .ticket text (← scopeOptions P s caller grantId session))
  | .scopeCatalog caller grantId session generation catalogRevision text => do
    return (s.db, .ticket text (← scopeCatalogTicket P s caller grantId session generation catalogRevision))
  | .previewScope caller grantId session csrf request page token => do
    let (db, payload, change) ← previewScope P s caller grantId session csrf request page token
    return (db, .previewed token payload change)
  | .updateScope caller grantId session confirmation request page => do
    let (db, grant) ← updateScope P s caller grantId session confirmation request page
    return (db, .updated grant)
  | .managementTargetOptions caller session grantId text => do
    return (s.db, .ticket text (← managementTargetOptions P s caller session grantId))
  | .previewManagementTargets caller session grantId csrf request token => do
    let (db, payload) ← previewManagementTargets P s caller session grantId csrf request token
    return (db, .ticket token payload)
  | .updateManagementTargets caller session grantId confirmation request => do
    let (db, grant) ← updateManagementTargets P s caller session grantId confirmation request
    return (db, .updated grant)

/-- The ids and digests a call generates. -/
def Call.fresh : Call D → List String
  | .rotateKey kid => [kid]
  | .createClient _ clientId _ => [clientId]
  | .startAuthorization _ _ _ _ _ text => [P.hash text]
  | .consent _ _ _ _ _ _ _ code grantId => [P.hash code, grantId]
  | .token _ _ _ secrets => [P.hash secrets.refresh, secrets.familyId]
  | .scopeOptions _ _ _ text => [P.hash text]
  | .scopeCatalog _ _ _ _ _ text => [P.hash text]
  | .previewScope _ _ _ _ _ _ text => [P.hash text]
  | .managementTargetOptions _ _ _ text => [P.hash text]
  | .previewManagementTargets _ _ _ _ _ text => [P.hash text]
  | _ => []

/-- Those of them that become keys of codes, families and refresh rows. -/
def Call.keys : Call D → List String
  | .consent _ _ _ _ _ _ _ code _ => [P.hash code]
  | .token _ _ _ secrets => [P.hash secrets.refresh, secrets.familyId]
  | _ => []

/-- The ticket a call presents. -/
def Call.presents : Call D → Option String
  | .consentContext _ _ text _ _ => some text
  | .releaseInteraction text _ _ => some text
  | .consent _ _ text _ _ _ _ _ _ => some text
  | .previewScope _ _ _ csrf _ _ _ => some csrf
  | .updateScope _ _ _ confirmation _ _ => some confirmation
  | .previewManagementTargets _ _ _ csrf _ _ => some csrf
  | .updateManagementTargets _ _ _ confirmation _ => some confirmation
  | _ => none

/-- The databases a call read before its last transaction, newest first. -/
def Call.reads : Call D → List Db
  | .startAuthorization atConfig atClient _ _ _ _ => [atClient.db, atConfig.db]
  | .consentContext first mid _ _ _ => [mid.db, first.db]
  | .consent first mid _ _ _ _ _ _ _ => [mid.db, first.db]
  | .verify early _ _ _ => [early.db]
  | .refreshVerifiedPrincipal early _ _ => [early.db]
  | _ => []

/-! ## Runs -/

structure World (D : Type) where
  db : Db := {}
  now : Int := 0
  /-- the committed databases, newest first, the current one at the head -/
  history : List Db := [{}]
  /-- ids and digests generated so far -/
  used : List String := []
  /-- the tickets sealed so far -/
  issued : List (String × Sealed D) := []

/-- A call, what it read outside the tables, and how it ended. -/
structure Event (D : Type) where
  call : Call D
  out : Outside
  result : Except Error (Answer D)

/-- The snapshot an event works on. -/
def Event.snapshot (e : Event D) (w : World D) : Snapshot := ⟨w.db, e.out⟩

/-- `reads` (newest first) can be read off `history` (newest first) one after another. -/
def InOrder : List Db → List Db → Prop
  | _, [] => True
  | history, db :: older => ∃ rest, (db :: rest) <:+ history ∧ InOrder (db :: rest) older

/-- The tickets of an answer. -/
def Answer.issues (answer : Answer D) (now : Int) : List (String × Sealed D) :=
  (answer.sealed.map fun (text, payload) => (text, ⟨payload, now⟩)).toList

omit [DecidableEq D] in
@[simp] theorem Answer.issues_ticket (text : String) (payload : Payload D) (now : Int) :
    (Answer.ticket text payload).issues now = [(text, ⟨payload, now⟩)] := rfl

omit [DecidableEq D] in
@[simp] theorem Answer.issues_previewed (text : String) (payload : Payload D) (change : ScopeChange D) (now : Int) :
    (Answer.previewed text payload change).issues now = [(text, ⟨payload, now⟩)] := rfl

/-- The world after an event. -/
def World.next (w : World D) (e : Event D) : World D :=
  match exec P (e.snapshot w) e.call with
  | .error _ => { w with now := e.out.now, used := e.call.fresh P ++ w.used }
  | .ok (db, answer) =>
    { db := db, now := e.out.now, history := db :: w.history, used := e.call.fresh P ++ w.used,
      issued := answer.issues e.out.now ++ w.issued }

structure Step (w : World D) (e : Event D) (w' : World D) : Prop where
  time : w.now ≤ e.out.now
  fresh : ∀ k ∈ e.call.fresh P, k ∉ w.used
  reads : InOrder w.history e.call.reads
  presents : ∀ text, e.call.presents = some text → ∀ t, P.decrypt text = some t → (text, t) ∈ w.issued
  seals : ∀ db answer, exec P (e.snapshot w) e.call = .ok (db, answer) → ∀ x ∈ answer.issues e.out.now, P.decrypt x.1 = some x.2
  result : e.result = (exec P (e.snapshot w) e.call).map Prod.snd
  next : w' = w.next P e

/-! ## What a committed call did -/

/-- Everything a call that commits can have done, one case for each way. -/
inductive Effect (P : Params D) (s : Snapshot) : Call D → Db → Answer D → Prop
  | savedConfig {payload : ConfigPayload} {revision : Nat} :
    Effect P s (.saveConfig payload revision) (s.db.writeConfig payload s.out.now) .done
  | savedManagement {enabled : Bool} {revision : Nat} {caller : Option (AuthPrincipal × String)} :
    Effect P s (.saveManagementConfig enabled revision caller)
      (s.db.writeManagement (P.managementResource s.db.config.resource) enabled s.out.now) .done
  | rotatedKey {kid : String} {keys : Table Key Key.kid} : Effect P s (.rotateKey kid) { s.db with keys := keys } .done
  | createdClient {fields : ClientFields} {clientId secret : String} {row : Client} {clients : Table Client Client.id} :
    s.db.clients.insert row = some clients →
    Effect P s (.createClient fields clientId secret) { s.db with clients := clients } .done
  | updatedClient {clientId : String} {revision : Nat} {enabled rotate : Bool} {fields : ClientFields}
      {keepResources : Bool} {secret : String} {fields' : ClientFields} {scopes : Finset Scope} {secretHash : String} :
    Effect P s (.updateClient clientId revision enabled rotate fields keepResources secret)
      ((s.db.updateClientRow clientId (editClient fields' scopes enabled secretHash) fun _ => rfl).endClient clientId
        (!enabled || rotate) s.out.now) .done
  | started {atConfig atClient : Snapshot} {params : AuthorizationParams} {browser csrf text : String} {payload : Payload D} :
    startAuthorization P s atConfig atClient params browser csrf text = .ok payload →
    Effect P s (.startAuthorization atConfig atClient params browser csrf text) s.db (.ticket text payload)
  | showed {first mid : Snapshot} {text browser : String} {session : Option String} {row : Interaction}
      {request : AuthorizationRequest} {ticket : Ticket} {policy : ResourcePolicy} {db' : Db} :
    Interacts P s text row request ticket policy → Touches s.out.now (P.hash text) row.expiresAt s.db db' →
    Effect P s (.consentContext first mid text browser session) db' .done
  | released {text browser csrf : String} {db' : Db} :
    (∀ id expiresAt, Touches s.out.now id expiresAt s.db db') → Effect P s (.releaseInteraction text browser csrf) db' .done
  | denied {first mid : Snapshot} {text browser csrf : String} {principal : Option AuthPrincipal} {body : ConsentRequest}
      {code grantId : String} {row : Interaction} {request : AuthorizationRequest} {ticket : Ticket}
      {policy : ResourcePolicy} {db' : Db} :
    Interacts P s text row request ticket policy → row.completed = false →
    Touches s.out.now (P.hash text) row.expiresAt s.db db' →
    (∃ row' ∈ db'.interactions, row'.idHash = P.hash text ∧ row'.completed = true) →
    Effect P s (.consent first mid text browser csrf principal body code grantId) db' (.granted none)
  | accepted {first mid : Snapshot} {text browser csrf : String} {principal : Option AuthPrincipal} {body : ConsentRequest}
      {code grantId : String} {grant : Grant} {db' : Db} :
    Accepts P s first mid text code grantId grant db' →
    Effect P s (.consent first mid text browser csrf principal body code grantId) db' (.granted (some grant))
  | cleaned : Effect P s .cleanupInteractions (s.db.cleanupInteractions s.out.now) .done
  | exchanged {fields : TokenFields} {clientId secret : String} {secrets : TokenSecrets} {db' : Db}
      {result : Except Error TokenResponse} :
    TokenEffect P s clientId fields secrets db' result →
    Effect P s (.token fields clientId secret secrets) db' (.tokens result)
  | verified {early later : Snapshot} {text : String} {expectedResource : Option String} {claims : Claims}
      {principal : AuthPrincipal} :
    verify P s early later text expectedResource = .ok (claims, principal) →
    Effect P s (.verify early later text expectedResource) s.db (.verified principal)
  | reverified {early later : Snapshot} {principal principal' : AuthPrincipal} :
    refreshVerifiedPrincipal P s early later principal = .ok principal' →
    Effect P s (.refreshVerifiedPrincipal early later principal) s.db (.verified principal')
  | authorized {context : AuthPrincipal} {request : AuthorityRequest} {grant : Grant} :
    managementAuthority P s context request = .ok grant →
    Effect P s (.managementAuthority context request) s.db (.authority grant)
  | revoked {text clientId secret : String} {cond : Family → Bool} :
    (∀ f, revokedFamily P s text clientId = some f.id → f.revokedAt = none → cond f = true) →
    Effect P s (.revokeToken text clientId secret) (s.db.revokeFamilies cond s.out.now) .done
  | narrowed {userId grantId : String} {request : NarrowRequest} {revoke : Bool} {db' : Db} :
    narrowGrant P s userId grantId request revoke = .ok db' →
    Effect P s (.narrowGrant userId grantId request revoke) db' .done
  | offeredScope {caller : AuthPrincipal} {grantId session text : String} {payload : Payload D} : payload.ticket = none →
    Effect P s (.scopeOptions caller grantId session text) s.db (.ticket text payload)
  | offeredPage {caller : AuthPrincipal} {grantId session : String} {generation : Nat} {catalogRevision : Option D}
      {text : String} {payload : Payload D} : payload.ticket = none →
    Effect P s (.scopeCatalog caller grantId session generation catalogRevision text) s.db (.ticket text payload)
  | offeredTargets {caller : AuthPrincipal} {session grantId text : String} {payload : Payload D} : payload.ticket = none →
    Effect P s (.managementTargetOptions caller session grantId text) s.db (.ticket text payload)
  | previewed {caller : AuthPrincipal} {grantId session csrf : String} {request : ScopeRequest} {page : Option (Page D)}
      {text : String} {db' : Db} {payload : Payload D} {change : ScopeChange D} :
    Previews P s caller grantId session request page text db' payload change →
    Effect P s (.previewScope caller grantId session csrf request page text) db' (.previewed text payload change)
  | updated {caller : AuthPrincipal} {grantId session confirmation : String} {request : ScopeRequest}
      {page : Option (Page D)} {db' : Db} {grant' : Grant} :
    Updates P s caller grantId session confirmation request page db' grant' →
    Effect P s (.updateScope caller grantId session confirmation request page) db' (.updated grant')
  | previewedTargets {caller : AuthPrincipal} {session grantId csrf : String} {request : TargetRequest} {text : String}
      {db' : Db} {payload : Payload D} :
    previewManagementTargets P s caller session grantId csrf request text = .ok (db', payload) →
    Effect P s (.previewManagementTargets caller session grantId csrf request text) db' (.ticket text payload)
  | updatedTargets {caller : AuthPrincipal} {session grantId confirmation : String} {request : TargetRequest} {db' : Db}
      {grant' : Grant} :
    updateManagementTargets P s caller session grantId confirmation request = .ok (db', grant') →
    Effect P s (.updateManagementTargets caller session grantId confirmation request) db' (.updated grant')

variable {P} {w w' : World D} {e : Event D} {s : Snapshot} {call : Call D} {db' : Db} {answer : Answer D}

omit [DecidableEq D] in
theorem startAuthorization_ok {atConfig atClient : Snapshot} {params : AuthorizationParams} {browser csrf text : String}
    {payload : Payload D} (h : startAuthorization P s atConfig atClient params browser csrf text = .ok payload) :
    ∃ config row policy redirectUri scopes request, readyConfig P atConfig = .ok config ∧
      enabledClient atClient params.clientId = some row ∧ resourcePolicy P s params.resource = .ok policy ∧
      startRequest config row policy params redirectUri scopes = .ok request ∧
      payload = .authorization (P.hash browser) csrf request (s.out.now + 600) := by
  simp only [startAuthorization, bind_eq_ok, expect_eq_ok, require_eq_ok, pure_eq_ok] at h
  obtain ⟨config, hconfig, row, hrow, uri, -, scopes, -, -, -, policy, hpolicy, request, hrequest, -, -, rfl⟩ := h
  exact ⟨config, row, policy, uri, scopes, request, hconfig, hrow, hpolicy, hrequest, rfl⟩

theorem exec_effect (h : exec P s call = .ok (db', answer)) : Effect P s call db' answer := by
  cases call <;> simp only [exec, bind_eq_ok, pure_eq_ok, Prod.mk.injEq, Except.ok.injEq] at h
  case saveConfig =>
    obtain ⟨db, hdb, rfl, rfl⟩ := h
    obtain rfl := saveConfig_ok hdb
    exact .savedConfig
  case saveManagementConfig =>
    obtain ⟨db, hdb, rfl, rfl⟩ := h
    obtain rfl := saveManagementConfig_ok hdb
    exact .savedManagement
  case rotateKey =>
    obtain ⟨db, hdb, rfl, rfl⟩ := h
    obtain ⟨keys, rfl⟩ := rotateKey_ok hdb
    exact .rotatedKey
  case createClient =>
    obtain ⟨db, hdb, rfl, rfl⟩ := h
    obtain ⟨row, clients, -, hins, rfl⟩ := createClient_ok hdb
    exact .createdClient hins
  case updateClient =>
    obtain ⟨db, hdb, rfl, rfl⟩ := h
    obtain ⟨fields, scopes, secretHash, rfl⟩ := updateClient_ok hdb
    exact .updatedClient
  case startAuthorization =>
    obtain ⟨payload, hpayload, rfl, rfl⟩ := h
    exact .started hpayload
  case consentContext =>
    obtain ⟨db, hdb, rfl, rfl⟩ := h
    obtain ⟨row, request, ticket, policy, hi, htouches⟩ := consentContext_ok hdb
    exact .showed hi htouches
  case releaseInteraction =>
    obtain ⟨db, hdb, rfl, rfl⟩ := h
    exact .released fun id expiresAt => releaseInteraction_ok hdb
  case consent =>
    obtain ⟨⟨db, granted⟩, hdb, rfl, rfl⟩ := h
    rcases consent_ok hdb with ⟨rfl, hdeny⟩ | ⟨grant, rfl, ⟨haccept⟩⟩
    · obtain ⟨row, request, ticket, policy, hi, hopen, htouches, htombstone⟩ := denyConsent_ok hdeny
      exact .denied hi hopen htouches htombstone
    · exact .accepted haccept
  case cleanupInteractions =>
    obtain ⟨rfl, rfl⟩ := h
    exact .cleaned
  case token =>
    obtain ⟨⟨db, result⟩, hdb, rfl, rfl⟩ := h
    exact .exchanged (token_effect hdb)
  case verify =>
    obtain ⟨⟨claims, principal⟩, hv, rfl, rfl⟩ := h
    exact .verified hv
  case refreshVerifiedPrincipal =>
    obtain ⟨principal, hv, rfl, rfl⟩ := h
    exact .reverified hv
  case managementAuthority =>
    obtain ⟨grant, hg, rfl, rfl⟩ := h
    exact .authorized hg
  case revokeToken =>
    obtain ⟨db, hdb, rfl, rfl⟩ := h
    obtain ⟨cond, rfl, hcond⟩ := revokeToken_ok hdb
    exact .revoked hcond
  case narrowGrant =>
    obtain ⟨db, hdb, rfl, rfl⟩ := h
    exact .narrowed hdb
  case scopeOptions =>
    obtain ⟨payload, hpayload, rfl, rfl⟩ := h
    simp only [scopeOptions, bind_eq_ok, pure_eq_ok] at hpayload
    obtain ⟨ctx, -, rfl⟩ := hpayload
    exact .offeredScope rfl
  case scopeCatalog =>
    obtain ⟨payload, hpayload, rfl, rfl⟩ := h
    simp only [scopeCatalogTicket, bind_eq_ok, pure_eq_ok] at hpayload
    obtain ⟨p, -, ⟨grant, client, config⟩, -, ceiling, -, binding, -, -, -, rfl⟩ := hpayload
    exact .offeredPage rfl
  case previewScope =>
    obtain ⟨⟨db, payload, change⟩, hdb, rfl, rfl⟩ := h
    exact .previewed (previewScope_ok hdb)
  case updateScope =>
    obtain ⟨⟨db, grant⟩, hdb, rfl, rfl⟩ := h
    exact .updated (updateScope_ok hdb)
  case managementTargetOptions =>
    obtain ⟨payload, hpayload, rfl, rfl⟩ := h
    simp only [managementTargetOptions, bind_eq_ok, pure_eq_ok] at hpayload
    obtain ⟨p, -, ⟨grant, binding⟩, -, rfl⟩ := hpayload
    exact .offeredTargets rfl
  case previewManagementTargets =>
    obtain ⟨⟨db, payload⟩, hdb, rfl, rfl⟩ := h
    exact .previewedTargets hdb
  case updateManagementTargets =>
    obtain ⟨⟨db, grant⟩, hdb, rfl, rfl⟩ := h
    exact .updatedTargets hdb

/-! ## What every call keeps -/

theorem Effect.evolves (h : Effect P s call db' answer) : Evolves s.db db' := by
  cases h with
  | savedConfig => exact .writeConfig _ _ _
  | savedManagement => exact .writeManagement _ _ _ _
  | rotatedKey => exact .of_eq rfl rfl rfl rfl
  | createdClient hins => exact ⟨.inr rfl, .inr rfl, .insert ClientLe.refl hins, .refl GrantLe.refl _⟩
  | updatedClient => exact (Evolves.updateClientRow s.db).trans (.endClient _ _ _ _)
  | showed _ htouches => exact htouches.evolves
  | released htouches => exact (htouches "" 0).evolves
  | denied _ _ htouches => exact htouches.evolves
  | accepted haccept => exact haccept.evolves
  | cleaned => exact .cleanupInteractions _
  | exchanged htoken => exact htoken.evolves
  | revoked => exact .of_eq rfl rfl rfl rfl
  | narrowed hnarrow => exact narrowGrant_evolves hnarrow
  | previewed hpreview =>
    obtain ⟨row, hput, -⟩ := hpreview.puts
    obtain ⟨t, rfl, -⟩ := putConfirmation_ok hput
    exact .of_eq rfl rfl rfl rfl
  | updated hupdate => exact hupdate.evolves
  | previewedTargets hpreview =>
    obtain ⟨-, row, hput, -⟩ := previewManagementTargets_ok hpreview
    obtain ⟨t, rfl, -⟩ := putConfirmation_ok hput
    exact .of_eq rfl rfl rfl rfl
  | updatedTargets hupdate =>
    obtain ⟨⟨targets, rfl⟩, -⟩ := updateManagementTargets_ok hupdate
    exact .retarget
  | started | verified | reverified | authorized | offeredScope | offeredPage | offeredTargets => exact .refl _

omit [DecidableEq D] in
theorem Call.keys_fresh {k : String} (h : k ∈ call.keys P) : k ∈ call.fresh P := by
  cases call with
  | consent | token =>
    simp only [Call.keys, Call.fresh, List.mem_cons, List.not_mem_nil, or_false] at h ⊢
    tauto
  | _ => simp [Call.keys] at h

theorem Effect.follows {used : String → Prop} (h : Effect P s call db' answer) (hnew : ∀ k ∈ call.keys P, ¬ used k) :
    Follows used s.db db' := by
  cases h with
  | savedConfig => exact .writeConfig _ _ _
  | savedManagement => exact .writeManagement _ _ _ _
  | rotatedKey | createdClient => exact .of_eq rfl rfl rfl
  | updatedClient => exact Follows.updateClientRow.andThen (.endClient _ _ _ _)
  | showed _ htouches => exact htouches.follows used
  | released htouches => exact (htouches "" 0).follows used
  | denied _ _ htouches => exact htouches.follows used
  | accepted haccept => exact haccept.follows (hnew _ (by simp [Call.keys]))
  | cleaned => exact .cleanupInteractions
  | exchanged htoken => exact htoken.follows (hnew _ (by simp [Call.keys])) (hnew _ (by simp [Call.keys]))
  | revoked => exact .revokeFamilies
  | narrowed hnarrow => exact narrowGrant_follows hnarrow
  | previewed hpreview =>
    obtain ⟨row, hput, -⟩ := hpreview.puts
    obtain ⟨t, rfl, -⟩ := putConfirmation_ok hput
    exact .of_eq rfl rfl rfl
  | updated hupdate =>
    obtain ⟨ctx, change, -, -, -, rfl, -⟩ := hupdate.reads
    exact .of_eq rfl rfl rfl
  | previewedTargets hpreview =>
    obtain ⟨-, row, hput, -⟩ := previewManagementTargets_ok hpreview
    obtain ⟨t, rfl, -⟩ := putConfirmation_ok hput
    exact .of_eq rfl rfl rfl
  | updatedTargets hupdate =>
    obtain ⟨⟨targets, rfl⟩, -⟩ := updateManagementTargets_ok hupdate
    exact .of_eq rfl rfl rfl
  | started | verified | reverified | authorized | offeredScope | offeredPage | offeredTargets => exact .refl _

/-! ## Steps and runs -/

/-- An event fails and changes nothing but time, or commits. -/
inductive Moves (P : Params D) (w : World D) (e : Event D) : World D → Prop
  | fails {error : Error} : e.result = .error error →
    Moves P w e { w with now := e.out.now, used := e.call.fresh P ++ w.used }
  | commits {db : Db} {answer : Answer D} : e.result = .ok answer →
    (∀ x ∈ answer.issues e.out.now, P.decrypt x.1 = some x.2) →
    Effect P (e.snapshot w) e.call db answer →
    Moves P w e { db := db, now := e.out.now, history := db :: w.history, used := e.call.fresh P ++ w.used,
                  issued := answer.issues e.out.now ++ w.issued }

theorem Step.moves (h : Step P w e w') : Moves P w e w' := by
  have hresult := h.result
  rw [h.next]
  unfold World.next
  split
  · rename_i error hexec
    rw [hexec] at hresult
    exact .fails hresult
  · rename_i db answer hexec
    rw [hexec] at hresult
    exact .commits hresult (h.seals db answer hexec) (exec_effect hexec)

/-- A call that answered committed its effect. -/
theorem Step.effect (h : Step P w e w') (hresult : e.result = .ok answer) :
    ∃ db', w'.db = db' ∧ Effect P (e.snapshot w) e.call db' answer := by
  cases h.moves with
  | fails herror =>
    rw [hresult] at herror
    cases herror
  | commits hanswer _ heffect =>
    rw [hresult] at hanswer
    obtain rfl := Except.ok.inj hanswer
    exact ⟨_, rfl, heffect⟩

/-- A ticket is old, or the answer's. -/
theorem Step.issued (h : Step P w e w') {x : String × Sealed D} (hx : x ∈ w'.issued) :
    x ∈ w.issued ∨ ∃ answer, e.result = .ok answer ∧ x ∈ answer.issues e.out.now := by
  cases h.moves with
  | fails => exact .inl hx
  | commits hresult =>
    rcases List.mem_append.mp hx with hnew | hold
    · exact .inr ⟨_, hresult, hnew⟩
    · exact .inl hold

theorem Step.evolves (h : Step P w e w') : Evolves w.db w'.db := by
  cases h.moves with
  | fails => exact .refl _
  | commits _ _ heffect => exact heffect.evolves

theorem Step.used (h : Step P w e w') : w'.used = e.call.fresh P ++ w.used := by
  cases h.moves with
  | fails | commits => rfl

theorem Step.now (h : Step P w e w') : w'.now = e.out.now := by
  cases h.moves with
  | fails | commits => rfl

theorem Step.follows (h : Step P w e w') : Follows (· ∈ w.used) w.db w'.db := by
  cases h.moves with
  | fails => exact .refl _
  | commits _ _ heffect => exact heffect.follows fun k hk => h.fresh k (Call.keys_fresh hk)

/-- What a whole run keeps: `Evolves`, `Follows`, and what was used or issued stays so. -/
structure Later (w w' : World D) : Prop where
  evolves : Evolves w.db w'.db
  follows : Follows (· ∈ w.used) w.db w'.db
  used : ∀ k ∈ w.used, k ∈ w'.used
  issued : ∀ x ∈ w.issued, x ∈ w'.issued
  now : w.now ≤ w'.now
  history : w.history <:+ w'.history

omit [DecidableEq D] in
theorem Later.refl (w : World D) : Later w w :=
  ⟨.refl _, .refl _, fun _ h => h, fun _ h => h, le_refl _, List.suffix_refl _⟩

omit [DecidableEq D] in
theorem Later.trans (a b c : World D) (h : Later a b) (h' : Later b c) : Later a c :=
  ⟨h.evolves.trans h'.evolves, h.follows.trans h.used h'.follows, fun k hk => h'.used k (h.used k hk),
    fun x hx => h'.issued x (h.issued x hx), h.now.trans h'.now, h.history.trans h'.history⟩

theorem Step.later (h : Step P w e w') : Later w w' where
  evolves := h.evolves
  follows := h.follows
  used := by
    intro k hk
    rw [h.used]
    exact List.mem_append_right _ hk
  issued := by
    intro x hx
    cases h.moves with
    | fails => exact hx
    | commits => exact List.mem_append_right _ hx
  now := h.now ▸ h.time
  history := by
    cases h.moves with
    | fails => exact List.suffix_refl _
    | commits => exact List.suffix_cons _ _

variable {tr : List (Event D)}

theorem Run.later (h : Run (Step P) w tr w') : Later w w' :=
  h.rel (I := fun _ => True) trivial (fun _ _ _ _ _ => trivial) Later.refl Later.trans fun _ _ _ _ hs => hs.later

/-! ## The history -/

/-- The current database is the newest, and every database of the history evolved from the older ones. -/
structure Ordered (w : World D) : Prop where
  head : ∃ older, w.history = w.db :: older
  evolves : w.history.Pairwise fun b a => Evolves a b

omit [DecidableEq D] in
theorem Ordered.from_history (h : Ordered w) {db : Db} (hdb : db ∈ w.history) : Evolves db w.db := by
  obtain ⟨older, hhead⟩ := h.head
  have hpair := h.evolves
  rw [hhead] at hdb hpair
  rcases List.mem_cons.mp hdb with rfl | hmem
  · exact .refl _
  · exact (List.pairwise_cons.mp hpair).1 db hmem

theorem Ordered.step (h : Ordered w) (hs : Step P w e w') : Ordered w' := by
  cases hs.moves with
  | fails => exact ⟨h.head, h.evolves⟩
  | commits _ _ heffect =>
    refine ⟨⟨_, rfl⟩, List.pairwise_cons.mpr ⟨?_, h.evolves⟩⟩
    intro a ha
    exact (h.from_history ha).trans heffect.evolves

omit [DecidableEq D] in
theorem Ordered.init : Ordered ({} : World D) := ⟨⟨[], rfl⟩, List.pairwise_singleton _ _⟩

theorem Ordered.run (h : Run (Step P) {} tr w) : Ordered w :=
  h.invariant .init fun _ _ _ hI hs => hI.step hs

omit [DecidableEq D] in
/-- Readings in order evolved from one another. -/
theorem Ordered.reads (h : Ordered w) {mid first : Db} (hreads : InOrder w.history [mid, first]) :
    Evolves first mid ∧ Evolves mid w.db ∧ first ∈ w.history ∧ mid ∈ w.history := by
  obtain ⟨rest, hsuffix, rest', hsuffix', -⟩ := hreads
  have hmid : mid ∈ w.history := hsuffix.subset List.mem_cons_self
  have hfirst : first ∈ mid :: rest := hsuffix'.subset List.mem_cons_self
  refine ⟨?_, h.from_history hmid, hsuffix.subset hfirst, hmid⟩
  rcases List.mem_cons.mp hfirst with rfl | hmem
  · exact .refl _
  · exact (List.pairwise_cons.mp (h.evolves.sublist hsuffix.sublist)).1 first hmem

end LingshuGate.OAuth

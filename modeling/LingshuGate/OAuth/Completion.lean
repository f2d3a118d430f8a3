import LingshuGate.OAuth.Script
import LingshuGate.OAuth.Ticket

/-!
# An authorization ticket completes at most once

| here | there |
| --- | --- |
| `Event.completes`  | a `consent` that returned, accepting or denying (oauth_server.py:1145-1218) |
| `Spent`            | why a completed ticket is refused from then on (oauth_server.py:397-430) |
| `RowsDated`        | a stored interaction expires when its ticket does |

The ticket lives with its holder, so the server must remember that it is completed: a tombstone under its digest.
The tombstone may be deleted, but only when the ticket is dead anyway: it has expired, or the configuration it was
issued under has changed.
-/

namespace LingshuGate.OAuth

open Lib

variable {D : Type} [DecidableEq D] {P : Params D} {w w' : World D} {e : Event D} {s : Snapshot} {call : Call D}
  {db' : Db} {answer : Answer D} {tr : List (Event D)}

/-! ## Events -/

/-- The consent returned: the ticket is completed. -/
def Event.completes (text : String) (e : Event D) : Bool := e.consents = some text && e.result.isOk

/-- The ticket of an accepted consent and the id of its grant. -/
def Event.granted (e : Event D) : Option (String × String) :=
  match e.call, e.result with
  | .consent _ _ text _ _ _ _ _ grantId, .ok (.granted (some _)) => some (text, grantId)
  | _, _ => none

variable {text : String}

omit [DecidableEq D] in
theorem Event.completes_eq (h : e.completes text = true) : e.consents = some text ∧ ∃ answer, e.result = .ok answer := by
  simp only [Event.completes, Bool.and_eq_true, decide_eq_true_eq] at h
  refine ⟨h.1, ?_⟩
  cases hresult : e.result with
  | error error =>
    rw [hresult] at h
    cases h.2
  | ok answer => exact ⟨answer, rfl⟩

omit [DecidableEq D] in
theorem Event.granted_completes {text grantId : String} (h : e.granted = some (text, grantId)) : e.completes text = true := by
  unfold Event.granted at h
  split at h
  · rename_i hcall hresult
    obtain ⟨rfl, -⟩ := Prod.mk.inj (Option.some.inj h)
    simp [Event.completes, Event.consents, hcall, hresult, Except.isOk, Except.toBool]
  · cases h

omit [DecidableEq D] in
theorem Event.accepted_completes {text codeHash : String} (h : e.accepted P = some (text, codeHash)) : e.completes text = true := by
  unfold Event.accepted at h
  split at h
  · rename_i hcall hresult
    obtain ⟨rfl, -⟩ := Prod.mk.inj (Option.some.inj h)
    simp [Event.completes, Event.consents, hcall, hresult, Except.isOk, Except.toBool]
  · cases h

/-! ## Interaction rows -/

/-- What a call does to the interaction rows: nothing, or it drops them under a new configuration, or it only deletes
open and expired ones, or it writes under the ticket it presents. -/
inductive Touched (P : Params D) (s : Snapshot) (call : Call D) (db' : Db) : Prop
  | same : db'.interactions = s.db.interactions → Touched P s call db'
  | config : s.db.config.revision < db'.config.revision → (∀ row ∈ db'.interactions, row ∈ s.db.interactions) →
    Touched P s call db'
  | deletes : Keeps s.out.now s.db db' → (∀ row ∈ db'.interactions, ∃ row₀ ∈ s.db.interactions,
    row₀.idHash = row.idHash ∧ row₀.expiresAt = row.expiresAt) → Touched P s call db'
  | writes {text : String} {row : Interaction} {request : AuthorizationRequest} {ticket : Ticket} {policy : ResourcePolicy} :
    call.presents = some text → Interacts P s text row request ticket policy → Keeps s.out.now s.db db' →
    RowsUnder (P.hash text) row.expiresAt s.db db' → Touched P s call db'

theorem Effect.touched (h : Effect P s call db' answer) : Touched P s call db' := by
  cases h with
  | savedConfig =>
    refine .config (Nat.lt_succ_self _) ?_
    intro row hrow
    simp only [Db.writeConfig] at hrow
    split at hrow
    · exact (Table.mem_delete.mp hrow).1
    · exact hrow
  | savedManagement => exact .same (Db.writeManagement_interactions ..)
  | updatedClient => exact .same (Db.endClient_interactions ..)
  | showed hi htouches => exact .writes rfl hi htouches.keeps htouches.rows
  | released htouches =>
    refine .deletes (htouches "" 0).keeps ?_
    intro row hrow
    -- no row can be new: it would have every expiry
    rcases (htouches row.idHash (row.expiresAt + 1)).rows row hrow with hold | ⟨-, hexpires⟩
    · exact hold
    · omega
  | denied hi _ htouches => exact .writes rfl hi htouches.keeps htouches.rows
  | accepted haccept => exact .writes rfl haccept.interacts haccept.keeps haccept.rows
  | cleaned => exact .deletes (.cleanupInteractions _) fun row hrow => ⟨row, cleanupInteractions_mem hrow, rfl, rfl⟩
  | exchanged htoken => exact .same htoken.others.1
  | narrowed hnarrow =>
    obtain ⟨grant, -, -, ⟨-, rfl⟩ | ⟨-, tools, scopes, -, -, rfl⟩⟩ := narrowGrant_ok hnarrow
    · exact .same rfl
    · exact .same rfl
  | previewed hpreview =>
    obtain ⟨row, hput, -⟩ := hpreview.puts
    obtain ⟨t, rfl, -⟩ := putConfirmation_ok hput
    exact .same rfl
  | updated hupdate =>
    obtain ⟨ctx, change, -, -, -, rfl, -⟩ := hupdate.reads
    exact .same rfl
  | previewedTargets hpreview =>
    obtain ⟨-, row, hput, -⟩ := previewManagementTargets_ok hpreview
    obtain ⟨t, rfl, -⟩ := putConfirmation_ok hput
    exact .same rfl
  | updatedTargets hupdate =>
    obtain ⟨⟨targets, rfl⟩, -⟩ := updateManagementTargets_ok hupdate
    exact .same rfl
  | _ => exact .same rfl

omit [DecidableEq D] in
/-- No call loses a tombstone of a live ticket. -/
theorem Touched.keeps (h : Touched P s call db') : Keeps s.out.now s.db db' := by
  cases h with
  | same heq => exact .of_eq heq
  | config hlt => exact fun _ _ _ => .inr (.inr hlt)
  | deletes hkeeps | writes _ _ hkeeps => exact hkeeps

/-- Every interaction row belongs to an issued ticket and expires with it. -/
def RowsDated (P : Params D) (w : World D) : Prop :=
  ∀ row ∈ w.db.interactions, ∃ text t ticket, (text, t) ∈ w.issued ∧ t.payload.ticket = some ticket ∧
    row.idHash = P.hash text ∧ row.expiresAt = ticket.expiresAt

omit [DecidableEq D] in
/-- One digest, one ticket: the row under a ticket's digest expires with the ticket. -/
theorem RowsDated.expires (h : RowsDated P w) (hseals : Sealing P w) {t : Sealed D} {ticket : Ticket}
    {row : Interaction} (hx : (text, t) ∈ w.issued) (hticket : t.payload.ticket = some ticket)
    (hrow : row ∈ w.db.interactions) (hid : row.idHash = P.hash text) : row.expiresAt = ticket.expiresAt := by
  obtain ⟨text', t', ticket', hx', hticket', hhash, hexpires⟩ := h row hrow
  obtain ⟨rfl, rfl⟩ := Prod.mk.inj (hseals.unique hx hx' (hid.symm.trans hhash))
  obtain rfl := Option.some.inj (hticket.symm.trans hticket')
  exact hexpires

omit [DecidableEq D] in
/-- The row an interaction works on expires with its ticket. -/
theorem Interacts.dated {row : Interaction} {request : AuthorizationRequest} {ticket : Ticket}
    {policy : ResourcePolicy} {t : Sealed D} (h : Interacts P (e.snapshot w) text row request ticket policy)
    (hrows : RowsDated P w) (hseals : Sealing P w) (hx : (text, t) ∈ w.issued) (hticket : t.payload.ticket = some ticket) :
    row.expiresAt = ticket.expiresAt := by
  have hrow := h.row_eq
  cases hfind : (e.snapshot w).db.interactions.find (P.hash text) with
  | none =>
    rw [hfind] at hrow
    rw [hrow]
    rfl
  | some stored =>
    rw [hfind] at hrow
    obtain rfl : row = stored := hrow
    obtain ⟨hmem, hid⟩ := Table.find_eq_some.mp hfind
    exact hrows.expires hseals hx hticket hmem hid

theorem RowsDated.step (h : RowsDated P w) (hseals : Sealing P w) (hs : Step P w e w') : RowsDated P w' := by
  have hissued := hs.later.issued
  have hpresents := hs.presents
  intro row' hrow'
  have hold : (∃ row ∈ w.db.interactions, row.idHash = row'.idHash ∧ row.expiresAt = row'.expiresAt) →
      ∃ text t ticket, (text, t) ∈ w'.issued ∧ t.payload.ticket = some ticket ∧ row'.idHash = P.hash text ∧
        row'.expiresAt = ticket.expiresAt := by
    rintro ⟨row, hrow, hid, hexpires⟩
    obtain ⟨text, t, ticket, hx, hticket, hhash, hdated⟩ := h row hrow
    exact ⟨text, t, ticket, hissued _ hx, hticket, hid.symm.trans hhash, hexpires.symm.trans hdated⟩
  cases hs.moves with
  | fails => exact hold ⟨row', hrow', rfl, rfl⟩
  | commits _ _ heffect =>
    cases heffect.touched with
    | same heq => exact hold ⟨row', heq ▸ hrow', rfl, rfl⟩
    | config _ hsub => exact hold ⟨row', hsub row' hrow', rfl, rfl⟩
    | deletes _ hsub => exact hold (hsub row' hrow')
    | @writes text row request ticket policy hcall hi _ hunder =>
      rcases hunder row' hrow' with hkept | ⟨hid, hexpires⟩
      · exact hold hkept
      · obtain ⟨t, hdecrypt, hticket⟩ := hi.sealed
        have hx := hpresents text hcall t hdecrypt
        exact ⟨text, t, ticket, hissued _ hx, hticket, hid, hexpires.trans (hi.dated h hseals hx hticket)⟩

/-! ## Completion -/

/-- The ticket is dead: completed, expired, or of an earlier configuration. -/
def Spent (P : Params D) (text : String) (w : World D) : Prop :=
  ∃ t ticket, P.decrypt text = some t ∧ t.payload.ticket = some ticket ∧
    ticket.request.configurationRevision ≤ w.db.config.revision ∧
    ((∃ row ∈ w.db.interactions, row.idHash = P.hash text ∧ row.completed = true ∧ row.expiresAt = ticket.expiresAt) ∨
      ticket.expiresAt ≤ w.now ∨ ticket.request.configurationRevision < w.db.config.revision)

theorem Spent.step (h : Spent P text w) (hs : Step P w e w') : Spent P text w' := by
  obtain ⟨t, ticket, hdecrypt, hticket, hconfig, hdead⟩ := h
  have hle := hs.evolves.config_le
  have hnow := hs.later.now
  refine ⟨t, ticket, hdecrypt, hticket, hconfig.trans hle, ?_⟩
  rcases hdead with ⟨row, hrow, hid, hcompleted, hexpires⟩ | hexpired | hchanged
  · cases hs.moves with
    | fails => exact .inl ⟨row, hrow, hid, hcompleted, hexpires⟩
    | commits _ _ heffect =>
      rcases heffect.touched.keeps row hrow hcompleted with ⟨row', hrow', hid', hc', he'⟩ | hexpired | hlt
      · exact .inl ⟨row', hrow', hid'.trans hid, hc', he'.trans hexpires⟩
      · exact .inr (.inl (hexpires ▸ hexpired))
      · exact .inr (.inr (lt_of_le_of_lt hconfig hlt))
  · exact .inr (.inl (hexpired.trans hnow))
  · exact .inr (.inr (lt_of_lt_of_le hchanged hle))

/-- A completion found the ticket open and left a tombstone. -/
theorem Step.completed (hs : Step P w e w') (h : e.completes text = true) :
    ∃ row request ticket policy, Interacts P (e.snapshot w) text row request ticket policy ∧ row.completed = false ∧
      ∃ row' ∈ w'.db.interactions, row'.idHash = P.hash text ∧ row'.completed = true := by
  obtain ⟨hconsents, answer, hresult⟩ := Event.completes_eq h
  obtain ⟨db', hdb, heffect⟩ := hs.effect hresult
  rw [hdb]
  unfold Event.consents at hconsents
  split at hconsents
  · rename_i hcall
    obtain rfl := Option.some.inj hconsents
    rw [hcall] at heffect
    cases heffect with
    | denied hi hopen _ htombstone => exact ⟨_, _, _, _, hi, hopen, htombstone⟩
    | accepted haccept => exact ⟨_, _, _, _, haccept.interacts, haccept.isOpen, haccept.tombstone⟩
  · cases hconsents

omit [DecidableEq D] in
theorem Event.consents_presents (h : e.consents = some text) : e.call.presents = some text := by
  unfold Event.consents at h
  split at h
  · rename_i hcall
    rw [hcall]
    exact h
  · cases h

theorem Step.completes_spends (hs : Step P w e w') (hrows : RowsDated P w) (hseals : Sealing P w)
    (h : e.completes text = true) : ¬ Spent P text w ∧ Spent P text w' := by
  obtain ⟨row, request, ticket, policy, hi, hopen, row', hrow', hid', hcompleted'⟩ := hs.completed h
  obtain ⟨t, hdecrypt, hticket⟩ := hi.sealed
  have hx := hs.presents text (Event.consents_presents (Event.completes_eq h).1) t hdecrypt
  have hconfiguration : w.db.config.revision = ticket.request.configurationRevision := hi.request_eq ▸ hi.configuration
  constructor
  · rintro ⟨t', ticket', hdecrypt', hticket', -, hdead⟩
    rw [hdecrypt] at hdecrypt'
    obtain rfl := Option.some.inj hdecrypt'
    obtain rfl := Option.some.inj (hticket.symm.trans hticket')
    rcases hdead with ⟨r, hr, hid, hcompleted, -⟩ | hexpired | hchanged
    · rw [hi.not_completed hopen hr hid] at hcompleted
      cases hcompleted
    · have hlive := hi.unexpired
      have htime := hs.time
      simp only [Event.snapshot] at hlive
      omega
    · omega
  · have hexpires := (hrows.step hseals hs).expires (hseals.step hs) (hs.later.issued _ hx) hticket hrow' hid'
    exact ⟨t, ticket, hdecrypt, hticket, hconfiguration ▸ hs.evolves.config_le, .inl ⟨row', hrow', hid', hcompleted', hexpires⟩⟩

theorem completes_once (h : Run (Step P) {} tr w) (text : String) : tr.countP (Event.completes text) ≤ 1 := by
  refine h.once (I := fun w => RowsDated P w ∧ Sealing P w) (Spent P text) _ ⟨?_, .run (.nil _)⟩ ?_ ?_ ?_
  · intro row hrow
    exact absurd hrow (Table.not_mem_empty row)
  · intro t e v hI hs
    exact ⟨hI.1.step hI.2 hs, hI.2.step hs⟩
  · intro t e v _ hs hspent
    exact hspent.step hs
  · intro t e v hI hs he
    exact hs.completes_spends hI.1 hI.2 he

/-! ## Grants and codes come from completions -/

/-- A grant row is old, or the one an accepted consent answers with. -/
theorem Effect.grants (h : Effect P s call db' answer) {g : Grant} (hg : g ∈ db'.grants) :
    (∃ g₀ ∈ s.db.grants, g₀.id = g.id) ∨ ∃ first mid text browser csrf principal body code grantId grant,
      call = .consent first mid text browser csrf principal body code grantId ∧ answer = .granted (some grant) ∧
        grantId = g.id := by
  have hold : g ∈ s.db.grants → ∃ g₀ ∈ s.db.grants, g₀.id = g.id := fun hmem => ⟨g, hmem, rfl⟩
  cases h with
  | savedConfig | savedManagement => exact .inl (hold (by simpa using hg))
  | updatedClient =>
    rw [Db.endClient_grants] at hg
    exact .inl (hold hg)
  | showed _ htouches => exact .inl (hold (htouches.grants ▸ hg))
  | released htouches => exact .inl (hold ((htouches "" 0).grants ▸ hg))
  | denied _ _ htouches => exact .inl (hold (htouches.grants ▸ hg))
  | accepted haccept =>
    obtain ⟨t, ht, hdb₁⟩ := insertGrant_ok.mp haccept.insertGrant
    obtain ⟨t', -, hdb₂⟩ := insertCode_ok.mp haccept.insertCode
    rw [haccept.touches.grants, ← hdb₂, ← hdb₁] at hg
    rcases (Table.mem_insert ht).mp hg with hmem | rfl
    · exact .inl (hold hmem)
    · exact .inr ⟨_, _, _, _, _, _, _, _, _, g, rfl, rfl, (consentGrant_id haccept.grant_ok).symm⟩
  | exchanged htoken => exact .inl (hold (htoken.others.2.1 ▸ hg))
  | narrowed hnarrow =>
    obtain ⟨grant, -, -, ⟨-, rfl⟩ | ⟨-, tools, scopes, -, -, rfl⟩⟩ := narrowGrant_ok hnarrow
    · have hrevoked : g ∈ (s.db.updateGrant _ (revokedGrant s.out.now) fun _ => rfl).grants := hg
      exact .inl (updateGrant_old hrevoked)
    · exact .inl (updateGrant_old hg)
  | previewed hpreview =>
    obtain ⟨row, hput, -⟩ := hpreview.puts
    obtain ⟨t, rfl, -⟩ := putConfirmation_ok hput
    exact .inl (hold hg)
  | updated hupdate =>
    obtain ⟨ctx, change, -, -, -, rfl, -⟩ := hupdate.reads
    have hrescoped : g ∈ (s.db.updateGrant _ (rescopedGrant change _) fun _ => rfl).grants := hg
    exact .inl (updateGrant_old hrescoped)
  | previewedTargets hpreview =>
    obtain ⟨-, row, hput, -⟩ := previewManagementTargets_ok hpreview
    obtain ⟨t, rfl, -⟩ := putConfirmation_ok hput
    exact .inl (hold hg)
  | updatedTargets hupdate =>
    obtain ⟨⟨targets, rfl⟩, -⟩ := updateManagementTargets_ok hupdate
    have hretargeted : g ∈ (s.db.updateGrant _ (retargetedGrant targets) fun _ => rfl).grants := hg
    exact .inl (updateGrant_old hretargeted)
  | _ => exact .inl (hold hg)

/-- A code is old, or of an accepted consent. -/
theorem Effect.codes (h : Effect P s call db' answer) {c : Code} (hc : c ∈ db'.codes) :
    (∃ c₀ ∈ s.db.codes, c₀.codeHash = c.codeHash) ∨ ∃ first mid text browser csrf principal body code grantId grant,
      call = .consent first mid text browser csrf principal body code grantId ∧ answer = .granted (some grant) ∧
        P.hash code = c.codeHash := by
  have hcontinues : Table.Continues CodeLe (fun _ => True) s.db.codes db'.codes → ∃ c₀ ∈ s.db.codes, c₀.codeHash = c.codeHash := by
    intro hcodes
    obtain ⟨c₀, hc₀, hle⟩ := (hcodes c hc).resolve_right fun hn => hn trivial
    exact ⟨c₀, hc₀, hle.codeHash.symm⟩
  cases call with
  | token =>
    cases h with
    | exchanged htoken => exact .inl (hcontinues htoken.others.2.2.2)
  | consent =>
    cases h with
    | denied _ _ htouches => exact .inl ⟨c, htouches.codes c hc, rfl⟩
    | accepted haccept =>
      obtain ⟨t, -, hdb₁⟩ := insertGrant_ok.mp haccept.insertGrant
      obtain ⟨t', ht', hdb₂⟩ := insertCode_ok.mp haccept.insertCode
      have hc₂ := haccept.touches.codes c hc
      rw [← hdb₂, ← hdb₁] at hc₂
      rw [← hdb₁] at ht'
      rcases (Table.mem_insert ht').mp hc₂ with hold | rfl
      · exact .inl ⟨c, hold, rfl⟩
      · exact .inr ⟨_, _, _, _, _, _, _, _, _, _, rfl, rfl, rfl⟩
  | _ =>
    refine .inl (hcontinues (h.follows ?_).codes)
    intro k hk
    simp [Call.keys] at hk

/-- Every grant and every code in the tables goes back to a completion of the run. -/
theorem granted_run (h : Run (Step P) {} tr w) : (∀ g ∈ w.db.grants, ∃ e ∈ tr, ∃ text, e.granted = some (text, g.id)) ∧
      ∀ c ∈ w.db.codes, ∃ e ∈ tr, ∃ text, e.accepted P = some (text, c.codeHash) := by
  induction h with
  | nil => exact ⟨fun g hg => absurd hg (Table.not_mem_empty g), fun c hc => absurd hc (Table.not_mem_empty c)⟩
  | @snoc v u tr e hrun hs ih =>
    have hold : ∀ {p : Event D → Prop}, (∃ e' ∈ tr, p e') → ∃ e' ∈ tr ++ [e], p e' := by
      rintro p ⟨e', he', hp⟩
      exact ⟨e', List.mem_append_left _ he', hp⟩
    cases hs.moves with
    | fails => exact ⟨fun g hg => hold (ih.1 g hg), fun c hc => hold (ih.2 c hc)⟩
    | commits hresult _ heffect =>
      constructor
      · intro g hg
        rcases heffect.grants hg with ⟨g₀, hg₀, hid⟩ | ⟨_, _, text, _, _, _, _, _, _, grant, hcall, rfl, rfl⟩
        · exact hid ▸ hold (ih.1 g₀ hg₀)
        · exact ⟨e, by simp, text, by simp [Event.granted, hcall, hresult]⟩
      · intro c hc
        rcases heffect.codes hc with ⟨c₀, hc₀, hhash⟩ | ⟨_, _, text, _, _, _, _, _, _, grant, hcall, rfl, hhash⟩
        · exact hhash ▸ hold (ih.2 c₀ hc₀)
        · exact ⟨e, by simp, text, by simp [Event.accepted, hcall, hresult, hhash]⟩

/-! ## Every run -/

/-- **A ticket completes at most once.** In every run at most one consent to a ticket returns; so at most one grant and
one code come from it, and every grant and every code comes from such a consent; a consent that fails, for lack of
capacity or otherwise, leaves the tables as they were. -/
theorem ticket_completes_once (h : Run (Step P) {} tr w) (text : String) : tr.countP (Event.completes text) ≤ 1 ∧
      tr.countP (fun e => e.granted.any fun x => x.1 = text) ≤ 1 ∧
      tr.countP (fun e => (e.accepted P).any fun x => x.1 = text) ≤ 1 ∧
      (∀ g ∈ w.db.grants, ∃ e ∈ tr, ∃ text, e.granted = some (text, g.id)) ∧
      (∀ c ∈ w.db.codes, ∃ e ∈ tr, ∃ text, e.accepted P = some (text, c.codeHash)) ∧
      (∀ e w' error, Step P w e w' → e.consents = some text → e.result = .error error → w'.db = w.db) := by
  have honce := completes_once h text
  refine ⟨honce, ?_, ?_, (granted_run h).1, (granted_run h).2, ?_⟩
  · refine le_trans (List.countP_mono_left ?_) honce
    intro e _ he
    obtain ⟨x, hx, hx1⟩ := (Option.any_eq_true _ _).mp he
    obtain ⟨text', grantId⟩ := x
    obtain rfl : text' = text := of_decide_eq_true hx1
    exact Event.granted_completes hx
  · refine le_trans (List.countP_mono_left ?_) honce
    intro e _ he
    obtain ⟨x, hx, hx1⟩ := (Option.any_eq_true _ _).mp he
    obtain ⟨text', codeHash⟩ := x
    obtain rfl : text' = text := of_decide_eq_true hx1
    exact Event.accepted_completes hx
  intro e w' error hs _ hresult
  cases hs.moves with
  | fails => rfl
  | commits hanswer =>
    rw [hresult] at hanswer
    cases hanswer

theorem ticket_completes_once_demo : (trace demo {} demoScript).countP (Event.completes demoTicketText) = 1 :=
  le_antisymm (ticket_completes_once demo_run demoTicketText).1 (by decide +kernel)

end LingshuGate.OAuth

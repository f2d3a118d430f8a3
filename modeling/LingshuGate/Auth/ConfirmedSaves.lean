import LingshuGate.Auth.TokenEditing

/-!
# A save is what its preview showed (`token_authorizations.py`)

A confirmation carries two digests: of everything the target was computed from, and of the target. `Tickets` says that
every confirmation in the table belongs to the last preview of its session and target; a save that finds it computed the
same target from the same state.

The columns of the token itself are another matter: an edit writes its scopes and leaves its name as it is, whatever
name the preview showed (`name_not_written`). `edits_confirmed` says what a save writes.
-/

namespace LingshuGate.TokenEditing

open Lib Lib.Py
open AccessControl (ServerPolicy SubmittedPolicy bindServerPolicies bindEach bindServerPolicy_ok)

variable {δ : Type} {hashes : Hashes δ} {db db' : Db δ} {env : Env} {p : AuthPrincipal} {st : State}
  {catalog : Tools} {body : Body δ} {id : TargetId} {session : String} {target : Target}

/-! ## What the calls check -/

theorem openEditor_ok {o : Opened} (h : openEditor db env id = .ok o) :
    env.owner = .ok o.principal ∧ stateOf db env o.principal id = .ok o.state := by
  simp only [openEditor, bind_eq_ok, pure_eq_ok] at h
  obtain ⟨p, hp, st, hst, ⟨catalog, servers, limited⟩, -, rfl⟩ := h
  exact ⟨hp, hst⟩

/-- What is left of the tickets when a new one is issued. -/
def kept (db : Db δ) (place : Place) (purpose : Purpose) (now : Int) : List (Ticket δ) :=
  let live := db.tickets.filter fun t => now < t.expiresAt
  if purpose = .confirmation then live.filter fun t => !(t.place = place && t.purpose = .confirmation) else live

variable {place : Place} {purpose : Purpose} {token : Nat} {now : Int}

variable {binding : δ}

theorem issueTicket_ok {target : Option δ}
    (h : issueTicket db place purpose binding target now = .ok (db', token)) : token = db.issued ∧ db' = { db with
      tickets := kept db place purpose now ++ [⟨db.issued, place, purpose, binding, target, now + 300⟩]
      issued := db.issued + 1 } := by
  simp only [issueTicket, bind_eq_ok, require_eq_ok, pure_eq_ok, Prod.mk.injEq] at h
  obtain ⟨-, -, rfl, rfl⟩ := h
  exact ⟨rfl, rfl⟩

theorem mem_of_kept {t : Ticket δ} (h : t ∈ kept db place purpose now) :
    t ∈ db.tickets ∧ (purpose = .confirmation → t.purpose = .confirmation → t.place ≠ place) := by
  unfold kept at h
  dsimp only at h
  split at h
  · obtain ⟨hlive, hother⟩ := List.mem_filter.mp h
    refine ⟨List.mem_of_mem_filter hlive, ?_⟩
    rintro - hpurpose rfl
    simp [hpurpose] at hother
  · next hpurpose => exact ⟨List.mem_of_mem_filter h, fun hc => absurd hc hpurpose⟩

theorem kept_sublist : (kept db place purpose now).Sublist db.tickets := by
  unfold kept
  dsimp only
  split
  · exact List.filter_sublist.trans List.filter_sublist
  · exact List.filter_sublist

/-- What a save writes. -/
structure Wrote (db db' : Db δ) (p : AuthPrincipal) (id : TargetId) (tokenId : String) (target : Target) (revision : Nat) :
    Prop where
  authorizations : db'.authorizations = Function.update db.authorizations tokenId (some (target.row revision))
  /-- A new token gets all of the target, one that is there its scopes. -/
  token : match id with
    | .new => db.tokens tokenId = none ∧ db'.tokens = Function.update db.tokens tokenId
        (some { userId := p.id, name := target.name, scopes := target.scopes, expiresAt := target.expiresAt })
    | .token t => tokenId = t ∧ ∃ old, db.tokens t = some old ∧
        db'.tokens = Function.update db.tokens t (some { old with scopes := target.scopes })

theorem stateOf_token {t : String} (h : stateOf db env p (.token t) = .ok st) : ∃ token, db.tokens t = some token ∧
    token.userId = p.id ∧ token.revoked = false ∧ st = storedState token (db.authorizations t) := by
  simp only [stateOf, bind_eq_ok, expect_eq_ok, require_eq_ok, pure_eq_ok, Option.filter_eq_some_iff] at h
  obtain ⟨token, ⟨htoken, huser⟩, -, hlive, rfl⟩ := h
  simp only [Bool.not_eq_true', Bool.or_eq_false_iff] at hlive
  exact ⟨token, htoken, of_decide_eq_true huser, hlive.1, rfl⟩

variable {tokenId : String}

theorem write_ok (hst : stateOf db env p id = .ok st) (h : write db env p st target id = .ok (db', tokenId)) :
    Wrote db db' p id tokenId target (st.revision + 1) ∧ db'.tickets = db.tickets ∧ db'.issued = db.issued ∧
      db'.previews = db.previews := by
  cases id with
  | new =>
    simp only [write, bind_eq_ok, require_eq_ok, pure_eq_ok, Prod.mk.injEq, Option.isNone_iff_eq_none] at h
    obtain ⟨-, hfresh, rfl, rfl⟩ := h
    exact ⟨⟨rfl, hfresh, rfl⟩, rfl, rfl, rfl⟩
  | token t =>
    obtain ⟨token, htoken, huser, hrevoked, -⟩ := stateOf_token hst
    simp only [write, Except.ok.injEq, Prod.mk.injEq] at h
    obtain ⟨rfl, rfl⟩ := h
    refine ⟨⟨rfl, rfl, token, htoken, ?_⟩, rfl, rfl, rfl⟩
    simp [htoken, huser, hrevoked]

variable [DecidableEq δ]

theorem checked_ok {o : Opened} (h : checked hashes db env id body = .ok (o, target)) :
    openEditor db env id = .ok o ∧ targetOf env o.principal o.state o.catalog body id = .ok target := by
  simp only [checked, bind_eq_ok, require_eq_ok, pure_eq_ok, Prod.mk.injEq] at h
  obtain ⟨o', ho, -, -, target', htarget, -, -, rfl, rfl⟩ := h
  exact ⟨ho, htarget⟩

theorem consume_options_ok {target : Option δ} (h : consume db place .options token binding target now = .ok db') : db' = db := by
  simp only [consume, bind_eq_ok, require_eq_ok, pure_eq_ok] at h
  obtain ⟨-, -, rfl⟩ := h
  rfl

/-- The confirmation was in the table, and is gone. -/
theorem consume_confirmation_ok {target : Option δ} (h : consume db place .confirmation token binding target now = .ok db') :
    (∃ t ∈ db.tickets, t.fits token place .confirmation binding target now = true) ∧
      db' = { db with tickets := db.tickets.filter fun t => !t.fits token place .confirmation binding target now } := by
  simp only [consume, bind_eq_ok, require_eq_ok, pure_eq_ok, decide_eq_true_eq] at h
  obtain ⟨-, hcount, rfl⟩ := h
  refine ⟨?_, rfl⟩
  have hpos : 0 < db.tickets.countP fun t => t.fits token place .confirmation binding target now := by
    rw [hcount]
    exact Nat.one_pos
  exact List.countP_pos_iff.mp hpos

theorem fits_eq_true {t : Ticket δ} {target : Option δ} (h : t.fits token place purpose binding target now = true) :
    t.token = token ∧ t.place = place ∧ t.purpose = purpose ∧ t.binding = binding ∧ t.target = target := by
  simp only [Ticket.fits, Bool.and_eq_true, decide_eq_true_eq] at h
  obtain ⟨⟨⟨⟨⟨h1, h2⟩, h3⟩, h4⟩, h5⟩, -⟩ := h
  exact ⟨h1, h2, h3, h4, h5⟩

/-- **What a save went through**: its checks, its confirmation, and what it wrote. -/
theorem save_ok (h : save hashes db env session id body = .ok (db', tokenId)) :
    ∃ o target, checked hashes db env id body = .ok (o, target) ∧
      (∃ t ∈ db.tickets, t.fits body.presented ⟨o.principal.id, session, id⟩ .confirmation (hashes.binding o.binding)
        (some (hashes.target target)) env.now = true) ∧
      Wrote db db' o.principal id tokenId target (o.state.revision + 1) ∧ db'.issued = db.issued ∧ db'.previews = db.previews ∧
      db'.tickets = db.tickets.filter fun t => !t.fits body.presented ⟨o.principal.id, session, id⟩ .confirmation
        (hashes.binding o.binding) (some (hashes.target target)) env.now := by
  simp only [save, bind_eq_ok, require_eq_ok, pure_eq_ok] at h
  obtain ⟨⟨o, target⟩, hchecked, db₁, hconsume, ⟨db₂, id₂⟩, hwrite, -, -, hdb⟩ := h
  obtain ⟨rfl, rfl⟩ := Prod.mk.inj hdb
  obtain ⟨hticket, rfl⟩ := consume_confirmation_ok hconsume
  have hst : stateOf db env o.principal id = .ok o.state := (openEditor_ok (checked_ok hchecked).1).2
  have hst' : ∀ tickets : List (Ticket δ), stateOf { db with tickets } env o.principal id = .ok o.state := by
    intro tickets
    cases id <;> exact hst
  obtain ⟨hwrote, htickets, hissued, hpreviews⟩ := write_ok (hst' _) hwrite
  exact ⟨o, target, hchecked, hticket, ⟨hwrote.1, hwrote.2⟩, hissued, hpreviews, htickets⟩

theorem preview_ok {shown : Preview} (h : preview hashes db env session id body = .ok (db', shown)) :
    ∃ o target, checked hashes db env id body = .ok (o, target) ∧ shown = ⟨db.issued, o.binding, target⟩ ∧ db' = { db with
      tickets := kept db ⟨o.principal.id, session, id⟩ .confirmation env.now ++ [⟨db.issued, ⟨o.principal.id, session, id⟩,
        .confirmation, hashes.binding o.binding, some (hashes.target target), env.now + 300⟩]
      issued := db.issued + 1
      previews := Function.update db.previews ⟨o.principal.id, session, id⟩ (some shown) } := by
  simp only [preview, bind_eq_ok, pure_eq_ok, Prod.mk.injEq] at h
  obtain ⟨⟨o, target⟩, hchecked, db₁, hconsume, ⟨db₂, token⟩, hissue, rfl, rfl⟩ := h
  obtain rfl := consume_options_ok hconsume
  obtain ⟨rfl, rfl⟩ := issueTicket_ok hissue
  exact ⟨o, target, hchecked, rfl, rfl⟩

omit [DecidableEq δ] in
theorem options_ok (h : options hashes db env session id = .ok (db', token)) : ∃ o, openEditor db env id = .ok o ∧ db' = { db with
      tickets := kept db ⟨o.principal.id, session, id⟩ .options env.now ++
        [⟨db.issued, ⟨o.principal.id, session, id⟩, .options, hashes.binding o.binding, none, env.now + 300⟩]
      issued := db.issued + 1 } := by
  simp only [options, bind_eq_ok] at h
  obtain ⟨o, ho, hissue⟩ := h
  exact ⟨o, ho, (issueTicket_ok hissue).2⟩

/-- What a call that succeeds does to the database; one that fails does nothing. -/
inductive Edits (hashes : Hashes δ) (db : Db δ) : Event δ → Db δ → Prop
  | nothing (e : Event δ) : Edits hashes db e db
  | options {env : Env} {session : String} {id : TargetId} {db' : Db δ} {token : Nat}
      (h : options hashes db env session id = .ok (db', token)) : Edits hashes db (.options env session id) db'
  | preview {env : Env} {session : String} {id : TargetId} {body : Body δ} {db' : Db δ} {shown : Preview}
      (h : preview hashes db env session id body = .ok (db', shown)) : Edits hashes db (.preview env session id body) db'
  | save {env : Env} {session : String} {id : TargetId} {body : Body δ} {db' : Db δ} {tokenId : String}
      (h : save hashes db env session id body = .ok (db', tokenId)) : Edits hashes db (.save env session id body) db'

variable {e : Event δ}

theorem EditStep.edits (h : EditStep hashes db e db') : Edits hashes db e db' := by
  subst h
  cases e with
  | options env session id =>
    cases hcall : options hashes db env session id with
    | error err =>
      simp only [next, hcall]
      exact .nothing _
    | ok r =>
      simp only [next, hcall]
      exact .options hcall
  | preview env session id body =>
    cases hcall : preview hashes db env session id body with
    | error err =>
      simp only [next, hcall]
      exact .nothing _
    | ok r =>
      simp only [next, hcall]
      exact .preview hcall
  | save env session id body =>
    cases hcall : save hashes db env session id body with
    | error err =>
      simp only [next, hcall]
      exact .nothing _
    | ok r =>
      simp only [next, hcall]
      exact .save hcall

/-! ## Tickets -/

/-- A confirmation in the table is of the last preview of its session and target. -/
structure Tickets (hashes : Hashes δ) (db : Db δ) : Prop where
  issued : ∀ t ∈ db.tickets, t.token < db.issued
  nodup : (db.tickets.map Ticket.token).Nodup
  shown : ∀ t ∈ db.tickets, t.purpose = .confirmation → ∃ shown, db.previews t.place = some shown ∧
    shown.confirmation = t.token ∧ t.binding = hashes.binding shown.binding ∧ t.target = some (hashes.target shown.target)

omit [DecidableEq δ] in
theorem Tickets.issue {ticket : Ticket δ} (h : Tickets hashes db)
    (hticket : ticket.token = db.issued) (hissued : db'.issued = db.issued + 1)
    (htickets : db'.tickets = kept db place purpose now ++ [ticket])
    (hshown : ticket.purpose = .confirmation → ∃ shown, db'.previews ticket.place = some shown ∧
      shown.confirmation = ticket.token ∧ ticket.binding = hashes.binding shown.binding ∧
        ticket.target = some (hashes.target shown.target))
    (hpreviews : ∀ t ∈ kept db place purpose now, t.purpose = .confirmation → db'.previews t.place = db.previews t.place) :
    Tickets hashes db' := by
  refine ⟨?_, ?_, ?_⟩
  · intro t ht
    rw [htickets] at ht
    rcases List.mem_append.mp ht with ht | ht
    · have hlt := h.issued t (mem_of_kept ht).1
      omega
    · obtain rfl := List.mem_singleton.mp ht
      omega
  · rw [htickets, List.map_append, List.map_singleton]
    refine List.Nodup.append (h.nodup.sublist (kept_sublist.map _)) (List.nodup_singleton _) ?_
    rw [List.disjoint_singleton]
    intro hmem
    obtain ⟨t, ht, heq⟩ := List.mem_map.mp hmem
    have hlt := h.issued t (mem_of_kept ht).1
    omega
  intro t ht hpurpose
  rw [htickets] at ht
  rcases List.mem_append.mp ht with ht | ht
  · rw [hpreviews t ht hpurpose]
    exact h.shown t (mem_of_kept ht).1 hpurpose
  · obtain rfl := List.mem_singleton.mp ht
    exact hshown hpurpose

theorem Edits.tickets (h : Edits hashes db e db') (hdb : Tickets hashes db) : Tickets hashes db' := by
  cases h with
  | nothing => exact hdb
  | options h =>
    obtain ⟨o, -, rfl⟩ := options_ok h
    exact hdb.issue rfl rfl rfl nofun fun _ _ _ => rfl
  | preview h =>
    obtain ⟨o, target, -, rfl, rfl⟩ := preview_ok h
    refine hdb.issue rfl rfl rfl ?_ ?_
    · exact fun _ => ⟨_, Function.update_self .., rfl, rfl, rfl⟩
    · intro t ht hpurpose
      exact Function.update_of_ne ((mem_of_kept ht).2 rfl hpurpose) _ _
  | save h =>
    obtain ⟨o, target, -, -, -, hissued, hpreviews, htickets⟩ := save_ok h
    refine ⟨?_, ?_, ?_⟩
    · intro t ht
      rw [htickets] at ht
      rw [hissued]
      exact hdb.issued t (List.mem_of_mem_filter ht)
    · rw [htickets]
      exact hdb.nodup.sublist (List.filter_sublist.map _)
    · intro t ht
      rw [htickets] at ht
      rw [hpreviews]
      exact hdb.shown t (List.mem_of_mem_filter ht)

/-- A confirmation that was given out and is in no ticket. -/
def Spent (token : Nat) (db : Db δ) : Prop := token < db.issued ∧ ∀ t ∈ db.tickets, t.token ≠ token

omit [DecidableEq δ] in
theorem spent_of_issue {ticket : Ticket δ} (h : Spent token db)
    (hticket : ticket.token = db.issued) (hissued : db'.issued = db.issued + 1)
    (htickets : db'.tickets = kept db place purpose now ++ [ticket]) : Spent token db' := by
  refine ⟨by rw [hissued]; exact Nat.lt_succ_of_lt h.1, ?_⟩
  intro t ht
  rw [htickets] at ht
  rcases List.mem_append.mp ht with ht | ht
  · exact h.2 t (mem_of_kept ht).1
  · obtain rfl := List.mem_singleton.mp ht
    rw [hticket]
    exact Nat.ne_of_gt h.1

theorem Edits.spent (h : Edits hashes db e db') (hspent : Spent token db) : Spent token db' := by
  cases h with
  | nothing => exact hspent
  | options h =>
    obtain ⟨o, -, rfl⟩ := options_ok h
    exact spent_of_issue hspent rfl rfl rfl
  | preview h =>
    obtain ⟨o, target, -, rfl, rfl⟩ := preview_ok h
    exact spent_of_issue hspent rfl rfl rfl
  | save h =>
    obtain ⟨o, target, -, -, -, hissued, -, htickets⟩ := save_ok h
    refine ⟨hissued ▸ hspent.1, ?_⟩
    intro t ht
    rw [htickets] at ht
    exact hspent.2 t (List.mem_of_mem_filter ht)

/-- A save finds its confirmation, so one that is spent is of no use. -/
theorem Spent.not_saved (h : Spent body.presented db) (r : Db δ × String) : save hashes db env session id body ≠ .ok r := by
  intro hsave
  obtain ⟨o, target, -, ⟨t, ht, hfits⟩, -⟩ := save_ok hsave
  exact h.2 t ht (fits_eq_true hfits).1

theorem save_spends (h : save hashes db env session id body = .ok (db', tokenId)) (hdb : Tickets hashes db) :
    Spent body.presented db' := by
  obtain ⟨o, target, -, ⟨t, ht, hfits⟩, -, hissued, -, htickets⟩ := save_ok h
  have htoken := (fits_eq_true hfits).1
  refine ⟨by rw [hissued, ← htoken]; exact hdb.issued t ht, ?_⟩
  intro t' ht' heq
  rw [htickets] at ht'
  obtain ⟨hmem, hnot⟩ := List.mem_filter.mp ht'
  obtain rfl := List.inj_on_of_nodup_map hdb.nodup hmem ht (heq.trans htoken.symm)
  simp [hfits] at hnot

/-- **A save is what its preview showed.** The target it computed is the one that was confirmed, and so is the state. -/
theorem save_shown (hashed : hashes.Faithful) (h : save hashes db env session id body = .ok (db', tokenId))
    (hdb : Tickets hashes db) : ∃ p st shown target, env.owner = .ok p ∧ stateOf db env p id = .ok st ∧
      db.previews ⟨p.id, session, id⟩ = some shown ∧ shown.confirmation = body.presented ∧
      st.Same shown.binding.state ∧ target.Same shown.target ∧ Wrote db db' p id tokenId target (st.revision + 1) := by
  obtain ⟨o, target, hchecked, ⟨t, ht, hfits⟩, hwrote, -⟩ := save_ok h
  obtain ⟨htoken, hplace, hpurpose, hbinding, htarget⟩ := fits_eq_true hfits
  obtain ⟨shown, hshown, hconfirmation, hb, ht⟩ := hdb.shown t ht hpurpose
  obtain ⟨howner, hst⟩ := openEditor_ok (checked_ok hchecked).1
  have hstate := (hashed.binding o.binding shown.binding (hbinding.symm.trans hb)).1
  have hsame := hashed.target target shown.target (Option.some.inj (htarget.symm.trans ht))
  exact ⟨o.principal, o.state, shown, target, howner, hst, hplace ▸ hshown, hconfirmation.trans htoken, hstate, hsame, hwrote⟩

/-! ## Rows as the calls leave them -/

/-- Policies are in the order of their servers, each server once. -/
def Ordered (policies : List ServerPolicy) : Prop := policies.Pairwise fun a b => a.serverId < b.serverId

structure Stored (db : Db δ) : Prop where
  owned : ∀ id, (db.authorizations id).isSome → (db.tokens id).isSome
  policies : ∀ id row, db.authorizations id = some row → Ordered row.serverPolicies
  scopes : ∀ id token, db.tokens id = some token → token.scopes.Pairwise (· < ·)

theorem normalizeScopes_ok {scopes result : List String} (h : normalizeScopes p scopes = .ok result) :
    result.Pairwise (· < ·) ∧ ∀ s, s ∈ result ↔ s ∈ (scopes.map strip).filter (· ≠ "") := by
  simp only [normalizeScopes, bind_eq_ok, require_eq_ok, pure_eq_ok] at h
  obtain ⟨-, -, -, -, rfl⟩ := h
  refine ⟨?_, ?_⟩
  · have hle := List.pairwise_insertionSort (· ≤ ·) ((scopes.map strip).filter (· ≠ "")).dedup
    have hne : (((scopes.map strip).filter (· ≠ "")).dedup.insertionSort (· ≤ ·)).Nodup :=
      (List.perm_insertionSort _ _).nodup_iff.mpr (List.nodup_dedup _)
    exact (hle.and hne).imp fun h => lt_of_le_of_ne h.1 h.2
  · intro s
    rw [List.mem_insertionSort, List.mem_dedup]

theorem bindEach_ok {binding : String → Except String String} {seen : List String} {requests : List SubmittedPolicy}
    {policies : List ServerPolicy} (h : bindEach binding seen requests = .ok policies) :
    (policies.map (·.serverId)).Nodup ∧ ∀ policy ∈ policies, policy.serverId ∉ seen := by
  induction requests generalizing seen policies with
  | nil =>
    obtain rfl := Except.ok.inj h
    simp
  | cons request rest ih =>
    simp only [bindEach, bind_eq_ok, pure_eq_ok] at h
    obtain ⟨policy, hpolicy, others, hothers, rfl⟩ := h
    obtain ⟨⟨-, -, -, -, hseen⟩, -, -, hbound⟩ := bindServerPolicy_ok.mp hpolicy
    have hid : policy.serverId = request.serverId := by rw [hbound]
    obtain ⟨hnodup, hnot⟩ := ih hothers
    refine ⟨?_, ?_⟩
    · rw [List.map_cons, List.nodup_cons]
      refine ⟨?_, hnodup⟩
      intro hmem
      obtain ⟨other, hother, heq⟩ := List.mem_map.mp hmem
      exact hnot other hother ((heq.trans hid) ▸ List.mem_cons_self)
    · intro other hother
      rcases List.mem_cons.mp hother with rfl | hother
      · rwa [hid]
      · exact fun hin => hnot other hother (List.mem_cons_of_mem _ hin)

theorem bindServerPolicies_ok {binding : String → Except String String} {requests : List SubmittedPolicy} {policies : List ServerPolicy}
    (h : bindServerPolicies binding requests = .ok policies) : Ordered policies := by
  simp only [bindServerPolicies, bind_eq_ok, require_eq_ok, pure_eq_ok] at h
  obtain ⟨-, -, bound, hbound, rfl⟩ := h
  have : Std.Total fun a b : ServerPolicy => a.serverId ≤ b.serverId := ⟨fun a b => le_total a.serverId b.serverId⟩
  have : IsTrans ServerPolicy fun a b => a.serverId ≤ b.serverId := ⟨fun _ _ _ => le_trans⟩
  have hle := List.pairwise_insertionSort (fun a b : ServerPolicy => a.serverId ≤ b.serverId) bound
  have hne : (bound.insertionSort fun a b : ServerPolicy => a.serverId ≤ b.serverId).Pairwise fun a b => a.serverId ≠ b.serverId := by
    have hperm := List.perm_insertionSort (fun a b : ServerPolicy => a.serverId ≤ b.serverId) bound
    have hnodup := (hperm.map ServerPolicy.serverId).nodup_iff.mpr (bindEach_ok hbound).1
    exact List.pairwise_map.mp hnodup
  exact (hle.and hne).imp fun h => lt_of_le_of_ne h.1 h.2

omit [DecidableEq δ] in
/-- What a target went through. -/
theorem targetOf_ok (h : targetOf env p st catalog body id = .ok target) :
    body.expectedRevision = st.revision ∧ target.mode = body.mode ∧
    (body.mode = .account → id ≠ .new ∧ st.mode = .account) ∧ normalizeScopes p body.scopes = .ok target.scopes ∧
    (if samePolicies st body then target.serverPolicies = st.serverPolicies else Ordered target.serverPolicies) ∧
    body.toolIds.mapM (selectTool st catalog (quotaOnly st body target.scopes)) = .ok target.tools := by
  simp only [targetOf, bind_eq_ok, require_eq_ok, pure_eq_ok, decide_eq_true_eq] at h
  obtain ⟨-, hrevision, -, hmode, scopes, hscopes, -, -, policies, hpolicies, -, -, -, -, tools, htools, -, -, -, -, -, -, -, -,
    -, -, rfl⟩ := h
  refine ⟨hrevision, rfl, ?_, hscopes, ?_, htools⟩
  · intro haccount
    simpa [haccount] using hmode
  unfold policiesOf at hpolicies
  split at hpolicies
  · next hsame =>
    rw [if_pos hsame]
    exact (Except.ok.inj hpolicies).symm
  · next hsame =>
    rw [if_neg hsame]
    exact bindServerPolicies_ok (mapError_eq_ok.mp hpolicies)

/-- What a save writes is in order, if what was there was. -/
theorem save_rows (h : save hashes db env session id body = .ok (db', tokenId)) (hdb : Stored db) :
    ∃ p st catalog target, env.owner = .ok p ∧ stateOf db env p id = .ok st ∧ targetOf env p st catalog body id = .ok target ∧
      Wrote db db' p id tokenId target (st.revision + 1) ∧ Ordered target.serverPolicies ∧ target.scopes.Pairwise (· < ·) := by
  obtain ⟨o, target, hchecked, -, hwrote, -⟩ := save_ok h
  obtain ⟨hopen, htarget⟩ := checked_ok hchecked
  obtain ⟨howner, hst⟩ := openEditor_ok hopen
  obtain ⟨-, -, -, hscopes, hpolicies, -⟩ := targetOf_ok htarget
  refine ⟨o.principal, o.state, o.catalog, target, howner, hst, htarget, hwrote, ?_, (normalizeScopes_ok hscopes).1⟩
  split at hpolicies
  · rw [hpolicies]
    cases id with
    | new =>
      rw [← (Except.ok.inj hst : newState o.principal = o.state)]
      exact List.Pairwise.nil
    | token t =>
      obtain ⟨token, -, -, -, hstate⟩ := stateOf_token hst
      cases hrow : db.authorizations t with
      | none =>
        rw [hstate, hrow]
        exact List.Pairwise.nil
      | some row =>
        rw [hstate, hrow]
        exact hdb.policies t row hrow
  · exact hpolicies

omit [DecidableEq δ] in
/-- Every token but the one that is written stays as it is. -/
theorem Wrote.stored {revision : Nat} (h : Wrote db db' p id tokenId target revision) (hdb : Stored db)
    (hpolicies : Ordered target.serverPolicies) (hscopes : target.scopes.Pairwise (· < ·)) : Stored db' := by
  have htokens : ∃ token, db'.tokens = Function.update db.tokens tokenId (some token) ∧ token.scopes = target.scopes := by
    have htoken := h.token
    cases id with
    | new => exact ⟨_, htoken.2, rfl⟩
    | token t =>
      obtain ⟨rfl, old, -, htokens⟩ := htoken
      exact ⟨_, htokens, rfl⟩
  obtain ⟨token, htokens, htoken⟩ := htokens
  refine ⟨?_, ?_, ?_⟩
  · intro t ht
    rw [htokens, Function.update_apply]
    split_ifs with heq
    · rfl
    · rw [h.authorizations, Function.update_of_ne heq] at ht
      exact hdb.owned t ht
  · intro t row hrow
    rw [h.authorizations, Function.update_apply] at hrow
    split_ifs at hrow with heq
    · cases hrow
      exact hpolicies
    · exact hdb.policies t row hrow
  intro t token' htoken'
  rw [htokens, Function.update_apply] at htoken'
  split_ifs at htoken' with heq
  · cases htoken'
    exact htoken ▸ hscopes
  · exact hdb.scopes t token' htoken'

theorem Edits.stored (h : Edits hashes db e db') (hdb : Stored db) : Stored db' := by
  cases h with
  | nothing => exact hdb
  | options h =>
    obtain ⟨o, -, rfl⟩ := options_ok h
    exact ⟨hdb.owned, hdb.policies, hdb.scopes⟩
  | preview h =>
    obtain ⟨o, target, -, -, rfl⟩ := preview_ok h
    exact ⟨hdb.owned, hdb.policies, hdb.scopes⟩
  | save h =>
    obtain ⟨p, st, catalog, target, -, -, -, hwrote, hpolicies, hscopes⟩ := save_rows h hdb
    exact hwrote.stored hdb hpolicies hscopes

/-! ## Revisions and modes -/

def revisionOf (db : Db δ) (id : String) : Nat := ((db.authorizations id).map (·.revision)).getD 0

def modeOf (db : Db δ) (id : String) : TokenMode := ((db.authorizations id).map (·.mode)).getD .account

/-- A save raises the revision of its token by one and does not give up independence; no other row changes. -/
theorem save_revision (h : save hashes db env session id body = .ok (db', tokenId)) (hdb : Stored db) :
    revisionOf db' tokenId = revisionOf db tokenId + 1 ∧ (modeOf db tokenId = .independent → modeOf db' tokenId = .independent) ∧
      ∀ t, t ≠ tokenId → db'.authorizations t = db.authorizations t := by
  obtain ⟨p, st, catalog, target, -, hst, htarget, hwrote, -⟩ := save_rows h hdb
  obtain ⟨-, hmode, haccount, -⟩ := targetOf_ok htarget
  -- the state is that of the token, or that of no token
  have hbefore : st.revision = revisionOf db tokenId ∧ (modeOf db tokenId = .independent → st.mode = .independent) := by
    have htoken := hwrote.token
    cases id with
    | new =>
      obtain rfl := Except.ok.inj hst
      have hnone : db.authorizations tokenId = none := by
        cases hrow : db.authorizations tokenId with
        | none => rfl
        | some row =>
          have howned := hdb.owned tokenId (by rw [hrow]; rfl)
          rw [htoken.1] at howned
          cases howned
      simp [revisionOf, hnone, newState]
    | token t =>
      obtain ⟨rfl, -⟩ := htoken
      obtain ⟨token, -, -, -, rfl⟩ := stateOf_token hst
      exact ⟨rfl, id⟩
  refine ⟨?_, ?_, ?_⟩
  · rw [revisionOf, hwrote.authorizations, Function.update_self, ← hbefore.1]
    rfl
  · intro hindependent
    rw [modeOf, hwrote.authorizations, Function.update_self]
    show target.mode = .independent
    rw [hmode]
    cases hbody : body.mode with
    | independent => rfl
    | account =>
      have hst := (haccount hbody).2
      rw [hbefore.2 hindependent] at hst
      cases hst
  · intro t ht
    rw [hwrote.authorizations, Function.update_of_ne ht]

/-- A row changes only by a save, and then its revision goes up by one. -/
theorem Edits.revision (h : Edits hashes db e db') (hdb : Stored db) (t : String) :
    (db'.authorizations t = db.authorizations t ∨ revisionOf db' t = revisionOf db t + 1) ∧
      (modeOf db t = .independent → modeOf db' t = .independent) := by
  cases h with
  | nothing => exact ⟨.inl rfl, fun h => h⟩
  | options h =>
    obtain ⟨o, -, rfl⟩ := options_ok h
    exact ⟨.inl rfl, fun h => h⟩
  | preview h =>
    obtain ⟨o, target, -, -, rfl⟩ := preview_ok h
    exact ⟨.inl rfl, fun h => h⟩
  | @save env session id body db' tokenId h =>
    obtain ⟨hrevision, hmode, hothers⟩ := save_revision h hdb
    by_cases heq : t = tokenId
    · subst heq
      exact ⟨.inr hrevision, hmode⟩
    · refine ⟨.inl (hothers t heq), ?_⟩
      rw [modeOf, modeOf, hothers t heq]
      exact fun h => h

/-! ## Only the quota -/

/-- The request names the tools, policies, mode and scopes that the token has. A policy may leave its binding out. -/
structure QuotaOnly (st : State) (body : Body δ) : Prop where
  tools : ∀ key, key ∈ body.toolIds ↔ key ∈ st.toolIds
  policies : (body.serverPolicies.map (fillBinding st.serverPolicies)).Perm (st.serverPolicies.map ServerPolicy.submitted)
  mode : body.mode = st.mode
  scopes : ∀ s, s ∈ (body.scopes.map strip).filter (· ≠ "") ↔ s ∈ st.scopes

omit [DecidableEq δ] in
theorem QuotaOnly.samePolicies (h : QuotaOnly st body) (hst : Ordered st.serverPolicies) : samePolicies st body = true := by
  have : Std.Total fun a b : SubmittedPolicy => a.serverId ≤ b.serverId := ⟨fun a b => le_total a.serverId b.serverId⟩
  have : IsTrans SubmittedPolicy fun a b => a.serverId ≤ b.serverId := ⟨fun _ _ _ => le_trans⟩
  have hstored : (st.serverPolicies.map ServerPolicy.submitted).Pairwise fun a b => a.serverId < b.serverId := List.pairwise_map.mpr hst
  have hperm : (requestedPolicies st body).Perm (st.serverPolicies.map ServerPolicy.submitted) :=
    (List.perm_insertionSort _ _).trans h.policies
  refine decide_eq_true (hperm.eq_of_pairwise ?_ (List.pairwise_insertionSort _ _) (hstored.imp le_of_lt))
  -- two policies of one server are one policy
  intro a b ha hb hab hba
  have hne := hstored.imp fun h => ne_of_lt h
  exact List.inj_on_of_nodup_map (List.pairwise_map.mpr hne) (hperm.mem_iff.mp ha) hb (le_antisymm hab hba)

omit [DecidableEq δ] in
theorem QuotaOnly.quotaOnly {scopes : List String} (h : QuotaOnly st body) (hst : Ordered st.serverPolicies)
    (hsorted : st.scopes.Pairwise (· < ·)) (hscopes : normalizeScopes p body.scopes = .ok scopes) :
    quotaOnly st body scopes = true := by
  obtain ⟨hpairwise, hmem⟩ := normalizeScopes_ok hscopes
  have hsame : scopes = st.scopes := by
    have hperm : scopes.Perm st.scopes :=
      (List.perm_ext_iff_of_nodup (hpairwise.imp ne_of_lt) (hsorted.imp ne_of_lt)).mpr fun s => (hmem s).trans (h.scopes s)
    exact hperm.eq_of_pairwise (fun a b _ _ => le_antisymm) (hpairwise.imp le_of_lt) (hsorted.imp le_of_lt)
  simp [TokenEditing.quotaOnly, h.samePolicies hst, h.mode, hsame, h.tools]

theorem lookup_isSome {tools : Tools} {key : String} : (tools.lookup key).isSome = true ↔ key ∈ tools.map (·.1) := by
  induction tools with
  | nil => simp
  | cons kv tools ih =>
    obtain ⟨k, t⟩ := kv
    rw [List.lookup_cons]
    by_cases hk : key = k
    · simp [hk]
    · simp [hk, ih, beq_false_of_ne hk]

/-- Every key that is selected keeps the tool it was saved with. -/
theorem selected_same {ids : List String} {tools : Tools} (h : ids.mapM (selectTool st catalog true) = .ok tools)
    (hids : ∀ key ∈ ids, key ∈ st.toolIds) (key : String) :
    tools.lookup key = if key ∈ ids then st.tools.lookup key else none := by
  induction ids generalizing tools with
  | nil =>
    obtain rfl := pure_eq_ok.mp h
    rfl
  | cons k ids ih =>
    simp only [List.mapM_cons, bind_eq_ok, pure_eq_ok] at h
    obtain ⟨kv, hkv, rest, hrest, rfl⟩ := h
    obtain ⟨tool, htool⟩ := Option.isSome_iff_exists.mp (lookup_isSome.mpr (hids k List.mem_cons_self))
    simp only [selectTool, if_true, htool] at hkv
    obtain rfl := Except.ok.inj hkv
    rw [List.lookup_cons, ih hrest fun key hkey => hids key (List.mem_cons_of_mem _ hkey)]
    by_cases hk : key = k
    · simp [hk, htool]
    · simp [hk, beq_false_of_ne hk]

omit [DecidableEq δ] in
/-- **A save of the quota only** keeps every saved tool and every binding, valid or not. -/
theorem target_quotaOnly (h : targetOf env p st catalog body id = .ok target) (hst : Ordered st.serverPolicies)
    (hsorted : st.scopes.Pairwise (· < ·)) (hquota : QuotaOnly st body) :
    Tools.Same target.tools st.tools ∧ target.serverPolicies = st.serverPolicies := by
  obtain ⟨-, -, -, hscopes, hpolicies, htools⟩ := targetOf_ok h
  rw [if_pos (hquota.samePolicies hst)] at hpolicies
  rw [hquota.quotaOnly hst hsorted hscopes] at htools
  refine ⟨?_, hpolicies⟩
  intro key
  rw [selected_same htools (fun key hkey => (hquota.tools key).mp hkey) key]
  split_ifs with hkey
  · rfl
  · cases hlookup : st.tools.lookup key with
    | none => rfl
    | some tool =>
      have hin : key ∈ st.toolIds := lookup_isSome.mp (by rw [hlookup]; rfl)
      exact absurd ((hquota.tools key).mpr hin) hkey

/-! ## Every run -/

/-- No ticket was given out yet, and the rows are as the calls leave them. -/
structure Initial (db : Db δ) : Prop extends Stored db where
  tickets : db.tickets = []

variable {tr : List (Event δ)}

theorem edit_run (h : Run (EditStep hashes) db tr db') (hdb : Tickets hashes db ∧ Stored db) : Tickets hashes db' ∧ Stored db' :=
  h.invariant (I := fun db => Tickets hashes db ∧ Stored db) hdb fun _ _ _ hI hs =>
    ⟨hs.edits.tickets hI.1, hs.edits.stored hI.2⟩

omit [DecidableEq δ] in
theorem Initial.sane (h : Initial db) : Tickets hashes db ∧ Stored db :=
  ⟨⟨by simp [h.tickets], by simp [h.tickets], by simp [h.tickets]⟩, h.toStored⟩

theorem spent_run (h : Run (EditStep hashes) db tr db') (hspent : Spent token db) : Spent token db' :=
  h.invariant hspent fun _ _ _ hI hs => hs.edits.spent hI

theorem independent_run {t : String} (h : Run (EditStep hashes) db tr db') (hdb : Stored db)
    (hmode : modeOf db t = .independent) : modeOf db' t = .independent := by
  have hI : Stored db' ∧ modeOf db' t = .independent :=
    h.invariant (I := fun db => Stored db ∧ modeOf db t = .independent) ⟨hdb, hmode⟩ fun _ _ _ hI hs =>
      ⟨hs.edits.stored hI.1, (hs.edits.revision hI.1 t).2 hI.2⟩
  exact hI.2

/-- **Edits are confirmed.** In every run: a save finds the last preview of its session and target, with the state the
preview showed, writes the target the preview showed (of a token that is there, all but its name and expiry), and its
confirmation is of no use again; a row changes only by a save and its revision goes up by one; a token that is independent
stays so; and a save of the quota only keeps every saved tool and binding. -/
theorem edits_confirmed (hashed : hashes.Faithful) (hdb : Initial db) (h : Run (EditStep hashes) db tr db') :
    (∀ env session id body db₁ tokenId, save hashes db' env session id body = .ok (db₁, tokenId) →
      (∃ p st shown target, env.owner = .ok p ∧ stateOf db' env p id = .ok st ∧ db'.previews ⟨p.id, session, id⟩ = some shown ∧
        shown.confirmation = body.presented ∧ st.Same shown.binding.state ∧ target.Same shown.target ∧
        Wrote db' db₁ p id tokenId target (st.revision + 1)) ∧
      ∀ tr' db₂, Run (EditStep hashes) db₁ tr' db₂ → ∀ env session id body₂ r, body₂.presented = body.presented →
        save hashes db₂ env session id body₂ ≠ .ok r) ∧
    (∀ e db₁ t, EditStep hashes db' e db₁ → db₁.authorizations t = db'.authorizations t ∨
      (∃ env session id body, e = .save env session id body) ∧ revisionOf db₁ t = revisionOf db' t + 1) ∧
    (∀ t, modeOf db' t = .independent → ∀ tr' db₁, Run (EditStep hashes) db' tr' db₁ → modeOf db₁ t = .independent) ∧
    (∀ env session t body db₁ tokenId, save hashes db' env session (.token t) body = .ok (db₁, tokenId) →
      ∃ token, db'.tokens t = some token ∧ (QuotaOnly (storedState token (db'.authorizations t)) body →
        ∃ row, db₁.authorizations t = some row ∧ Tools.Same row.tools (storedState token (db'.authorizations t)).tools ∧
          row.serverPolicies = (storedState token (db'.authorizations t)).serverPolicies)) := by
  obtain ⟨htickets, hstored⟩ := edit_run h hdb.sane
  refine ⟨?_, ?_, ?_, ?_⟩
  · intro env session id body db₁ tokenId hsave
    refine ⟨save_shown hashed hsave htickets, ?_⟩
    intro tr' db₂ h' env' session' id' body₂ r hpresented
    have hspent := spent_run h' (save_spends hsave htickets)
    exact Spent.not_saved (hpresented ▸ hspent) r
  · intro e db₁ t hstep
    rcases (hstep.edits.revision hstored t).1 with hsame | hrevision
    · exact .inl hsame
    cases hstep.edits with
    | nothing => exact .inl rfl
    | options hoptions =>
      obtain ⟨o, -, rfl⟩ := options_ok hoptions
      exact .inl rfl
    | preview hpreview =>
      obtain ⟨o, target, -, -, rfl⟩ := preview_ok hpreview
      exact .inl rfl
    | save _ => exact .inr ⟨⟨_, _, _, _, rfl⟩, hrevision⟩
  · intro t hmode tr' db₁ h'
    exact independent_run h' hstored hmode
  intro env session t body db₁ tokenId hsave
  obtain ⟨p, st, catalog, target, -, hst, htarget, hwrote, -⟩ := save_rows hsave hstored
  obtain ⟨token, htoken, -, -, rfl⟩ := stateOf_token hst
  refine ⟨token, htoken, ?_⟩
  intro hquota
  have hordered : Ordered (storedState token (db'.authorizations t)).serverPolicies := by
    cases hrow : db'.authorizations t with
    | none => exact List.Pairwise.nil
    | some row => exact hstored.policies t row hrow
  obtain ⟨hsame, hpolicies⟩ := target_quotaOnly htarget hordered (hstored.scopes t token htoken) hquota
  obtain ⟨rfl, -⟩ := hwrote.token
  refine ⟨target.row ((storedState token (db'.authorizations tokenId)).revision + 1), ?_, hsame, hpolicies⟩
  rw [hwrote.authorizations, Function.update_self]

/-! ## A preview that shows a name -/

/-- A digest that is the value itself. -/
def verbatim : Hashes (Binding ⊕ Target) := ⟨.inl, .inr⟩

theorem verbatim_faithful : verbatim.Faithful where
  binding := by
    intro a b h
    obtain rfl := Sum.inl.inj h
    exact ⟨⟨rfl, rfl, rfl, fun _ => rfl, rfl, rfl, rfl, rfl, rfl⟩, fun _ => rfl, rfl, rfl, rfl⟩
  target := by
    intro a b h
    obtain rfl := Sum.inr.inj h
    exact ⟨rfl, rfl, fun _ => rfl, rfl, rfl, rfl, rfl, rfl, rfl⟩

def alice : AuthPrincipal := { id := "alice", role := "user", permissions := ["tools.read"] }

/-- Alice with an empty catalog. -/
def quiet : Env where
  owner := .ok alice
  now := 0
  catalog := .ok ([], [])
  limitedCatalog := fun _ => .ok ([], [])
  serverBinding := fun _ => .error "server_scope_unavailable"
  tokenId := "t2"

def aliceToken : TokenRow := { userId := "alice", name := "laptop", scopes := ["tools.read"] }

def aliceDb : Db (Binding ⊕ Target) where
  tokens := fun id => if id = "t1" then some aliceToken else none
  authorizations := fun _ => none

theorem aliceDb_initial : Initial aliceDb where
  owned := nofun
  policies := nofun
  scopes := by
    intro id token h
    simp only [aliceDb] at h
    split at h
    · cases h
      exact List.pairwise_singleton _ _
    · cases h
  tickets := rfl

/-- Alice makes her token independent, under a new name. -/
def renamed (presented : Nat) : Body (Binding ⊕ Target) where
  expectedRevision := 0
  catalogRevision := verbatim.binding ⟨storedState aliceToken none, [], [], [], ["tools.read"]⟩
  mode := .independent
  scopes := ["tools.read"]
  name := some "renamed"
  presented := presented

/-- Options and preview; the save with the confirmation is next. -/
def previewed : List (Event (Binding ⊕ Target)) :=
  [.options quiet "s" (.token "t1"), .preview quiet "s" (.token "t1") (renamed 0)]

def previewedDb : Db (Binding ⊕ Target) := previewed.foldl (next verbatim) aliceDb

theorem previewedDb_run : Run (EditStep verbatim) aliceDb previewed previewedDb := Run.of_foldl (fun _ _ => rfl) _ _

def savedDb : Db (Binding ⊕ Target) := next verbatim previewedDb (.save quiet "s" (.token "t1") (renamed 1))

theorem savedDb_saved : save verbatim previewedDb quiet "s" (.token "t1") (renamed 1) = .ok (savedDb, "t1") := rfl

theorem edits_confirmed_alice : revisionOf savedDb "t1" = 1 ∧ ∀ tr' db₂, Run (EditStep verbatim) savedDb tr' db₂ →
    ∀ env session id body₂ r, body₂.presented = 1 → save verbatim db₂ env session id body₂ ≠ .ok r :=
  ⟨rfl, ((edits_confirmed verbatim_faithful aliceDb_initial previewedDb_run).1 _ _ _ _ _ _ savedDb_saved).2⟩

/-- The preview showed a new name, and the save left the old one. -/
theorem name_not_written : ¬ ∀ (db db' db₁ : Db (Binding ⊕ Target)) tr env session id body tokenId p shown, Initial db →
    Run (EditStep verbatim) db tr db' → save verbatim db' env session id body = .ok (db₁, tokenId) → env.owner = .ok p →
    db'.previews ⟨p.id, session, id⟩ = some shown → ∃ token, db₁.tokens tokenId = some token ∧
      token.name = shown.target.name ∧ token.scopes = shown.target.scopes := by
  intro h
  obtain ⟨token, htoken, hname, -⟩ :=
    h _ _ _ _ _ _ _ _ _ alice _ aliceDb_initial previewedDb_run savedDb_saved rfl rfl
  have hold : token = aliceToken := (Option.some.inj htoken).symm
  rw [hold] at hname
  exact absurd hname (by decide)

end LingshuGate.TokenEditing

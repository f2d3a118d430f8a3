import LingshuGate.OAuth.Script

/-!
# Refresh token rotation over whole runs

| here | there |
| --- | --- |
| `Event.created`  | a code exchanged for a new family (oauth_server.py:1297-1308) |
| `Event.rotated`  | a refresh token exchanged for its successor (oauth_server.py:1309-1337) |
| `Event.failed`   | the call raised, inside its transaction or by the deferred `error` (oauth_server.py:1346) |

`Fresh` says that every key in the tables was generated, so a generated key is not in them; `Single` that a family
has one refresh token to present. Both are kept by every step; with them a code or token, once consumed, stays so
for the rest of the run.
-/

namespace LingshuGate.OAuth

open Lib

variable {D : Type} [DecidableEq D] {P : Params D} {w w' : World D} {e : Event D} {s : Snapshot} {call : Call D}
  {db' : Db} {answer : Answer D} {tr : List (Event D)}

/-! ## Events -/

/-- The digest of the code and the id of the family it was exchanged for. -/
def Event.created (P : Params D) (e : Event D) : Option (String × String) :=
  match e.call, e.result with
  | .token fields _ _ secrets, .ok (.tokens (.ok _)) =>
    if fields.grantType = some "authorization_code" then some (P.hash fields.code, secrets.familyId) else none
  | _, _ => none

/-- The digest of the refresh token that was exchanged. -/
def Event.rotated (P : Params D) (e : Event D) : Option String :=
  match e.call, e.result with
  | .token fields _ _ _, .ok (.tokens (.ok _)) =>
    if fields.grantType = some "refresh_token" then some (P.hash fields.refreshToken) else none
  | _, _ => none

/-- The caller got an error. -/
def Event.failed (e : Event D) : Bool :=
  match e.result with
  | .error _ => true
  | .ok (.tokens (.error _)) => true
  | .ok _ => false

omit [DecidableEq D] in
theorem Event.created_eq {codeHash familyId : String} (h : e.created P = some (codeHash, familyId)) :
    ∃ fields clientId secret secrets response, e.call = .token fields clientId secret secrets ∧
      e.result = .ok (.tokens (.ok response)) ∧ fields.grantType = some "authorization_code" ∧
      P.hash fields.code = codeHash ∧ secrets.familyId = familyId := by
  unfold Event.created at h
  split at h
  · rename_i hcall hresult
    split at h
    · simp only [Option.some.injEq, Prod.mk.injEq] at h
      exact ⟨_, _, _, _, _, hcall, hresult, ‹_›, h.1, h.2⟩
    · cases h
  · cases h

variable {tokenHash : String}

omit [DecidableEq D] in
theorem Event.rotated_eq (h : e.rotated P = some tokenHash) :
    ∃ fields clientId secret secrets response, e.call = .token fields clientId secret secrets ∧
      e.result = .ok (.tokens (.ok response)) ∧ fields.grantType = some "refresh_token" ∧
      P.hash fields.refreshToken = tokenHash := by
  unfold Event.rotated at h
  split at h
  · rename_i hcall hresult
    split at h
    · exact ⟨_, _, _, _, _, hcall, hresult, ‹_›, Option.some.inj h⟩
    · cases h
  · cases h

/-- A call that answers with tokens ran one of the exchanges. -/
theorem Step.exchanged (hs : Step P w e w') {result : Except Error TokenResponse} (hresult : e.result = .ok (.tokens result)) :
    ∃ fields clientId secret secrets, e.call = .token fields clientId secret secrets ∧
      TokenEffect P (e.snapshot w) clientId fields secrets w'.db result := by
  obtain ⟨db', hdb, heffect⟩ := hs.effect hresult
  rw [hdb]
  generalize e.call = call at heffect
  cases heffect with
  | exchanged htoken => exact ⟨_, _, _, _, rfl, htoken⟩

/-! ## What other calls do to families and refresh rows -/

/-- No family and no refresh row appears. -/
structure Frame (a b : Db) : Prop where
  families : Table.Continues FamilyLe (fun _ => True) a.families b.families
  refresh : Table.Continues RefreshLe (fun _ => True) a.refresh b.refresh

theorem Follows.frame {a b : Db} (h : Follows (fun _ => True) a b) : Frame a b := ⟨h.families, h.refresh⟩

omit [DecidableEq D] in
theorem Accepts.frame {first mid : Snapshot} {text code grantId : String} {grant : Grant}
    (h : Accepts P s first mid text code grantId grant db') : Frame s.db db' := by
  obtain ⟨t, -, hdb₁⟩ := insertGrant_ok.mp h.insertGrant
  obtain ⟨t', -, hdb₂⟩ := insertCode_ok.mp h.insertCode
  have htouches := (h.touches.follows fun _ => True).frame
  rw [← hdb₂, ← hdb₁] at htouches
  exact ⟨htouches.families, htouches.refresh⟩

/-- Only `token` adds families and refresh rows. -/
theorem Effect.token_or_frame (h : Effect P s call db' answer) :
    (∃ fields clientId secret secrets result, call = .token fields clientId secret secrets ∧ answer = .tokens result ∧
      TokenEffect P s clientId fields secrets db' result) ∨ Frame s.db db' := by
  cases call with
  | token fields clientId secret secrets =>
    cases h with
    | exchanged htoken => exact .inl ⟨_, _, _, _, _, rfl, rfl, htoken⟩
  | consent =>
    right
    cases h with
    | denied _ _ htouches => exact (htouches.follows fun _ => True).frame
    | accepted haccept => exact haccept.frame
  | _ =>
    right
    refine (h.follows ?_).frame
    intro k hk
    simp [Call.keys] at hk

/-! ## The keys of the tables were generated -/

/-- Every key in the tables was generated. -/
structure Fresh (w : World D) : Prop where
  codes : ∀ c ∈ w.db.codes, c.codeHash ∈ w.used
  families : ∀ f ∈ w.db.families, f.id ∈ w.used
  refresh : ∀ r ∈ w.db.refresh, r.tokenHash ∈ w.used ∧ r.familyId ∈ w.used

omit [DecidableEq D] in
theorem Fresh.init : Fresh ({} : World D) where
  codes c hc := absurd hc (Table.not_mem_empty c)
  families f hf := absurd hf (Table.not_mem_empty f)
  refresh r hr := absurd hr (Table.not_mem_empty r)

/-- A new row has a key of this very call, an old one kept its key. -/
theorem key_generated {α : Type} {key : α → String} {le : α → α → Prop} {a b : Table α key} {new used : List String}
    (h : Table.Continues le (· ∉ new) a b) (hkey : ∀ x y, le x y → key y = key x) (ha : ∀ x ∈ a, key x ∈ used) :
    ∀ y ∈ b, key y ∈ new ++ used := by
  intro y hy
  rcases h y hy with ⟨x, hx, hle⟩ | hnew
  · rw [hkey x y hle]
    exact List.mem_append_right _ (ha x hx)
  · exact List.mem_append_left _ (by simpa using hnew)

/-- The family of a refresh row is generated before the row or with it. -/
theorem Effect.refresh_family (h : Effect P s call db' answer) {used : List String}
    (hfamilies : ∀ f ∈ s.db.families, f.id ∈ used) (hrefresh : ∀ r ∈ s.db.refresh, r.familyId ∈ used) :
    ∀ r ∈ db'.refresh, r.familyId ∈ call.fresh P ++ used := by
  intro r hr
  rcases h.token_or_frame with ⟨fields, clientId, secret, secrets, result, rfl, rfl, htoken⟩ | hframe
  · cases htoken with
    | replayedCode | replayedRefresh | exhausted => exact List.mem_append_right _ (hrefresh r hr)
    | created _ _ _ _ _ hfamily hins =>
      obtain ⟨t, -, rfl⟩ := insertFamily_ok.mp hfamily
      obtain ⟨t', ht', rfl⟩ := insertRefresh_ok.mp hins
      rcases (Table.mem_insert ht').mp hr with hold | rfl
      · exact List.mem_append_right _ (hrefresh r hold)
      · simp [Call.fresh]
    | rotated hpresents _ _ _ hins =>
      obtain ⟨t', ht', rfl⟩ := insertRefresh_ok.mp hins
      rcases (Table.mem_insert ht').mp hr with hold | rfl
      · simp only [Db.setFamilyScopes, Db.consumeRefresh, Table.mem_update] at hold
        obtain ⟨r₀, hr₀, rfl⟩ := hold
        have hsame := hrefresh r₀ hr₀
        split
        · exact List.mem_append_right _ hsame
        · exact List.mem_append_right _ hsame
      · exact List.mem_append_right _ (hfamilies _ hpresents.family_mem)
  · obtain ⟨r₀, hr₀, hle⟩ := (hframe.refresh r hr).resolve_right fun h => h trivial
    rw [hle.familyId]
    exact List.mem_append_right _ (hrefresh r₀ hr₀)

theorem Fresh.step (h : Fresh w) (hs : Step P w e w') : Fresh w' := by
  cases hs.moves with
  | fails =>
    exact ⟨fun c hc => List.mem_append_right _ (h.codes c hc), fun f hf => List.mem_append_right _ (h.families f hf),
      fun r hr => ⟨List.mem_append_right _ (h.refresh r hr).1, List.mem_append_right _ (h.refresh r hr).2⟩⟩
  | commits _ _ heffect =>
    have hfollows : Follows (fun k => k ∉ e.call.fresh P) w.db _ :=
      heffect.follows fun k hk hn => hn (Call.keys_fresh hk)
    have hfamily := heffect.refresh_family h.families fun r hr => (h.refresh r hr).2
    refine ⟨key_generated hfollows.codes (fun _ _ => CodeLe.codeHash) h.codes,
      key_generated hfollows.families (fun _ _ => FamilyLe.id) h.families, ?_⟩
    intro r hr
    have hold : ∀ r ∈ w.db.refresh, r.tokenHash ∈ w.used := fun r hr => (h.refresh r hr).1
    have hhash := key_generated hfollows.refresh (fun _ _ => RefreshLe.tokenHash) hold
    exact ⟨hhash r hr, hfamily r hr⟩

theorem Fresh.run (h : Run (Step P) {} tr w) : Fresh w :=
  h.invariant .init fun _ _ _ hI hs => hI.step hs

/-! ## One refresh token to present -/

/-- A family has at most one unconsumed refresh token. -/
def Single (db : Db) : Prop :=
  ∀ r ∈ db.refresh, ∀ r' ∈ db.refresh, r.familyId = r'.familyId → r.consumedAt = none → r'.consumedAt = none → r = r'

/-- Where no refresh row appears, a second token cannot. -/
theorem Frame.single {a b : Db} (h : Frame a b) (ha : Single a) : Single b := by
  intro r hr r' hr' hfamily hopen hopen'
  obtain ⟨x, hx, hle⟩ := (h.refresh r hr).resolve_right fun h => h trivial
  obtain ⟨x', hx', hle'⟩ := (h.refresh r' hr').resolve_right fun h => h trivial
  have hsame : x = x' := by
    refine ha x hx x' hx' ?_ ?_ ?_
    · rw [← hle.familyId, ← hle'.familyId, hfamily]
    · exact not_not.mp fun hc => hle.consumedAt hc hopen
    · exact not_not.mp fun hc => hle'.consumedAt hc hopen'
  refine Table.eq_of_key hr hr' ?_
  rw [hle.tokenHash, hle'.tokenHash, hsame]

/-- A new token is the only one of its family when all others of that family are consumed. -/
theorem Single.insert {a b : Db} {row : Refresh} (h : a.insertRefresh row = .ok b) (ha : Single a)
    (hall : ∀ r ∈ a.refresh, r.familyId = row.familyId → r.consumedAt ≠ none) : Single b := by
  obtain ⟨t, ht, rfl⟩ := insertRefresh_ok.mp h
  intro r hr r' hr' hfamily hopen hopen'
  rcases (Table.mem_insert ht).mp hr with hold | rfl
  · rcases (Table.mem_insert ht).mp hr' with hold' | rfl
    · exact ha r hold r' hold' hfamily hopen hopen'
    · exact absurd hopen (hall r hold hfamily)
  · rcases (Table.mem_insert ht).mp hr' with hold' | rfl
    · exact absurd hopen' (hall r' hold' hfamily.symm)
    · rfl

theorem consumeRefresh_consumed {a : Db} {now : Int} {r : Refresh}
    (hr : r ∈ (a.consumeRefresh tokenHash now).refresh) (hopen : r.consumedAt = none) :
    r ∈ a.refresh ∧ r.tokenHash ≠ tokenHash := by
  simp only [Db.consumeRefresh, Table.mem_update] at hr
  obtain ⟨r₀, hr₀, rfl⟩ := hr
  split at hopen
  · cases hopen
  · rename_i hne
    rw [if_neg hne]
    exact ⟨hr₀, by simpa using hne⟩

omit [DecidableEq D] in
theorem TokenEffect.single {clientId : String} {fields : TokenFields} {secrets : TokenSecrets}
    {result : Except Error TokenResponse} (h : TokenEffect P s clientId fields secrets db' result)
    (hs : Single s.db) (hnew : ∀ r ∈ s.db.refresh, r.familyId ≠ secrets.familyId) : Single db' := by
  cases h with
  | replayedCode | replayedRefresh | exhausted => exact hs
  | created _ _ _ _ _ hfamily hins =>
    obtain ⟨t, -, rfl⟩ := insertFamily_ok.mp hfamily
    refine Single.insert hins hs ?_
    intro r hr hid
    exact absurd hid (hnew r hr)
  | @rotated row family _ _ scopes _ _ hpresents hopen _ _ hins =>
    have hframe : Frame s.db (s.db.consumeRefresh row.tokenHash s.out.now) := Follows.consumeRefresh.frame
    have hconsumed : Single ((s.db.consumeRefresh row.tokenHash s.out.now).setFamilyScopes family.id scopes) :=
      hframe.single hs
    refine Single.insert hins hconsumed ?_
    intro r hr hid hnone
    -- the presented token was the one open token of its family, and it is consumed now
    obtain ⟨hold, hne⟩ := consumeRefresh_consumed hr hnone
    have hsame : r = row := hs r hold row hpresents.mem (hid.trans hpresents.familyId) hnone hopen
    exact hne (congrArg Refresh.tokenHash hsame)

theorem Single.step (h : Single w.db) (hfresh : Fresh w) (hs : Step P w e w') : Single w'.db := by
  cases hs.moves with
  | fails => exact h
  | commits _ _ heffect =>
    rcases heffect.token_or_frame with ⟨fields, clientId, secret, secrets, result, hcall, -, htoken⟩ | hframe
    · refine htoken.single h ?_
      intro r hr hid
      exact hs.fresh r.familyId (by simp [hcall, Call.fresh, hid]) (hfresh.refresh r hr).2
    · exact hframe.single h

theorem Single.run (h : Run (Step P) {} tr w) : Single w.db := by
  have hboth : Fresh w ∧ Single w.db := by
    refine h.invariant (I := fun w => Fresh w ∧ Single w.db) ⟨.init, ?_⟩ ?_
    · intro r hr
      exact absurd hr (Table.not_mem_empty r)
    · intro t e v hI hs
      exact ⟨hI.1.step hs, hI.2.step hI.1 hs⟩
  exact hboth.2

/-! ## A code or token is spent once -/

/-- The code with this digest can no longer be exchanged. -/
def CodeSpent (codeHash : String) (w : World D) : Prop :=
  codeHash ∈ w.used ∧ ∀ c ∈ w.db.codes, c.codeHash = codeHash → c.consumedAt ≠ none

/-- The refresh token with this digest can no longer be exchanged. -/
def TokenSpent (tokenHash : String) (w : World D) : Prop :=
  tokenHash ∈ w.used ∧ ∀ r ∈ w.db.refresh, r.tokenHash = tokenHash → r.consumedAt ≠ none

omit [DecidableEq D] in
theorem CodeSpent.later {codeHash : String} (h : CodeSpent codeHash w) (hl : Later w w') : CodeSpent codeHash w' := by
  refine ⟨hl.used _ h.1, ?_⟩
  intro c hc hhash
  obtain ⟨c₀, hc₀, hle⟩ := hl.follows.code hc (hhash ▸ h.1)
  exact hle.consumedAt (h.2 c₀ hc₀ (hle.codeHash.symm.trans hhash))

omit [DecidableEq D] in
theorem TokenSpent.later (h : TokenSpent tokenHash w) (hl : Later w w') : TokenSpent tokenHash w' := by
  refine ⟨hl.used _ h.1, ?_⟩
  intro r hr hhash
  obtain ⟨r₀, hr₀, hle⟩ := (hl.follows.refresh r hr).resolve_right fun hn => hn (hhash ▸ h.1)
  exact hle.consumedAt (h.2 r₀ hr₀ (hle.tokenHash.symm.trans hhash))

theorem consumeCode_consumed {a : Db} {codeHash : String} {now : Int} {c : Code}
    (hc : c ∈ (a.consumeCode codeHash now).codes) (hhash : c.codeHash = codeHash) : c.consumedAt ≠ none := by
  simp only [Db.consumeCode, Table.mem_update] at hc
  obtain ⟨c₀, hc₀, rfl⟩ := hc
  split at hhash
  · rename_i hcond
    rw [if_pos hcond]
    simp
  · rename_i hcond
    rw [if_neg hcond]
    simpa [hhash] using hcond

/-- An exchange of a code finds it open and leaves it spent. -/
theorem Step.created_spends (hfresh : Fresh w) (hs : Step P w e w') {codeHash familyId : String}
    (h : e.created P = some (codeHash, familyId)) : ¬ CodeSpent codeHash w ∧ CodeSpent codeHash w' := by
  obtain ⟨fields, clientId, secret, secrets, response, hcall, hresult, htype, rfl, -⟩ := Event.created_eq h
  obtain ⟨fields', clientId', secret', secrets', hcall', heffect⟩ := hs.exchanged hresult
  rw [hcall] at hcall'
  cases hcall'
  generalize hdb : w'.db = db' at heffect
  cases heffect with
  | rotated hpresents =>
    rw [hpresents.grantType] at htype
    exact absurd htype (by decide)
  | @created row _ _ _ _ _ _ hpresents hopen _ _ _ hfamily hins =>
    have hused : P.hash fields.code ∈ w.used := hpresents.codeHash ▸ hfresh.codes row hpresents.mem
    refine ⟨fun hspent => hspent.2 row hpresents.mem hpresents.codeHash hopen, hs.later.used _ hused, ?_⟩
    intro c hc hhash
    obtain ⟨t, -, rfl⟩ := insertFamily_ok.mp hfamily
    obtain ⟨t', -, rfl⟩ := insertRefresh_ok.mp hins
    rw [hdb] at hc
    exact consumeCode_consumed hc (hhash.trans hpresents.codeHash.symm)

/-- An exchange of a refresh token finds it open and leaves it spent. -/
theorem Step.rotated_spends (hfresh : Fresh w) (hs : Step P w e w')
    (h : e.rotated P = some tokenHash) : ¬ TokenSpent tokenHash w ∧ TokenSpent tokenHash w' := by
  obtain ⟨fields, clientId, secret, secrets, response, hcall, hresult, htype, rfl⟩ := Event.rotated_eq h
  obtain ⟨fields', clientId', secret', secrets', hcall', heffect⟩ := hs.exchanged hresult
  rw [hcall] at hcall'
  cases hcall'
  generalize hdb : w'.db = db' at heffect
  cases heffect with
  | created hpresents =>
    rw [hpresents.grantType] at htype
    exact absurd htype (by decide)
  | @rotated row _ _ _ _ _ _ hpresents hopen _ _ hins =>
    have hused : P.hash fields.refreshToken ∈ w.used := hpresents.tokenHash ▸ (hfresh.refresh row hpresents.mem).1
    refine ⟨fun hspent => hspent.2 row hpresents.mem hpresents.tokenHash hopen, hs.later.used _ hused, ?_⟩
    intro r hr hhash hnone
    obtain ⟨t', ht', rfl⟩ := insertRefresh_ok.mp hins
    rw [hdb] at hr
    rcases (Table.mem_insert ht').mp hr with hold | rfl
    · exact (consumeRefresh_consumed hold hnone).2 (hhash.trans hpresents.tokenHash.symm)
    · -- the successor is fresh
      have hnew := hs.fresh (P.hash secrets.refresh) (by simp [hcall, Call.fresh])
      rw [← hhash] at hused
      exact hnew hused

theorem created_once (h : Run (Step P) {} tr w) (codeHash : String) :
    tr.countP (fun e => (e.created P).map Prod.fst = some codeHash) ≤ 1 := by
  refine h.once (I := Fresh) (CodeSpent codeHash) _ .init (fun _ _ _ hI hs => hI.step hs)
    (fun _ _ _ _ hs hspent => hspent.later hs.later) ?_
  intro t e v hI hs he
  obtain ⟨⟨_, familyId⟩, hcreated, rfl⟩ := Option.map_eq_some_iff.mp (of_decide_eq_true he)
  exact hs.created_spends hI hcreated

theorem rotated_once (h : Run (Step P) {} tr w) (tokenHash : String) : tr.countP (fun e => e.rotated P = some tokenHash) ≤ 1 := by
  refine h.once (I := Fresh) (TokenSpent tokenHash) _ .init (fun _ _ _ hI hs => hI.step hs)
    (fun _ _ _ _ hs hspent => hspent.later hs.later) ?_
  intro t e v hI hs he
  exact hs.rotated_spends hI (of_decide_eq_true he)

/-- Every family in the tables came from the exchange of a code. -/
theorem family_created (h : Run (Step P) {} tr w) :
    ∀ f ∈ w.db.families, ∃ e ∈ tr, ∃ codeHash, e.created P = some (codeHash, f.id) := by
  induction h with
  | nil =>
    intro f hf
    exact absurd hf (Table.not_mem_empty f)
  | @snoc t u tr e hr hs ih =>
    have hold : ∀ f ∈ t.db.families, ∃ e' ∈ tr ++ [e], ∃ codeHash, e'.created P = some (codeHash, f.id) := by
      intro f hf
      obtain ⟨e', he', codeHash, hcreated⟩ := ih f hf
      exact ⟨e', List.mem_append_left _ he', codeHash, hcreated⟩
    have hcontinues : ∀ f : Family, (∃ x ∈ t.db.families, FamilyLe x f) →
        ∃ e' ∈ tr ++ [e], ∃ codeHash, e'.created P = some (codeHash, f.id) := by
      rintro f ⟨x, hx, hle⟩
      rw [hle.id]
      exact hold x hx
    intro f hf
    cases hs.moves with
    | fails => exact hold f hf
    | commits hresult _ heffect =>
      rcases heffect.token_or_frame with ⟨fields, clientId, secret, secrets, result, hcall, hanswer, htoken⟩ | hframe
      · cases htoken with
        | replayedCode | replayedRefresh | exhausted =>
          exact hcontinues f ((Follows.revokeFamilies.frame.families f hf).resolve_right fun h => h trivial)
        | created hpresents _ _ _ _ hfamily hins =>
          obtain ⟨t₁, ht₁, rfl⟩ := insertFamily_ok.mp hfamily
          obtain ⟨t₂, -, rfl⟩ := insertRefresh_ok.mp hins
          rcases (Table.mem_insert ht₁).mp hf with hf | rfl
          · exact hold f hf
          · refine ⟨e, by simp, P.hash fields.code, ?_⟩
            rw [hanswer] at hresult
            simp [Event.created, hcall, hresult, hpresents.grantType, newFamily]
        | @rotated row family _ _ scopes _ _ _ _ _ _ hins =>
          obtain ⟨t₂, -, rfl⟩ := insertRefresh_ok.mp hins
          simp only [Db.setFamilyScopes, Db.consumeRefresh, Table.mem_update] at hf
          obtain ⟨x, hx, rfl⟩ := hf
          have hx' := hold x hx
          split
          · exact hx'
          · exact hx'
      · exact hcontinues f ((hframe.families f hf).resolve_right fun h => h trivial)

/-! ## Failures -/

/-- The three failures that commit; what they commit is a revocation. -/
inductive Defers (P : Params D) (s : Snapshot) : Call D → Db → Prop
  | replayedCode {fields : TokenFields} {clientId secret : String} {secrets : TokenSecrets} {row : Code} {grant : Grant}
      {client : Client} :
    PresentsCode P s clientId fields row grant client → row.consumedAt ≠ none →
    Defers P s (.token fields clientId secret secrets)
      (s.db.revokeFamilies (fun f => f.grantId = grant.id && f.revokedAt = none) s.out.now)
  | replayedRefresh {fields : TokenFields} {clientId secret : String} {secrets : TokenSecrets} {row : Refresh}
      {family : Family} {grant : Grant} {client : Client} :
    PresentsRefresh P s fields row family grant client → row.consumedAt ≠ none →
    Defers P s (.token fields clientId secret secrets) (s.db.revokeFamilies (·.id = family.id) s.out.now)
  | exhausted {fields : TokenFields} {clientId secret : String} {secrets : TokenSecrets} {row : Refresh} {family : Family}
      {grant : Grant} {client : Client} :
    PresentsRefresh P s fields row family grant client → 10000 ≤ s.db.refresh.count (·.familyId = family.id) →
    Defers P s (.token fields clientId secret secrets) (s.db.revokeFamilies (·.id = family.id) s.out.now)

/-- A failed call rolled back, or is one of the three. -/
theorem Step.failed (hs : Step P w e w') (h : e.failed = true) : w'.db = w.db ∨ Defers P (e.snapshot w) e.call w'.db := by
  unfold Event.failed at h
  split at h
  · rename_i error hresult
    cases hs.moves with
    | fails => exact .inl rfl
    | commits hanswer =>
      rw [hresult] at hanswer
      cases hanswer
  · rename_i error hresult
    obtain ⟨fields, clientId, secret, secrets, hcall, htoken⟩ := hs.exchanged hresult
    rw [hcall]
    generalize w'.db = db' at htoken ⊢
    right
    cases htoken with
    | replayedCode hpresents hconsumed => exact .replayedCode hpresents hconsumed
    | replayedRefresh hpresents hconsumed => exact .replayedRefresh hpresents hconsumed
    | exhausted hpresents _ hcount => exact .exhausted hpresents hcount
  · cases h

/-- A replayed refresh token ends its family. -/
theorem Step.replayed (hs : Step P w e w') {fields : TokenFields} {clientId secret : String} {secrets : TokenSecrets}
    {family : Family} (hcall : e.call = .token fields clientId secret secrets)
    (h : ReplaysRefresh P (e.snapshot w) clientId secret fields family) :
    e.result = .ok (.tokens (.error (bad "invalid_grant"))) ∧
      ∃ f ∈ w'.db.families, f.id = family.id ∧ f.revokedAt = some e.out.now := by
  have hexec : exec P (e.snapshot w) e.call = .ok ((e.snapshot w).db.revokeFamilies (·.id = family.id) e.out.now,
      .tokens (.error (bad "invalid_grant"))) := by
    rw [hcall]
    simp only [exec, token_replays secrets h]
    rfl
  refine ⟨by rw [hs.result, hexec]; rfl, { family with revokedAt := some e.out.now }, ?_, rfl, rfl⟩
  have hdb : w'.db = (e.snapshot w).db.revokeFamilies (·.id = family.id) e.out.now := by
    rw [hs.next, World.next, hexec]
  rw [hdb]
  exact revokeFamilies_mem h.family_mem (by simp)

/-- **Refresh rotation.** In every state a run reaches: a family has at most one unconsumed refresh token; a code was
exchanged at most once, and every family came from such an exchange; a refresh token was exchanged at most once; the
replay of a consumed refresh token under an active grant fails and revokes its family; any other failure changes
nothing, but for the replay of a consumed code and the cap on a family's refresh rows, which revoke families too. -/
theorem refresh_rotation (h : Run (Step P) {} tr w) :
    (∀ r ∈ w.db.refresh, ∀ r' ∈ w.db.refresh, r.familyId = r'.familyId → r.consumedAt = none → r'.consumedAt = none → r = r') ∧
      (∀ codeHash, tr.countP (fun e => (e.created P).map Prod.fst = some codeHash) ≤ 1) ∧
      (∀ f ∈ w.db.families, ∃ e ∈ tr, ∃ codeHash, e.created P = some (codeHash, f.id)) ∧
      (∀ tokenHash, tr.countP (fun e => e.rotated P = some tokenHash) ≤ 1) ∧
      (∀ e w', Step P w e w' → (∀ fields clientId secret secrets family, e.call = .token fields clientId secret secrets →
          ReplaysRefresh P (e.snapshot w) clientId secret fields family → e.result = .ok (.tokens (.error (bad "invalid_grant"))) ∧
              ∃ f ∈ w'.db.families, f.id = family.id ∧ f.revokedAt = some e.out.now) ∧
        (e.failed = true → w'.db = w.db ∨ Defers P (e.snapshot w) e.call w'.db)) := by
  refine ⟨Single.run h, created_once h, family_created h, rotated_once h, ?_⟩
  intro e w' hs
  exact ⟨fun _ _ _ _ _ hcall hreplays => hs.replayed hcall hreplays, hs.failed⟩

theorem refresh_rotation_demo : (∃ f ∈ demoWorld.db.families, f.id = "family") ∧
      ∀ r ∈ demoWorld.db.refresh, ∀ r' ∈ demoWorld.db.refresh, r.familyId = r'.familyId → r.consumedAt = none →
        r'.consumedAt = none → r = r' := by
  obtain ⟨f, hf, hid, -⟩ := demo_family
  exact ⟨⟨f, hf, hid⟩, (refresh_rotation demo_run).1⟩

/-- The code of `demoScript`, presented once more. -/
def demoReplay : Entry Digest :=
  { out := demoOut 9, call := fun _ => .token demoCode "client" "secret" ⟨"refresh-3", "family-3", "jti-3"⟩ }

theorem replay_played : admissible demo demoWorld (demoReplay.event demo demoWorld) = true ∧
    (demoReplay.event demo demoWorld).failed = true ∧
    (demoWorld.next demo (demoReplay.event demo demoWorld)).db.families.rows.map Family.revokedAt ≠
      demoWorld.db.families.rows.map Family.revokedAt := by
  decide +kernel

/-- The second exchange of a code replays no refresh token; it fails, and yet commits the revocation of the families
of its grant. -/
theorem replayed_code_revokes : ¬ ∀ tr w e w', Run (Step demo) {} tr w → Step demo w e w' → e.failed = true →
      (∀ fields clientId secret secrets family, e.call = .token fields clientId secret secrets →
        ¬ ReplaysRefresh demo (e.snapshot w) clientId secret fields family) →
      w'.db.codes = w.db.codes ∧ w'.db.families = w.db.families ∧ w'.db.refresh = w.db.refresh := by
  intro hclaim
  have hstep : Step demo demoWorld (demoReplay.event demo demoWorld) _ := demoReplay.step (.run demo_run) replay_played.1
  have hnot : ∀ fields clientId secret secrets family,
      (demoReplay.event demo demoWorld).call = .token fields clientId secret secrets →
        ¬ ReplaysRefresh demo ((demoReplay.event demo demoWorld).snapshot demoWorld) clientId secret fields family := by
    intro fields clientId secret secrets family hcall hreplays
    cases hcall
    exact absurd hreplays.grantType (by decide)
  obtain ⟨-, hfamilies, -⟩ := hclaim _ _ _ _ demo_run hstep replay_played.2.1 hnot
  exact replay_played.2.2 (congrArg (fun t => t.rows.map Family.revokedAt) hfamilies)

end LingshuGate.OAuth

import LingshuGate.OAuth.Script

/-!
# Key rotation and live access tokens (`oauth_server.py`)

| here | there |
| --- | --- |
| `rotateKey`             | `OAuthServer.rotate_key` (oauth_server.py:227) |
| `sign`                  | `_sign` (oauth_server.py:1256) |
| `Key.accepted`          | `active=1 OR retire_at>?` of `_claims` (oauth_server.py:1360) |
| `Event.signedAs`        | the `kid` and the claims of a token that `token` handed out |

A rotated key is retired 600 seconds later, and no token lives longer than 600 seconds: so the key that signed a token
outlives it, whenever the rotation comes. The invariant says it with the clock: the token ends before `now + 600`, and
before its key retires.
-/

namespace LingshuGate.OAuth

open Lib AuthStore

variable {D : Type} [DecidableEq D] {P : Params D} {w w' : World D} {e : Event D} {s : Snapshot} {call : Call D}
  {db db' : Db} {answer : Answer D} {tr : List (Event D)}

/-- What `_claims` asks of the key of a token: `active=1 OR retire_at>?`. -/
def Key.accepted (now : Int) (key : Key) : Bool := key.active || key.retireAt.any (now < ·)

/-- The key id and the claims of the access token that an event handed out. -/
def Event.signedAs (e : Event D) : Option (String × Claims) :=
  match e.result with
  | .ok (.tokens (.ok response)) => some (response.kid, response.claims)
  | _ => none

/-! ## Only a rotation writes keys -/

section Frame

omit [DecidableEq D]

theorem complete_keys {now : Int} {text : String} {row : Interaction} {request : AuthorizationRequest}
    {userId grantId : Option String} (h : complete P db now text row request userId grantId = .ok db') :
    db'.keys = db.keys := by
  simp only [complete, bind_eq_ok, pure_eq_ok] at h
  obtain ⟨-, -, rfl⟩ := h
  rfl

theorem admitAuthenticated_keys {now : Int} {userId clientId : String}
    (h : admitAuthenticated db now userId clientId = .ok db') : db'.keys = db.keys := by
  simp only [admitAuthenticated, bind_eq_ok, pure_eq_ok] at h
  obtain ⟨-, -, rfl⟩ := h
  rfl

theorem placeInteraction_keys {text browser csrf userId : String} {row : Interaction} {request : AuthorizationRequest}
    (h : placeInteraction P s text browser csrf row request userId = .ok db') : db'.keys = s.db.keys := by
  simp only [placeInteraction] at h
  split at h
  · obtain rfl := Except.ok.inj h
    rfl
  simp only [bind_eq_ok] at h
  obtain ⟨db₁, hadmit, hinsert⟩ := h
  obtain ⟨t, -, rfl⟩ := insertInteraction_ok.mp hinsert
  have hkeys := admitAuthenticated_keys hadmit
  show db₁.keys = s.db.keys
  rw [hkeys]
  rfl

variable {first mid : Snapshot}

theorem consentContext_keys {text browser : String} {session : Option String}
    (h : consentContext P s first mid text browser session = .ok db') : db'.keys = s.db.keys := by
  simp only [consentContext, bind_eq_ok] at h
  obtain ⟨ticket, -, ⟨-, -⟩, -, principal, -, tools, -, ⟨row, request⟩, -, h⟩ := h
  split at h
  · obtain rfl := Except.ok.inj h
    rfl
  cases principal with
  | none =>
    obtain rfl := Except.ok.inj h
    rfl
  | some p =>
    simp only [contextWrite, bind_eq_ok, pure_eq_ok] at h
    obtain ⟨policy, -, db, hplace, rfl⟩ := h
    show db.keys = s.db.keys
    exact placeInteraction_keys hplace

theorem acceptConsent_keys {text browser csrf : String} {principal : Option AuthPrincipal}
    {request : ConsentRequest} {code grantId : String} {grant : Grant}
    (h : acceptConsent P s first mid text browser csrf principal request code grantId = .ok (db', grant)) :
    db'.keys = s.db.keys := by
  simp only [acceptConsent, accept, bind_eq_ok, pure_eq_ok, Prod.mk.injEq] at h
  obtain ⟨p, -, -, -, ⟨_, ticket₁⟩, -, current, -, ⟨row, ticket⟩, -, -, -, granted, -, -, -, db₁, hgrant, db₂, hcode, db₃,
    hcomplete, rfl, -⟩ := h
  obtain ⟨t, -, rfl⟩ := insertGrant_ok.mp hgrant
  obtain ⟨t', -, rfl⟩ := insertCode_ok.mp hcode
  have hkeys := complete_keys hcomplete
  exact hkeys

theorem TokenEffect.keys {clientId : String} {fields : TokenFields} {secrets : TokenSecrets}
    {result : Except Error TokenResponse} (h : TokenEffect P s clientId fields secrets db' result) :
    db'.keys = s.db.keys := by
  cases h with
  | replayedCode | replayedRefresh | exhausted => rfl
  | created _ _ _ _ _ hfamily hrefresh =>
    obtain ⟨t, -, rfl⟩ := insertFamily_ok.mp hfamily
    obtain ⟨t', -, rfl⟩ := insertRefresh_ok.mp hrefresh
    rfl
  | rotated _ _ _ _ hrefresh =>
    obtain ⟨t', -, rfl⟩ := insertRefresh_ok.mp hrefresh
    rfl

theorem writeConfig_keys (payload : ConfigPayload) (now : Int) : (db.writeConfig payload now).keys = db.keys := by
  unfold Db.writeConfig
  split
  · rfl
  · rfl

theorem writeManagement_keys (resource : String) (enabled : Bool) (now : Int) :
    (db.writeManagement resource enabled now).keys = db.keys := by
  unfold Db.writeManagement
  split
  · rfl
  · rfl

theorem endClient_keys (clientId : String) (ends : Bool) (now : Int) : (db.endClient clientId ends now).keys = db.keys := by
  unfold Db.endClient
  split
  · rfl
  · rfl

theorem consent_keys {text browser csrf : String} {principal : Option AuthPrincipal}
    {request : ConsentRequest} {code grantId : String} {granted : Option Grant}
    (h : consent P s first mid text browser csrf principal request code grantId = .ok (db', granted)) :
    db'.keys = s.db.keys := by
  unfold consent at h
  split at h
  · simp only [denyConsent, bind_eq_ok, pure_eq_ok, Prod.mk.injEq] at h
    obtain ⟨db, ⟨-, -, ⟨row, ticket⟩, -, -, -, hcomplete⟩, rfl, -⟩ := h
    exact complete_keys hcomplete
  · simp only [bind_eq_ok, pure_eq_ok, Prod.mk.injEq] at h
    obtain ⟨⟨db, grant⟩, haccept, rfl, -⟩ := h
    exact acceptConsent_keys haccept

end Frame

theorem exec_keys (h : exec P s call = .ok (db', answer)) (hcall : ∀ kid, call ≠ .rotateKey kid) : db'.keys = s.db.keys := by
  cases exec_effect h with
  | rotatedKey => exact absurd rfl (hcall _)
  | savedConfig => exact writeConfig_keys _ _
  | savedManagement => exact writeManagement_keys _ _ _
  | createdClient => rfl
  | updatedClient => exact endClient_keys _ _ _
  | showed =>
    simp only [exec, bind_eq_ok, pure_eq_ok, Prod.mk.injEq] at h
    obtain ⟨db, hdb, rfl, -⟩ := h
    exact consentContext_keys hdb
  | released =>
    simp only [exec, releaseInteraction, bind_eq_ok, pure_eq_ok, Prod.mk.injEq] at h
    obtain ⟨db, ⟨-, -, rfl⟩, rfl, -⟩ := h
    rfl
  | denied | accepted =>
    simp only [exec, bind_eq_ok, pure_eq_ok, Prod.mk.injEq] at h
    obtain ⟨⟨db, granted⟩, hdb, rfl, -⟩ := h
    exact consent_keys hdb
  | cleaned => rfl
  | exchanged htoken => exact htoken.keys
  | revoked => rfl
  | narrowed hnarrow =>
    obtain ⟨grant, -, -, ⟨-, rfl⟩ | ⟨-, tools, scopes, -, -, rfl⟩⟩ := narrowGrant_ok hnarrow
    · rfl
    · rfl
  | previewed hpreview =>
    obtain ⟨row, hput, -⟩ := hpreview.puts
    obtain ⟨t, rfl, -⟩ := putConfirmation_ok hput
    rfl
  | updated hupdate =>
    obtain ⟨ctx, change, -, -, -, rfl, -⟩ := hupdate.reads
    rfl
  | previewedTargets hpreview =>
    obtain ⟨-, row, hput, -⟩ := previewManagementTargets_ok hpreview
    obtain ⟨t, rfl, -⟩ := putConfirmation_ok hput
    rfl
  | updatedTargets hupdate =>
    obtain ⟨⟨targets, rfl⟩, -⟩ := updateManagementTargets_ok hupdate
    rfl
  | started | verified | reverified | authorized | offeredScope | offeredPage | offeredTargets => rfl

/-! ## What a rotation and a signature do -/

/-- The rows after `DELETE … retire_at<=?` and `UPDATE … SET active=0,retire_at=?`. -/
def retired (now : Int) (rows : List Key) : List Key :=
  (rows.filter fun k => !(!k.active && k.retireAt.any (· ≤ now))).map fun k =>
    if k.active then { k with active := false, retireAt := some (now + 600) } else k

variable {kid : String}

theorem rotateKey_rows (h : rotateKey s kid = .ok db') : (retired s.out.now s.db.keys.rows).length < 10 ∧
      db'.keys.rows = retired s.out.now s.db.keys.rows ++ [⟨kid, true, none⟩] := by
  simp only [rotateKey, Db.insertKey, bind_eq_ok, require_eq_ok, expect_eq_ok, pure_eq_ok, decide_eq_true_eq] at h
  obtain ⟨-, hcount, keys, hinsert, rfl⟩ := h
  refine ⟨?_, (Table.insert_eq_some hinsert).1⟩
  simpa [retired, Table.delete] using hcount

theorem retired_inactive {now : Int} {rows : List Key} {k : Key} (h : k ∈ retired now rows) : k.active = false := by
  obtain ⟨k₀, -, rfl⟩ := List.mem_map.mp h
  split
  · rfl
  · exact Bool.eq_false_iff.mpr ‹_›

/-- The key signs until `expiresAt`: it is active, or retires no earlier. -/
def Key.covers (expiresAt : Int) (k : Key) : Prop := k.active = true ∨ ∃ r, k.retireAt = some r ∧ expiresAt ≤ r

/-- A key that covers a token still does after a rotation: one that was active retires 600 seconds after it. -/
theorem covers_retired {now expiresAt : Int} {rows : List Key} {k : Key} (hmem : k ∈ rows) (hcovers : k.covers expiresAt)
    (hbound : expiresAt ≤ now + 600) (hlive : now < expiresAt) :
    ∃ k' ∈ retired now rows, k'.kid = k.kid ∧ k'.covers expiresAt := by
  have hkept : k ∈ rows.filter fun k => !(!k.active && k.retireAt.any (· ≤ now)) := by
    refine List.mem_filter.mpr ⟨hmem, ?_⟩
    rcases hcovers with hactive | ⟨r, hr, hle⟩
    · simp [hactive]
    · simp only [hr, Option.any_some, Bool.not_and, Bool.not_not, Bool.or_eq_true, Bool.not_eq_true', decide_eq_false_iff_not]
      omega
  refine ⟨_, List.mem_map_of_mem hkept, ?_, ?_⟩
  · split
    · rfl
    · rfl
  · split
    · exact .inr ⟨_, rfl, hbound⟩
    · exact hcovers

omit [DecidableEq D] in
theorem sign_ok {grant : Grant} {family : Family} {jti kid : String} {claims : Claims} {expiresIn : Int}
    (h : sign s grant family jti = .ok (claims, kid, expiresIn)) :
    ∃ key ∈ s.db.keys, key.active = true ∧ key.kid = kid ∧ claims.exp ≤ s.out.now + 600 := by
  simp only [sign, bind_eq_ok, expect_eq_ok, pure_eq_ok, Prod.mk.injEq] at h
  obtain ⟨key, hkey, -, -, rfl, rfl, -⟩ := h
  exact ⟨key, List.mem_of_find?_eq_some hkey, List.find?_some hkey, rfl, min_le_left _ _⟩

omit [DecidableEq D] in
/-- The token of an exchange was signed by an active key, and ends within 600 seconds. -/
theorem token_signs {fields : TokenFields} {clientId secret : String} {secrets : TokenSecrets} {response : TokenResponse}
    (h : token P s fields clientId secret secrets = .ok (db', .ok response)) :
    ∃ key ∈ s.db.keys, key.active = true ∧ key.kid = response.kid ∧ response.claims.exp ≤ s.out.now + 600 := by
  simp only [token, bind_eq_ok] at h
  obtain ⟨-, -, client, -, policy, -, -, -, outcome, -, h⟩ := h
  cases outcome with
  | refused db => simp [conclude] at h
  | signs db grant family =>
    simp only [conclude, bind_eq_ok, pure_eq_ok, Prod.mk.injEq, Except.ok.injEq] at h
    obtain ⟨⟨claims, kid, expiresIn⟩, hsign, db₁, -, -, rfl⟩ := h
    exact sign_ok hsign

/-! ## Every run -/

/-- At most one key is active, and at most ten are stored. -/
structure KeyRing (keys : Table Key Key.kid) : Prop where
  active : keys.rows.countP Key.active ≤ 1
  length : keys.rows.length ≤ 10

theorem KeyRing.rotate (h : rotateKey s kid = .ok db') : KeyRing db'.keys := by
  obtain ⟨hlength, hrows⟩ := rotateKey_rows h
  have hnone : (retired s.out.now s.db.keys.rows).countP Key.active = 0 :=
    List.countP_eq_zero.mpr fun k hk => by simp [retired_inactive hk]
  constructor
  · rw [hrows, List.countP_append, hnone]
    simp
  · rw [hrows, List.length_append, List.length_singleton]
    omega

/-- A token of the past: it ends within 600 seconds from now, and while it lives a stored key covers it. -/
structure KeyHeld (keys : Table Key Key.kid) (now : Int) (kid : String) (expiresAt : Int) : Prop where
  bound : expiresAt ≤ now + 600
  key : now < expiresAt → ∃ k ∈ keys, k.kid = kid ∧ k.covers expiresAt

theorem KeyHeld.later {keys : Table Key Key.kid} {now now' expiresAt : Int}
    (h : KeyHeld keys now kid expiresAt) (hnow : now ≤ now') : KeyHeld keys now' kid expiresAt where
  bound := by
    have := h.bound
    omega
  key hlive := h.key (by omega)

theorem KeyHeld.rotate {kid kid' : String} {expiresAt : Int} (h : KeyHeld s.db.keys s.out.now kid expiresAt)
    (hrotate : rotateKey s kid' = .ok db') : KeyHeld db'.keys s.out.now kid expiresAt where
  bound := h.bound
  key hlive := by
    obtain ⟨k, hmem, hkid, hcovers⟩ := h.key hlive
    obtain ⟨k', hmem', hkid', hcovers'⟩ := covers_retired hmem hcovers h.bound hlive
    refine ⟨k', ?_, hkid'.trans hkid, hcovers'⟩
    rw [Table.mem_def, (rotateKey_rows hrotate).2]
    exact List.mem_append_left _ hmem'

/-- What a call does to the keys: it rotates them, or leaves them. -/
theorem exec_keys_cases (h : exec P s call = .ok (db', answer)) : db'.keys = s.db.keys ∨ ∃ kid, rotateKey s kid = .ok db' := by
  by_cases hcall : ∃ kid, call = .rotateKey kid
  · obtain ⟨kid, rfl⟩ := hcall
    simp only [exec, bind_eq_ok, pure_eq_ok, Prod.mk.injEq] at h
    obtain ⟨db, hdb, rfl, -⟩ := h
    exact .inr ⟨kid, hdb⟩
  · exact .inl (exec_keys h fun kid hkid => hcall ⟨kid, hkid⟩)

theorem KeyRing.after (h : KeyRing s.db.keys) (hexec : exec P s call = .ok (db', answer)) : KeyRing db'.keys := by
  rcases exec_keys_cases hexec with hsame | ⟨kid, hrotate⟩
  · exact hsame ▸ h
  · exact KeyRing.rotate hrotate

theorem KeyHeld.after {expiresAt : Int} (h : KeyHeld s.db.keys s.out.now kid expiresAt)
    (hexec : exec P s call = .ok (db', answer)) : KeyHeld db'.keys s.out.now kid expiresAt := by
  rcases exec_keys_cases hexec with hsame | ⟨kid', hrotate⟩
  · exact hsame ▸ h
  · exact h.rotate hrotate

/-- A new token is covered by the key that signed it. -/
theorem KeyHeld.signed {response : TokenResponse} (hexec : exec P s call = .ok (db', .tokens (.ok response))) :
    KeyHeld db'.keys s.out.now response.kid response.claims.exp := by
  have hkeys : db'.keys = s.db.keys := exec_keys hexec fun kid hkid => by
    subst hkid
    simp only [exec, bind_eq_ok, pure_eq_ok, Prod.mk.injEq, reduceCtorEq, and_false, exists_false] at hexec
  cases call <;> simp only [exec, bind_eq_ok, pure_eq_ok, Prod.mk.injEq, Except.ok.injEq, reduceCtorEq, and_false,
    exists_false] at hexec
  case token fields clientId secret secrets =>
    obtain ⟨⟨db, result⟩, htoken, rfl, hresult⟩ := hexec
    obtain rfl := Answer.tokens.inj hresult
    obtain ⟨key, hmem, hactive, hkid, hbound⟩ := token_signs htoken
    exact ⟨hbound, fun _ => ⟨key, hkeys ▸ hmem, hkid, .inl hactive⟩⟩

/-- The keys of a world, and the tokens of the events that led to it. -/
structure KeysKept (w : World D) (tr : List (Event D)) : Prop where
  ring : KeyRing w.db.keys
  covered : ∀ e ∈ tr, ∀ kid claims, e.signedAs = some (kid, claims) → KeyHeld w.db.keys w.now kid claims.exp

omit [DecidableEq D] in
theorem Event.signedAs_eq {claims : Claims} (h : e.signedAs = some (kid, claims)) :
    ∃ response, e.result = .ok (.tokens (.ok response)) ∧ response.kid = kid ∧ response.claims = claims := by
  unfold Event.signedAs at h
  split at h
  · simp only [Option.some.injEq, Prod.mk.injEq] at h
    exact ⟨_, ‹_›, h.1, h.2⟩
  · cases h

theorem KeysKept.step (h : KeysKept w tr) (hs : Step P w e w') : KeysKept w' (tr ++ [e]) := by
  have hnow := hs.now
  have hresult := hs.result
  have hnext := hs.next
  unfold World.next at hnext
  cases hexec : exec P (e.snapshot w) e.call with
  | error error =>
    rw [hexec] at hnext hresult
    subst hnext
    refine ⟨h.ring, ?_⟩
    intro e' he' kid claims hsigned
    rcases List.mem_append.mp he' with hold | hlast
    · exact (h.covered e' hold kid claims hsigned).later hs.time
    · obtain rfl := List.mem_singleton.mp hlast
      obtain ⟨response, hok, -⟩ := Event.signedAs_eq hsigned
      simp [hresult, Except.map] at hok
  | ok committed =>
    obtain ⟨db, answer⟩ := committed
    rw [hexec] at hnext hresult
    subst hnext
    refine ⟨KeyRing.after (s := e.snapshot w) h.ring hexec, ?_⟩
    intro e' he' kid claims hsigned
    rcases List.mem_append.mp he' with hold | hlast
    · have hcovered := (h.covered e' hold kid claims hsigned).later hs.time
      exact KeyHeld.after (s := e.snapshot w) hcovered hexec
    · obtain rfl := List.mem_singleton.mp hlast
      obtain ⟨response, hok, rfl, rfl⟩ := Event.signedAs_eq hsigned
      rw [hresult] at hok
      obtain rfl : answer = .tokens (.ok response) := by simpa [Except.map] using hok
      exact KeyHeld.signed (s := e'.snapshot w) hexec

theorem KeysKept.run (h : Run (Step P) {} tr w) : KeysKept w tr := by
  induction h with
  | nil => exact ⟨⟨Nat.zero_le _, Nat.zero_le _⟩, fun e he => absurd he List.not_mem_nil⟩
  | snoc _ hs ih => exact ih.step hs

/-- **Key rotation strands no live token.** In every state of every run at most one key is active and at most ten are
stored, and each access token handed out so far that has not ended was signed by a key that `_claims` still finds. -/
theorem rotation_strands_no_token (h : Run (Step P) {} tr w) : w.db.keys.rows.countP Key.active ≤ 1 ∧ w.db.keys.rows.length ≤ 10 ∧
      ∀ e ∈ tr, ∀ kid claims, e.signedAs = some (kid, claims) → ∀ now, w.now ≤ now → now < claims.exp →
        ∃ key, w.db.keys.find kid = some key ∧ key.accepted now = true := by
  have hkept := KeysKept.run h
  refine ⟨hkept.ring.active, hkept.ring.length, ?_⟩
  intro e he kid claims hsigned now hnow hlive
  obtain ⟨k, hmem, hkid, hcovers⟩ := (hkept.covered e he kid claims hsigned).key (by omega)
  refine ⟨k, Table.find_eq_some.mpr ⟨hmem, hkid⟩, ?_⟩
  unfold Key.accepted
  rcases hcovers with hactive | ⟨r, hr, hle⟩
  · simp [hactive]
  · simp only [hr, Option.any_some, Bool.or_eq_true, decide_eq_true_eq]
    omega

/-- The key is rotated twice after the last token of `demoScript`. -/
def rotatedScript : List (Entry Digest) :=
  demoScript ++ [{ out := demoOut 300, call := fun _ => .rotateKey "kid-2" }, { out := demoOut 500, call := fun _ => .rotateKey "kid-3" }]

theorem rotated_played : playable demo {} rotatedScript = true ∧
    (play demo {} rotatedScript).db.keys.rows.map Key.kid = ["kid", "kid-2", "kid-3"] ∧ (play demo {} rotatedScript).now ≤ 607 := by
  decide +kernel

theorem rotation_strands_no_token_demo : ((play demo {} rotatedScript).db.keys.rows.map Key.kid = ["kid", "kid-2", "kid-3"]) ∧
      ∀ e ∈ trace demo {} rotatedScript, ∀ kid claims, e.signedAs = some (kid, claims) → 607 < claims.exp →
        ∃ key, (play demo {} rotatedScript).db.keys.find kid = some key ∧ key.accepted 607 = true := by
  have hrun : Run (Step demo) {} (trace demo {} rotatedScript) (play demo {} rotatedScript) :=
    play_run .init rotated_played.1
  refine ⟨rotated_played.2.1, ?_⟩
  intro e he kid claims hsigned hlive
  exact (rotation_strands_no_token hrun).2.2 e he kid claims hsigned 607 rotated_played.2.2 hlive

end LingshuGate.OAuth

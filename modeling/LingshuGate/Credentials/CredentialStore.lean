import LingshuGate.Lib.Check
import LingshuGate.Lib.Dict
import LingshuGate.Lib.PyText
import LingshuGate.Lib.Run

/-!
# Credentials and their revisions (`credential_store.py`)

| here | there |
| --- | --- |
| `Item`             | one entry of `credentials.json` |
| `makeId`, `validId` | `_make_id` (291), `_validate_id` (297) |
| `saveCredential`   | `save_credential` (95): the item, then the file |
| `createCredential`, `updateCredential`, `deleteCredential` | 123, 135, 148 |
| `resolveValue`     | `resolve_value` (159) |
| `safeResponse`     | `_safe_response` (238) |

A revision is the time of the last write as `_now` prints it. The clock does not go back, but it may stand still, and two writes
in one microsecond have one revision: a writer that has read the first takes the second for its own (`stale_revision_accepted`).
`compare_and_set` says what holds when every update finds the clock past the revision it replaces.

The lock makes each call one step. Writing the file does not fail here; a failure is no rejection (`CredentialPersistenceInterrupted`).
-/

namespace LingshuGate.CredentialStore

open Lib

/-- Fernet under the key of the store; `nonce` is what it draws. -/
structure Cipher where
  encrypt : Nat → String → String
  decrypt : String → Option String
  decrypt_encrypt : ∀ nonce value, decrypt (encrypt nonce value) = some value
  encrypt_ne : ∀ nonce value, encrypt nonce value ≠ ""

/-- `datetime.now(timezone.utc).isoformat()` of a number of microseconds; different times have different texts. -/
structure Clock where
  isoformat : Nat → String
  injective : ∀ m n, isoformat m = isoformat n → m = n

structure Item (σ : Type) where
  id : String
  name : String
  description : String
  encryptedValue : String
  createdAt : String
  updatedAt : String
  httpScopes : List σ

structure Response (σ : Type) where
  id : String
  name : String
  description : String
  createdAt : String
  updatedAt : String
  httpScopes : List σ

inductive StoreError
  | notFound
  | alreadyExists
  | revisionConflict
  | value (message : String)
  | invalidScopes
  | undecryptable

abbrev Items (σ : Type) := Dict String (Item σ)

/-! ## Identifiers -/

/-- `re.sub(r"[^a-zA-Z0-9_.-]+", "-", …)`: one dash for a run of other characters. -/
def dashed : Bool → List Char → List Char
  | _, [] => []
  | inRun, c :: cs =>
    if Py.idChar c then c :: dashed false cs
    else if inRun then dashed true cs
    else '-' :: dashed true cs

/-- `.strip("-.")` -/
def stripMarks (cs : List Char) : List Char :=
  let marks := fun c => c = '-' || c = '.'
  ((cs.dropWhile marks).reverse.dropWhile marks).reverse

def makeId (name : String) : String :=
  let normalized := stripMarks (dashed false (Py.strip name).toList)
  if normalized = [] then "credential" else String.ofList normalized

/-- `re.match(r"^[a-zA-Z0-9_.-]+$", …)`; `$` stands before a line feed at the end too. -/
def validId (id : String) : Bool :=
  let cs := if id.toList.getLast? = some '\n' then id.toList.dropLast else id.toList
  cs ≠ [] && cs.all Py.idChar

/-! ## The calls -/

section Calls

variable {σ : Type} (x : Cipher) (clock : Clock) (admits : List σ → Bool)

/-- `admits` is the validation of the scopes by `CredentialResponse`. -/
def safeResponse (item : Item σ) : Except StoreError (Response σ) := do
  require (admits item.httpScopes) .invalidScopes
  return ⟨item.id, item.name, item.description, item.createdAt, item.updatedAt, item.httpScopes⟩

/-- The item that `save_credential` writes. -/
def savedItem (items : Items σ) (now nonce : Nat) (name : String) (value : Option String) (description : String)
    (targetId : String) (httpScopes : Option (List σ)) : Except StoreError (Item σ × Response σ) := do
  require (validId targetId) (.value "credential_id must match ^[a-zA-Z0-9_.-]+$")
  let existing := items.get targetId
  let kept := (existing.map (·.encryptedValue)).getD ""
  let encryptedValue := match value with
    | none => kept
    | some value => if value = "***" then kept else x.encrypt nonce value
  require (encryptedValue ≠ "") (.value "Credential value is required")
  let item : Item σ := {
    id := targetId
    name
    description
    encryptedValue
    createdAt := (existing.map (·.createdAt)).getD (clock.isoformat now)
    updatedAt := clock.isoformat now
    httpScopes := httpScopes.getD ((existing.map (·.httpScopes)).getD []) }
  let response ← safeResponse admits item
  return (item, response)

/-- `credential_id or self._make_id(name)` -/
def targetOf (credentialId : Option String) (name : String) : String :=
  match credentialId with
  | none => makeId name
  | some id => if id = "" then makeId name else id

def saveCredential (items : Items σ) (now nonce : Nat) (name : String) (value : Option String) (description : String)
    (credentialId : Option String) (httpScopes : Option (List σ)) : Except StoreError (Response σ) × Items σ :=
  match savedItem x clock admits items now nonce name value description (targetOf credentialId name) httpScopes with
  | .error e => (.error e, items)
  | .ok (item, response) => (.ok response, items.set item.id item)

def createCredential (items : Items σ) (now nonce : Nat) (name value description : String) (credentialId : Option String)
    (httpScopes : Option (List σ)) : Except StoreError (Response σ) × Items σ :=
  let targetId := targetOf credentialId name
  if !validId targetId then (.error (.value "credential_id must match ^[a-zA-Z0-9_.-]+$"), items)
  else if (items.get targetId).isSome then (.error .alreadyExists, items)
  else if value = "" || value = "***" then (.error (.value "A non-masked credential value is required."), items)
  else saveCredential x clock admits items now nonce name (some value) description (some targetId) (some (httpScopes.getD []))

/-- The checks of `update_credential`; what it reads of the credential is its name and its description. -/
def checkUpdate (items : Items σ) (credentialId expectedRevision : String) (value : Option String) :
    Except StoreError (Response σ) := do
  let item ← expect (items.get credentialId) .notFound
  let current ← safeResponse admits item
  require (expectedRevision ≠ "" && current.updatedAt = expectedRevision) .revisionConflict
  require (value ∉ [some "", some "***"]) (.value "Use null to retain the value; masks are not credential values.")
  return current

def updateCredential (items : Items σ) (now nonce : Nat) (credentialId expectedRevision : String) (name value description : Option String)
    (httpScopes : Option (List σ)) : Except StoreError (Response σ) × Items σ :=
  match checkUpdate admits items credentialId expectedRevision value with
  | .error e => (.error e, items)
  | .ok current =>
    saveCredential x clock admits items now nonce (name.getD current.name) value (description.getD current.description)
      (some credentialId) httpScopes

def checkDelete (items : Items σ) (credentialId : String) (expectedRevision : Option String) : Except StoreError (Response σ) := do
  let item ← expect (items.get credentialId) .notFound
  require (expectedRevision.all (item.updatedAt = ·)) .revisionConflict
  safeResponse admits item

def deleteCredential (items : Items σ) (credentialId : String) (expectedRevision : Option String) :
    Except StoreError (Response σ) × Items σ :=
  match checkDelete admits items credentialId expectedRevision with
  | .error e => (.error e, items)
  | .ok response => (.ok response, items.pop credentialId)

def resolveValue (items : Items σ) (credentialId expectedRevision : Option String) : Except StoreError (Option String) :=
  match credentialId with
  | none => .ok none
  | some id =>
    if id = "" then .ok none
    else do
      let item ← expect (items.get id) .notFound
      require (expectedRevision.all (item.updatedAt = ·)) .revisionConflict
      let value ← expect (x.decrypt item.encryptedValue) .undecryptable
      return some value

end Calls

/-! ## Runs -/

inductive Call (σ : Type)
  | create (name value description : String) (credentialId : Option String) (httpScopes : Option (List σ))
  | update (credentialId expectedRevision : String) (name value description : Option String) (httpScopes : Option (List σ))
  | delete (credentialId : String) (expectedRevision : Option String)

/-- A call at a time, and how it ended. -/
structure Event (σ : Type) where
  call : Call σ
  now : Nat
  nonce : Nat
  result : Except StoreError (Response σ)

structure World (σ : Type) where
  items : Items σ
  now : Nat

section Runs

variable {σ : Type} (x : Cipher) (clock : Clock) (admits : List σ → Bool)

def perform (items : Items σ) (now nonce : Nat) : Call σ → Except StoreError (Response σ) × Items σ
  | .create name value description id scopes => createCredential x clock admits items now nonce name value description id scopes
  | .update id revision name value description scopes =>
    updateCredential x clock admits items now nonce id revision name value description scopes
  | .delete id revision => deleteCredential admits items id revision

/-- The clock may stand still. -/
def Step (w : World σ) (e : Event σ) (w' : World σ) : Prop :=
  w.now ≤ e.now ∧ perform x clock admits w.items e.now e.nonce e.call = (e.result, w'.items) ∧ w'.now = e.now

/-- This event is a successful update of the credential. -/
def Event.Updates (e : Event σ) (id : String) : Prop :=
  (∃ revision name value description scopes, e.call = .update id revision name value description scopes) ∧
    ∃ response, e.result = .ok response

/-- A successful update finds the clock past the revision it replaces. -/
def StrictStep (w : World σ) (e : Event σ) (w' : World σ) : Prop :=
  Step x clock admits w e w' ∧ ∀ id, e.Updates id → ∀ item, w.items.get id = some item → item.updatedAt ≠ clock.isoformat e.now

/-- An update or a deletion that presents a revision of the credential. -/
def Call.Presents (call : Call σ) (id revision : String) : Prop :=
  (∃ name value description scopes, call = .update id revision name value description scopes) ∨ call = .delete id (some revision)

/-- What the successful calls have left: the revision and the value of each credential. -/
def written : List (Event σ) → String → Option (String × String)
  | [], _ => none
  | e :: earlier, id =>
    match e.call, e.result with
    | .create _ value _ _ _, .ok response => if response.id = id then some (response.updatedAt, value) else written earlier id
    | .update target _ _ value _ _, .ok response =>
      if target = id then (written earlier id).map fun before => (response.updatedAt, value.getD before.2) else written earlier id
    | .delete target _, .ok _ => if target = id then none else written earlier id
    | _, .error _ => written earlier id

end Runs

/-! ## What a call does -/

section Effects

variable {σ : Type} {x : Cipher} {clock : Clock} {admits : List σ → Bool} {items items' : Items σ} {now nonce : Nat}
  {response : Response σ}

/-- The value that a call leaves, given what was there. -/
def valueAfter (value : Option String) (before : Option String) : Option String :=
  match value with
  | none => before
  | some value => some value

/-- One credential is written. -/
structure Writes (x : Cipher) (clock : Clock) (items items' : Items σ) (now : Nat) (id : String) (value : Option String)
    (response : Response σ) : Prop where
  valid : validId id = true
  answer : response.id = id ∧ response.updatedAt = clock.isoformat now
  item : ∃ item, items' = items.set id item ∧ item.updatedAt = clock.isoformat now ∧
    x.decrypt item.encryptedValue = valueAfter value ((items.get id).bind fun old => x.decrypt old.encryptedValue)

theorem safeResponse_ok {item : Item σ} (h : safeResponse admits item = .ok response) :
    response.id = item.id ∧ response.name = item.name ∧ response.updatedAt = item.updatedAt := by
  simp only [safeResponse, bind_eq_ok, pure_eq_ok] at h
  obtain ⟨-, -, rfl⟩ := h
  exact ⟨rfl, rfl, rfl⟩

variable {scopes : Option (List σ)}

theorem saveCredential_ok {name description id : String} {value : Option String} (hid : id ≠ "") (hmask : value ≠ some "***")
    (h : saveCredential x clock admits items now nonce name value description (some id) scopes = (.ok response, items')) :
    Writes x clock items items' now id value response := by
  have htarget : targetOf (some id) name = id := by rw [targetOf, if_neg hid]
  rw [saveCredential, htarget] at h
  cases hsaved : savedItem x clock admits items now nonce name value description id scopes with
  | error e =>
    rw [hsaved] at h
    cases h
  | ok saved =>
    obtain ⟨item, answer⟩ := saved
    rw [hsaved] at h
    obtain ⟨rfl, rfl⟩ : answer = response ∧ items.set item.id item = items' := by simpa using h
    simp only [savedItem, bind_eq_ok, pure_eq_ok, require_eq_ok, Prod.mk.injEq, decide_eq_true_eq] at hsaved
    obtain ⟨-, hvalid, -, hencrypted, answer', hanswer, rfl, rfl⟩ := hsaved
    obtain ⟨hsame, -, hupdated⟩ := safeResponse_ok hanswer
    refine ⟨hvalid, ⟨hsame, hupdated⟩, _, rfl, rfl, ?_⟩
    cases value with
    | none =>
      simp only [valueAfter] at hencrypted ⊢
      cases hget : items.get id with
      | none => simp [hget] at hencrypted
      | some old => rfl
    | some value =>
      have hplain : value ≠ "***" := fun heq => hmask (heq ▸ rfl)
      simp only [if_neg hplain, valueAfter]
      exact x.decrypt_encrypt nonce value

theorem createCredential_ok {name value description : String} {id : Option String}
    (h : createCredential x clock admits items now nonce name value description id scopes = (.ok response, items')) :
    items.get response.id = none ∧ Writes x clock items items' now response.id (some value) response := by
  simp only [createCredential] at h
  generalize targetOf id name = target at h
  by_cases hvalid : validId target = true
  · by_cases hexists : (items.get target).isSome = true
    · simp [hvalid, hexists] at h
    by_cases hvalue : (value = "" || value = "***") = true
    · simp [hvalid, hexists, hvalue] at h
    rw [if_neg (by simp [hvalid]), if_neg hexists, if_neg hvalue] at h
    have hne : target ≠ "" := by
      rintro rfl
      exact absurd hvalid (by decide)
    have hmask : some value ≠ some "***" := by
      intro heq
      simp [Option.some.inj heq] at hvalue
    have hwrites := saveCredential_ok hne hmask h
    obtain ⟨hid, -⟩ := hwrites.answer
    rw [hid]
    exact ⟨by simpa using hexists, hwrites⟩
  · simp [hvalid] at h

theorem updateCredential_ok {id revision : String} {name value description : Option String} (hempty : items.get "" = none)
    (h : updateCredential x clock admits items now nonce id revision name value description scopes = (.ok response, items')) :
    (∃ item, items.get id = some item ∧ item.updatedAt = revision) ∧ Writes x clock items items' now id value response := by
  rw [updateCredential] at h
  cases hcheck : checkUpdate admits items id revision value with
  | error e =>
    rw [hcheck] at h
    cases h
  | ok current =>
    rw [hcheck] at h
    simp only [checkUpdate, bind_eq_ok, pure_eq_ok, require_eq_ok, expect_eq_ok, Bool.and_eq_true, decide_eq_true_eq] at hcheck
    obtain ⟨item, hget, current', hcurrent, -, ⟨-, hrevision⟩, -, hvalue, rfl⟩ := hcheck
    have hne : id ≠ "" := by
      rintro rfl
      rw [hempty] at hget
      cases hget
    have hmask : value ≠ some "***" := by
      rintro rfl
      simp at hvalue
    refine ⟨⟨item, hget, ?_⟩, saveCredential_ok hne hmask h⟩
    rw [← (safeResponse_ok hcurrent).2.2, hrevision]

theorem deleteCredential_ok {id : String} {revision : Option String}
    (h : deleteCredential admits items id revision = (.ok response, items')) :
    (∃ item, items.get id = some item ∧ ∀ r, revision = some r → item.updatedAt = r) ∧ items' = items.pop id := by
  rw [deleteCredential] at h
  cases hcheck : checkDelete admits items id revision with
  | error e =>
    rw [hcheck] at h
    cases h
  | ok answer =>
    rw [hcheck] at h
    obtain ⟨-, rfl⟩ : answer = response ∧ items.pop id = items' := by simpa using h
    simp only [checkDelete, bind_eq_ok, require_eq_ok, expect_eq_ok] at hcheck
    obtain ⟨item, hget, -, hrevision, -⟩ := hcheck
    refine ⟨⟨item, hget, ?_⟩, rfl⟩
    rintro r rfl
    simpa using hrevision

/-- A call that raises has written nothing. -/
theorem perform_error {call : Call σ} {e : StoreError} (h : perform x clock admits items now nonce call = (.error e, items')) :
    items' = items := by
  have hsave : ∀ {name description} {id : Option String} {value scopes},
      saveCredential x clock admits items now nonce name value description id scopes = (.error e, items') → items' = items := by
    intro name description id value scopes hsaved
    rw [saveCredential] at hsaved
    split at hsaved
    · exact (Prod.mk.inj hsaved).2.symm
    · cases hsaved
  cases call with
  | create name value description id scopes =>
    simp only [perform, createCredential] at h
    split at h
    · exact (Prod.mk.inj h).2.symm
    · split at h
      · exact (Prod.mk.inj h).2.symm
      · split at h
        · exact (Prod.mk.inj h).2.symm
        · exact hsave h
  | update id revision name value description scopes =>
    simp only [perform, updateCredential] at h
    split at h
    · exact (Prod.mk.inj h).2.symm
    · exact hsave h
  | delete id revision =>
    simp only [perform, deleteCredential] at h
    split at h
    · exact (Prod.mk.inj h).2.symm
    · cases h

end Effects

/-! ## Revisions along a run -/

section Revisions

variable {σ : Type} {x : Cipher} {clock : Clock} {admits : List σ → Bool} {w w' : World σ} {e : Event σ}

/-- What the run has left in the file, `events` newest first. -/
structure Kept (x : Cipher) (clock : Clock) (events : List (Event σ)) (w : World σ) : Prop where
  valid : ∀ id item, w.items.get id = some item → validId id = true
  timed : ∀ id item, w.items.get id = some item → ∃ t, item.updatedAt = clock.isoformat t ∧ t ≤ w.now
  readable : ∀ id item, w.items.get id = some item → (x.decrypt item.encryptedValue).isSome = true
  left : ∀ id, written events id = (w.items.get id).bind fun item =>
    (x.decrypt item.encryptedValue).map fun value => (item.updatedAt, value)

/-- The revision of the credential is none of the time before `lo`. -/
def NotBefore (clock : Clock) (lo : Nat) (id : String) (w : World σ) : Prop :=
  lo ≤ w.now ∧ ∀ item, w.items.get id = some item → ∃ t, item.updatedAt = clock.isoformat t ∧ lo ≤ t ∧ t ≤ w.now

variable {events : List (Event σ)}

theorem Kept.empty (h : Kept x clock events w) : w.items.get "" = none := by
  cases hget : w.items.get "" with
  | none => rfl
  | some item => exact absurd (h.valid "" item hget) (by decide)

/-- What a step does to one credential: it is as it was, or written now, or gone. -/
theorem step_cases (h : Kept x clock events w) (hstep : Step x clock admits w e w') (id : String) :
    w'.items.get id = w.items.get id ∨ w'.items.get id = none ∨
      ∃ item, w'.items.get id = some item ∧ item.updatedAt = clock.isoformat e.now := by
  obtain ⟨-, hperform, -⟩ := hstep
  have hwrites : ∀ {target : String} {value : Option String} {response : Response σ},
      Writes x clock w.items w'.items e.now target value response → w'.items.get id = w.items.get id ∨ w'.items.get id = none ∨
        ∃ item, w'.items.get id = some item ∧ item.updatedAt = clock.isoformat e.now := by
    intro target value response hw
    obtain ⟨item, hitems, hupdated, -⟩ := hw.item
    rw [hitems, Dict.get_set]
    by_cases hid : id = target
    · exact .inr (.inr ⟨item, if_pos hid, hupdated⟩)
    · exact .inl (if_neg hid)
  cases hresult : e.result with
  | error err =>
    rw [hresult] at hperform
    exact .inl (by rw [perform_error hperform])
  | ok response =>
    rw [hresult] at hperform
    cases hcall : e.call with
    | create name value description target scopes =>
      rw [hcall] at hperform
      exact hwrites (createCredential_ok hperform).2
    | update target revision name value description scopes =>
      rw [hcall] at hperform
      exact hwrites (updateCredential_ok h.empty hperform).2
    | delete target revision =>
      rw [hcall] at hperform
      rw [(deleteCredential_ok hperform).2, Dict.get_pop]
      by_cases hid : id = target
      · exact .inr (.inl (if_pos hid))
      · exact .inl (if_neg hid)

variable {id : String}

theorem NotBefore.step {lo : Nat} (h : NotBefore clock lo id w) (hkept : Kept x clock events w)
    (hstep : Step x clock admits w e w') : NotBefore clock lo id w' := by
  obtain ⟨hlo, hitems⟩ := h
  have hnow := hstep.1
  have hclock := hstep.2.2
  refine ⟨by omega, ?_⟩
  intro item hget
  rcases step_cases hkept hstep id with hsame | hgone | ⟨written, hwritten, hupdated⟩
  · obtain ⟨t, ht, hle, hbound⟩ := hitems item (hsame ▸ hget)
    exact ⟨t, ht, hle, by omega⟩
  · rw [hgone] at hget
    cases hget
  · obtain rfl : written = item := Option.some.inj (hwritten.symm.trans hget)
    exact ⟨e.now, hupdated, by omega, by omega⟩

/-- An update that finds the clock past the revision it replaces moves the bound. -/
theorem NotBefore.updated {lo : Nat} (h : NotBefore clock lo id w) (hkept : Kept x clock events w)
    (hstep : StrictStep x clock admits w e w') (hupdates : e.Updates id) : NotBefore clock (lo + 1) id w' := by
  obtain ⟨hstep, hstrict⟩ := hstep
  have hnow := hstep.1
  have hclock := hstep.2.2
  have hcall := hupdates
  obtain ⟨⟨revision, name, value, description, scopes, hcall⟩, response, hresult⟩ := hcall
  have hperform := hstep.2.1
  rw [hcall, hresult] at hperform
  obtain ⟨⟨old, hold, -⟩, hwrites⟩ := updateCredential_ok hkept.empty hperform
  obtain ⟨t, ht, hle, hbound⟩ := h.2 old hold
  have hne : t ≠ e.now := by
    intro heq
    exact hstrict id hupdates old hold (by rw [ht, heq])
  obtain ⟨item, hitems, hupdated, -⟩ := hwrites.item
  refine ⟨by omega, ?_⟩
  intro item' hget
  rw [hitems, Dict.get_set, if_pos rfl] at hget
  obtain rfl := Option.some.inj hget
  exact ⟨e.now, hupdated, by omega, by omega⟩

/-- Nobody gets through with an older revision. -/
theorem NotBefore.rejects {lo t now nonce : Nat} {call : Call σ} (h : NotBefore clock lo id w)
    (hkept : Kept x clock events w) (ht : t < lo) (hcall : call.Presents id (clock.isoformat t)) :
    ∃ err, perform x clock admits w.items now nonce call = (.error err, w.items) := by
  have hold : ∀ item, w.items.get id = some item → item.updatedAt ≠ clock.isoformat t := by
    intro item hget heq
    obtain ⟨t', ht', hle, -⟩ := h.2 item hget
    have := clock.injective t' t (ht'.symm.trans heq)
    omega
  cases hperform : perform x clock admits w.items now nonce call with
  | mk result items =>
    cases result with
    | error err => exact ⟨err, by rw [perform_error hperform]⟩
    | ok response =>
      exfalso
      rcases hcall with ⟨name, value, description, scopes, rfl⟩ | rfl
      · obtain ⟨⟨item, hget, hrevision⟩, -⟩ := updateCredential_ok hkept.empty hperform
        exact hold item hget hrevision
      · obtain ⟨⟨item, hget, hrevision⟩, -⟩ := deleteCredential_ok hperform
        exact hold item hget (hrevision _ rfl)

theorem Kept.initial (now : Nat) : Kept x clock [] (⟨∅, now⟩ : World σ) where
  valid := fun _ _ h => by cases h
  timed := fun _ _ h => by cases h
  readable := fun _ _ h => by cases h
  left := fun _ => rfl

theorem Kept.writes {value : Option String} {response : Response σ} (h : Kept x clock events w)
    (hnow : w.now ≤ e.now) (hclock : w'.now = e.now)
    (hw : Writes x clock w.items w'.items e.now id value response)
    (hsome : value = none → (w.items.get id).isSome = true) (hleaves : ∀ other, written (e :: events) other =
      if id = other then (valueAfter value ((written events id).map (·.2))).map fun v => (response.updatedAt, v)
      else written events other) : Kept x clock (e :: events) w' := by
  obtain ⟨item, hitems, hupdated, hvalue⟩ := hw.item
  have hget : ∀ other, w'.items.get other = if other = id then some item else w.items.get other := by
    intro other
    rw [hitems, Dict.get_set]
  have hreadable : (valueAfter value ((w.items.get id).bind fun old => x.decrypt old.encryptedValue)).isSome = true := by
    cases value with
    | some value => rfl
    | none =>
      obtain ⟨old, hold⟩ := Option.isSome_iff_exists.mp (hsome rfl)
      rw [valueAfter, hold, Option.bind_some]
      exact h.readable id old hold
  refine ⟨?_, ?_, ?_, ?_⟩
  · intro other found hfound
    rw [hget] at hfound
    by_cases hid : other = id
    · rw [hid]
      exact hw.valid
    · rw [if_neg hid] at hfound
      exact h.valid other found hfound
  · intro other found hfound
    rw [hget] at hfound
    by_cases hid : other = id
    · rw [if_pos hid] at hfound
      obtain rfl := Option.some.inj hfound
      exact ⟨e.now, hupdated, by omega⟩
    · rw [if_neg hid] at hfound
      obtain ⟨t, ht, hle⟩ := h.timed other found hfound
      exact ⟨t, ht, by omega⟩
  · intro other found hfound
    rw [hget] at hfound
    by_cases hid : other = id
    · rw [if_pos hid] at hfound
      obtain rfl := Option.some.inj hfound
      rw [hvalue]
      exact hreadable
    · rw [if_neg hid] at hfound
      exact h.readable other found hfound
  intro other
  rw [hleaves, hget]
  by_cases hid : id = other
  · subst hid
    rw [if_pos rfl, if_pos rfl, Option.bind_some, hvalue, h.left, hw.answer.2, hupdated]
    congr 2
    cases w.items.get id with
    | none => rfl
    | some old =>
      rw [Option.bind_some, Option.bind_some]
      cases x.decrypt old.encryptedValue with
      | none | some plain => rfl
  · rw [if_neg hid, if_neg (Ne.symm hid)]
    exact h.left other

theorem Kept.step (h : Kept x clock events w) (hstep : Step x clock admits w e w') : Kept x clock (e :: events) w' := by
  obtain ⟨hnow, hperform, hclock⟩ := hstep
  cases hresult : e.result with
  | error err =>
    rw [hresult] at hperform
    have hsame : w'.items = w.items := perform_error hperform
    refine ⟨fun id item hget => h.valid id item (hsame ▸ hget), ?_, fun id item hget => h.readable id item (hsame ▸ hget), ?_⟩
    · intro id item hget
      obtain ⟨t, ht, hle⟩ := h.timed id item (hsame ▸ hget)
      exact ⟨t, ht, by omega⟩
    intro id
    have hpass : written (e :: events) id = written events id := by
      rw [written, hresult]
      cases e.call with
      | create | update | delete => rfl
    rw [hpass, hsame]
    exact h.left id
  | ok response =>
    rw [hresult] at hperform
    cases hcall : e.call with
    | create name value description target scopes =>
      rw [hcall] at hperform
      have hwrites := (createCredential_ok hperform).2
      refine h.writes hnow hclock hwrites nofun ?_
      intro other
      rw [written, hcall, hresult]
      rfl
    | update target revision name value description scopes =>
      rw [hcall] at hperform
      obtain ⟨⟨old, hold, -⟩, hwrites⟩ := updateCredential_ok h.empty hperform
      refine h.writes hnow hclock hwrites (fun _ => by rw [hold]; rfl) ?_
      intro other
      rw [written, hcall, hresult]
      by_cases hid : target = other
      · subst hid
        simp only [if_true]
        obtain ⟨plain, hplain⟩ := Option.isSome_iff_exists.mp (h.readable target old hold)
        have hbefore : written events target = some (old.updatedAt, plain) := by
          rw [h.left, hold, Option.bind_some, hplain, Option.map_some]
        rw [hbefore]
        cases value with
        | none | some value => rfl
      · simp only [if_neg hid]
    | delete target revision =>
      rw [hcall] at hperform
      have hitems := (deleteCredential_ok hperform).2
      have hget : ∀ other, w'.items.get other = if other = target then none else w.items.get other := by
        intro other
        rw [hitems, Dict.get_pop]
      refine ⟨?_, ?_, ?_, ?_⟩
      · intro id item hfound
        rw [hget] at hfound
        exact h.valid id item (Option.ite_none_left_eq_some.mp hfound).2
      · intro id item hfound
        rw [hget] at hfound
        obtain ⟨t, ht, hle⟩ := h.timed id item (Option.ite_none_left_eq_some.mp hfound).2
        exact ⟨t, ht, by omega⟩
      · intro id item hfound
        rw [hget] at hfound
        exact h.readable id item (Option.ite_none_left_eq_some.mp hfound).2
      intro id
      rw [hget, written, hcall, hresult]
      by_cases hid : target = id
      · subst hid
        simp
      · simp only [if_neg hid, if_neg (Ne.symm hid)]
        exact h.left id

theorem Kept.run {start : World σ} {tr : List (Event σ)} (hstart : Kept x clock [] start) (hrun : Run (Step x clock admits) start tr w) :
    Kept x clock tr.reverse w := by
  induction hrun with
  | nil => exact hstart
  | snoc _ hstep ih =>
    rw [List.reverse_append]
    exact ih.step hstep

/-- Once the credential has been updated, the bound is past the revision that was read. -/
theorem NotBefore.run {start : World σ} {pre post : List (Event σ)} {w₀ : World σ} {lo : Nat}
    (hstart : Kept x clock [] start) (hpre : Run (StrictStep x clock admits) start pre w₀)
    (hpost : Run (StrictStep x clock admits) w₀ post w) (hlo : NotBefore clock lo id w₀) (hupdated : ∃ e ∈ post, e.Updates id) :
    NotBefore clock (lo + 1) id w := by
  have hkept : ∀ {mid : List (Event σ)} {v : World σ}, Run (StrictStep x clock admits) w₀ mid v →
      Kept x clock (pre ++ mid).reverse v := fun hmid =>
    Kept.run hstart ((hpre.append hmid).mono fun _ _ _ h => h.1)
  have hfloor : ∀ {mid : List (Event σ)} {v : World σ}, Run (StrictStep x clock admits) w₀ mid v → NotBefore clock lo id v := by
    intro mid v hmid
    induction hmid with
    | nil => exact hlo
    | snoc hrun hstep ih => exact ih.step (hkept hrun) hstep.1
  induction hpost with
  | nil => simp at hupdated
  | snoc hrun hstep ih =>
    obtain ⟨e, hmem, hupdates⟩ := hupdated
    rcases List.mem_append.mp hmem with hearlier | hlast
    · exact (ih ⟨e, hearlier, hupdates⟩).step (hkept hrun) hstep.1
    · obtain rfl := List.mem_singleton.mp hlast
      exact (hfloor hrun).updated (hkept hrun) hstep hupdates

end Revisions

/-- **No update is lost** in a run in which every successful update finds the clock past the revision it replaces: who presents a
revision that was read before another update is turned away, and nothing changes. A call that raises never changes a credential.
And the revision that the last successful call returned gives its value. -/
theorem compare_and_set {σ : Type} (x : Cipher) (clock : Clock) (admits : List σ → Bool) {now : Nat} {pre post : List (Event σ)}
    {w₀ w : World σ} (hpre : Run (StrictStep x clock admits) ⟨∅, now⟩ pre w₀) (hpost : Run (StrictStep x clock admits) w₀ post w) :
    (∀ id item, w₀.items.get id = some item → (∃ e ∈ post, e.Updates id) →
      ∀ call : Call σ, call.Presents id item.updatedAt → ∀ now nonce, ∃ err,
        perform x clock admits w.items now nonce call = (.error err, w.items)) ∧
    (∀ call now nonce err items, perform x clock admits w.items now nonce call = (.error err, items) → items = w.items) ∧
    (∀ id revision value, written (pre ++ post).reverse id = some (revision, value) →
      resolveValue x w.items (some id) (some revision) = .ok (some value)) := by
  have hstart : Kept x clock [] (⟨∅, now⟩ : World σ) := .initial now
  have hkept₀ := Kept.run hstart (hpre.mono fun _ _ _ h => h.1)
  have hkept := Kept.run hstart ((hpre.append hpost).mono fun _ _ _ h => h.1)
  refine ⟨?_, fun call now nonce err items h => perform_error h, ?_⟩
  · intro id item hget hupdated call hcall now nonce
    obtain ⟨t, ht, hle⟩ := hkept₀.timed id item hget
    rw [ht] at hcall
    have hfloor : NotBefore clock t id w₀ := by
      refine ⟨hle, fun found hfound => ?_⟩
      obtain rfl := Option.some.inj (hget.symm.trans hfound)
      exact ⟨t, ht, Nat.le_refl t, hle⟩
    exact (NotBefore.run hstart hpre hpost hfloor hupdated).rejects hkept (Nat.lt_succ_self t) hcall
  intro id revision value hwritten
  rw [hkept.left] at hwritten
  obtain ⟨item, hget, hitem⟩ := Option.bind_eq_some_iff.mp hwritten
  obtain ⟨plain, hplain, heq⟩ := Option.map_eq_some_iff.mp hitem
  obtain ⟨rfl, rfl⟩ := Prod.mk.inj heq
  have hne : id ≠ "" := by
    rintro rfl
    rw [hkept.empty] at hget
    cases hget
  rw [resolveValue, if_neg hne, hget]
  simp [expect, hplain, bind, Except.bind, pure, Except.pure, require]

/-! ## A run in which the clock stands still -/

def plainCipher : Cipher where
  encrypt := fun _ value => "#" ++ value
  decrypt := fun token => some (String.ofList (token.toList.drop 1))
  decrypt_encrypt := by
    intro nonce value
    simp
  encrypt_ne := by
    intro nonce value h
    simpa using congrArg String.toList h

/-- As many strokes as microseconds. -/
def strokes : Clock where
  isoformat := fun n => String.ofList (List.replicate n '|')
  injective := by
    intro m n h
    have hlength := congrArg List.length (String.ofList_injective h)
    simpa using hlength

def anyScopes : List Unit → Bool := fun _ => true

/-- The event that a call makes of a state, and the state after it. -/
def after (w : World Unit) (call : Call Unit) (now : Nat) : Event Unit × World Unit :=
  let done := perform plainCipher strokes anyScopes w.items now 0 call
  (⟨call, now, 0, done.1⟩, ⟨done.2, now⟩)

theorem after_step {w : World Unit} {call : Call Unit} {now : Nat} (h : w.now ≤ now) :
    Step plainCipher strokes anyScopes w (after w call now).1 (after w call now).2 :=
  ⟨h, rfl, rfl⟩

def created (now : Nat) : Event Unit × World Unit := after ⟨∅, 1⟩ (.create "a" "one" "" none none) now

/-- An administrator rotates the value. -/
def rotated (now : Nat) : Event Unit × World Unit := after (created 1).2 (.update "a" "|" none (some "two") none none) now

/-- Another one, who has read the credential before, writes a value of its own. -/
def lateCall : Call Unit := .update "a" "|" none (some "three") none none

def response (revision : String) : Response Unit := ⟨"a", "a", "", "|", revision, []⟩

theorem created_item : (created 1).2.items.get "a" = some ⟨"a", "a", "", "#one", "|", "|", []⟩ := rfl

theorem rotated_result (now : Nat) : (rotated now).1.result = .ok (response (strokes.isoformat now)) := rfl

theorem rotated_updates (now : Nat) : (rotated now).1.Updates "a" :=
  ⟨⟨"|", none, some "two", none, none, rfl⟩, response (strokes.isoformat now), rotated_result now⟩

theorem created_strict : StrictStep plainCipher strokes anyScopes ⟨∅, 1⟩ (created 1).1 (created 1).2 := by
  refine ⟨after_step (Nat.le_refl 1), ?_⟩
  rintro id ⟨⟨revision, name, value, description, scopes, hcall⟩, -⟩
  cases hcall

theorem rotated_strict : StrictStep plainCipher strokes anyScopes (created 1).2 (rotated 2).1 (rotated 2).2 := by
  refine ⟨after_step (by decide), ?_⟩
  rintro id ⟨⟨revision, name, value, description, scopes, hcall⟩, -⟩ item hget
  obtain ⟨rfl, -⟩ := Call.update.inj hcall
  obtain rfl := Option.some.inj (created_item.symm.trans hget)
  decide

theorem compare_and_set_rotated : (∀ id item, (created 1).2.items.get id = some item → (∃ e ∈ [(rotated 2).1], e.Updates id) →
      ∀ call : Call Unit, call.Presents id item.updatedAt → ∀ now nonce, ∃ err,
        perform plainCipher strokes anyScopes (rotated 2).2.items now nonce call = (.error err, (rotated 2).2.items)) ∧
    (∀ call now nonce err items, perform plainCipher strokes anyScopes (rotated 2).2.items now nonce call = (.error err, items) →
      items = (rotated 2).2.items) ∧
    (∀ id revision value, written ([(created 1).1] ++ [(rotated 2).1]).reverse id = some (revision, value) →
      resolveValue plainCipher (rotated 2).2.items (some id) (some revision) = .ok (some value)) :=
  compare_and_set plainCipher strokes anyScopes ((Run.nil _).snoc created_strict) ((Run.nil _).snoc rotated_strict)

/-- The clock stands still: the rotation is overwritten by a call that presents the revision before it. -/
theorem stale_revision_accepted : ∃ pre post w₀ w, Run (Step plainCipher strokes anyScopes) ⟨∅, 1⟩ pre w₀ ∧
    Run (Step plainCipher strokes anyScopes) w₀ post w ∧
    (∃ item, w₀.items.get "a" = some item ∧ lateCall.Presents "a" item.updatedAt) ∧ (∃ e ∈ post, e.Updates "a") ∧
    ∃ answer items, perform plainCipher strokes anyScopes w.items 1 0 lateCall = (.ok answer, items) ∧
      resolveValue plainCipher w.items (some "a") none = .ok (some "two") ∧
      resolveValue plainCipher items (some "a") none = .ok (some "three") := by
  refine ⟨[(created 1).1], [(rotated 1).1], (created 1).2, (rotated 1).2, (Run.nil _).snoc created_strict.1,
    (Run.nil _).snoc (after_step (Nat.le_refl 1)), ⟨_, created_item, ?_⟩, ⟨_, List.mem_singleton_self _, rotated_updates 1⟩,
    response "|", _, rfl, rfl, rfl⟩
  exact .inl ⟨none, some "three", none, none, rfl⟩

end LingshuGate.CredentialStore

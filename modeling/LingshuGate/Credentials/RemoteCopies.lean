import LingshuGate.Lib.Run
import LingshuGate.Credentials.Business

/-!
# Remote copies of business credentials

Every operation holds the lock of the store, `synchronize` also while it waits for the target
(application/business_credentials.py:318). So while a `Sync` is under way nothing else is written, unless the process is
interrupted: then the lock is gone and the row is as the last transaction left it.

`Remote` is what was sent downstream and what came back verified. `copies_remembered`: a copy that may be there is
marked, and a marked copy keeps its binding and its credential. What makes it true is the order in `synchronize`: the
mark is written before the call, and only a verified deletion removes it.
-/

namespace LingshuGate.Credentials

open Lib

/-! ## Runs -/

/-- What happened at the target of a binding. -/
inductive Remote
  | saveDispatched (bindingId : String) (secret : Secret)
  | saveVerified (bindingId : String) (secret : Secret)
  | deleteDispatched (bindingId : String)
  | deleteVerified (bindingId : String)
  deriving DecidableEq

/-- A save was dispatched and no deletion verified since; the newest entry is first. -/
def copyPossible (bindingId : String) : List Remote → Bool
  | [] => false
  | .saveDispatched b _ :: log => b = bindingId || copyPossible bindingId log
  | .deleteVerified b :: log => b ≠ bindingId && copyPossible bindingId log
  | .saveVerified _ _ :: log | .deleteDispatched _ :: log => copyPossible bindingId log

/-- The secret of the last verified save. -/
def lastSaved (bindingId : String) : List Remote → Option Secret
  | [] => none
  | .saveVerified b secret :: log => if b = bindingId then some secret else lastSaved bindingId log
  | .saveDispatched _ _ :: log | .deleteDispatched _ :: log | .deleteVerified _ :: log => lastSaved bindingId log

/-- The store, the synchronization that holds its lock, what happened downstream and every id made up so far. -/
structure World where
  store : Store := {}
  sync : Option Sync := none
  log : List Remote := []
  issued : List String := []

inductive Event
  | op (o : Op)
  /-- The call of a synchronization: its guard passes, or something raises before it is sent. -/
  | dispatch (refusal : Option BusinessError)
  /-- How the call ended: verified by its receipt or not. -/
  | receipt (verified : Bool)
  | finish
  /-- The process ends. -/
  | interrupt
  /-- Logins and closed browsers. -/
  | sessions (sessions : List OpenSession)

def Sync.dispatched (x : Sync) : Remote :=
  if x.deleteRemote then .deleteDispatched x.bindingId else .saveDispatched x.bindingId x.secret

def Sync.verified (x : Sync) : Remote :=
  if x.deleteRemote then .deleteVerified x.bindingId else .saveVerified x.bindingId x.secret

def next (w : World) : Event → World
  | .op o => match perform w.store o with
    | .error _ => w
    | .ok (st, sync) => { w with store := st, sync := sync, issued := o.newId.toList ++ w.issued }
  | .dispatch refusal => match w.sync with
    | none => w
    | some x =>
      if refusal.isNone && dispatchGuard w.store x then
        { w with sync := some { x with stage := .dispatched }, log := x.dispatched :: w.log }
      else { w with sync := some { x with stage := .unverified } }
  | .receipt verified => match w.sync with
    | none => w
    | some x =>
      if verified then { w with sync := some { x with stage := .verified }, log := x.verified :: w.log }
      else { w with sync := some { x with stage := .unverified } }
  | .finish => match w.sync with
    | none => w
    | some x => match finishSync w.store x with
      | .error _ => { w with sync := none }
      | .ok st => { w with store := st, sync := none }
  | .interrupt => { w with sync := none }
  | .sessions sessions => { w with store := { w.store with sessions := sessions } }

/-- The stage a synchronization is in. -/
def World.stage (w : World) : Option Stage := w.sync.map Sync.stage

/-- An operation starts while the lock is free, with an id that is new; a synchronization goes through its stages. -/
def possible (w : World) : Event → Bool
  | .op o => w.sync.isNone && o.newId.all fun id => !w.issued.contains id
  | .dispatch _ => w.stage = some .marked
  | .receipt _ => w.stage = some .dispatched
  | .finish => w.stage = some .verified || w.stage = some .unverified
  | .interrupt => true
  | .sessions _ => w.sync.isNone

def Step (w : World) (e : Event) (w' : World) : Prop := possible w e = true ∧ next w e = w'

/-! ## The invariant -/

/-- What the rows say about the copies. -/
structure Truthful (st : Store) (log : List Remote) : Prop where
  owner : ∀ b ∈ st.bindings, ∃ c ∈ st.credentials, c.id = b.credentialId
  copies : ∀ id, copyPossible id log = true → ∃ b ∈ st.bindings, b.id = id ∧ b.remoteCopyPossible = true
  synced : ∀ b ∈ st.bindings, b.syncStatus = .synced →
    ∃ c ∈ st.credentials, c.id = b.credentialId ∧ b.syncedVersion = some c.version ∧ lastSaved b.id log = some c.secret

/-- While a synchronization holds the lock, its rows are as it wrote and read them. -/
structure Flight (st : Store) (log : List Remote) (x : Sync) : Prop where
  binding : ∃ b ∈ st.bindings, b.id = x.bindingId ∧ b.credentialId = x.credentialId ∧ b.revision = x.revision ∧
    b.syncStatus = .unknown ∧ b.remoteCopyPossible = true
  credential : ∃ c ∈ st.credentials, c.id = x.credentialId ∧ c.version = x.version ∧ (x.deleteRemote = false → c.secret = x.secret)
  saved : x.stage = .verified → x.deleteRemote = false → lastSaved x.bindingId log = some x.secret
  removed : x.stage = .verified → x.deleteRemote = true → copyPossible x.bindingId log = false

variable {st st' : Store} {w w' : World} {credentialId bindingId : String} {log : List Remote}

theorem Truthful.createCredential {ownerExists encrypts : Bool} {c : Credential} (h : Truthful st log)
    (hok : createCredential st ownerExists encrypts c = .ok st') : Truthful st' log := by
  obtain ⟨hinsert, hbindings⟩ := createCredential_ok hok
  have hkeep : ∀ c ∈ st.credentials, c ∈ st'.credentials := fun c hc => (Table.mem_insert hinsert).mpr (.inl hc)
  constructor
  · intro b hb
    obtain ⟨c, hc, hid⟩ := h.owner b (hbindings ▸ hb)
    exact ⟨c, hkeep c hc, hid⟩
  · rw [hbindings]
    exact h.copies
  · intro b hb hsynced
    obtain ⟨c, hc, hrest⟩ := h.synced b (hbindings ▸ hb) hsynced
    exact ⟨c, hkeep c hc, hrest⟩

theorem Truthful.updateCredential {decrypts : Bool} {r : CredentialUpdate} (h : Truthful st log)
    (hok : updateCredential st decrypts credentialId r = .ok st') : Truthful st' log := by
  obtain ⟨row, -, -, hcredentials, hbindings⟩ := updateCredential_ok hok
  have howner : ∀ c ∈ st.credentials, ∃ c' ∈ st'.credentials, c'.id = c.id := by
    intro c hc
    rw [hcredentials]
    exact ⟨_, Table.mem_update.mpr ⟨c, hc, rfl⟩, by split <;> rfl⟩
  constructor
  · intro b hb
    rw [hbindings] at hb
    rcases Table.mem_update_cases hb with ⟨hb, -⟩ | ⟨a, ha, -, rfl⟩
    · obtain ⟨c, hc, hid⟩ := h.owner b hb
      obtain ⟨c', hc', hid'⟩ := howner c hc
      exact ⟨c', hc', hid'.trans hid⟩
    · obtain ⟨c, hc, hid⟩ := h.owner a ha
      obtain ⟨c', hc', hid'⟩ := howner c hc
      exact ⟨c', hc', hid'.trans hid⟩
  · intro id hcopy
    obtain ⟨b, hb, hid, hflag⟩ := h.copies id hcopy
    rw [hbindings]
    refine ⟨_, Table.mem_update.mpr ⟨b, hb, rfl⟩, ?_⟩
    split <;> exact ⟨hid, hflag⟩
  intro b hb hsynced
  rw [hbindings] at hb
  rcases Table.mem_update_cases hb with ⟨hb, hother⟩ | ⟨b, hb, -, rfl⟩
  · obtain ⟨c, hc, hid, hrest⟩ := h.synced b hb hsynced
    refine ⟨c, ?_, hid, hrest⟩
    rw [hcredentials]
    refine Table.mem_update_of_not _ hc ?_
    simp only [decide_eq_false_iff_not] at hother
    simp [hid, hother]
  · cases hsynced

theorem Truthful.deleteCredential {expectedVersion : Nat} (h : Truthful st log)
    (hok : deleteCredential st credentialId expectedVersion = .ok st') : Truthful st' log := by
  obtain ⟨-, hclean, hcredentials, hbindings⟩ := deleteCredential_ok hok
  have hkeep : ∀ b : Binding, decide (b.credentialId = credentialId) = false →
      ∀ c ∈ st.credentials, c.id = b.credentialId → c ∈ st'.credentials := by
    intro b hother c hc hid
    rw [hcredentials]
    exact Table.mem_delete.mpr ⟨hc, by simpa [hid] using hother⟩
  constructor
  · intro b hb
    rw [hbindings] at hb
    obtain ⟨hb, hother⟩ := Table.mem_delete.mp hb
    obtain ⟨c, hc, hid⟩ := h.owner b hb
    exact ⟨c, hkeep b hother c hc hid, hid⟩
  · intro id hcopy
    obtain ⟨b, hb, hid, hflag⟩ := h.copies id hcopy
    refine ⟨b, ?_, hid, hflag⟩
    rw [hbindings]
    refine Table.mem_delete.mpr ⟨hb, ?_⟩
    simp only [decide_eq_false_iff_not]
    intro hcredential
    rw [hclean b hb hcredential] at hflag
    cases hflag
  intro b hb hsynced
  rw [hbindings] at hb
  obtain ⟨hb, hother⟩ := Table.mem_delete.mp hb
  obtain ⟨c, hc, hid, hrest⟩ := h.synced b hb hsynced
  exact ⟨c, hkeep b hother c hc hid, hid, hrest⟩

theorem Truthful.createBinding {validContract : Bool} {b : Binding} (h : Truthful st log)
    (hok : createBinding st validContract b = .ok st') : Truthful st' log := by
  obtain ⟨⟨c, hc⟩, hcredentials, hinsert⟩ := createBinding_ok hok
  obtain ⟨hc, hid⟩ := Table.find_eq_some.mp hc
  constructor
  · intro b' hb'
    rw [hcredentials]
    rcases (Table.mem_insert hinsert).mp hb' with hb' | rfl
    · exact h.owner b' hb'
    · exact ⟨c, hc, hid⟩
  · intro id hcopy
    obtain ⟨b', hb', hrest⟩ := h.copies id hcopy
    exact ⟨b', (Table.mem_insert hinsert).mpr (.inl hb'), hrest⟩
  intro b' hb' hsynced
  rw [hcredentials]
  rcases (Table.mem_insert hinsert).mp hb' with hb' | rfl
  · exact h.synced b' hb' hsynced
  · cases hsynced

theorem Truthful.deleteBinding {expectedRevision : Nat} (h : Truthful st log)
    (hok : deleteBinding st bindingId expectedRevision = .ok st') : Truthful st' log := by
  obtain ⟨row, hrow, -, hclean, hcredentials, hbindings⟩ := deleteBinding_ok hok
  obtain ⟨hrow, hid⟩ := Table.find_eq_some.mp hrow
  constructor
  · intro b hb
    rw [hcredentials]
    rw [hbindings] at hb
    exact h.owner b (Table.mem_delete.mp hb).1
  · intro id hcopy
    obtain ⟨b, hb, hbid, hflag⟩ := h.copies id hcopy
    refine ⟨b, ?_, hbid, hflag⟩
    rw [hbindings]
    refine Table.mem_delete.mpr ⟨hb, ?_⟩
    simp only [decide_eq_false_iff_not]
    intro hsame
    obtain rfl := Table.eq_of_key hb hrow (hsame.trans hid.symm)
    rw [hclean] at hflag
    cases hflag
  · intro b hb hsynced
    rw [hcredentials]
    rw [hbindings] at hb
    exact h.synced b (Table.mem_delete.mp hb).1 hsynced

/-- A binding is rewritten: it keeps its credential, its mark unless no copy is left, and is not `synced` unless that
is true. -/
theorem Truthful.rewrite {f : Binding → Binding} {hf : ∀ b, (f b).id = b.id} (h : Truthful st log)
    (hcredentials : st'.credentials = st.credentials)
    (hbindings : st'.bindings = st.bindings.update (·.id = bindingId) f hf)
    (howner : ∀ b, (f b).credentialId = b.credentialId)
    (hcopy : ∀ b ∈ st.bindings, b.id = bindingId → b.remoteCopyPossible = true → copyPossible bindingId log = true →
      (f b).remoteCopyPossible = true)
    (hsynced : ∀ b ∈ st.bindings, b.id = bindingId → (f b).syncStatus = .synced →
      ∃ c ∈ st.credentials, c.id = b.credentialId ∧ (f b).syncedVersion = some c.version ∧
        lastSaved b.id log = some c.secret) : Truthful st' log := by
  constructor
  · intro b hb
    rw [hcredentials]
    rw [hbindings] at hb
    rcases Table.mem_update_cases hb with ⟨hb, -⟩ | ⟨a, ha, -, rfl⟩
    · exact h.owner b hb
    · rw [howner]
      exact h.owner a ha
  · intro id hcopies
    obtain ⟨b, hb, hid, hflag⟩ := h.copies id hcopies
    rw [hbindings]
    by_cases hsame : b.id = bindingId
    · refine ⟨f b, Table.mem_update_of_mem hf hb (by simpa using hsame), (hf b).trans hid, ?_⟩
      refine hcopy b hb hsame hflag ?_
      rw [← hsame, hid]
      exact hcopies
    · exact ⟨b, Table.mem_update_of_not hf hb (by simpa using hsame), hid, hflag⟩
  intro b hb hstatus
  rw [hcredentials]
  rw [hbindings] at hb
  rcases Table.mem_update_cases hb with ⟨hb, -⟩ | ⟨a, ha, hsame, rfl⟩
  · exact h.synced b hb hstatus
  · rw [howner, hf]
    exact hsynced a ha (of_decide_eq_true hsame) hstatus

theorem Truthful.updateBinding {r : BindingUpdate} {contract : Contract} (h : Truthful st log)
    (hok : updateBinding st bindingId r contract = .ok st') : Truthful st' log := by
  obtain ⟨row, -, hrow, -, -, -, hcredentials, hbindings⟩ := updateBinding_ok hok
  obtain ⟨hrow, hid⟩ := Table.find_eq_some.mp hrow
  refine h.rewrite hcredentials hbindings (fun _ => rfl) (fun _ _ _ hflag _ => hflag) ?_
  intro b hb hsame hstatus
  obtain rfl := Table.eq_of_key hb hrow (hsame.trans hid.symm)
  refine h.synced b hb ?_
  dsimp only at hstatus
  split at hstatus
  · exact hstatus
  · cases hstatus

theorem Truthful.markSync {expectedRevision expectedVersion : Nat} {status : SyncStatus} {b : Binding}
    (h : Truthful st log) (hok : markSync st bindingId expectedRevision expectedVersion status = .ok (st', b))
    (hdeleted : status = .deleted → copyPossible bindingId log = false)
    (hsynced : status = .synced → ∀ row ∈ st.bindings, row.id = bindingId → ∃ c ∈ st.credentials,
      c.id = row.credentialId ∧ expectedVersion = c.version ∧ lastSaved bindingId log = some c.secret) :
    Truthful st' log := by
  obtain ⟨row, -, -, -, -, -, -, hcredentials, hbindings⟩ := markSync_ok hok
  refine h.rewrite hcredentials hbindings (fun _ => rfl) ?_ ?_
  · intro b _ _ hflag hcopy
    have hne : status ≠ .deleted := by
      intro hd
      rw [hdeleted hd] at hcopy
      cases hcopy
    simp [Binding.mark, hne, hflag]
  · intro b hb hsame hstatus
    obtain rfl : status = .synced := hstatus
    obtain ⟨c, hc, hid, rfl, hsaved⟩ := hsynced rfl b hb hsame
    exact ⟨c, hc, hid, rfl, hsame ▸ hsaved⟩

/-! ## Operations and stages keep it -/

structure Good (w : World) : Prop where
  truthful : Truthful w.store w.log
  flight : ∀ x, w.sync = some x → Flight w.store w.log x

theorem Truthful.beginSync {refusal : Option BusinessError} {decrypts deleteRemote : Bool}
    {expectedVersion expectedRevision : Nat} {sync : Option Sync} (h : Truthful st log)
    (hok : beginSync st refusal decrypts credentialId bindingId expectedVersion expectedRevision deleteRemote =
      .ok (st', sync)) : Truthful st' log ∧ ∀ x, sync = some x → Flight st' log x := by
  obtain ⟨c, b, hc, hb, hid, hversion, -, ⟨rfl, rfl⟩ | ⟨secret, hsecret, hmark, rfl⟩⟩ := beginSync_ok hok
  · exact ⟨h, by simp⟩
  refine ⟨h.markSync hmark (by simp) (by simp), ?_⟩
  intro x hx
  obtain rfl := Option.some.inj hx
  obtain ⟨-, -, -, -, -, -, -, hcredentials, hbindings⟩ := markSync_ok hmark
  obtain ⟨hb, hbid⟩ := Table.find_eq_some.mp hb
  obtain ⟨hc, hcid⟩ := Table.find_eq_some.mp hc
  refine ⟨⟨b.mark expectedVersion .unknown, ?_, hbid, hid, rfl, rfl, rfl⟩, ⟨c, ?_, hcid, hversion, ?_⟩, by simp, by simp⟩
  · rw [hbindings]
    exact Table.mem_update.mpr ⟨b, hb, if_pos (by simpa using hbid)⟩
  · rw [hcredentials]
    exact hc
  · intro hdelete
    exact (hsecret hdelete).symm

theorem Truthful.perform {o : Op} {sync : Option Sync} (h : Truthful st log) (hok : perform st o = .ok (st', sync)) :
    Truthful st' log ∧ ∀ x, sync = some x → Flight st' log x := by
  cases o
  case synchronize => exact h.beginSync hok
  all_goals simp only [Credentials.perform, bind_eq_ok, pure_eq_ok, allowed_eq_ok, Prod.mk.injEq] at hok
  case create =>
    obtain ⟨-, -, _, hcreate, rfl, rfl⟩ := hok
    exact ⟨h.createCredential hcreate, by simp⟩
  case update =>
    obtain ⟨-, -, _, hupdate, rfl, rfl⟩ := hok
    exact ⟨h.updateCredential hupdate, by simp⟩
  case delete =>
    obtain ⟨-, -, _, hdelete, rfl, rfl⟩ := hok
    exact ⟨h.deleteCredential hdelete, by simp⟩
  case bind =>
    obtain ⟨-, -, -, -, -, -, _, hbind, rfl, rfl⟩ := hok
    exact ⟨h.createBinding hbind, by simp⟩
  case updateBinding =>
    obtain ⟨-, -, ⟨record, binding⟩, -, _, hupdate, rfl, rfl⟩ := hok
    exact ⟨h.updateBinding hupdate, by simp⟩
  case unbind =>
    obtain ⟨-, -, -, -, _, hdelete, rfl, rfl⟩ := hok
    exact ⟨h.deleteBinding hdelete, by simp⟩

/-- A dispatched save is one of the binding in flight, whose mark is set. -/
theorem Good.dispatch {refusal : Option BusinessError} (h : Good w) : Good (next w (.dispatch refusal)) := by
  cases hx : w.sync with
  | none => simpa only [next, hx] using h
  | some x =>
    obtain ⟨hbinding, hcredential, -, -⟩ := h.flight x hx
    simp only [next, hx]
    split
    · refine ⟨⟨h.truthful.owner, ?_, ?_⟩, ?_⟩
      · intro id hcopy
        by_cases hid : x.bindingId = id
        · subst hid
          obtain ⟨b, hb, hbid, -, -, -, hflag⟩ := hbinding
          exact ⟨b, hb, hbid, hflag⟩
        · refine h.truthful.copies id ?_
          cases hdelete : x.deleteRemote <;> simpa [Sync.dispatched, hdelete, copyPossible, hid] using hcopy
      · intro b hb hsynced
        obtain ⟨c, hc, hid, hversion, hsaved⟩ := h.truthful.synced b hb hsynced
        refine ⟨c, hc, hid, hversion, ?_⟩
        cases hdelete : x.deleteRemote <;> simpa [Sync.dispatched, hdelete, lastSaved] using hsaved
      · intro y hy
        obtain rfl := Option.some.inj hy
        exact ⟨hbinding, hcredential, by simp, by simp⟩
    · refine ⟨h.truthful, ?_⟩
      intro y hy
      obtain rfl := Option.some.inj hy
      exact ⟨hbinding, hcredential, by simp, by simp⟩

/-- A verified save is the last one of a binding that is not `synced`; a verified deletion leaves no copy. -/
theorem Good.receipt {verified : Bool} (h : Good w) : Good (next w (.receipt verified)) := by
  cases hx : w.sync with
  | none => simpa only [next, hx] using h
  | some x =>
    obtain ⟨hbinding, hcredential, -, -⟩ := h.flight x hx
    simp only [next, hx]
    split
    · refine ⟨⟨h.truthful.owner, ?_, ?_⟩, ?_⟩
      · intro id hcopy
        refine h.truthful.copies id ?_
        cases hdelete : x.deleteRemote with
        | false => simpa [Sync.verified, hdelete, copyPossible] using hcopy
        | true =>
          simp only [Sync.verified, hdelete, if_true, copyPossible, Bool.and_eq_true] at hcopy
          exact hcopy.2
      · intro b hb hsynced
        obtain ⟨c, hc, hid, hversion, hsaved⟩ := h.truthful.synced b hb hsynced
        refine ⟨c, hc, hid, hversion, ?_⟩
        have hne : x.bindingId ≠ b.id := by
          intro heq
          obtain ⟨b', hb', hbid, -, -, hunknown, -⟩ := hbinding
          obtain rfl := Table.eq_of_key hb hb' (heq.symm.trans hbid.symm)
          rw [hunknown] at hsynced
          cases hsynced
        cases hdelete : x.deleteRemote <;> simpa [Sync.verified, hdelete, lastSaved, hne] using hsaved
      intro y hy
      obtain rfl := Option.some.inj hy
      refine ⟨hbinding, hcredential, ?_, ?_⟩
      · intro _ hdelete
        have hsave : x.deleteRemote = false := hdelete
        simp [Sync.verified, hsave, lastSaved]
      · intro _ hdelete
        have hremove : x.deleteRemote = true := hdelete
        simp [Sync.verified, hremove, copyPossible]
    · refine ⟨h.truthful, ?_⟩
      intro y hy
      obtain rfl := Option.some.inj hy
      exact ⟨hbinding, hcredential, by simp, by simp⟩

theorem finishSync_ok {x : Sync} (h : finishSync st x = .ok st') : ∃ status b,
    markSync st x.bindingId x.revision x.version status = .ok (st', b) ∧
    (status = .deleted → x.stage = .verified ∧ x.deleteRemote = true) ∧
    (status = .synced → x.stage = .verified ∧ x.deleteRemote = false) := by
  simp only [finishSync, bind_eq_ok, pure_eq_ok] at h
  obtain ⟨⟨st'', b⟩, hmark, rfl⟩ := h
  refine ⟨_, b, hmark, ?_, ?_⟩
  · cases hstage : x.stage <;> cases hdelete : x.deleteRemote <;> simp
  · cases hstage : x.stage <;> cases hdelete : x.deleteRemote <;> simp

theorem Good.finish (h : Good w) : Good (next w .finish) := by
  cases hx : w.sync with
  | none => simpa only [next, hx] using h
  | some x =>
    obtain ⟨hbinding, hcredential, hsaved, hremoved⟩ := h.flight x hx
    simp only [next, hx]
    split
    · exact ⟨h.truthful, by simp⟩
    rename_i st' hfinish
    refine ⟨?_, by simp⟩
    obtain ⟨status, b, hmark, hdeleted, hsynced⟩ := finishSync_ok hfinish
    refine h.truthful.markSync hmark ?_ ?_
    · intro hstatus
      obtain ⟨hstage, hdelete⟩ := hdeleted hstatus
      exact hremoved hstage hdelete
    intro hstatus row hrow hid
    obtain ⟨hstage, hdelete⟩ := hsynced hstatus
    obtain ⟨b', hb', hbid, hcid, -⟩ := hbinding
    obtain rfl := Table.eq_of_key hrow hb' (hid.trans hbid.symm)
    obtain ⟨c, hc, hcid', hversion, hsecret⟩ := hcredential
    exact ⟨c, hc, hcid'.trans hcid.symm, hversion.symm, (hsaved hstage hdelete).trans (congrArg some (hsecret hdelete).symm)⟩

theorem Step.good {e : Event} (hs : Step w e w') (h : Good w) : Good w' := by
  obtain ⟨hpossible, rfl⟩ := hs
  cases e with
  | op o =>
    simp only [next]
    split
    · exact h
    · rename_i hok
      obtain ⟨htruthful, hflight⟩ := h.truthful.perform hok
      exact ⟨htruthful, hflight⟩
  | dispatch refusal => exact h.dispatch
  | receipt verified => exact h.receipt
  | finish => exact h.finish
  | interrupt => exact ⟨h.truthful, by simp [next]⟩
  | sessions sessions =>
    have hnone : w.sync = none := by simpa [possible] using hpossible
    exact ⟨⟨h.truthful.owner, h.truthful.copies, h.truthful.synced⟩, by simp [next, hnone]⟩

/-! ## Versions and revisions -/

/-- A credential that is still there is the same, or has a higher version. -/
abbrev CredentialLe : Credential → Credential → Prop := Table.Rises Credential.id Credential.version

abbrev BindingLe : Binding → Binding → Prop := Table.Rises Binding.id Binding.revision

/-- Rows continue the rows they were, or have an id that is not in use. -/
structure Advances (used : String → Prop) (st st' : Store) : Prop where
  credentials : st.credentials.Continues CredentialLe used st'.credentials
  bindings : st.bindings.Continues BindingLe used st'.bindings

variable {used : String → Prop}

theorem Advances.refl (used : String → Prop) (st : Store) : Advances used st st :=
  ⟨.refl Table.Rises.refl _, .refl Table.Rises.refl _⟩

theorem Advances.markSync {expectedRevision expectedVersion : Nat} {status : SyncStatus} {b : Binding}
    (hok : markSync st bindingId expectedRevision expectedVersion status = .ok (st', b)) : Advances used st st' := by
  obtain ⟨_, _, -, -, -, -, -, hcredentials, hbindings⟩ := markSync_ok hok
  exact ⟨hcredentials ▸ .refl Table.Rises.refl _, hbindings ▸ .raise _ fun b => Nat.lt_succ_self b.revision⟩

theorem Advances.perform {o : Op} {sync : Option Sync} (hok : perform st o = .ok (st', sync))
    (hnew : ∀ id ∈ o.newId, ¬ used id) : Advances used st st' := by
  cases o
  case synchronize =>
    obtain ⟨_, _, -, -, -, -, -, ⟨rfl, -⟩ | ⟨_, -, hmark, -⟩⟩ := beginSync_ok hok
    · exact .refl _ _
    · exact .markSync hmark
  all_goals simp only [Credentials.perform, bind_eq_ok, pure_eq_ok, allowed_eq_ok, Prod.mk.injEq] at hok
  case create =>
    obtain ⟨-, -, _, hcreate, rfl, rfl⟩ := hok
    obtain ⟨hinsert, hbindings⟩ := createCredential_ok hcreate
    exact ⟨.insert Table.Rises.refl hinsert (hnew _ rfl), hbindings ▸ .refl Table.Rises.refl _⟩
  case update =>
    obtain ⟨-, -, _, hupdate, rfl, rfl⟩ := hok
    obtain ⟨_, -, -, hcredentials, hbindings⟩ := updateCredential_ok hupdate
    refine ⟨hcredentials ▸ .raise _ ?_, hbindings ▸ .raise _ ?_⟩
    · intro c
      exact Nat.lt_succ_self c.version
    · intro b
      exact Nat.lt_succ_self b.revision
  case delete =>
    obtain ⟨-, -, _, hdelete, rfl, rfl⟩ := hok
    obtain ⟨-, -, hcredentials, hbindings⟩ := deleteCredential_ok hdelete
    exact ⟨hcredentials ▸ .delete Table.Rises.refl, hbindings ▸ .delete Table.Rises.refl⟩
  case bind =>
    obtain ⟨-, -, -, -, -, -, _, hbind, rfl, rfl⟩ := hok
    obtain ⟨-, hcredentials, hinsert⟩ := createBinding_ok hbind
    exact ⟨hcredentials ▸ .refl Table.Rises.refl _, .insert Table.Rises.refl hinsert (hnew _ rfl)⟩
  case updateBinding =>
    obtain ⟨-, -, ⟨record, binding⟩, -, _, hupdate, rfl, rfl⟩ := hok
    obtain ⟨_, _, -, -, -, -, hcredentials, hbindings⟩ := updateBinding_ok hupdate
    exact ⟨hcredentials ▸ .refl Table.Rises.refl _, hbindings ▸ .raise _ fun b => Nat.lt_succ_self b.revision⟩
  case unbind =>
    obtain ⟨-, -, -, -, _, hdelete, rfl, rfl⟩ := hok
    obtain ⟨_, -, -, -, hcredentials, hbindings⟩ := deleteBinding_ok hdelete
    exact ⟨hcredentials ▸ .refl Table.Rises.refl _, hbindings ▸ .delete Table.Rises.refl⟩

theorem issued_subset (w : World) (e : Event) : w.issued ⊆ (next w e).issued := by
  cases e with
  | op o =>
    simp only [next]
    split
    · exact List.Subset.refl _
    · exact List.subset_append_right _ _
  | dispatch | receipt | finish =>
    simp only [next]
    split
    · exact List.Subset.refl _
    · split <;> exact List.Subset.refl _
  | interrupt | sessions => exact List.Subset.refl _

/-- The ids that an event makes up. -/
def Event.newId : Event → Option String
  | .op o => o.newId
  | _ => none

theorem next_advances (w : World) (e : Event) (hnew : ∀ id ∈ e.newId, id ∈ (next w e).issued → ¬ used id) :
    Advances used w.store (next w e).store := by
  cases e with
  | op o =>
    revert hnew
    simp only [next]
    split
    · intro _
      exact .refl _ _
    rename_i hok
    intro hnew
    refine .perform hok ?_
    intro id hid
    refine hnew id hid ?_
    simp [Option.mem_def.mp hid]
  | dispatch | receipt =>
    simp only [next]
    split
    · exact .refl _ _
    · split <;> exact .refl _ _
  | finish =>
    simp only [next]
    split
    · exact .refl _ _
    split
    · exact .refl _ _
    · rename_i hfinish
      obtain ⟨_, _, hmark, -⟩ := finishSync_ok hfinish
      exact .markSync hmark
  | interrupt => exact .refl _ _
  | sessions => exact ⟨.refl Table.Rises.refl _, .refl Table.Rises.refl _⟩

theorem Step.advances {e : Event} (hs : Step w e w') : Advances (· ∈ w.issued) w.store w'.store := by
  obtain ⟨hpossible, rfl⟩ := hs
  refine next_advances w e ?_
  intro id hid _
  cases e with
  | op o =>
    simp only [possible, Bool.and_eq_true, Option.all_eq_true, Bool.not_eq_true', List.contains_eq_mem,
      decide_eq_false_iff_not] at hpossible
    exact hpossible.2 id hid
  | dispatch | receipt | finish | interrupt | sessions => cases hid

/-- Every id of a row was made up. -/
structure Issued (w : World) : Prop where
  credentials : ∀ c ∈ w.store.credentials, c.id ∈ w.issued
  bindings : ∀ b ∈ w.store.bindings, b.id ∈ w.issued

theorem Step.issued {e : Event} (hs : Step w e w') (h : Issued w) : Issued w' := by
  obtain ⟨-, rfl⟩ := hs
  have hadvances : Advances (· ∉ (next w e).issued) w.store (next w e).store :=
    next_advances w e fun id _ hid hnot => hnot hid
  constructor
  · intro c hc
    rcases hadvances.credentials c hc with ⟨a, ha, hle⟩ | hnew
    · rw [hle.1]
      exact issued_subset w e (h.credentials a ha)
    · exact Classical.not_not.mp hnew
  intro b hb
  rcases hadvances.bindings b hb with ⟨a, ha, hle⟩ | hnew
  · rw [hle.1]
    exact issued_subset w e (h.bindings a ha)
  · exact Classical.not_not.mp hnew

theorem Step.issued_subset {e : Event} (hs : Step w e w') : w.issued ⊆ w'.issued := hs.2 ▸ Credentials.issued_subset w e

theorem advances_run {tr : List Event} (h : Run Step w tr w') : Advances (· ∈ w.issued) w.store w'.store := by
  have hR : Advances (· ∈ w.issued) w.store w'.store ∧ w.issued ⊆ w'.issued := by
    refine @Run.invariant _ _ _ (fun v => Advances (· ∈ w.issued) w.store v.store ∧ w.issued ⊆ v.issued) _ _ _ h
      ⟨.refl _ _, List.Subset.refl _⟩ ?_
    rintro t e v ⟨hadvances, hsubset⟩ hs
    refine ⟨⟨?_, ?_⟩, fun _ hid => hs.issued_subset (hsubset hid)⟩
    · exact hadvances.credentials.trans Table.Rises.trans (fun _ _ hle => hle.1) (fun _ hid => hsubset hid) hs.advances.credentials
    · exact hadvances.bindings.trans Table.Rises.trans (fun _ _ hle => hle.1) (fun _ hid => hsubset hid) hs.advances.bindings
  exact hR.1

theorem next_stale {o : Op} (h : ¬ o.Current w.store) : next w (.op o) = w := by
  simp only [next]
  split
  · rfl
  · rename_i hok
    exact absurd (perform_current hok) h

/-! ## Copies -/

/-- A marked copy keeps its binding and its credential. -/
theorem marked_kept {b : Binding} (hb : b ∈ st.bindings) (hflag : b.remoteCopyPossible = true) (n : Nat) :
    (∀ st', deleteBinding st b.id n ≠ .ok st') ∧ ∀ st', deleteCredential st b.credentialId n ≠ .ok st' := by
  constructor
  · intro st' hok
    obtain ⟨row, hrow, -, hclean, -⟩ := deleteBinding_ok hok
    obtain ⟨hrow, hid⟩ := Table.find_eq_some.mp hrow
    obtain rfl := Table.eq_of_key hb hrow hid.symm
    rw [hclean] at hflag
    cases hflag
  · intro st' hok
    obtain ⟨-, hclean, -⟩ := deleteCredential_ok hok
    rw [hclean b hb rfl] at hflag
    cases hflag

/-- **Remote copies are never forgotten.** In every run: a binding whose save was dispatched, with no deletion verified
since, is still there, marked, and neither it nor its credential can be deleted; a `synced` binding was last verified
with the secret of the current version of its credential; a row that changes has a higher version or revision than
before; and an operation that expects another version or revision changes nothing. -/
theorem copies_remembered {tr : List Event} (h : Run Step {} tr w) :
    (∀ id, copyPossible id w.log = true → ∃ b ∈ w.store.bindings, b.id = id ∧ b.remoteCopyPossible = true ∧
      ∀ n st', deleteBinding w.store b.id n ≠ .ok st' ∧ deleteCredential w.store b.credentialId n ≠ .ok st') ∧
    (∀ b ∈ w.store.bindings, b.syncStatus = .synced → ∃ c ∈ w.store.credentials, c.id = b.credentialId ∧
      b.syncedVersion = some c.version ∧ lastSaved b.id w.log = some c.secret) ∧
    (∀ tr' w', Run Step w tr' w' →
      (∀ c ∈ w.store.credentials, ∀ c' ∈ w'.store.credentials, c'.id = c.id → c' = c ∨ c.version < c'.version) ∧
      ∀ b ∈ w.store.bindings, ∀ b' ∈ w'.store.bindings, b'.id = b.id → b' = b ∨ b.revision < b'.revision) ∧
    ∀ o : Op, ¬ o.Current w.store → next w (.op o) = w := by
  have hgood : Good w := h.invariant ⟨⟨by simp, by simp [copyPossible], by simp⟩, by simp⟩ fun _ _ _ hI hs => hs.good hI
  have hissued : Issued w := h.invariant ⟨by simp, by simp⟩ fun _ _ _ hI hs => hs.issued hI
  refine ⟨?_, hgood.truthful.synced, ?_, fun o ho => next_stale ho⟩
  · intro id hcopy
    obtain ⟨b, hb, hid, hflag⟩ := hgood.truthful.copies id hcopy
    refine ⟨b, hb, hid, hflag, ?_⟩
    intro n st'
    exact ⟨(marked_kept hb hflag n).1 st', (marked_kept hb hflag n).2 st'⟩
  intro tr' w' h'
  have hadvances := advances_run h'
  constructor
  · intro c hc c' hc' hid
    rcases hadvances.credentials c' hc' with ⟨a, ha, hle⟩ | hnew
    · obtain rfl := Table.eq_of_key ha hc (hle.1.symm.trans hid)
      exact hle.2
    · exact absurd (hid ▸ hissued.credentials c hc) hnew
  intro b hb b' hb' hid
  rcases hadvances.bindings b' hb' with ⟨a, ha, hle⟩ | hnew
  · obtain rfl := Table.eq_of_key ha hb (hle.1.symm.trans hid)
    exact hle.2
  · exact absurd (hid ▸ hissued.bindings b hb) hnew

/-- An account is bound and saved. -/
def savedOnce : List Event :=
  [.op (.create none true true { id := "c", ownerId := "u", secret := ⟨"name", "word"⟩ }),
    .op (.bind none true { id := "b", credentialId := "c", serverId := "s", contract := ⟨"", []⟩ } 1),
    .op (.synchronize none true "c" "b" 1 1 false), .dispatch none, .receipt true, .finish]

theorem copies_remembered_saved : ∃ w, Run Step {} savedOnce w ∧ copyPossible "b" w.log = true ∧
    (∃ b ∈ w.store.bindings, b.id = "b" ∧ b.remoteCopyPossible = true) ∧
    ∀ b ∈ w.store.bindings, b.syncStatus = .synced → lastSaved b.id w.log ≠ none := by
  have hrun : Run Step {} savedOnce (savedOnce.foldl next {}) := Run.of_guarded (fun _ _ h => ⟨h, rfl⟩) (by decide)
  obtain ⟨hcopies, hsynced, -⟩ := copies_remembered hrun
  refine ⟨_, hrun, by decide, ?_, ?_⟩
  · obtain ⟨b, hb, hid, hflag, -⟩ := hcopies "b" (by decide)
    exact ⟨b, hb, hid, hflag⟩
  · intro b hb hstatus
    obtain ⟨c, -, -, -, hsaved⟩ := hsynced b hb hstatus
    simp [hsaved]

end LingshuGate.Credentials

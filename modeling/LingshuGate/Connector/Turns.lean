import LingshuGate.Connector.Relay

/-!
# What a segment of a call can do (`connector_relay.py:179-316`)

`Prepared` is what the lines before a request is registered may leave behind, however they end; `dispatch_ok`, `guard_ok` and
`resume_ok` say what the three parts of `forward` have done when they succeed. `Forward.Turn` lists every segment of a call, and
`step_turn` is the only place where `Forward.step` is taken apart.
-/

namespace LingshuGate.Connector

open Lib Lib.Act

variable {relay : Relay} {r : Reading} {a : Admitted} {c c' : Call} {handle : String} {s s' s₁ : Segment} {body : Bytes} {e : Fault}

theorem call_ok {f : World → Except Fault World} {u : Unit} :
    Segment.call f s = .ok u s' ↔ ∃ w, f s.world = .ok w ∧ s' = { s with world := w } := by
  simp only [Segment.call]
  constructor
  · intro h
    split at h
    · rename_i w hf
      cases h
      exact ⟨w, hf, rfl⟩
    · cases h
  · rintro ⟨w, hf, rfl⟩
    rw [hf]

theorem call_error {f : World → Except Fault World} : Segment.call f s = .error e s' ↔ f s.world = .error e ∧ s' = s := by
  simp only [Segment.call]
  constructor
  · intro h
    split at h
    · cases h
    · rename_i hf
      cases h
      exact ⟨hf, rfl⟩
  · rintro ⟨hf, rfl⟩
    rw [hf]

/-! ## Before the request is registered -/

def Segment.pruned (s : Segment) : Segment := { s with world := s.world.prune }

/-- What lines 206-221 may have done. -/
inductive Prepared (a : Admitted) (s : Segment) : Segment → Prop
  | same : Prepared a s s
  | pruned : Prepared a s s.pruned
  /-- A DELETE has taken its session. -/
  | taken {ref : Ref} : s.locals.request.method = .delete →
    s.world.prune.session a.handle a.consumer.id a.target a.connection = .ok ref →
    Prepared a s { s with world := { s.world.prune with sessions := s.world.prune.sessions.pop a.handle } }
  /-- A place is kept for the session that the call opens. -/
  | placed {w : World} : World.reserve a.consumer.id s.world.prune = .ok w →
    Prepared a s ⟨w, { s.locals with reserved := true }⟩

theorem lookup_ok {v : Option Ref} (h : lookup a s = .ok v s') : (v = none ∧ s' = s) ∨
    ∃ ref, v = some ref ∧ s' = s.pruned ∧ s.world.prune.session a.handle a.consumer.id a.target a.connection = .ok ref := by
  unfold lookup at h
  split at h
  · obtain ⟨rfl, rfl⟩ := pure_ok.mp h
    exact .inl ⟨rfl, rfl⟩
  · simp only [Segment.change, bind_ok, modify_ok, get_ok, ofExcept_ok, pure_ok] at h
    obtain ⟨_, s₁, rfl, _, s₂, ⟨rfl, rfl⟩, ref, s₃, ⟨hsession, rfl⟩, rfl, rfl⟩ := h
    exact .inr ⟨ref, rfl, rfl, hsession⟩

theorem lookup_error (h : lookup a s = .error e s') : s' = s.pruned := by
  unfold lookup at h
  split at h
  · cases pure_error.mp h
  · simp only [Segment.change, bind_error, modify_ok, modify_error, get_ok, get_error, ofExcept_error, pure_error,
      false_or, or_false, and_false, exists_false] at h
    obtain ⟨_, s₁, rfl, _, s₂, ⟨rfl, rfl⟩, -, rfl⟩ := h
    rfl

theorem keepPlace_ok {saved : Option Ref} {rpc : Rpc} {u : Unit} (h : keepPlace a saved rpc s = .ok u s') : s' = s ∨
    (saved = none ∧ ∃ w, World.reserve a.consumer.id s.world.prune = .ok w ∧ s' = ⟨w, { s.locals with reserved := true }⟩) := by
  unfold keepPlace at h
  split at h
  · rename_i hopens
    rw [Bool.and_eq_true, Option.isNone_iff_eq_none] at hopens
    simp only [Segment.change, bind_ok, modify_ok, call_ok] at h
    obtain ⟨_, s₁, rfl, _, s₂, ⟨w, hreserve, rfl⟩, rfl⟩ := h
    exact .inr ⟨hopens.1, w, hreserve, rfl⟩
  · exact .inl (pure_ok.mp h).2.symm

theorem keepPlace_error {saved : Option Ref} {rpc : Rpc} (h : keepPlace a saved rpc s = .error e s') :
    saved = none ∧ s' = s.pruned := by
  unfold keepPlace at h
  split at h
  · rename_i hopens
    rw [Bool.and_eq_true, Option.isNone_iff_eq_none] at hopens
    simp only [Segment.change, bind_error, modify_ok, modify_error, call_error, false_or, or_false, and_false, exists_false] at h
    obtain ⟨_, s₁, rfl, -, rfl⟩ := h
    exact ⟨hopens.1, rfl⟩
  · cases pure_error.mp h

variable {headers : Dict String String}

/-- After `lookup`: a DELETE takes the session that was found, any other call leaves it. -/
theorem claimSession_ok {saved : Option Ref} {u : Unit}
    (h : claimSession relay a headers saved body s = .ok u s') :
    (s.locals.request.method = .delete ∧ saved.isSome = true ∧
      s' = { s with world := { s.world with sessions := s.world.sessions.pop a.handle } }) ∨
    s' = s ∨
    (saved = none ∧ ∃ w, World.reserve a.consumer.id s.world.prune = .ok w ∧ s' = ⟨w, { s.locals with reserved := true }⟩) := by
  rw [claimSession, get_run] at h
  cases hmethod : s.locals.request.method with
  | delete =>
    rw [hmethod] at h
    simp only [Segment.change, bind_ok, require_ok, modify_ok, Bool.and_eq_true] at h
    obtain ⟨_, s₂, ⟨⟨hsaved, -⟩, rfl⟩, rfl⟩ := h
    exact .inl ⟨rfl, hsaved, rfl⟩
  | post =>
    rw [hmethod] at h
    simp only [bind_ok, ofExcept_ok] at h
    obtain ⟨rpc, s₂, ⟨-, rfl⟩, hplace⟩ := h
    exact .inr (keepPlace_ok hplace)

theorem claimSession_error {saved : Option Ref}
    (h : claimSession relay a headers saved body s = .error e s') : s' = s ∨ (saved = none ∧ s' = s.pruned) := by
  rw [claimSession, get_run] at h
  cases hmethod : s.locals.request.method with
  | delete =>
    rw [hmethod] at h
    simp only [Segment.change, bind_error, require_error, modify_error, and_false, exists_false, or_false] at h
    exact .inl h.2.2.symm
  | post =>
    rw [hmethod] at h
    simp only [bind_error, ofExcept_ok, ofExcept_error] at h
    rcases h with ⟨-, rfl⟩ | ⟨rpc, s₂, ⟨-, rfl⟩, hplace⟩
    · exact .inl rfl
    · exact .inr (keepPlace_error hplace)

/-- `lookup` and `claimSession` together. -/
theorem Prepared.of_claimed {saved : Option Ref} {u : Unit} (hlookup : lookup a s = .ok saved s₁)
    (hclaim : claimSession relay a headers saved body s₁ = .ok u s') : Prepared a s s' := by
  rcases lookup_ok hlookup with ⟨rfl, rfl⟩ | ⟨ref, rfl, rfl, hsession⟩
  · rcases claimSession_ok hclaim with ⟨-, hsome, -⟩ | rfl | ⟨-, w, hreserve, rfl⟩
    · cases hsome
    · exact .same
    · exact .placed hreserve
  · rcases claimSession_ok hclaim with ⟨hmethod, -, rfl⟩ | rfl | ⟨hnone, -⟩
    · exact .taken hmethod hsession
    · exact .pruned
    · cases hnone

theorem dispatch_error (h : dispatch relay r a body s = .error e s') : Prepared a s s' := by
  simp only [dispatch, bind_error, get_ok, get_error, Segment.change, modify_error, pure_error, ofExcept_ok,
    ofExcept_error, false_or, or_false, and_false, exists_false] at h
  rcases h with hlookup | ⟨saved, s₁, hlookup, hclaim | ⟨u, s₂, hclaim, _, s₃, ⟨rfl, rfl⟩, -, rfl⟩⟩
  · rw [lookup_error hlookup]
    exact .pruned
  · rcases lookup_ok hlookup with ⟨rfl, rfl⟩ | ⟨ref, rfl, rfl, -⟩
    · rcases claimSession_error hclaim with rfl | ⟨-, rfl⟩
      · exact .same
      · exact .pruned
    · rcases claimSession_error hclaim with rfl | ⟨hnone, -⟩
      · exact .pruned
      · cases hnone
  · exact .of_claimed hlookup hclaim

/-- The request `c` of the call, built in the state that `s₁` has reached from `s`. -/
structure Drafted (r : Reading) (a : Admitted) (s s₁ : Segment) (c : Call) : Prop where
  prepared : Prepared a s s₁
  consumer : c.consumer = a.consumer
  target : c.target = a.target
  connection : c.connection = a.connection
  requestId : c.frame.requestId = r.token
  method : c.frame.method = s.locals.request.method
  targetId : c.frame.targetId = a.target
  /-- A session that is attached was valid, and the frame names its upstream session. -/
  session : ∀ ref, c.saved = some ref → s.world.prune.session c.handle a.consumer.id a.target a.connection = .ok ref ∧
    c.frame.headers.get "mcp-session-id" = some (s.world.saved ref).upstream
  bare : c.saved = none → c.frame.headers.get "mcp-session-id" = none
  route : s₁.world.targets.get a.target = some a.connection
  room : s₁.world.busy a.connection = false

theorem recheck_ok {w : World} {target revision : String} {k : Ref} (h : recheck w target k = .ok revision) :
    w.targets.get target = some k ∧ w.busy k = false ∧ (w.heap k).targets.get target = some revision := by
  simp only [recheck, bind_eq_ok, require_eq_ok, expect_eq_ok, decide_eq_true_eq, Bool.not_eq_true'] at h
  obtain ⟨-, htarget, -, hroom, hrevision⟩ := h
  exact ⟨htarget, hroom, hrevision⟩

theorem reserve_ok {w w' : World} {consumer : String} (h : World.reserve consumer w = .ok w') :
    w.occupied consumer + (w.reservations.get consumer).getD 0 < 32 ∧ w.sessions.rows.length + w.totalReserved < 1024 ∧
      w' = { w with reservations := w.reservations.set consumer ((w.reservations.get consumer).getD 0 + 1) } := by
  simp only [World.reserve] at h
  split at h
  · cases h
  · rename_i hroom
    cases h
    simpa using hroom

theorem Prepared.locals (h : Prepared a s s') : s'.locals.request = s.locals.request ∧ s'.locals.forwarded = s.locals.forwarded ∧
    s'.locals.dispatched = s.locals.dispatched ∧ s'.locals.number = s.locals.number ∧ s'.locals.stage = s.locals.stage ∧
    s'.locals.deadline = s.locals.deadline ∧ s'.locals.boundary = s.locals.boundary := by
  cases h <;> exact ⟨rfl, rfl, rfl, rfl, rfl, rfl, rfl⟩

theorem Prepared.saved (h : Prepared a s s') : s'.world.saved = s.world.saved := by
  cases h with
  | same | pruned | taken => rfl
  | placed hreserve =>
    obtain ⟨-, -, rfl⟩ := reserve_ok hreserve
    rfl

theorem dispatch_ok (h : dispatch relay r a body s = .ok c s') : ∃ s₁, Drafted r a s s₁ c ∧
    s' = { s₁ with world := s₁.world.enqueue a.connection r.token (a.consumer.id, a.target) } := by
  simp only [dispatch, bind_ok, get_ok, Segment.change, modify_ok, pure_ok, ofExcept_ok] at h
  obtain ⟨saved, s₁, hlookup, u, s₂, hclaim, _, s₃, ⟨rfl, rfl⟩, revision, s₄, ⟨hrecheck, rfl⟩, _, s₅, rfl, rfl, rfl⟩ := h
  have hprepared := Prepared.of_claimed hlookup hclaim
  obtain ⟨hroute, hroom, -⟩ := recheck_ok hrecheck
  refine ⟨_, ⟨hprepared, rfl, rfl, rfl, rfl, ?_, rfl, ?_, ?_, hroute, hroom⟩, rfl⟩
  · rw [hprepared.locals.1]
  · rintro ref rfl
    rcases lookup_ok hlookup with ⟨hnone, -⟩ | ⟨ref', hsome, -, hsession⟩
    · cases hnone
    · cases hsome
      refine ⟨hsession, ?_⟩
      rw [Option.elim_some, Dict.get_set, if_pos rfl, hprepared.saved]
  · rintro rfl
    rw [Option.elim_none, Dict.get_pop, if_pos rfl]

/-! ## Inside the lock -/

/-- The state once the frame was passed to `send_json`. -/
def Segment.sent (c : Call) (s : Segment) : Segment where
  world := { (c.active.elim s.world fun ref => s.world.editSession ref ({ · with deadline := s.world.clock + sessionTtl })) with
    wire := s.world.wire ++ [⟨s.locals.number, c.connection, c.frame⟩] }
  locals := { s.locals with forwarded := true, dispatched := true }

theorem guard_ok (h : dispatchGuard r c s = .ok c' s') : ∃ remaining, guardChecks s.world s.locals.deadline c = .ok remaining ∧
    c' = c.wired r remaining ∧ s' = s.sent c' := by
  simp only [dispatchGuard, bind_ok, get_ok, Segment.change, modify_ok, pure_ok, ofExcept_ok] at h
  obtain ⟨_, s₁, ⟨rfl, rfl⟩, remaining, s₂, ⟨hchecks, rfl⟩, _, s₃, rfl, _, s₄, rfl, _, s₅, rfl, rfl, rfl⟩ := h
  refine ⟨remaining, hchecks, rfl, ?_⟩
  have hactive : (c.wired r remaining).active = c.active := rfl
  simp only [Segment.sent, hactive]
  cases c.active <;> rfl

theorem guard_error (h : dispatchGuard r c s = .error e s') : s' = s ∧ guardChecks s.world s.locals.deadline c = .error e := by
  simp only [dispatchGuard, bind_error, get_ok, get_error, Segment.change, modify_error, pure_error, ofExcept_ok,
    ofExcept_error, false_or, or_false, and_false, exists_false] at h
  obtain ⟨_, s₁, ⟨rfl, rfl⟩, hchecks, rfl⟩ := h
  exact ⟨rfl, hchecks⟩

/-! ## After the reply -/

/-- What a successful reply does to the sessions before it counts as activity. -/
inductive Kept (r : Reading) (c : Call) (read : Reply) (s : Segment) : World → Prop
  | same : Kept r c read s s.world
  | renewed {ref : Ref} {upstream : String} : c.active = some ref → s.world.sessions.get c.handle = some ref →
    read.upstream = some upstream →
    Kept r c read s (s.world.editSession ref ({ · with upstream, deadline := s.world.clock + sessionTtl }))
  | opened {revision upstream : String} : c.saved = none → s.locals.reserved = true →
    (s.world.heap c.connection).targets.get c.target = some revision → read.upstream = some upstream →
    Kept r c read s (s.world.openSession r.token {
      consumer := c.consumer.id, target := c.target, revision, generation := (s.world.heap c.connection).generation, upstream
      deadline := s.world.clock + sessionTtl })

theorem keepUpstream_ok {read : Reply} {upstream handle : String} (hupstream : read.upstream = some upstream)
    (hmethod : c.frame.method ≠ .delete) (h : keepUpstream r c upstream s = .ok handle s') :
    ∃ w, Kept r c read s w ∧ s' = { s with world := w } := by
  rw [keepUpstream, get_run] at h
  cases hsaved : c.saved with
  | some ref =>
    rw [hsaved] at h
    simp only [Segment.change, bind_ok, require_ok, modify_ok, pure_ok, decide_eq_true_eq] at h
    obtain ⟨_, s₁, ⟨hsession, rfl⟩, _, s₂, rfl, -, rfl⟩ := h
    refine ⟨_, .renewed ?_ hsession hupstream, rfl⟩
    rw [Call.active, if_neg hmethod, hsaved]
  | none =>
    rw [hsaved] at h
    simp only [Segment.change, bind_ok, require_ok, ofExcept_ok, expect_eq_ok, modify_ok, pure_ok] at h
    obtain ⟨_, s₁, ⟨hreserved, rfl⟩, revision, s₂, ⟨hrevision, rfl⟩, _, s₃, rfl, -, rfl⟩ := h
    exact ⟨_, .opened hsaved hreserved hrevision hupstream, rfl⟩

theorem keepUpstream_error {upstream : String} (h : keepUpstream r c upstream s = .error e s') : s' = s := by
  rw [keepUpstream, get_run] at h
  cases hsaved : c.saved with
  | some ref =>
    rw [hsaved] at h
    simp only [Segment.change, bind_error, require_error, modify_error, pure_error, and_false, exists_false, or_false] at h
    exact h.2.2.symm
  | none =>
    rw [hsaved] at h
    simp only [Segment.change, bind_error, require_error, require_ok, ofExcept_error, modify_error, pure_error, and_false,
      exists_false, or_false] at h
    rcases h with ⟨-, -, rfl⟩ | ⟨_, s₁, ⟨-, rfl⟩, -, rfl⟩
    · rfl
    · rfl

theorem answerHeaders_ok {status : Nat} {read : Reply} (hmethod : c.frame.method ≠ .delete)
    (h : answerHeaders r c status read s = .ok headers s') : ∃ w, Kept r c read s w ∧ s' = { s with world := w } := by
  unfold answerHeaders at h
  cases hupstream : read.upstream with
  | some upstream =>
    rw [hupstream] at h
    simp only at h
    split at h
    · simp only [bind_ok, pure_ok] at h
      obtain ⟨handle, s₁, hkeep, -, rfl⟩ := h
      exact keepUpstream_ok hupstream hmethod hkeep
    · obtain ⟨-, rfl⟩ := pure_ok.mp h
      exact ⟨_, .same, rfl⟩
  | none =>
    rw [hupstream] at h
    obtain ⟨-, rfl⟩ := pure_ok.mp h
    exact ⟨_, .same, rfl⟩

theorem answerHeaders_error {status : Nat} {read : Reply} (h : answerHeaders r c status read s = .error e s') : s' = s := by
  unfold answerHeaders at h
  cases hupstream : read.upstream with
  | some upstream =>
    rw [hupstream] at h
    simp only at h
    split at h
    · simp only [bind_error, pure_error, and_false, exists_false, or_false] at h
      exact keepUpstream_error h
    · cases pure_error.mp h
  | none =>
    rw [hupstream] at h
    cases pure_error.mp h

theorem resume_error {reply : RelayResponse} (h : resume r c reply s = .error e s') : s' = s := by
  rw [resume, get_run] at h
  simp only [bind_error, require_error, require_ok, ofExcept_error, ofExcept_ok] at h
  rcases h with ⟨-, -, rfl⟩ | ⟨_, s₁, ⟨-, rfl⟩, ⟨-, rfl⟩ | ⟨read, s₂, ⟨-, rfl⟩, h⟩⟩
  · rfl
  · rfl
  · split at h
    · cases pure_error.mp h
    · simp only [Segment.change, bind_error, modify_error, pure_error, and_false, exists_false, or_false] at h
      exact answerHeaders_error h

theorem resume_ok {reply : RelayResponse} {answer : Answer} (h : resume r c reply s = .ok answer s') : ∃ read w,
    s.world.targets.get c.target = some c.connection ∧ readReply reply = .ok read ∧ Kept r c read s w ∧
      (answer = .deleteUnsupported ∨ ∃ headers, answer = .response reply.status headers read.body) ∧
      s' = { s with world := w.touchSession c reply.status } := by
  rw [resume, get_run] at h
  simp only [bind_ok, require_ok, ofExcept_ok, decide_eq_true_eq] at h
  obtain ⟨_, s₁, ⟨hroute, rfl⟩, read, s₂, ⟨hread, rfl⟩, h⟩ := h
  split at h
  · rename_i hmethod
    obtain ⟨rfl, rfl⟩ := pure_ok.mp h
    refine ⟨read, _, hroute, hread, .same, ?_, ?_⟩
    · split
      · exact .inl rfl
      · exact .inr ⟨_, rfl⟩
    · simp only [World.touchSession, Call.active, if_pos hmethod]
  rename_i hmethod
  simp only [Segment.change, bind_ok, modify_ok, pure_ok] at h
  obtain ⟨headers, s₃, hkept, _, s₄, rfl, rfl, rfl⟩ := h
  obtain ⟨w, hw, rfl⟩ := answerHeaders_ok hmethod hkept
  exact ⟨read, w, hroute, hread, hw, .inr ⟨_, rfl⟩, rfl⟩

/-! ## The segments of a call -/

/-- The call is between its first segment and its last. -/
def Stage.begun : Stage → Bool
  | .called | .ended _ => false
  | _ => true

namespace Forward

/-- Where a segment leads, from the state `s` and the locals in it. -/
inductive Turn (relay : Relay) (r : Reading) (s : Segment) : Segment → Prop
  | idle : Turn relay r s s
  | admitted {a : Admitted} : s.locals.stage = .called → admission relay s.world s.locals.request = .ok a →
    Turn relay r s ((begin' s.world s.locals).goto (.reading a []))
  | refused {e : Fault} : s.locals.stage = .called → Turn relay r s ((begin' s.world s.locals).finish (e.answer false))
  | left : s.locals.stage.begun = true → Turn relay r s (s.finish .raised)
  | timedOut : s.locals.stage.begun = true → s.locals.boundary ≤ s.world.clock → Turn relay r s (s.finish s.locals.boundaryAnswer)
  | read {a : Admitted} {body body' : Bytes} : s.locals.stage = .reading a body → Turn relay r s (s.goto (.reading a body'))
  | failed (e : Fault) : s.locals.stage.begun = true → Turn relay r s (s.finish (e.answer s.locals.forwarded))
  | undispatched {a : Admitted} {body : Bytes} {e : Fault} {s₁ : Segment} : s.locals.stage = .reading a body →
    Prepared a s s₁ → Turn relay r s (s₁.finish (e.answer s₁.locals.forwarded))
  | dispatched {a : Admitted} {body body' : Bytes} {c : Call} {s₁ : Segment} : s.locals.stage = .reading a body →
    dispatch relay r a body' s = .ok c s₁ → Turn relay r s (s₁.goto (.queued c))
  /-- The guard fails: the lock is taken and left. -/
  | held {c : Call} (e : Fault) : s.locals.stage = .queued c →
    guardChecks s.world s.locals.deadline c = .error e → (s.world.heap c.connection).locked = false →
    Turn relay r s (s.finish (e.answer s.locals.forwarded))
  | sent {c c' : Call} {remaining : Nat} : s.locals.stage = .queued c → (s.world.heap c.connection).locked = false →
    guardChecks s.world s.locals.deadline c = .ok remaining → c' = c.wired r remaining →
    Turn relay r s ((Segment.sent c' { s with world := s.world.edit c.connection ({ · with locked := true }) }).goto (.sending c'))
  | written {c : Call} : s.locals.stage = .sending c → Turn relay r s (s.unlock.goto (.awaiting c))
  | unread {c : Call} {reply : RelayResponse} (e : Fault) : s.locals.stage = .awaiting c →
    (s.world.heap c.connection).pending.get c.frame.requestId = some (.result reply) →
    Turn relay r s (s.finish (e.answer s.locals.forwarded))
  | answered {c : Call} {reply : RelayResponse} {answer : Answer} {s₁ : Segment} : s.locals.stage = .awaiting c →
    (s.world.heap c.connection).pending.get c.frame.requestId = some (.result reply) →
    resume r c reply s = .ok answer s₁ → Turn relay r s (s₁.finish answer)

/-- A lock that was taken for nothing. -/
theorem finish_held {c : Call} {answer : Answer} (hstage : s.locals.stage = .queued c)
    (hfree : (s.world.heap c.connection).locked = false) :
    Segment.finish answer (Segment.goto (.sending c) { s with world := s.world.edit c.connection ({ · with locked := true }) }) =
      s.finish answer := by
  have hsame : { (s.world.heap c.connection) with locked := false } = s.world.heap c.connection := by rw [← hfree]
  have hworld : (Segment.unlock (Segment.goto (.sending c)
      { s with world := s.world.edit c.connection ({ · with locked := true }) })).world = s.world := by
    simp only [Segment.unlock, Segment.goto, World.edit, Function.update_self, Function.update_idem, hsame, Function.update_eq_self]
  have hunlock : s.unlock = s := by simp only [Segment.unlock, hstage]
  simp only [Segment.finish, hworld, hunlock, hstage]
  rfl

section
attribute [local simp] step

theorem step_called (h : Happening) (hstage : s.locals.stage = .called) : Turn relay r s (step relay r h s) := by
  cases h with
  | done =>
    simp only [step, hstage]
    split
    · rename_i a hadmit
      exact .admitted hstage hadmit
    · exact .refused hstage
  | _ => simpa [hstage] using Turn.idle

theorem step_reading (h : Happening) (hstage : s.locals.stage = .reading a body) : Turn relay r s (step relay r h s) := by
  have hbegun : s.locals.stage.begun = true := by rw [hstage]; rfl
  cases h with
  | leaves => simpa [hstage] using Turn.left hbegun
  | boundary =>
    simp only [step, hstage]
    split
    · exact .timedOut hbegun ‹_›
    · exact .idle
  | chunk bytes last =>
    simp only [step, hstage]
    split
    · exact .failed _ hbegun
    split
    · cases hdispatch : dispatch relay r a (body ++ bytes) s with
      | ok c s₁ => exact .dispatched hstage hdispatch
      | error e s₁ => exact .undispatched hstage (dispatch_error hdispatch)
    · exact .read hstage
  | _ => simpa [hstage] using Turn.idle

theorem step_queued (h : Happening) (hstage : s.locals.stage = .queued c) : Turn relay r s (step relay r h s) := by
  have hbegun : s.locals.stage.begun = true := by rw [hstage]; rfl
  cases h with
  | leaves => simpa [hstage] using Turn.left hbegun
  | boundary =>
    simp only [step, hstage]
    split
    · exact .timedOut hbegun ‹_›
    · exact .idle
  | lapses =>
    simp only [step, hstage]
    split
    · exact .failed _ hbegun
    · exact .idle
  | done =>
    simp only [step, hstage]
    split
    · exact .idle
    rename_i hfree
    rw [Bool.not_eq_true] at hfree
    generalize hs₀ : Segment.goto (.sending c) { s with world := s.world.edit c.connection ({ · with locked := true }) } = s₀
    cases hguard : dispatchGuard r c s₀ with
    | ok c' s₁ =>
      obtain ⟨remaining, hchecks, hc', rfl⟩ := guard_ok hguard
      subst hs₀
      exact .sent hstage hfree hchecks hc'
    | error e s₁ =>
      obtain ⟨rfl, hchecks⟩ := guard_error hguard
      subst hs₀
      have hturn : Turn relay r s (s.finish (e.answer s.locals.forwarded)) := .held e hstage hchecks hfree
      rw [← finish_held hstage hfree] at hturn
      exact hturn
  | _ => simpa [hstage] using Turn.idle

theorem step_sending (h : Happening) (hstage : s.locals.stage = .sending c) : Turn relay r s (step relay r h s) := by
  have hbegun : s.locals.stage.begun = true := by rw [hstage]; rfl
  cases h with
  | leaves => simpa [hstage] using Turn.left hbegun
  | boundary =>
    simp only [step, hstage]
    split
    · exact .timedOut hbegun ‹_›
    · exact .idle
  | lapses =>
    simp only [step, hstage]
    split
    · exact .failed _ hbegun
    · exact .idle
  | done => simpa [hstage] using Turn.written hstage
  | raises =>
    simp only [step, hstage]
    exact .failed _ hbegun
  | _ => simpa [hstage] using Turn.idle

theorem step_awaiting (h : Happening) (hstage : s.locals.stage = .awaiting c) : Turn relay r s (step relay r h s) := by
  have hbegun : s.locals.stage.begun = true := by rw [hstage]; rfl
  cases h with
  | leaves => simpa [hstage] using Turn.left hbegun
  | boundary =>
    simp only [step, hstage]
    split
    · exact .timedOut hbegun ‹_›
    · exact .idle
  | lapses =>
    simp only [step, hstage]
    split
    · exact .failed _ hbegun
    · exact .idle
  | done =>
    simp only [step, hstage]
    split
    · rename_i reply hreply
      cases hresume : resume r c reply s with
      | ok answer s₁ => exact .answered hstage hreply hresume
      | error e s₁ =>
        obtain rfl := resume_error hresume
        exact .unread e hstage hreply
    · exact .failed _ hbegun
    · exact .idle
  | _ => simpa [hstage] using Turn.idle

/-- **What a segment of a call can do.** -/
theorem step_turn (h : Happening) : Turn relay r s (step relay r h s) := by
  cases hstage : s.locals.stage with
  | called => exact step_called h hstage
  | reading a body => exact step_reading h hstage
  | queued c => exact step_queued h hstage
  | sending c => exact step_sending h hstage
  | awaiting c => exact step_awaiting h hstage
  | ended answer => simpa [hstage] using Turn.idle

end

end Forward

end LingshuGate.Connector

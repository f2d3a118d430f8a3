import LingshuGate.Connector.Capacity

/-!
# What the relay may say of a call (`connector_relay.py:201-316`, `349-386`)

`dispatch_guard` raises both flags of a call in the segment that passes its frame to `send_json`, and every answer of an error reads
one of them. `Told` is what the flags tell; no other task writes the entries of a call, since each call has its number.
-/

namespace LingshuGate.Connector

open Lib

variable {relay : Relay} {r : Reading} {w w' w'' : World} {a : Admitted} {c : Call} {s s' : Segment}

/-! ## Segments that send nothing -/

structure Mute (w w' : World) : Prop where
  wire : w'.wire = w.wire
  calls : w'.calls = w.calls

theorem Mute.refl (w : World) : Mute w w := ⟨rfl, rfl⟩

theorem Mute.trans (h : Mute w w') (h' : Mute w' w'') : Mute w w'' := ⟨h'.wire.trans h.wire, h'.calls.trans h.calls⟩

/-- The sessions are as they were. -/
structure Untouched (w w' : World) : Prop where
  sessions : w'.sessions = w.sessions
  saved : w'.saved = w.saved
  clock : w'.clock = w.clock

theorem Untouched.refl (w : World) : Untouched w w := ⟨rfl, rfl, rfl⟩

theorem Untouched.trans (h : Untouched w w') (h' : Untouched w' w'') : Untouched w w'' :=
  ⟨h'.sessions.trans h.sessions, h'.saved.trans h.saved, h'.clock.trans h.clock⟩

theorem finish_mute (answer : Answer) (s : Segment) :
    Mute s.world (s.finish answer).world ∧ Untouched s.world (s.finish answer).world := by
  have hunlock : Mute s.world s.unlock.world ∧ Untouched s.world s.unlock.world := by
    unfold Segment.unlock
    split <;> exact ⟨⟨rfl, rfl⟩, ⟨rfl, rfl, rfl⟩⟩
  have hdismiss (v : World) (call : Option Call) : Mute v (call.elim v fun c => v.dismiss c.connection c.frame.requestId) ∧
      Untouched v (call.elim v fun c => v.dismiss c.connection c.frame.requestId) := by
    cases call <;> exact ⟨⟨rfl, rfl⟩, ⟨rfl, rfl, rfl⟩⟩
  have hrelease (v : World) (reserved : Bool) (consumer : Option ConnectorIdentity) :
      Mute v (if reserved then consumer.elim v fun i => v.release i.id else v) ∧
        Untouched v (if reserved then consumer.elim v fun i => v.release i.id else v) := by
    split
    · cases consumer with
      | none => exact ⟨.refl v, .refl v⟩
      | some i =>
        simp only [Option.elim_some]
        unfold World.release
        split <;> exact ⟨⟨rfl, rfl⟩, ⟨rfl, rfl, rfl⟩⟩
    · exact ⟨.refl v, .refl v⟩
  obtain ⟨hm₁, hu₁⟩ := hunlock
  obtain ⟨hm₂, hu₂⟩ := hdismiss s.unlock.world s.unlock.locals.stage.call
  obtain ⟨hm₃, hu₃⟩ := hrelease (s.unlock.locals.stage.call.elim s.unlock.world fun c =>
    s.unlock.world.dismiss c.connection c.frame.requestId) s.unlock.locals.reserved s.unlock.locals.stage.consumer
  exact ⟨hm₁.trans (hm₂.trans hm₃), hu₁.trans (hu₂.trans hu₃)⟩

theorem Prepared.mute (h : Prepared a s s') : Mute s.world s'.world := by
  cases h with
  | placed hreserve =>
    obtain ⟨-, -, rfl⟩ := reserve_ok hreserve
    exact ⟨rfl, rfl⟩
  | _ => exact ⟨rfl, rfl⟩

theorem touchSession_mute (c : Call) (status : Nat) (w : World) : Mute w (w.touchSession c status) := by
  unfold World.touchSession
  split
  · exact .refl w
  · split_ifs <;> exact ⟨rfl, rfl⟩

theorem Kept.mute {read : Reply} (h : Kept r c read s w) : Mute s.world w := by
  cases h <;> exact ⟨rfl, rfl⟩

theorem unlock_mute (s : Segment) : Mute s.world s.unlock.world ∧ Untouched s.world s.unlock.world ∧ s.unlock.locals = s.locals := by
  unfold Segment.unlock
  split <;> exact ⟨⟨rfl, rfl⟩, ⟨rfl, rfl, rfl⟩, rfl⟩

/-! ## What the flags of a call tell -/

/-- The frame has not been sent yet. -/
def Stage.early : Stage → Bool
  | .called | .reading .. | .queued _ => true
  | _ => false

/-- The frame was sent, and the call goes on. -/
def Stage.late : Stage → Bool
  | .sending _ | .awaiting _ => true
  | _ => false

structure Forward.Told (w : World) (f : Forward) : Prop where
  dispatched : f.dispatched = f.forwarded
  early : f.stage.early = true → f.forwarded = false
  late : f.stage.late = true → f.forwarded = true
  answer : ∀ code status, f.stage = .ended (.failure code false status) → f.forwarded = false
  number : f.stage ≠ .called → f.number < w.calls
  silent : f.stage ≠ .called → f.forwarded = false → ∀ sent ∈ w.wire, sent.call ≠ f.number
  headers : ∀ a body, f.stage = .reading a body → filteredHeaders requestHeaders f.request.headers = .ok a.headers

/-- The calls that have sent have begun. -/
def World.Numbered (w : World) : Prop := ∀ sent ∈ w.wire, sent.call < w.calls

/-- What the call leaves of the state for the others. -/
structure Spoken (s s' : Segment) : Prop where
  numbered : s'.world.Numbered
  told : s'.locals.Told s'.world
  wire : ∀ sent ∈ s'.world.wire, sent ∈ s.world.wire ∨ (sent.call = s'.locals.number ∧ s'.locals.stage ≠ .called)
  calls : s.world.calls ≤ s'.world.calls
  number : s'.locals.stage ≠ .called → s.locals.stage = .called ∧ s'.locals.number = s.world.calls ∨
    s.locals.stage ≠ .called ∧ s'.locals.number = s.locals.number
  request : s'.locals.request = s.locals.request
  forwarded : s.locals.forwarded = true → s'.locals.forwarded = true

variable {f f' : Forward}

/-- The locals differ in their place or their reservation. -/
structure Alike (f f' : Forward) : Prop where
  number : f'.number = f.number
  request : f'.request = f.request
  forwarded : f'.forwarded = f.forwarded
  dispatched : f'.dispatched = f.dispatched

theorem Prepared.alike (h : Prepared a s s') : Alike s.locals s'.locals := by
  obtain ⟨hrequest, hforwarded, hdispatched, hnumber, -⟩ := h.locals
  exact ⟨hnumber, hrequest, hforwarded, hdispatched⟩

/-- The call has begun; it goes on or ends, and sends nothing. -/
theorem Spoken.of_mute (hnumbered : s.world.Numbered) (htold : s.locals.Told s.world) (hbegun : s.locals.stage ≠ .called)
    (hmute : Mute s.world w) (halike : Alike s.locals f)
    (hearly : f.stage.early = true → s.locals.stage.early = true) (hlate : f.stage.late = true → s.locals.stage.late = true)
    (hanswer : ∀ code status, f.stage = .ended (.failure code false status) → f.forwarded = false)
    (hheaders : ∀ a body, f.stage = .reading a body → filteredHeaders requestHeaders s.locals.request.headers = .ok a.headers) :
    Spoken s ⟨w, f⟩ where
  numbered := by
    show ∀ sent ∈ w.wire, sent.call < w.calls
    rw [hmute.wire, hmute.calls]
    exact hnumbered
  told := by
    refine ⟨?_, fun h => ?_, fun h => ?_, hanswer, fun _ => ?_, fun _ hf => ?_, fun a body h => ?_⟩
    · rw [halike.dispatched, halike.forwarded, htold.dispatched]
    · rw [halike.forwarded]
      exact htold.early (hearly h)
    · rw [halike.forwarded]
      exact htold.late (hlate h)
    · rw [halike.number, hmute.calls]
      exact htold.number hbegun
    · rw [halike.number, hmute.wire]
      exact htold.silent hbegun (halike.forwarded ▸ hf)
    · rw [halike.request]
      exact hheaders a body h
  wire sent h := .inl (hmute.wire ▸ h)
  calls := Nat.le_of_eq hmute.calls.symm
  number _ := .inr ⟨hbegun, halike.number⟩
  request := halike.request
  forwarded h := halike.forwarded.trans h

theorem answer_honest {e : Fault} {forwarded : Bool} {code : String} {status : Nat}
    (h : e.answer forwarded = .failure code false status) : forwarded = false := by
  cases e with
  | relay _ _ unknown =>
    simp only [Fault.answer, Answer.failure.injEq, Bool.or_eq_false_iff] at h
    exact h.2.1.1
  | exchange =>
    simp only [Fault.answer, Answer.failure.injEq] at h
    exact h.2.1
  | other => cases h

/-- A call ends without sending. -/
theorem Spoken.finish (hnumbered : s.world.Numbered) (htold : s.locals.Told s.world) (hbegun : s.locals.stage ≠ .called)
    (hmute : Mute s.world w) (halike : Alike s.locals f) {answer : Answer}
    (hanswer : ∀ code status, answer = .failure code false status → f.forwarded = false) :
    Spoken s (Segment.finish answer ⟨w, f⟩) := by
  have hlocals : (Segment.unlock ⟨w, f⟩).locals = f := (unlock_mute ⟨w, f⟩).2.2
  refine .of_mute hnumbered htold hbegun (hmute.trans (finish_mute answer ⟨w, f⟩).1) ?_ (fun h => nomatch h) (fun h => nomatch h) ?_
    (fun _ _ h => nomatch h)
  · obtain ⟨h₁, h₂, h₃, h₄⟩ := halike
    rw [← hlocals] at h₁ h₂ h₃ h₄
    exact ⟨h₁, h₂, h₃, h₄⟩
  rintro code status h
  show (Segment.unlock ⟨w, f⟩).locals.forwarded = false
  rw [hlocals]
  cases h
  exact hanswer code status rfl

theorem Alike.refl (f : Forward) : Alike f f := ⟨rfl, rfl, rfl, rfl⟩

theorem admit_headers {request : Request} (h : admission relay w request = .ok a) :
    filteredHeaders requestHeaders request.headers = .ok a.headers := by
  simp only [admission, bind_eq_ok, require_eq_ok, pure_eq_ok] at h
  obtain ⟨consumer, -, -, -, connection, -, -, -, headers, hheaders, -, -, rfl⟩ := h
  cases hfiltered : filteredHeaders requestHeaders request.headers with
  | ok found =>
    rw [hfiltered] at hheaders
    cases hheaders
    rfl
  | error e =>
    rw [hfiltered] at hheaders
    cases hheaders

/-- A call begins, and takes a number. -/
theorem Spoken.begin' (hnumbered : s.world.Numbered) (htold : s.locals.Told s.world) (hstage : s.locals.stage = .called)
    (hmute : Mute (Forward.begin' s.world s.locals).world w) (halike : Alike (Forward.begin' s.world s.locals).locals f)
    (hearly : f.stage.late = false)
    (hheaders : ∀ a body, f.stage = .reading a body → filteredHeaders requestHeaders s.locals.request.headers = .ok a.headers) :
    Spoken s ⟨w, f⟩ := by
  have hfalse : f.forwarded = false := halike.forwarded.trans (htold.early (by rw [hstage]; rfl))
  have hwire : w.wire = s.world.wire := hmute.wire
  have hcalls : w.calls = s.world.calls + 1 := hmute.calls
  have hnumber : f.number = s.world.calls := halike.number
  refine ⟨fun sent h => ?_, ⟨?_, fun _ => hfalse, fun h => ?_, fun _ _ _ => hfalse, fun _ => ?_, fun _ _ sent h => ?_, fun a body h => ?_⟩,
    fun sent h => .inl (hwire ▸ h), ?_, fun _ => .inl ⟨hstage, hnumber⟩, halike.request, fun h => ?_⟩
  · have := hnumbered sent (hwire ▸ h)
    rw [hcalls]
    omega
  · exact halike.dispatched.trans (htold.dispatched.trans halike.forwarded.symm)
  · rw [hearly] at h
    cases h
  · rw [hnumber, hcalls]
    exact Nat.lt_succ_self _
  · have := hnumbered sent (hwire ▸ h)
    rw [hnumber]
    omega
  · rw [halike.request]
    exact hheaders a body h
  · rw [hcalls]
    exact Nat.le_succ _
  · exact halike.forwarded.trans h

theorem Stage.not_called {stage : Stage} (h : stage.begun = true) : stage ≠ .called := by
  rintro rfl
  cases h

/-- The frame of the call is sent. -/
theorem Spoken.sent (hnumbered : s.world.Numbered) (htold : s.locals.Told s.world) (hbegun : s.locals.stage ≠ .called)
    (hmute : Mute s.world w) :
    Spoken s ((Segment.sent c { s with world := w }).goto (.sending c)) := by
  have hwire : ((Segment.sent c { s with world := w }).goto (.sending c)).world.wire =
      s.world.wire ++ [⟨s.locals.number, c.connection, c.frame⟩] := congrArg (· ++ _) hmute.wire
  have hcalls : ((Segment.sent c { s with world := w }).goto (.sending c)).world.calls = s.world.calls := by
    simp only [Segment.sent, Segment.goto]
    cases c.active <;> exact hmute.calls
  have hnumber := htold.number hbegun
  refine ⟨fun sent h => ?_, ⟨rfl, by rintro ⟨⟩, fun _ => rfl, by rintro _ _ ⟨⟩, fun _ => hcalls ▸ hnumber,
    by rintro _ ⟨⟩, by rintro _ _ ⟨⟩⟩, fun sent h => ?_, Nat.le_of_eq hcalls.symm, fun _ => .inr ⟨hbegun, rfl⟩, rfl, fun _ => rfl⟩
  · rw [hwire, List.mem_append, List.mem_singleton] at h
    rw [hcalls]
    rcases h with h | rfl
    · exact hnumbered sent h
    · exact hnumber
  · rw [hwire, List.mem_append, List.mem_singleton] at h
    rcases h with h | rfl
    · exact .inl h
    · exact .inr ⟨rfl, by rintro ⟨⟩⟩

/-- **A segment of a call tells the truth.** -/
theorem Forward.Turn.spoken (h : Forward.Turn relay r s s') (hnumbered : s.world.Numbered) (htold : s.locals.Told s.world) :
    Spoken s s' := by
  have hfinish {w : World} {f : Forward} (hbegun : s.locals.stage ≠ .called) (hmute : Mute s.world w) (halike : Alike s.locals f)
      (e : Fault) : Spoken s (Segment.finish (e.answer f.forwarded) ⟨w, f⟩) :=
    .finish hnumbered htold hbegun hmute halike fun _ _ => answer_honest
  cases h with
  | idle =>
    by_cases hbegun : s.locals.stage = .called
    · exact ⟨hnumbered, htold, fun _ h => .inl h, Nat.le_refl _, fun h => absurd hbegun h, rfl, fun h => h⟩
    · exact ⟨hnumbered, htold, fun _ h => .inl h, Nat.le_refl _, fun _ => .inr ⟨hbegun, rfl⟩, rfl, fun h => h⟩
  | @admitted a hstage hadmit =>
    refine .begin' hnumbered htold hstage (.refl _) ⟨rfl, rfl, rfl, rfl⟩ rfl ?_
    intro a' body h
    cases h
    exact admit_headers hadmit
  | @refused e hstage =>
    refine .begin' hnumbered htold hstage (finish_mute (e.answer false) (Forward.begin' s.world s.locals)).1 ?_ rfl
      (fun _ _ h => nomatch h)
    have hlocals := (unlock_mute (Forward.begin' s.world s.locals)).2.2
    exact ⟨by rw [hlocals], by rw [hlocals], by rw [hlocals], by rw [hlocals]⟩
  | left hbegun =>
    exact .finish hnumbered htold (Stage.not_called hbegun) (.refl _) (.refl _) fun _ _ h => nomatch h
  | timedOut hbegun =>
    refine .finish hnumbered htold (Stage.not_called hbegun) (.refl _) (.refl _) fun code status h => ?_
    rw [← htold.dispatched]
    simp only [Forward.boundaryAnswer, Answer.failure.injEq] at h
    exact h.2.1
  | @read a body body' hstage =>
    refine .of_mute hnumbered htold (by rw [hstage]; exact fun h => nomatch h) (.refl _) ⟨rfl, rfl, rfl, rfl⟩
      (fun _ => by rw [hstage]; rfl) (fun h => nomatch h) (fun _ _ h => nomatch h) ?_
    intro a' body'' h
    cases h
    exact htold.headers a body hstage
  | failed e hbegun => exact hfinish (Stage.not_called hbegun) (.refl _) (.refl _) e
  | @undispatched a body e s₁ hstage hprepared =>
    exact hfinish (by rw [hstage]; exact fun h => nomatch h) hprepared.mute hprepared.alike e
  | @dispatched a body body' c s₁ hstage hdispatch =>
    obtain ⟨s₂, hdrafted, rfl⟩ := dispatch_ok hdispatch
    obtain ⟨hnumber, hrequest, hforwarded, hflag⟩ := hdrafted.prepared.alike
    exact .of_mute hnumbered htold (by rw [hstage]; exact fun h => nomatch h)
      (hdrafted.prepared.mute.trans ⟨rfl, rfl⟩) ⟨hnumber, hrequest, hforwarded, hflag⟩
      (fun _ => by rw [hstage]; rfl) (fun h => nomatch h) (fun _ _ h => nomatch h) (fun _ _ h => nomatch h)
  | held e hstage =>
    exact hfinish (by rw [hstage]; exact fun h => nomatch h) (.refl _) (.refl _) e
  | sent hstage =>
    exact .sent hnumbered htold (by rw [hstage]; exact fun h => nomatch h) ⟨rfl, rfl⟩
  | @written c hstage =>
    have hlocals := (unlock_mute s).2.2
    refine .of_mute hnumbered htold (by rw [hstage]; exact fun h => nomatch h) (unlock_mute s).1 ?_
      (fun h => nomatch h) (fun _ => by rw [hstage]; rfl) (fun _ _ h => nomatch h) (fun _ _ h => nomatch h)
    exact ⟨by rw [← hlocals], by rw [← hlocals], by rw [← hlocals], by rw [← hlocals]⟩
  | unread e hstage =>
    exact hfinish (by rw [hstage]; exact fun h => nomatch h) (.refl _) (.refl _) e
  | @answered c reply answer s₁ hstage _ hresume =>
    obtain ⟨read, w, -, -, hkept, hanswer, rfl⟩ := resume_ok hresume
    refine .finish hnumbered htold (by rw [hstage]; exact fun h => nomatch h) (hkept.mute.trans (touchSession_mute _ _ _)) (.refl _) ?_
    intro code status h
    rcases hanswer with rfl | ⟨headers, rfl⟩ <;> cases h

/-! ## What a call that is not forwarded does to the sessions -/

/-- The handle that a request names. -/
def Request.handle (request : Request) : String :=
  match filteredHeaders requestHeaders request.headers with
  | .ok headers => (headers.get "mcp-session-id").getD ""
  | .error _ => ""

/-- The sessions are as they were, except that expired ones may be gone, and the one that a DELETE names. -/
structure SessionsKept (request : Request) (w w' : World) : Prop where
  saved : w'.saved = w.saved
  sessions : ∀ handle, w'.sessions.get handle = w.sessions.get handle ∨ w'.sessions.get handle = none ∧
    ∃ ref, w.sessions.get handle = some ref ∧
      ((w.saved ref).deadline ≤ w'.clock ∨ request.method = .delete ∧ handle = request.handle)

variable {request : Request}

theorem Untouched.kept (h : Untouched w w') : SessionsKept request w w' := ⟨h.saved, fun handle => .inl (by rw [h.sessions])⟩

theorem SessionsKept.trans (h : SessionsKept request w w') (h' : SessionsKept request w' w'') (hclock : w'.clock ≤ w''.clock) :
    SessionsKept request w w'' := by
  refine ⟨h'.saved.trans h.saved, fun handle => ?_⟩
  rcases h.sessions handle with hsame | ⟨hgone, ref, href, hwhy⟩
  · rcases h'.sessions handle with hsame' | ⟨hgone', ref, href, hwhy⟩
    · exact .inl (hsame'.trans hsame)
    · rw [h.saved] at hwhy
      exact .inr ⟨hgone', ref, hsame ▸ href, hwhy⟩
  have hgone' : w''.sessions.get handle = none := by
    rcases h'.sessions handle with hsame' | ⟨hgone', -⟩
    · rw [hsame', hgone]
    · exact hgone'
  exact .inr ⟨hgone', ref, href, hwhy.imp_left fun h => Nat.le_trans h hclock⟩

theorem prune_kept (w : World) : SessionsKept request w w.prune := by
  refine ⟨rfl, fun handle => ?_⟩
  have hget : w.prune.sessions.get handle = (w.sessions.get handle).filter fun ref => !decide ((w.saved ref).deadline ≤ w.clock) :=
    Dict.get_delete _ _ _
  rw [hget]
  cases href : w.sessions.get handle with
  | none => exact .inl rfl
  | some ref =>
    by_cases hexpired : (w.saved ref).deadline ≤ w.clock
    · refine .inr ⟨?_, ref, rfl, .inl hexpired⟩
      simp [Option.filter, hexpired]
    · refine .inl ?_
      simp [Option.filter, hexpired]

theorem session_ok {handle consumer target : String} {k ref : Ref} (h : w.session handle consumer target k = .ok ref) :
    w.sessions.get handle = some ref := by
  simp only [World.session, bind_eq_ok, expect_eq_ok, pure_eq_ok] at h
  obtain ⟨_, hget, -, -, rfl⟩ := h
  exact hget

theorem Prepared.kept (h : Prepared a s s') (hheaders : filteredHeaders requestHeaders s.locals.request.headers = .ok a.headers) :
    SessionsKept s.locals.request s.world s'.world ∧ s'.world.clock = s.world.clock := by
  cases h with
  | same => exact ⟨(Untouched.refl _).kept, rfl⟩
  | pruned => exact ⟨prune_kept _, rfl⟩
  | @taken ref hmethod hsession =>
    refine ⟨(prune_kept _).trans ⟨rfl, fun handle => ?_⟩ (Nat.le_refl _), rfl⟩
    rw [Dict.get_pop]
    split
    · rename_i hhandle
      subst hhandle
      refine .inr ⟨rfl, ref, session_ok hsession, .inr ⟨hmethod, ?_⟩⟩
      rw [Request.handle, hheaders]
      rfl
    · exact .inl rfl
  | placed hreserve =>
    obtain ⟨-, -, rfl⟩ := reserve_ok hreserve
    exact ⟨(prune_kept s.world).trans (Untouched.kept ⟨rfl, rfl, rfl⟩) (Nat.le_refl _), rfl⟩

theorem Forward.Turn.sessions (h : Forward.Turn relay r s s') (htold : s.locals.Told s.world) :
    s'.locals.forwarded = true ∨ SessionsKept s.locals.request s.world s'.world := by
  have hlate (hstage : s.locals.stage.late = true) {answer : Answer} {w : World} :
      (Segment.finish answer ⟨w, s.locals⟩).locals.forwarded = true := by
    have hlocals : (Segment.unlock ⟨w, s.locals⟩).locals = s.locals := (unlock_mute ⟨w, s.locals⟩).2.2
    show (Segment.unlock ⟨w, s.locals⟩).locals.forwarded = true
    rw [hlocals]
    exact htold.late hstage
  have hfinish (answer : Answer) (s₁ : Segment) : SessionsKept s.locals.request s₁.world (s₁.finish answer).world :=
    (finish_mute answer s₁).2.kept
  cases h with
  | idle => exact .inr (Untouched.refl _).kept
  | admitted => exact .inr (Untouched.kept ⟨rfl, rfl, rfl⟩)
  | refused =>
    have hbegin : SessionsKept s.locals.request s.world (begin' s.world s.locals).world := Untouched.kept ⟨rfl, rfl, rfl⟩
    exact .inr (hbegin.trans (hfinish _ _) (Nat.le_of_eq (finish_mute _ _).2.clock.symm))
  | left | timedOut => exact .inr (hfinish _ _)
  | read => exact .inr (Untouched.kept ⟨rfl, rfl, rfl⟩)
  | failed => exact .inr (hfinish _ _)
  | @undispatched a body e s₁ hstage hprepared =>
    obtain ⟨hkept, -⟩ := hprepared.kept (htold.headers a body hstage)
    exact .inr (hkept.trans (hfinish _ _) (Nat.le_of_eq (finish_mute _ _).2.clock.symm))
  | @dispatched a body body' c s₁ hstage hdispatch =>
    obtain ⟨s₂, hdrafted, rfl⟩ := dispatch_ok hdispatch
    obtain ⟨hkept, hclock⟩ := hdrafted.prepared.kept (htold.headers a body hstage)
    exact .inr (hkept.trans (Untouched.kept ⟨rfl, rfl, rfl⟩) (Nat.le_refl _))
  | held => exact .inr (hfinish _ _)
  | sent => exact .inl rfl
  | written => exact .inr (unlock_mute s).2.1.kept
  | unread => exact .inr (hfinish _ _)
  | @answered c reply answer s₁ hstage _ hresume =>
    obtain ⟨read, w, -, -, -, -, rfl⟩ := resume_ok hresume
    exact .inl (hlate (by rw [hstage]; rfl))

/-! ## The whole relay -/

namespace AgentTask

variable {p : AgentTask}

theorem unlock_calm (p : AgentTask) (w : World) : Mute w (p.unlock w) := by
  unfold unlock
  split <;> exact ⟨rfl, rfl⟩

theorem finish_silent (p : AgentTask) (w : World) : Mute w (p.finish w) := by
  have hforget (v : World) (k : Option Ref) : Mute v (k.elim v (World.forget · v)) := by
    cases k <;> exact ⟨rfl, rfl⟩
  have hcount : Mute w (if p.handshaking then { w with handshakes := w.handshakes - 1 } else w) := by
    split <;> exact ⟨rfl, rfl⟩
  exact hcount.trans (hforget _ _)

theorem act_mute (p : AgentTask) (w : World) (h : Happening) : Mute w (p.act relay w r h).1 := by
  have hrefuse (p : AgentTask) : Mute w (p.refuse w).1 := unlock_calm p w
  unfold act
  split
  · exact .refl w
  · exact (unlock_calm p w).trans (finish_silent p _)
  · exact finish_silent _ w
  · exact hrefuse _
  · split
    · exact ⟨rfl, rfl⟩
    · exact hrefuse _
  · exact .refl w
  · split
    · exact ⟨rfl, rfl⟩
    · exact hrefuse _
  · split <;> exact ⟨rfl, rfl⟩
  · exact unlock_calm (sending _) w
  · unfold receive
    split
    · exact hrefuse _
    split
    · exact ⟨rfl, rfl⟩
    · split
      · exact hrefuse _
      · exact ⟨rfl, rfl⟩
  · exact .refl w

end AgentTask

theorem Maintain.act_mute (p : Maintain) (w : World) (h : Happening) : Mute w (p.act w h).1 := by
  unfold Maintain.act
  split
  · exact ⟨rfl, rfl⟩
  · exact .refl w
  · split <;> exact ⟨rfl, rfl⟩
  · exact ⟨rfl, rfl⟩
  · exact .refl w

/-- What a call may say holds of every call. -/
def Task.Told (w : World) : Task → Prop
  | .forward f => f.Told w
  | _ => True

/-- Two calls that have begun differ in their numbers. -/
def Task.Apart : Task → Task → Prop
  | .forward f, .forward f' => f.stage ≠ .called → f'.stage ≠ .called → f.number ≠ f'.number
  | _, _ => True

theorem Task.Apart.symm {p q : Task} (h : p.Apart q) : q.Apart p := by
  cases p <;> cases q <;> first | trivial | exact fun hq hp hsame => h hp hq hsame.symm

theorem Forward.Told.mute {f : Forward} (h : f.Told w) (hmute : Mute w w') : f.Told w' :=
  ⟨h.dispatched, h.early, h.late, h.answer, fun hs => hmute.calls ▸ h.number hs, fun hs hf => hmute.wire ▸ h.silent hs hf, h.headers⟩

theorem Task.Told.mute {p : Task} (h : p.Told w) (hmute : Mute w w') : p.Told w' := by
  cases p with
  | forward f => exact Forward.Told.mute h hmute
  | _ => trivial

theorem Mute.numbered (h : Mute w w') (hw : w.Numbered) : w'.Numbered := by
  intro sent hsent
  rw [h.calls]
  exact hw sent (h.wire ▸ hsent)

theorem advance_mute (r : Reading) (w : World) : Mute w (w.advance r) := ⟨rfl, rfl⟩

/-- What the segment of a call leaves to another call. -/
theorem Spoken.other {p : Forward} {q : Task} (h : Spoken s s') (hs : s.locals = p) (hq : q.Told s.world)
    (hapart : (Task.forward p).Apart q) : q.Told s'.world ∧ (Task.forward s'.locals).Apart q := by
  subst hs
  cases q with
  | forward f =>
    have hdiffer : s'.locals.stage ≠ .called → f.stage ≠ .called → s'.locals.number ≠ f.number := by
      intro hstage' hstage hsame
      rcases h.number hstage' with ⟨-, hnew⟩ | ⟨hbegun, hold⟩
      · have := hq.number hstage
        omega
      · exact hapart hbegun hstage (hold ▸ hsame)
    refine ⟨⟨hq.dispatched, hq.early, hq.late, hq.answer, fun hstage => Nat.lt_of_lt_of_le (hq.number hstage) h.calls, ?_, hq.headers⟩,
      hdiffer⟩
    intro hstage hforwarded sent hsent
    rcases h.wire sent hsent with hold | ⟨hown, hstage'⟩
    · exact hq.silent hstage hforwarded sent hold
    · exact hown ▸ hdiffer hstage' hstage
  | _ => exact ⟨trivial, trivial⟩

theorem segment_told {w w' : World} {p p' q : Task} {e : Event} (hw : w.Numbered) (hp : p.Told w)
    (h : relay.segment w p e = (w', p')) :
    (w'.Numbered ∧ p'.Told w') ∧ (q.Told w → p.Apart q → q.Told w' ∧ p'.Apart q) := by
  unfold Relay.segment at h
  split at h
  · cases h
    exact ⟨⟨hw, hp⟩, fun hq hapart => ⟨hq, hapart⟩⟩
  have hquiet {w₁ : World} {p₁ : Task} (hmute : Mute w w₁) (hnot : ∀ f, p₁ ≠ .forward f) :
      (w₁.Numbered ∧ p₁.Told w₁) ∧ (q.Told w → p.Apart q → q.Told w₁ ∧ p₁.Apart q) := by
    refine ⟨⟨hmute.numbered hw, ?_⟩, fun hq _ => ⟨hq.mute hmute, ?_⟩⟩
    · cases p₁ with
      | forward f => exact absurd rfl (hnot f)
      | _ => trivial
    · cases p₁ with
      | forward f => exact absurd rfl (hnot f)
      | _ => trivial
  cases p with
  | agent p =>
    cases h
    exact hquiet ((advance_mute e.1 w).trans (AgentTask.act_mute p _ e.2)) fun _ h => nomatch h
  | forward f =>
    cases h
    have hspoken : Spoken ⟨w.advance e.1, f⟩ (Forward.step relay e.1 e.2 ⟨w.advance e.1, f⟩) :=
      (Forward.step_turn e.2).spoken ((advance_mute e.1 w).numbered hw) (Task.Told.mute hp (advance_mute e.1 w))
    exact ⟨⟨hspoken.numbered, hspoken.told⟩, fun hq hapart => hspoken.other rfl (hq.mute (advance_mute e.1 w)) hapart⟩
  | maintain p =>
    cases h
    exact hquiet ((advance_mute e.1 w).trans (Maintain.act_mute p _ e.2)) fun _ h => nomatch h

/-- In every reachable state each call may say what it says. -/
theorem told_run {w : Serving} {tr : List (Pool.Event Task Event)} (h : Run relay.Step Relay.starting tr w) :
    Pool.Holds World.Numbered Task.Told w ∧ Pool.Apart Task.Apart w := by
  refine Pool.invariant_apart h ⟨⟨fun _ h => (nomatch h), fun _ h => nomatch h⟩, .nil⟩ (fun _ _ => Task.Apart.symm) ?_ ?_ ?_
  · intro w p _ hp
    cases p with
    | forward f =>
      obtain ⟨request, rfl⟩ := hp
      refine ⟨⟨rfl, fun _ => rfl, (nomatch ·), fun _ _ _ => rfl, fun h => absurd rfl h, fun h => absurd rfl h, fun _ _ h => nomatch h⟩, ?_⟩
      intro q _
      cases q with
      | forward f => exact fun h => absurd rfl h
      | _ => trivial
    | _ => exact ⟨trivial, fun _ _ => trivial⟩
  · intro w p e w' p' hw hp hact
    exact (segment_told (q := .maintain .status) hw hp hact).1
  · intro w p e w' p' q hw hp hq hapart hact
    exact (segment_told hw hp hact).2 hq hapart

/-- The thread is the same call, and is forwarded if it was. -/
def Task.Goes (p p' : Task) : Prop :=
  match p' with
  | .forward f' => ∃ f, p = .forward f ∧ f'.request = f.request ∧ (f.forwarded = true → f'.forwarded = true)
  | _ => ∀ f, p ≠ .forward f

theorem Task.Goes.refl (p : Task) : p.Goes p := by
  cases p with
  | forward f => exact ⟨f, rfl, rfl, fun h => h⟩
  | _ => exact fun _ h => nomatch h

theorem Task.Goes.trans {p q r : Task} (h : p.Goes q) (h' : q.Goes r) : p.Goes r := by
  cases r with
  | forward f'' =>
    obtain ⟨f', rfl, hrequest', hforwarded'⟩ := h'
    obtain ⟨f, rfl, hrequest, hforwarded⟩ := h
    exact ⟨f, rfl, hrequest'.trans hrequest, fun h => hforwarded' (hforwarded h)⟩
  | _ =>
    cases q with
    | forward f' => exact absurd rfl (h' f')
    | _ => exact h

theorem segment_goes {w w' : World} {p p' : Task} {e : Event} (hw : w.Numbered) (hp : p.Told w)
    (h : relay.segment w p e = (w', p')) : p.Goes p' := by
  unfold Relay.segment at h
  split at h
  · cases h
    exact .refl p
  cases p with
  | forward f =>
    cases h
    have hspoken : Spoken ⟨w.advance e.1, f⟩ (Forward.step relay e.1 e.2 ⟨w.advance e.1, f⟩) :=
      (Forward.step_turn e.2).spoken ((advance_mute e.1 w).numbered hw) (Task.Told.mute hp (advance_mute e.1 w))
    exact ⟨f, rfl, hspoken.request, hspoken.forwarded⟩
  | _ =>
    cases h
    exact fun _ h => nomatch h

/-- A call that has ended unforwarded was never forwarded, and each of its segments has kept the sessions. -/
theorem segment_sessions {w w' : World} {f : Forward} {p' : Task} {e : Event} (hp : f.Told w)
    (h : relay.segment w (.forward f) e = (w', p')) :
    (∃ f', p' = .forward f' ∧ f'.forwarded = true) ∨ SessionsKept f.request w w' := by
  unfold Relay.segment at h
  split at h
  · cases h
    exact .inr (Untouched.refl _).kept
  cases h
  have hturn : Forward.Turn relay e.1 ⟨w.advance e.1, f⟩ (Forward.step relay e.1 e.2 ⟨w.advance e.1, f⟩) := Forward.step_turn e.2
  rcases hturn.sessions (Forward.Told.mute hp (advance_mute e.1 w)) with hforwarded | hkept
  · exact .inl ⟨_, rfl, hforwarded⟩
  · exact .inr ⟨hkept.saved, hkept.sessions⟩

/-- **A call that is answered `not_forwarded` was not forwarded.** No frame of it was ever passed to `send_json`; and each of its
segments has left the sessions as they were, except for expired ones, and for the one that a DELETE has found under its handle. -/
theorem outcome_honest {w : Serving} {tr : List (Pool.Event Task Event)} {i : Nat} {f : Forward} {code : String} {status : Nat}
    (h : Run relay.Step Relay.starting tr w) (hf : w.threads[i]? = some (.forward f))
    (hanswer : f.stage = .ended (.failure code false status)) :
    (∀ sent ∈ w.shared.wire, sent.call ≠ f.number) ∧
    ∀ (pre post : List (Pool.Event Task Event)) (e : Event) (t u : Serving), tr = pre ++ .act i e :: post →
      Run relay.Step Relay.starting pre t → relay.Step t (.act i e) u → Run relay.Step u post w →
        SessionsKept f.request t.shared u.shared := by
  obtain ⟨⟨-, htold⟩, -⟩ := told_run h
  have hf_told : f.Told w.shared := htold _ (List.mem_of_getElem? hf)
  have hnot : f.forwarded = false := hf_told.answer code status hanswer
  refine ⟨hf_told.silent (by rw [hanswer]; exact fun h => nomatch h) hnot, ?_⟩
  intro pre post e t u _ hpre hstep hpost
  have hu : Reachable relay.Step Relay.starting u := ⟨_, hpre.snoc hstep⟩
  obtain ⟨⟨-, ht⟩, -⟩ := told_run hpre
  cases hstep with
  | @act _ p p' _ x' hp hact =>
    have hp' : (t.threads.set i p')[i]? = some p' := List.getElem?_set_self (List.getElem?_eq_some_iff.mp hp).1
    have hgoes (v : Serving) (q : Task) (e : Event) (x : World) (q' : Task) (hv : Reachable relay.Step Relay.starting v)
        (hq : q ∈ v.threads) (hact : relay.segment v.shared q e = (x, q')) : q.Goes q' := by
      obtain ⟨_, hv⟩ := hv
      obtain ⟨⟨hnumbered, htold⟩, -⟩ := told_run hv
      exact segment_goes hnumbered (htold q hq) hact
    -- what the call is after this segment, from what it is at the end
    obtain ⟨last, hlast, hrest⟩ := Pool.thread_run hpost hu (fun v e v' ⟨tr, hv⟩ hs => ⟨_, hv.snoc hs⟩) Task.Goes.refl
      (fun _ _ _ => Task.Goes.trans) hgoes hp'
    rw [hf] at hlast
    cases hlast
    obtain ⟨f', rfl, hrequest', hforwarded'⟩ := hrest
    obtain ⟨f₀, rfl, hrequest, -⟩ := hgoes t p e x' _ ⟨_, hpre⟩ (List.mem_of_getElem? hp) hact
    rw [hrequest', hrequest]
    rcases segment_sessions (ht _ (List.mem_of_getElem? hp)) hact with ⟨_, hsame, hforwarded⟩ | hkept
    · cases hsame
      rw [hforwarded' hforwarded] at hnot
      cases hnot
    · exact hkept

/-! ### A session that is deleted without its frame -/

/-- The only reply opens the session `private`. -/
def replyingRelay : Relay :=
  { callingRelay with json := { callingRelay.json with
      text := fun raw =>
        if raw = "reply" then
          .ok (.obj [("request_id", .str sampleToken), ("status", .int 200),
            ("headers", .obj [("mcp-session-id", .str "private")]), ("body", .str "e30=")])
        else callingRelay.json.text raw } }

def deleteCall : Task :=
  .forward { request := {
    headers := [("authorization", "Bearer c" ++ sampleToken), ("mcp-session-id", "9")], target := "target", method := .delete } }

/-- A session is opened, the agent holds the lock, and a DELETE of the session has been admitted. -/
def opened : List (Pool.Event Task Event) :=
  opening.dropLast ++
    [.act 1 (⟨0, 0, sampleToken⟩, .chunk [123, 125] true), turn 6 1 .done, turn 7 1 .done, turn 8 0 (.text "reply"), turn 9 1 .done,
      turn 10 0 (.text "\x7b\"kind\":\"heartbeat\"\x7d"), turn 11 0 .done, .start deleteCall, turn 12 2 .done]

/-- The DELETE takes its session, and its time runs out before it has the lock. -/
def deleted : List (Pool.Event Task Event) := [turn 13 2 (.chunk [] true), turn 14 2 .lapses 60000]

def openedState : Serving := Pool.play replyingRelay.segment Relay.starting opened

def takenState : Serving := Pool.play replyingRelay.segment openedState (deleted.take 1)

def deletedState : Serving := Pool.play replyingRelay.segment takenState (deleted.drop 1)

theorem opened_run : Run replyingRelay.Step Relay.starting opened openedState := by
  have hrun : Run (fun w e w' => replyingRelay.Step w e w' ∧ True) Relay.starting opened openedState :=
    Pool.play_run (by simp [Pool.Playable, opened, opening, turn, sampleAgent, sampleCall, deleteCall, Task.starts, Relay.starting])
      (Pool.along_true _)
  exact hrun.mono fun _ _ _ hs => hs.1

theorem opened_threads : openedState.threads.length = 3 ∧ takenState.threads.length = 3 := by decide +kernel

theorem taken_step : replyingRelay.Step openedState (turn 13 2 (.chunk [] true)) takenState :=
  (Pool.next_act (w := openedState) (by rw [opened_threads.1]; decide)).1

theorem deleted_run : Run replyingRelay.Step takenState [turn 14 2 .lapses 60000] deletedState :=
  (Run.nil takenState).snoc (Pool.next_act (w := takenState) (by rw [opened_threads.2]; decide)).1

theorem deleted_answer : deletedState.threads[2]?.bind (fun p => match p with
      | .forward f => some (f.request.method, f.number, f.stage matches .ended (.failure "connector_exchange_failed" false 400))
      | _ => none) = some (.delete, 1, true) := by
  decide +kernel

/-- The session is in the map with an hour to go, and then it is not. -/
theorem deleted_sessions : openedState.shared.sessions.get "9" = some 0 ∧ takenState.shared.sessions.get "9" = none ∧
    takenState.shared.clock < (openedState.shared.saved 0).deadline ∧ deletedState.shared.wire.length = 1 := by
  decide +kernel

theorem deleted_call : ∃ f, deletedState.threads[2]? = some (.forward f) ∧
    f.stage = .ended (.failure "connector_exchange_failed" false 400) := by
  have hanswer := deleted_answer
  cases hp : deletedState.threads[2]? with
  | none =>
    rw [hp] at hanswer
    cases hanswer
  | some p =>
    rw [hp] at hanswer
    cases p with
    | forward f =>
      refine ⟨f, rfl, ?_⟩
      simp only [Option.bind_some, Option.some.injEq, Prod.mk.injEq] at hanswer
      obtain ⟨-, -, hstage⟩ := hanswer
      split at hstage
      · assumption
      · cases hstage
    | _ => cases hanswer

/-- The whole of it: the DELETE is answered, and the session is gone. -/
theorem deleted_whole : Run replyingRelay.Step Relay.starting
    (opened ++ turn 13 2 (.chunk [] true) :: [turn 14 2 .lapses 60000]) deletedState :=
  opened_run.append (.cons taken_step deleted_run)

theorem outcome_honest_deleted : ∃ f, deletedState.threads[2]? = some (.forward f) ∧
    (∀ sent ∈ deletedState.shared.wire, sent.call ≠ f.number) ∧
    SessionsKept f.request openedState.shared takenState.shared := by
  obtain ⟨f, hf, hstage⟩ := deleted_call
  obtain ⟨hunsent, hkept⟩ := outcome_honest deleted_whole hf hstage
  exact ⟨f, hf, hunsent, hkept opened _ _ _ _ rfl opened_run taken_step deleted_run⟩

/-- A call that is answered `not_forwarded` may have taken a session that has not expired. -/
theorem not_forwarded_takes : ¬ ∀ (tr : List (Pool.Event Task Event)) (w : Serving) (i : Nat) (f : Forward) (code : String)
    (status : Nat), Run replyingRelay.Step Relay.starting tr w → w.threads[i]? = some (.forward f) →
    f.stage = .ended (.failure code false status) →
    (∀ sent ∈ w.shared.wire, sent.call ≠ f.number) ∧
    ∀ (pre post : List (Pool.Event Task Event)) (e : Event) (t u : Serving), tr = pre ++ .act i e :: post →
      Run replyingRelay.Step Relay.starting pre t → replyingRelay.Step t (.act i e) u → Run replyingRelay.Step u post w →
        ∀ handle ref, t.shared.sessions.get handle = some ref → u.shared.sessions.get handle = none →
          (t.shared.saved ref).deadline ≤ u.shared.clock := by
  intro hclaim
  obtain ⟨f, hf, hstage⟩ := deleted_call
  obtain ⟨hbefore, hafter, hclock, -⟩ := deleted_sessions
  have hexpired := (hclaim _ _ 2 f _ _ deleted_whole hf hstage).2 opened _ _ _ _ rfl opened_run taken_step deleted_run "9" 0
    hbefore hafter
  omega

end LingshuGate.Connector

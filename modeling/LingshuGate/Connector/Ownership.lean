import Mathlib.Tactic.SplitIfs
import LingshuGate.Connector.Turns

/-!
# Who owns targets and sessions (`connector_relay.py:118-177`)

`Owned` is the invariant of the tables. Most of what a segment does leaves the registry alone: `Quiet` says that connections and
targets are as they were and that no session has come in. What remains is a registration, a `forget` and the session of a
successful reply, and each of them checks and writes in one segment.
-/

namespace LingshuGate.Connector

open Lib

variable {relay : Relay} {r : Reading} {w w' w'' : World} {a : Admitted} {c : Call} {s s' : Segment} {k : Ref} {handle id target : String}

/-! ## What leaves the registry alone -/

structure Quiet (w w' : World) : Prop where
  identity : ∀ k, (w'.heap k).identity = (w.heap k).identity
  announced : ∀ k, (w'.heap k).targets = (w.heap k).targets
  generation : ∀ k, (w'.heap k).generation = (w.heap k).generation
  allocated : w'.allocated = w.allocated
  connections : w'.connections = w.connections
  targets : w'.targets = w.targets
  handshakes : w'.handshakes = w.handshakes
  issued : ∀ token ∈ w.issued, token ∈ w'.issued
  sessions : ∀ handle ref, w'.sessions.get handle = some ref → w.sessions.get handle = some ref
  allocatedSessions : w'.allocatedSessions = w.allocatedSessions
  owner : ∀ ref, (w'.saved ref).target = (w.saved ref).target ∧ (w'.saved ref).revision = (w.saved ref).revision ∧
    (w'.saved ref).generation = (w.saved ref).generation

theorem Quiet.refl (w : World) : Quiet w w :=
  ⟨fun _ => rfl, fun _ => rfl, fun _ => rfl, rfl, rfl, rfl, rfl, fun _ h => h, fun _ _ h => h, rfl, fun _ => ⟨rfl, rfl, rfl⟩⟩

theorem Quiet.trans (h : Quiet w w') (h' : Quiet w' w'') : Quiet w w'' where
  identity k := (h'.identity k).trans (h.identity k)
  announced k := (h'.announced k).trans (h.announced k)
  generation k := (h'.generation k).trans (h.generation k)
  allocated := h'.allocated.trans h.allocated
  connections := h'.connections.trans h.connections
  targets := h'.targets.trans h.targets
  handshakes := h'.handshakes.trans h.handshakes
  issued token ht := h'.issued token (h.issued token ht)
  sessions handle ref href := h.sessions handle ref (h'.sessions handle ref href)
  allocatedSessions := h'.allocatedSessions.trans h.allocatedSessions
  owner ref := by
    obtain ⟨h₁, h₂, h₃⟩ := h.owner ref
    obtain ⟨h₁', h₂', h₃'⟩ := h'.owner ref
    exact ⟨h₁'.trans h₁, h₂'.trans h₂, h₃'.trans h₃⟩

/-- A table of sessions that has lost some. -/
theorem Quiet.sessions_sub {sessions : Dict String Ref} (h : ∀ handle ref, sessions.get handle = some ref → w.sessions.get handle = some ref) :
    Quiet w { w with sessions } :=
  ⟨fun _ => rfl, fun _ => rfl, fun _ => rfl, rfl, rfl, rfl, rfl, fun _ h => h, h, rfl, fun _ => ⟨rfl, rfl, rfl⟩⟩

theorem quiet_delete (p : String × Ref → Bool) : Quiet w { w with sessions := w.sessions.delete p } := by
  refine .sessions_sub fun handle ref h => ?_
  rw [Dict.get_delete] at h
  exact (Option.filter_eq_some_iff.mp h).1

theorem quiet_prune : Quiet w w.prune := quiet_delete _

theorem quiet_pop (handle : String) : Quiet w { w with sessions := w.sessions.pop handle } := quiet_delete _

/-- Only the requests, the lock or the last heartbeat of a connection change. -/
theorem quiet_edit {f : AgentConnection → AgentConnection} (k : Ref)
    (hf : ∀ c, (f c).identity = c.identity ∧ (f c).targets = c.targets ∧ (f c).generation = c.generation) : Quiet w (w.edit k f) := by
  have hsame (j : Ref) : ((w.edit k f).heap j).identity = (w.heap j).identity ∧
      ((w.edit k f).heap j).targets = (w.heap j).targets ∧ ((w.edit k f).heap j).generation = (w.heap j).generation := by
    simp only [World.edit, Function.update_apply]
    split
    · rename_i hj
      rw [hj]
      exact hf _
    · exact ⟨rfl, rfl, rfl⟩
  exact ⟨fun j => (hsame j).1, fun j => (hsame j).2.1, fun j => (hsame j).2.2, rfl, rfl, rfl, rfl, fun _ h => h, fun _ _ h => h, rfl,
    fun _ => ⟨rfl, rfl, rfl⟩⟩

theorem quiet_editSession {f : SavedSession → SavedSession} (ref : Ref)
    (hf : ∀ v, (f v).target = v.target ∧ (f v).revision = v.revision ∧ (f v).generation = v.generation) :
    Quiet w (w.editSession ref f) := by
  refine ⟨fun _ => rfl, fun _ => rfl, fun _ => rfl, rfl, rfl, rfl, rfl, fun _ h => h, fun _ _ h => h, rfl, fun j => ?_⟩
  simp only [World.editSession, Function.update_apply]
  split
  · rename_i hj
    rw [hj]
    exact hf _
  · exact ⟨rfl, rfl, rfl⟩

theorem quiet_reserve {consumer : String} (h : World.reserve consumer w = .ok w') : Quiet w w' := by
  obtain ⟨-, -, rfl⟩ := reserve_ok h
  exact ⟨fun _ => rfl, fun _ => rfl, fun _ => rfl, rfl, rfl, rfl, rfl, fun _ h => h, fun _ _ h => h, rfl, fun _ => ⟨rfl, rfl, rfl⟩⟩

theorem quiet_release (consumer : String) : Quiet w (w.release consumer) := by
  unfold World.release
  split
  · exact .refl w
  · exact ⟨fun _ => rfl, fun _ => rfl, fun _ => rfl, rfl, rfl, rfl, rfl, fun _ h => h, fun _ _ h => h, rfl, fun _ => ⟨rfl, rfl, rfl⟩⟩

theorem quiet_touchSession (c : Call) (status : Nat) : Quiet w (w.touchSession c status) := by
  unfold World.touchSession
  split
  · exact .refl w
  split_ifs
  · exact quiet_pop _
  · refine quiet_editSession _ ?_
    exact fun _ => ⟨rfl, rfl, rfl⟩
  · exact .refl w

theorem quiet_unlock (s : Segment) : Quiet s.world s.unlock.world := by
  unfold Segment.unlock
  split
  · rename_i c _
    exact quiet_edit (f := ({ · with locked := false })) c.connection fun _ => ⟨rfl, rfl, rfl⟩
  · exact .refl _

theorem quiet_enqueue (w : World) (k : Ref) (requestId : String) (owner : String × String) : Quiet w (w.enqueue k requestId owner) :=
  quiet_edit (f := fun c =>
    { c with pending := c.pending.set requestId .pending, pendingOwners := c.pendingOwners.set requestId owner }) k
    fun _ => ⟨rfl, rfl, rfl⟩

theorem quiet_dismiss (w : World) (k : Ref) (requestId : String) : Quiet w (w.dismiss k requestId) :=
  quiet_edit (f := fun c => { c with pending := c.pending.pop requestId, pendingOwners := c.pendingOwners.pop requestId }) k
    fun _ => ⟨rfl, rfl, rfl⟩

theorem quiet_finish (answer : Answer) (s : Segment) : Quiet s.world (s.finish answer).world := by
  have hdismiss (w : World) (call : Option Call) : Quiet w (call.elim w fun c => w.dismiss c.connection c.frame.requestId) := by
    cases call with
    | none => exact .refl w
    | some c => exact quiet_dismiss w _ _
  have hrelease (w : World) (consumer : Option ConnectorIdentity) :
      Quiet w (if s.unlock.locals.reserved then consumer.elim w fun i => w.release i.id else w) := by
    split
    · cases consumer with
      | none => exact .refl w
      | some i => exact quiet_release _
    · exact .refl w
  exact (quiet_unlock s).trans ((hdismiss _ _).trans (hrelease _ _))

theorem Prepared.quiet (h : Prepared a s s') : Quiet s.world s'.world := by
  cases h with
  | same => exact .refl _
  | pruned => exact quiet_prune
  | taken => exact quiet_prune.trans (quiet_pop _)
  | placed hreserve => exact quiet_prune.trans (quiet_reserve hreserve)

theorem quiet_sent (c : Call) (s : Segment) : Quiet s.world (s.sent c).world := by
  have hwire (w : World) (wire : List Sent) : Quiet w { w with wire } :=
    ⟨fun _ => rfl, fun _ => rfl, fun _ => rfl, rfl, rfl, rfl, rfl, fun _ h => h, fun _ _ h => h, rfl, fun _ => ⟨rfl, rfl, rfl⟩⟩
  unfold Segment.sent
  cases c.active with
  | none => exact hwire _ _
  | some ref =>
    have hedit : Quiet s.world (s.world.editSession ref ({ · with deadline := s.world.clock + sessionTtl })) :=
      quiet_editSession ref fun _ => ⟨rfl, rfl, rfl⟩
    exact hedit.trans (hwire _ _)

/-! ## The invariant -/

/-- The connection is registered and announces the target with this revision. -/
def World.announces (w : World) (k : Ref) (target revision : String) : Prop :=
  w.connections.get (w.heap k).identity.id = some k ∧ (w.heap k).targets.get target = some revision

structure Owned (w : World) : Prop where
  named : ∀ id k, w.connections.get id = some k → (w.heap k).identity.id = id
  allocated : ∀ id k, w.connections.get id = some k → k < w.allocated
  targets : ∀ target k, w.targets.get target = some k → ∃ revision, w.announces k target revision
  sessions : ∀ handle ref, w.sessions.get handle = some ref →
    ∃ k, w.announces k (w.saved ref).target (w.saved ref).revision ∧ (w.heap k).generation = (w.saved ref).generation
  sessionsAllocated : ∀ handle ref, w.sessions.get handle = some ref → ref < w.allocatedSessions
  issued : ∀ k, k < w.allocated → (w.heap k).generation ∈ w.issued
  fresh : ∀ j k, j < w.allocated → k < w.allocated → (w.heap j).generation = (w.heap k).generation → j = k

theorem Owned.empty : Owned {} where
  named _ _ h := nomatch h
  allocated _ _ h := nomatch h
  targets _ _ h := nomatch h
  sessions _ _ h := nomatch h
  sessionsAllocated _ _ h := nomatch h
  issued _ h := absurd h (Nat.not_lt_zero _)
  fresh _ _ h := absurd h (Nat.not_lt_zero _)

theorem Quiet.announces (h : Quiet w w') {revision : String} (ha : w.announces k target revision) : w'.announces k target revision := by
  rw [World.announces, h.connections, h.identity, h.announced]
  exact ha

theorem Owned.quiet (hw : Owned w) (h : Quiet w w') : Owned w' where
  named id k hk := by
    rw [h.connections] at hk
    rw [h.identity, hw.named id k hk]
  allocated id k hk := by
    rw [h.connections] at hk
    rw [h.allocated]
    exact hw.allocated id k hk
  targets target k hk := by
    rw [h.targets] at hk
    obtain ⟨revision, hannounces⟩ := hw.targets target k hk
    exact ⟨revision, h.announces hannounces⟩
  sessions handle ref href := by
    obtain ⟨k, hannounces, hgeneration⟩ := hw.sessions handle ref (h.sessions handle ref href)
    obtain ⟨htarget, hrevision, hsaved⟩ := h.owner ref
    refine ⟨k, ?_, ?_⟩
    · rw [htarget, hrevision]
      exact h.announces hannounces
    · rw [h.generation, hsaved, hgeneration]
  sessionsAllocated handle ref href := by
    rw [h.allocatedSessions]
    exact hw.sessionsAllocated handle ref (h.sessions handle ref href)
  issued k hk := by
    rw [h.allocated] at hk
    rw [h.generation]
    exact h.issued _ (hw.issued k hk)
  fresh j k hj hk hsame := by
    rw [h.allocated] at hj hk
    rw [h.generation, h.generation] at hsame
    exact hw.fresh j k hj hk hsame

/-! ## Registration, forgetting, new sessions -/

theorem get_foldl_forget (ts : List String) (d : Dict String Ref) (k : Ref) (target : String) :
    (ts.foldl (fun d t => if d.get t = some k then d.pop t else d) d).get target =
      if target ∈ ts ∧ d.get target = some k then none else d.get target := by
  induction ts generalizing d with
  | nil => simp
  | cons t ts ih =>
    rw [List.foldl_cons, ih]
    by_cases hk : d.get t = some k
    · rw [if_pos hk, Dict.get_pop]
      by_cases ht : target = t
      · subst ht
        simp [hk]
      · simp [ht]
    rw [if_neg hk]
    by_cases ht : target = t
    · subst ht
      simp [hk]
    · simp [ht]

theorem forget_connections (k : Ref) (w : World) (id : String) : (w.forget k).connections.get id =
    if id = (w.heap k).identity.id ∧ w.connections.get id = some k then none else w.connections.get id := by
  simp only [World.forget, World.edit]
  split_ifs with hregistered hid hid
  · rw [Dict.get_pop, if_pos hid.1]
  · rw [Dict.get_pop, if_neg]
    rintro rfl
    exact hid ⟨rfl, hregistered⟩
  · obtain ⟨rfl, hk⟩ := hid
    exact absurd hk hregistered
  · rfl

theorem forget_targets (k : Ref) (w : World) (target : String) : (w.forget k).targets.get target =
    if target ∈ (w.heap k).targets.keys ∧ w.targets.get target = some k then none else w.targets.get target :=
  get_foldl_forget _ _ _ _

theorem forget_sessions (k : Ref) (w : World) (handle : String) : (w.forget k).sessions.get handle =
    (w.sessions.get handle).filter fun ref => (w.saved ref).generation ≠ (w.heap k).generation := by
  simp only [World.forget, World.edit, Dict.get_delete, decide_not]

theorem forget_heap (k j : Ref) (w : World) : ((w.forget k).heap j).identity = (w.heap j).identity ∧
    ((w.forget k).heap j).targets = (w.heap j).targets ∧ ((w.forget k).heap j).generation = (w.heap j).generation := by
  simp only [World.forget, World.edit, Function.update_apply]
  split
  · rename_i hj
    rw [hj]
    exact ⟨rfl, rfl, rfl⟩
  · exact ⟨rfl, rfl, rfl⟩

theorem Owned.forget (hw : Owned w) (k : Ref) : Owned (w.forget k) := by
  -- what is registered and is not `k` stays registered
  have hstays (j : Ref) (target revision : String) (hj : j ≠ k) (h : w.announces j target revision) :
      (w.forget k).announces j target revision := by
    obtain ⟨hconnection, htarget⟩ := h
    refine ⟨?_, by rw [(forget_heap k j w).2.1]; exact htarget⟩
    rw [(forget_heap k j w).1, forget_connections, if_neg, hconnection]
    rintro ⟨-, hk⟩
    rw [hconnection] at hk
    exact hj (Option.some.inj hk)
  refine ⟨?_, ?_, ?_, ?_, ?_, ?_, ?_⟩
  · intro id j hj
    rw [forget_connections] at hj
    split_ifs at hj
    rw [(forget_heap k j w).1]
    exact hw.named id j hj
  · intro id j hj
    rw [forget_connections] at hj
    split_ifs at hj
    exact hw.allocated id j hj
  · intro target j hj
    rw [forget_targets] at hj
    split_ifs at hj with hgone
    obtain ⟨revision, hannounces⟩ := hw.targets target j hj
    refine ⟨revision, hstays j target revision ?_ hannounces⟩
    rintro rfl
    refine hgone ⟨Dict.mem_keys.mpr ?_, hj⟩
    rw [hannounces.2]
    rfl
  · intro handle ref href
    rw [forget_sessions] at href
    obtain ⟨href, hne⟩ := Option.filter_eq_some_iff.mp href
    obtain ⟨j, hannounces, hgeneration⟩ := hw.sessions handle ref href
    refine ⟨j, hstays j _ _ ?_ hannounces, by rw [(forget_heap k j w).2.2]; exact hgeneration⟩
    rintro rfl
    exact (of_decide_eq_true hne) hgeneration.symm
  · intro handle ref href
    rw [forget_sessions] at href
    exact hw.sessionsAllocated handle ref (Option.filter_eq_some_iff.mp href).1
  · intro j hj
    rw [(forget_heap k j w).2.2]
    exact hw.issued j hj
  · intro i j hi hj hsame
    rw [(forget_heap k i w).2.2, (forget_heap k j w).2.2] at hsame
    exact hw.fresh i j hi hj hsame

/-- **An old connection is forgotten for nothing.** -/
theorem Owned.forget_twice (hw : Owned w) (hk : k < w.allocated) (hold : w.connections.get (w.heap k).identity.id ≠ some k) :
    (∀ id, (w.forget k).connections.get id = w.connections.get id) ∧
      (∀ target, (w.forget k).targets.get target = w.targets.get target) ∧
      ∀ handle, (w.forget k).sessions.get handle = w.sessions.get handle := by
  refine ⟨?_, ?_, ?_⟩
  · intro id
    rw [forget_connections, if_neg]
    rintro ⟨rfl, hregistered⟩
    exact hold hregistered
  · intro target
    rw [forget_targets, if_neg]
    rintro ⟨-, htarget⟩
    obtain ⟨revision, hannounces⟩ := hw.targets target k htarget
    exact hold hannounces.1
  intro handle
  rw [forget_sessions]
  cases href : w.sessions.get handle with
  | none => rfl
  | some ref =>
    obtain ⟨j, hannounces, hgeneration⟩ := hw.sessions handle ref href
    rw [Option.filter_some, if_pos]
    refine decide_eq_true fun hsame => hold ?_
    have hj := hw.allocated _ j hannounces.1
    rw [← hw.fresh j k hj hk (hgeneration.trans hsame)]
    exact hannounces.1

section Registration

variable {identity : ConnectorIdentity} {hello : Hello} {raw token : String}

theorem greet_ok (h : AgentTask.greet relay w identity raw = .ok hello) :
    w.connections.get identity.id = none ∧ ∀ target ∈ hello.targets.keys, w.targets.get target = none := by
  simp only [AgentTask.greet, bind_eq_ok, require_eq_ok, pure_eq_ok, Bool.not_eq_true', Bool.or_eq_false_iff] at h
  obtain ⟨hello', -, -, -, -, ⟨hfree, htargets⟩, rfl⟩ := h
  refine ⟨Dict.has_eq_false.mp hfree, fun target htarget => Dict.has_eq_false.mp ?_⟩
  rw [List.any_eq_false] at htargets
  exact Bool.eq_false_iff.mpr (htargets target htarget)

theorem Owned.register (hw : Owned w) (hgreet : AgentTask.greet relay w identity raw = .ok hello) (htoken : token ∈ w.issued)
    (hnew : ∀ k, k < w.allocated → (w.heap k).generation ≠ token) : Owned (AgentTask.register identity hello token w) := by
  obtain ⟨hfree, htargets⟩ := greet_ok hgreet
  have hheap (j : Ref) (hj : j ≠ w.allocated) : (AgentTask.register identity hello token w).heap j = w.heap j :=
    Function.update_of_ne hj _ _
  have hself : ((AgentTask.register identity hello token w).heap w.allocated).identity = identity ∧
      ((AgentTask.register identity hello token w).heap w.allocated).targets = hello.targets ∧
      ((AgentTask.register identity hello token w).heap w.allocated).generation = token := by
    simp only [AgentTask.register, Function.update_self, and_self]
  have hconnections (id : String) : (AgentTask.register identity hello token w).connections.get id =
      if id = identity.id then some w.allocated else w.connections.get id := Dict.get_set _ _ _ _
  have hroutes (target : String) : (AgentTask.register identity hello token w).targets.get target =
      if target ∈ hello.targets.keys then some w.allocated else w.targets.get target := by
    simp only [AgentTask.register, Dict.get_update, Dict.get_fromKeys]
    split
    · rfl
    · rfl
  have hallocated (id : String) (j : Ref) (hj : w.connections.get id = some j) : j ≠ w.allocated :=
    Nat.ne_of_lt (hw.allocated id j hj)
  have hstays (j : Ref) (target revision : String) (h : w.announces j target revision) :
      (AgentTask.register identity hello token w).announces j target revision := by
    obtain ⟨hconnection, htarget⟩ := h
    rw [World.announces, hheap j (hallocated _ j hconnection), hconnections, if_neg]
    · exact ⟨hconnection, htarget⟩
    · intro hid
      rw [hid, hfree] at hconnection
      cases hconnection
  refine ⟨?_, ?_, ?_, ?_, hw.sessionsAllocated, ?_, ?_⟩
  · intro id j hj
    rw [hconnections] at hj
    split_ifs at hj with hid
    · cases hj
      rw [hself.1, hid]
    · rw [hheap j (hallocated id j hj)]
      exact hw.named id j hj
  · intro id j hj
    rw [hconnections] at hj
    split_ifs at hj with hid
    · cases hj
      exact Nat.lt_succ_self _
    · exact Nat.lt_succ_of_lt (hw.allocated id j hj)
  · intro target j hj
    rw [hroutes] at hj
    split_ifs at hj with hmem
    · cases hj
      obtain ⟨revision, hrevision⟩ := Option.isSome_iff_exists.mp (Dict.mem_keys.mp hmem)
      refine ⟨revision, ?_, ?_⟩
      · rw [hself.1, hconnections, if_pos rfl]
      · rw [hself.2.1, hrevision]
    · obtain ⟨revision, hannounces⟩ := hw.targets target j hj
      exact ⟨revision, hstays j target revision hannounces⟩
  · intro handle ref href
    obtain ⟨j, hannounces, hgeneration⟩ := hw.sessions handle ref href
    refine ⟨j, hstays j _ _ hannounces, ?_⟩
    rw [hheap j (hallocated _ j hannounces.1)]
    exact hgeneration
  · intro j hj
    rcases Nat.lt_succ_iff_lt_or_eq.mp hj with hj | rfl
    · rw [hheap j (Nat.ne_of_lt hj)]
      exact hw.issued j hj
    · rw [hself.2.2]
      exact htoken
  intro i j hi hj hsame
  rcases Nat.lt_succ_iff_lt_or_eq.mp hi with hi | rfl
  · rcases Nat.lt_succ_iff_lt_or_eq.mp hj with hj | rfl
    · rw [hheap i (Nat.ne_of_lt hi), hheap j (Nat.ne_of_lt hj)] at hsame
      exact hw.fresh i j hi hj hsame
    · rw [hheap i (Nat.ne_of_lt hi), hself.2.2] at hsame
      exact absurd hsame (hnew i hi)
  · rcases Nat.lt_succ_iff_lt_or_eq.mp hj with hj | rfl
    · rw [hheap j (Nat.ne_of_lt hj), hself.2.2] at hsame
      exact absurd hsame.symm (hnew j hj)
    · rfl

end Registration

/-- A session that is saved names the connection that its target is routed to. -/
theorem Owned.openSession (hw : Owned w) {session : SavedSession} (hroute : w.targets.get session.target = some k)
    (hrevision : (w.heap k).targets.get session.target = some session.revision) (hgeneration : (w.heap k).generation = session.generation) :
    Owned (w.openSession handle session) := by
  obtain ⟨revision, hregistered, -⟩ := hw.targets _ k hroute
  have hsaved (ref : Ref) (href : ref < w.allocatedSessions) : (w.openSession handle session).saved ref = w.saved ref :=
    Function.update_of_ne (Nat.ne_of_lt href) _ _
  refine ⟨hw.named, hw.allocated, hw.targets, ?_, ?_, hw.issued, hw.fresh⟩
  · intro handle' ref href
    simp only [World.openSession, Dict.get_set] at href
    split_ifs at href
    · cases href
      refine ⟨k, ?_, ?_⟩
      · simp only [World.announces, World.openSession, Function.update_self]
        exact ⟨hregistered, hrevision⟩
      · simp only [World.openSession, Function.update_self]
        exact hgeneration
    · rw [hsaved ref (hw.sessionsAllocated handle' ref href)]
      exact hw.sessions handle' ref href
  intro handle' ref href
  simp only [World.openSession, Dict.get_set] at href
  split_ifs at href
  · cases href
    exact Nat.lt_succ_self _
  · exact Nat.lt_succ_of_lt (hw.sessionsAllocated handle' ref href)

/-! ## The steps of the relay -/

theorem quiet_advance (r : Reading) (w : World) : Quiet w (w.advance r) :=
  ⟨fun _ => rfl, fun _ => rfl, fun _ => rfl, rfl, rfl, rfl, rfl, fun _ h => List.mem_cons_of_mem _ h, fun _ _ h => h, rfl,
    fun _ => ⟨rfl, rfl, rfl⟩⟩

theorem quiet_begin (w : World) (f : Forward) : Quiet w (Forward.begin' w f).world :=
  ⟨fun _ => rfl, fun _ => rfl, fun _ => rfl, rfl, rfl, rfl, rfl, fun _ h => h, fun _ _ h => h, rfl, fun _ => ⟨rfl, rfl, rfl⟩⟩

/-- The state that a successful reply leaves. -/
theorem Kept.owned {read : Reply} (h : Kept r c read s w) (hs : Owned s.world)
    (hroute : s.world.targets.get c.target = some c.connection) : Owned w ∧ w.handshakes = s.world.handshakes := by
  cases h with
  | same => exact ⟨hs, rfl⟩
  | @renewed ref upstream =>
    refine ⟨hs.quiet (quiet_editSession ref ?_), rfl⟩
    exact fun _ => ⟨rfl, rfl, rfl⟩
  | opened _ _ hrevision _ => exact ⟨hs.openSession hroute hrevision rfl, rfl⟩

/-- A segment of a call leaves the registry alone, but for the session that a reply opens. -/
theorem Forward.Turn.owned (h : Forward.Turn relay r s s') (hs : Owned s.world) :
    Owned s'.world ∧ s'.world.handshakes = s.world.handshakes := by
  have hquiet {v : World} (hv : Quiet s.world v) : Owned v ∧ v.handshakes = s.world.handshakes := ⟨hs.quiet hv, hv.handshakes⟩
  cases h with
  | idle => exact hquiet (.refl _)
  | admitted => exact hquiet (quiet_begin s.world s.locals)
  | refused => exact hquiet ((quiet_begin _ _).trans (quiet_finish _ _))
  | left | timedOut => exact hquiet (quiet_finish _ _)
  | read => exact hquiet (.refl _)
  | failed => exact hquiet (quiet_finish _ _)
  | undispatched _ hprepared => exact hquiet (hprepared.quiet.trans (quiet_finish _ _))
  | dispatched _ hdispatch =>
    obtain ⟨s₁, hdrafted, rfl⟩ := dispatch_ok hdispatch
    exact hquiet (hdrafted.prepared.quiet.trans (quiet_enqueue _ _ _ _))
  | held => exact hquiet (quiet_finish _ _)
  | @sent c c' _ =>
    have hlock : Quiet s.world (s.world.edit c.connection ({ · with locked := true })) := quiet_edit _ fun _ => ⟨rfl, rfl, rfl⟩
    exact hquiet (hlock.trans (quiet_sent c' { s with world := s.world.edit c.connection ({ · with locked := true }) }))
  | written => exact hquiet (quiet_unlock s)
  | unread => exact hquiet (quiet_finish _ _)
  | @answered c reply answer _ _ _ hresume =>
    obtain ⟨read, w, hroute, -, hkept, -, rfl⟩ := resume_ok hresume
    obtain ⟨hw, hhandshakes⟩ := hkept.owned hs hroute
    have hrest := (quiet_touchSession c reply.status).trans (quiet_finish answer { s with world := w.touchSession c reply.status })
    exact ⟨hw.quiet hrest, hrest.handshakes.trans hhandshakes⟩

namespace AgentTask

variable {p p' : AgentTask}

/-- The handshakes that the task counts as. -/
def counts (p : AgentTask) : Nat := if p.handshaking then 1 else 0

theorem quiet_unlock (p : AgentTask) (w : World) : Quiet w (p.unlock w) := by
  unfold AgentTask.unlock
  split
  · exact quiet_edit (f := ({ · with locked := false })) _ fun _ => ⟨rfl, rfl, rfl⟩
  · exact .refl w

/-- What a segment of an agent keeps, and what it does to the count of handshakes. -/
def Sound (w : World) (p : AgentTask) (next : World × AgentTask) : Prop :=
  Owned next.1 ∧ next.1.handshakes + p.counts = w.handshakes + next.2.counts

theorem sound_quiet (hw : Owned w) (h : Quiet w w') (hcounts : p'.counts = p.counts) : Sound w p (w', p') := by
  refine ⟨hw.quiet h, ?_⟩
  rw [h.handshakes, hcounts]

theorem refuse_sound (hw : Owned w) : Sound w p (p.refuse w) := by
  refine sound_quiet hw (quiet_unlock p w) ?_
  simp only [counts]
  cases p with
  | closing reserved connection => cases reserved <;> rfl
  | _ => rfl

theorem finish_sound (hw : Owned w) (p : AgentTask) (hquiet : Quiet w w') : Sound w p (p.finish w', .ended) := by
  have hw' := hw.quiet hquiet
  have hforget (v : World) (hv : Owned v) (connection : Option Ref) :
      Owned (connection.elim v (World.forget · v)) ∧ (connection.elim v (World.forget · v)).handshakes = v.handshakes := by
    cases connection with
    | none => exact ⟨hv, rfl⟩
    | some k => exact ⟨hv.forget k, rfl⟩
  have hlower : Owned { w' with handshakes := w'.handshakes - 1 } := ⟨hw'.named, hw'.allocated, hw'.targets, hw'.sessions,
    hw'.sessionsAllocated, hw'.issued, hw'.fresh⟩
  simp only [Sound, finish, counts]
  split
  · obtain ⟨howned, hhandshakes⟩ := hforget _ hlower p.connection
    refine ⟨howned, ?_⟩
    rw [hhandshakes, hquiet.handshakes]
    show w.handshakes - 1 + (1 : Nat) = w.handshakes + (0 : Nat)
    omega
  · obtain ⟨howned, hhandshakes⟩ := hforget _ hw' p.connection
    refine ⟨howned, ?_⟩
    rw [hhandshakes, hquiet.handshakes]
    rfl

theorem receive_sound (hw : Owned w) (k : Ref) (raw : String) : Sound w (.listening k) (receive relay w k raw) := by
  unfold receive
  split_ifs
  · exact refuse_sound hw
  · exact sound_quiet hw (quiet_edit (f := ({ · with lastSeen := w.clock })) k fun _ => ⟨rfl, rfl, rfl⟩) rfl
  split
  · exact refuse_sound hw
  · rename_i reply _
    refine sound_quiet hw (quiet_edit (f := fun c => { settle reply c with lastSeen := w.clock }) k fun c => ?_) rfl
    unfold settle
    split <;> exact ⟨rfl, rfl, rfl⟩

theorem act_sound (hw : Owned w) (htoken : r.token ∈ w.issued) (hnew : ∀ k, k < w.allocated → (w.heap k).generation ≠ r.token)
    (p : AgentTask) (h : Happening) : Sound w p (p.act relay w r h) := by
  unfold act
  split
  · exact sound_quiet hw (.refl w) rfl
  · exact finish_sound hw p (quiet_unlock p w)
  · exact finish_sound hw _ (.refl w)
  · exact refuse_sound hw
  · split
    · refine ⟨⟨hw.named, hw.allocated, hw.targets, hw.sessions, hw.sessionsAllocated, hw.issued, hw.fresh⟩, ?_⟩
      show w.handshakes + 1 + (0 : Nat) = w.handshakes + (1 : Nat)
      omega
    · exact refuse_sound hw
  · exact sound_quiet hw (.refl w) rfl
  · split
    · rename_i hgreet
      refine ⟨hw.register hgreet htoken hnew, ?_⟩
      show w.handshakes - 1 + (1 : Nat) = w.handshakes + (0 : Nat)
      omega
    · exact refuse_sound hw
  · split
    · exact sound_quiet hw (.refl w) rfl
    · exact sound_quiet hw (quiet_edit (f := ({ · with locked := true })) _ fun _ => ⟨rfl, rfl, rfl⟩) rfl
  · exact sound_quiet hw (quiet_unlock _ w) rfl
  · exact receive_sound hw _ _
  · exact sound_quiet hw (.refl w) rfl

end AgentTask

theorem Maintain.act_owned (hw : Owned w) (p : Maintain) (h : Happening) :
    Owned (p.act w h).1 ∧ (p.act w h).1.handshakes = w.handshakes := by
  unfold Maintain.act
  split
  · exact ⟨hw.quiet quiet_prune, rfl⟩
  · exact ⟨hw, rfl⟩
  · split
    · exact ⟨hw.forget _, rfl⟩
    · exact ⟨hw, rfl⟩
  · exact ⟨hw.quiet quiet_prune, rfl⟩
  · exact ⟨hw, rfl⟩

/-- A handshake is in progress: the agent was admitted, and is neither registered nor gone. -/
def Task.handshaking : Task → Bool
  | .agent p => p.handshaking
  | _ => false

def Task.handshakes (p : Task) : Nat := if p.handshaking then 1 else 0

theorem Task.handshakes_starts {p : Task} (h : p.starts) : p.handshakes = 0 := by
  cases p with
  | agent p =>
    obtain ⟨headers, rfl⟩ := h
    rfl
  | forward f | maintain p => rfl

theorem segment_owned (hw : Owned w) (p : Task) (e : Event) : Owned (relay.segment w p e).1 ∧
    (relay.segment w p e).1.handshakes + p.handshakes = w.handshakes + (relay.segment w p e).2.handshakes := by
  unfold Relay.segment
  split
  · exact ⟨hw, rfl⟩
  rename_i hnew
  have hadvance := hw.quiet (quiet_advance e.1 w)
  cases p with
  | agent p =>
    refine AgentTask.act_sound hadvance List.mem_cons_self ?_ p e.2
    intro k hk hsame
    exact hnew (hsame ▸ hw.issued k hk)
  | forward f =>
    obtain ⟨howned, hhandshakes⟩ := (@Forward.step_turn relay e.1 ⟨w.advance e.1, f⟩ e.2).owned hadvance
    exact ⟨howned, congrArg (· + ((0 : Nat) : Int)) hhandshakes⟩
  | maintain p =>
    obtain ⟨howned, hhandshakes⟩ := Maintain.act_owned hadvance p e.2
    exact ⟨howned, congrArg (· + ((0 : Nat) : Int)) hhandshakes⟩

/-- In every reachable state the tables are consistent, and the handshakes are counted. -/
theorem owned_run {w : Serving} {tr : List (Pool.Event Task Event)} (h : Run relay.Step Relay.starting tr w) :
    Owned w.shared ∧ w.shared.handshakes = (Pool.total Task.handshakes w : Nat) := by
  refine h.invariant (I := fun w : Serving => Owned w.shared ∧ w.shared.handshakes = (Pool.total Task.handshakes w : Nat)) ⟨.empty, rfl⟩ ?_
  rintro w e w' ⟨howned, hhandshakes⟩ hstep
  refine ⟨?_, ?_⟩
  · cases hstep with
    | start => exact howned
    | @act i p p' e x' hp hact =>
      have hkept := (@segment_owned relay _ howned p e).1
      rw [show relay.segment w.shared p e = (x', p') from hact] at hkept
      exact hkept
  refine hstep.balanced hhandshakes (fun p => Task.handshakes_starts) ?_
  intro p _ e x' p' hact
  have hcount := (@segment_owned relay _ howned p e).2
  rw [show relay.segment w.shared p e = (x', p') from hact] at hcount
  exact hcount

/-- **The relay knows who owns what.** In every reachable state a target is routed to a connection that is registered under the id
of its agent and announces the target; no agent has two registered connections; a saved session names the generation of a registered
connection and the revision that it announces; the handshakes in progress are counted; and to forget a connection that is no longer
registered changes no table. -/
theorem ownership {w : Serving} {tr : List (Pool.Event Task Event)} (h : Run relay.Step Relay.starting tr w) :
    (∀ target k, w.shared.targets.get target = some k → ∃ revision, w.shared.announces k target revision) ∧
    (∀ id id' j k, w.shared.connections.get id = some j → w.shared.connections.get id' = some k →
      (w.shared.heap j).identity.id = (w.shared.heap k).identity.id → j = k) ∧
    (∀ handle ref, w.shared.sessions.get handle = some ref → ∃ k,
      w.shared.announces k (w.shared.saved ref).target (w.shared.saved ref).revision ∧
        (w.shared.heap k).generation = (w.shared.saved ref).generation) ∧
    w.shared.handshakes = w.threads.countP Task.handshaking ∧
    (∀ k, k < w.shared.allocated → w.shared.connections.get (w.shared.heap k).identity.id ≠ some k →
      (∀ id, (w.shared.forget k).connections.get id = w.shared.connections.get id) ∧
        (∀ target, (w.shared.forget k).targets.get target = w.shared.targets.get target) ∧
        ∀ handle, (w.shared.forget k).sessions.get handle = w.shared.sessions.get handle) := by
  obtain ⟨howned, hhandshakes⟩ := owned_run h
  refine ⟨howned.targets, ?_, howned.sessions, ?_, fun k => howned.forget_twice⟩
  · intro id id' j k hj hk hsame
    rw [howned.named id j hj, howned.named id' k hk] at hsame
    subst hsame
    rw [hj] at hk
    exact Option.some.inj hk
  · rw [hhandshakes, ← Pool.total_ite]
    rfl

/-! ### One agent that reconnects -/

def sampleToken : String := "0123456789abcdef0123456789abcdef"

def sampleRevision : String := "0123456789abcdef0123456789abcdef0123456789abcdef0123456789abcdef"

/-- One agent and one consumer, for one target; the only text is that of a `hello`. -/
def sampleRelay : Relay where
  agents := Dict.set ∅ "agent" ⟨"agent", ["target"]⟩
  agentHashes := Dict.set ∅ "agent" ("a" ++ sampleToken)
  consumers := Dict.set ∅ ("c" ++ sampleToken) ⟨"owner", ["target"]⟩
  sha256 := fun value => value
  json := {
    text := fun raw =>
      if raw = "hello" then .ok (.obj [("targets", .obj [("target", .str sampleRevision)])]) else .error .value
    bytes := fun _ => .error .value }

def sampleAgent : Task :=
  .agent (.called [("authorization", "Bearer a" ++ sampleToken), ("x-gate-agent-id", "agent")])

/-- The `n`-th token is given to a segment of task `i`. -/
def turn (n i : Nat) (h : Happening) (elapsed : Nat := 0) : Pool.Event Task Event := .act i (⟨elapsed, 0, toString n⟩, h)

/-- An agent registers and falls silent, `maintain` forgets it, and it registers again before its first task is gone. -/
def reconnected : List (Pool.Event Task Event) :=
  [.start sampleAgent, turn 0 0 .done, turn 1 0 .done, turn 2 0 (.text "hello"), turn 3 0 .done, turn 4 0 .done,
    .start (.maintain .sleeping), turn 5 1 .done 40000, turn 6 1 .done,
    .start sampleAgent, turn 7 2 .done, turn 8 2 .done, turn 9 2 (.text "hello")]

def reconnectedState : Serving := Pool.play sampleRelay.segment Relay.starting reconnected

theorem reconnected_run : Run sampleRelay.Step Relay.starting reconnected reconnectedState := by
  have hrun : Run (fun w e w' => sampleRelay.Step w e w' ∧ True) Relay.starting reconnected reconnectedState :=
    Pool.play_run (by simp [Pool.Playable, reconnected, turn, sampleAgent, Task.starts, Relay.starting]) (Pool.along_true _)
  exact hrun.mono fun _ _ _ hs => hs.1

theorem reconnected_facts : reconnectedState.shared.targets.get "target" = some 1 ∧ 0 < reconnectedState.shared.allocated ∧
    reconnectedState.shared.connections.get (reconnectedState.shared.heap 0).identity.id = some 1 := by
  decide +kernel

theorem ownership_reconnected : (reconnectedState.shared.forget 0).targets.get "target" = some 1 := by
  obtain ⟨htarget, hallocated, hregistered⟩ := reconnected_facts
  obtain ⟨-, -, -, -, hforget⟩ := ownership reconnected_run
  rw [(hforget 0 hallocated (by rw [hregistered]; decide)).2.1 "target"]
  exact htarget

end LingshuGate.Connector

import Mathlib.Algebra.Order.BigOperators.Group.List
import LingshuGate.Connector.Ownership

/-!
# How much the relay holds (`connector_relay.py:97-116`, `179-316`)

`Bounded own` is the invariant of the counters. While a segment runs, the consumer `own` may be one over its bound: a session has
been opened and its reservation is still there, and the `finally` of the same segment releases it. `Calm` is what most writes are:
nothing is counted higher, and the requests in `pending` are those that were there.
-/

namespace LingshuGate.Connector

open Lib

variable {relay : Relay} {r : Reading} {w w' w'' : World} {a : Admitted} {c : Call} {s s' : Segment} {k : Ref} {own : Option String}

def World.reservedOf (w : World) (consumer : String) : Nat := (w.reservations.get consumer).getD 0

/-! ## Writes that count nothing higher -/

structure Calm (w w' : World) : Prop where
  occupied : ∀ consumer, w'.occupied consumer ≤ w.occupied consumer
  sessions : w'.sessions.rows.length ≤ w.sessions.rows.length
  reservations : w'.reservations = w.reservations
  owners : ∀ k id, (w'.heap k).pendingOwners.get id = (w.heap k).pendingOwners.get id
  has : ∀ k id, ((w'.heap k).pending.get id).isSome = ((w.heap k).pending.get id).isSome
  pending : ∀ k, (w'.heap k).pending.rows.length ≤ (w.heap k).pending.rows.length
  totalPending : w'.totalPending ≤ w.totalPending
  issued : ∀ token ∈ w.issued, token ∈ w'.issued
  allocated : w.allocated ≤ w'.allocated

theorem Calm.refl (w : World) : Calm w w :=
  ⟨fun _ => Nat.le_refl _, Nat.le_refl _, rfl, fun _ _ => rfl, fun _ _ => rfl, fun _ => Nat.le_refl _, Nat.le_refl _, fun _ h => h,
    Nat.le_refl _⟩

theorem Calm.trans (h : Calm w w') (h' : Calm w' w'') : Calm w w'' where
  occupied consumer := Nat.le_trans (h'.occupied consumer) (h.occupied consumer)
  sessions := Nat.le_trans h'.sessions h.sessions
  reservations := h'.reservations.trans h.reservations
  owners k id := (h'.owners k id).trans (h.owners k id)
  has k id := (h'.has k id).trans (h.has k id)
  pending k := Nat.le_trans (h'.pending k) (h.pending k)
  totalPending := Nat.le_trans h'.totalPending h.totalPending
  issued token ht := h'.issued token (h.issued token ht)
  allocated := Nat.le_trans h.allocated h'.allocated

/-- A world that differs in fields nothing is counted by. -/
theorem Calm.of_eq (hsessions : w'.sessions = w.sessions) (hsaved : w'.saved = w.saved) (hreservations : w'.reservations = w.reservations)
    (hheap : w'.heap = w.heap) (hconnections : w'.connections = w.connections) (hissued : ∀ token ∈ w.issued, token ∈ w'.issued)
    (hallocated : w'.allocated = w.allocated) : Calm w w' where
  occupied consumer := by rw [World.occupied, World.occupied, hsessions, hsaved]
  sessions := by rw [hsessions]
  reservations := hreservations
  owners k id := by rw [hheap]
  has k id := by rw [hheap]
  pending k := by rw [hheap]
  totalPending := by rw [World.totalPending, World.totalPending, hconnections, hheap]
  issued := hissued
  allocated := Nat.le_of_eq hallocated.symm

theorem calm_delete (p : String × Ref → Bool) : Calm w { w with sessions := w.sessions.delete p } where
  occupied _ := List.filter_sublist.countP_le
  sessions := List.length_filter_le _ _
  reservations := rfl
  owners _ _ := rfl
  has _ _ := rfl
  pending _ := Nat.le_refl _
  totalPending := Nat.le_refl _
  issued _ h := h
  allocated := Nat.le_refl _

theorem calm_prune : Calm w w.prune := calm_delete _

theorem calm_pop (handle : String) : Calm w { w with sessions := w.sessions.pop handle } := calm_delete _

theorem calm_editSession {f : SavedSession → SavedSession} (ref : Ref) (hf : ∀ v, (f v).consumer = v.consumer) :
    Calm w (w.editSession ref f) := by
  have hconsumer (j : Ref) : ((w.editSession ref f).saved j).consumer = (w.saved j).consumer := by
    simp only [World.editSession, Function.update_apply]
    split
    · rename_i hj
      rw [hj, hf]
    · rfl
  refine ⟨fun consumer => Nat.le_of_eq ?_, Nat.le_refl _, rfl, fun _ _ => rfl, fun _ _ => rfl, fun _ => Nat.le_refl _, Nat.le_refl _,
    fun _ h => h, Nat.le_refl _⟩
  simp only [World.occupied, hconsumer]
  rfl

/-- The requests of the connections, counted by another heap. -/
theorem totalPending_mono {heap : Ref → AgentConnection} (h : ∀ k, (heap k).pending.rows.length ≤ (w.heap k).pending.rows.length) :
    ({ w with heap } : World).totalPending ≤ w.totalPending :=
  List.sum_le_sum fun kv _ => h kv.2

theorem edit_heap (f : AgentConnection → AgentConnection) (j : Ref) :
    (w.edit k f).heap j = if j = k then f (w.heap k) else w.heap j := by
  simp only [World.edit, Function.update_apply]

/-- A connection changes, and its requests stay. -/
theorem calm_edit {f : AgentConnection → AgentConnection} (k : Ref) (howners : ∀ id, (f (w.heap k)).pendingOwners.get id =
      (w.heap k).pendingOwners.get id)
    (hhas : ∀ id, ((f (w.heap k)).pending.get id).isSome = ((w.heap k).pending.get id).isSome)
    (hlength : (f (w.heap k)).pending.rows.length ≤ (w.heap k).pending.rows.length) : Calm w (w.edit k f) := by
  have hpending (j : Ref) : ((w.edit k f).heap j).pending.rows.length ≤ (w.heap j).pending.rows.length := by
    rw [edit_heap]
    split
    · rename_i hj
      rw [hj]
      exact hlength
    · exact Nat.le_refl _
  refine ⟨fun _ => Nat.le_refl _, Nat.le_refl _, rfl, fun j id => ?_, fun j id => ?_, hpending, totalPending_mono hpending, fun _ h => h,
    Nat.le_refl _⟩
  · rw [edit_heap]
    split
    · rename_i hj
      rw [hj, howners]
    · rfl
  rw [edit_heap]
  split
  · rename_i hj
    rw [hj, hhas]
  · rfl

theorem calm_touchSession (c : Call) (status : Nat) : Calm w (w.touchSession c status) := by
  unfold World.touchSession
  split
  · exact .refl w
  · split_ifs
    · exact calm_pop _
    · exact calm_editSession (f := ({ · with deadline := w.clock + sessionTtl })) _ fun _ => rfl
    · exact .refl w

theorem calm_unlock (s : Segment) : Calm s.world s.unlock.world := by
  unfold Segment.unlock
  split
  · rename_i c _
    exact calm_edit (f := ({ · with locked := false })) c.connection (fun _ => rfl) (fun _ => rfl) (Nat.le_refl _)
  · exact .refl _

theorem calm_sent (c : Call) (s : Segment) : Calm s.world (s.sent c).world := by
  unfold Segment.sent
  cases c.active with
  | none => exact .of_eq rfl rfl rfl rfl rfl (fun _ h => h) rfl
  | some ref =>
    have hedit : Calm s.world (s.world.editSession ref ({ · with deadline := s.world.clock + sessionTtl })) :=
      calm_editSession ref fun _ => rfl
    exact hedit.trans (.of_eq rfl rfl rfl rfl rfl (fun _ h => h) rfl)

theorem calm_advance (r : Reading) (w : World) : Calm w (w.advance r) :=
  .of_eq rfl rfl rfl rfl rfl (fun _ h => List.mem_cons_of_mem _ h) rfl

theorem calm_begin (w : World) (f : Forward) : Calm w (Forward.begin' w f).world := .of_eq rfl rfl rfl rfl rfl (fun _ h => h) rfl

theorem calm_lock (k : Ref) (w : World) : Calm w (w.edit k ({ · with locked := true })) :=
  calm_edit (f := ({ · with locked := true })) k (fun _ => rfl) (fun _ => rfl) (Nat.le_refl _)

theorem calm_forget (k : Ref) (w : World) : Calm w (w.forget k) := by
  let connections := if w.connections.get (w.heap k).identity.id = some k then w.connections.pop (w.heap k).identity.id else w.connections
  have hconnections : Calm w { w with connections } := by
    refine ⟨fun _ => Nat.le_refl _, Nat.le_refl _, rfl, fun _ _ => rfl, fun _ _ => rfl, fun _ => Nat.le_refl _, ?_, fun _ h => h,
      Nat.le_refl _⟩
    simp only [connections, World.totalPending]
    split
    · exact List.Sublist.sum_le_sum (List.filter_sublist.map _) fun _ _ => Nat.zero_le _
    · exact Nat.le_refl _
  have hedit {v : World} : Calm v (v.edit k fun c => { c with pending := c.pending.mapValues Future.abandon }) := by
    refine calm_edit k (fun _ => rfl) (fun id => ?_) (Nat.le_of_eq (Dict.length_mapValues _ _))
    rw [Dict.get_mapValues, Option.isSome_map]
  have hsessions {v : World} (targets : Dict String Ref) (p : String × Ref → Bool) :
      Calm v { v with targets, sessions := v.sessions.delete p } :=
    (calm_delete p).trans (.of_eq rfl rfl rfl rfl rfl (fun _ h => h) rfl)
  exact (hconnections.trans (hsessions _ _)).trans hedit

/-! ## The invariant -/

/-- One for the consumer that is one over its bound. -/
def excess (own : Option String) (consumer : String) : Nat := if own = some consumer then 1 else 0

structure Bounded (own : Option String) (w : World) : Prop where
  consumer : ∀ consumer, w.occupied consumer + w.reservedOf consumer ≤ 32 + excess own consumer
  total : w.sessions.rows.length + w.totalReserved ≤ 1024 + if own.isSome then 1 else 0
  connection : ∀ k, (w.heap k).pending.rows.length ≤ 16
  registered : w.totalPending ≤ 64
  /-- A consumer without a reservation has no entry. -/
  positive : ∀ consumer n, w.reservations.get consumer = some n → 0 < n
  paired : ∀ k id, ((w.heap k).pending.get id).isSome = ((w.heap k).pendingOwners.get id).isSome
  known : ∀ k id owner, (w.heap k).pendingOwners.get id = some owner → id ∈ w.issued
  blank : ∀ k, w.allocated ≤ k → ∀ id, (w.heap k).pendingOwners.get id = none

theorem Bounded.empty : Bounded none {} where
  consumer _ := Nat.zero_le _
  total := Nat.zero_le _
  connection _ := Nat.zero_le _
  registered := Nat.zero_le _
  positive _ _ h := nomatch h
  paired _ _ := rfl
  known _ _ _ h := nomatch h
  blank _ _ _ := rfl

theorem Bounded.calm (hw : Bounded own w) (h : Calm w w') : Bounded own w' where
  consumer consumer := by
    have := hw.consumer consumer
    have := h.occupied consumer
    simp only [World.reservedOf, h.reservations] at *
    omega
  total := by
    have := hw.total
    have := h.sessions
    simp only [World.totalReserved, h.reservations] at *
    omega
  connection k := Nat.le_trans (h.pending k) (hw.connection k)
  registered := Nat.le_trans h.totalPending hw.registered
  positive consumer n hn := hw.positive consumer n (h.reservations ▸ hn)
  paired k id := by rw [h.has, h.owners, hw.paired]
  known k id owner howner := by
    rw [h.owners] at howner
    exact h.issued _ (hw.known k id owner howner)
  blank k hk id := by
    rw [h.owners]
    exact hw.blank k (Nat.le_trans h.allocated hk) id

/-- The `finally` may release what the segment does not use. -/
theorem Bounded.weaken (hw : Bounded none w) (own : Option String) : Bounded own w :=
  ⟨fun consumer => Nat.le_trans (hw.consumer consumer) (Nat.le_add_right _ _), Nat.le_trans hw.total (Nat.le_add_right _ _),
    hw.connection, hw.registered, hw.positive, hw.paired, hw.known, hw.blank⟩

/-! ### Reservations -/

variable {consumer : String}

theorem reservedOf_reserve (h : World.reserve consumer w = .ok w') (other : String) :
    w'.reservedOf other = w.reservedOf other + if other = consumer then 1 else 0 := by
  obtain ⟨-, -, rfl⟩ := reserve_ok h
  simp only [World.reservedOf, Dict.get_set]
  split
  · rename_i hother
    rw [hother]
    rfl
  · rfl

theorem Bounded.reserve (hw : Bounded none w) (h : World.reserve consumer w = .ok w') : Bounded none w' := by
  have hreserved := reservedOf_reserve h
  obtain ⟨hconsumer, htotal, rfl⟩ := reserve_ok h
  refine ⟨fun other => ?_, ?_, hw.connection, hw.registered, fun other n hn => ?_, hw.paired, hw.known, hw.blank⟩
  · have hother := hw.consumer other
    rw [hreserved]
    change w.occupied other + (w.reservedOf other + _) ≤ 32 + 0
    change w.occupied other + w.reservedOf other ≤ 32 + 0 at hother
    change w.occupied consumer + w.reservedOf consumer < 32 at hconsumer
    split
    · rename_i hsame
      rw [hsame]
      omega
    · omega
  · have hsum := Dict.sum_set w.reservations consumer (w.reservedOf consumer + 1)
    change w.sessions.rows.length + (w.reservations.set consumer (w.reservedOf consumer + 1)).sum ≤ 1024 + 0
    change (w.reservations.set consumer (w.reservedOf consumer + 1)).sum + w.reservedOf consumer = _ at hsum
    change w.sessions.rows.length + w.reservations.sum < 1024 at htotal
    omega
  simp only [Dict.get_set] at hn
  split at hn
  · cases hn
    exact Nat.succ_pos _
  · exact hw.positive other n hn

theorem reservedOf_release (consumer other : String) : (w.release consumer).reservedOf other =
    w.reservedOf other - if other = consumer then 1 else 0 := by
  unfold World.release
  split
  · rename_i hnone
    split
    · rename_i hother
      simp only [World.reservedOf, hother, hnone]
      rfl
    · rfl
  rename_i n hn
  simp only [World.reservedOf]
  by_cases hother : other = consumer
  · subst hother
    simp only [if_true, hn, Option.getD_some]
    split
    · rename_i hzero
      rw [Dict.get_pop, if_pos rfl, hzero]
      rfl
    · rw [Dict.get_set, if_pos rfl]
      rfl
  · simp only [if_neg hother, Nat.sub_zero]
    split
    · rw [Dict.get_pop, if_neg hother]
    · rw [Dict.get_set, if_neg hother]

/-- What the segment was over is released. -/
theorem Bounded.release (hw : Bounded (some consumer) w) (hheld : 0 < w.reservedOf consumer) :
    Bounded none (w.release consumer) := by
  have hfields : (w.release consumer).sessions = w.sessions ∧ (w.release consumer).saved = w.saved ∧
      (w.release consumer).heap = w.heap ∧ (w.release consumer).connections = w.connections ∧
      (w.release consumer).issued = w.issued ∧ (w.release consumer).allocated = w.allocated := by
    unfold World.release
    split <;> exact ⟨rfl, rfl, rfl, rfl, rfl, rfl⟩
  obtain ⟨hsessions, hsaved, hheap, hconnections, hissued, hallocated⟩ := hfields
  refine ⟨fun other => ?_, ?_, ?_, ?_, ?_, ?_, ?_, ?_⟩
  · have hother := hw.consumer other
    rw [reservedOf_release]
    simp only [World.occupied, hsessions, hsaved, excess] at hother ⊢
    by_cases hsame : other = consumer
    · subst hsame
      simp only [if_true, reduceCtorEq, if_false] at hother ⊢
      omega
    · simp only [if_neg hsame, Option.some.injEq, if_neg (Ne.symm hsame), reduceCtorEq, if_false] at hother ⊢
      omega
  · have htotal := hw.total
    obtain ⟨n, hn⟩ : ∃ n, w.reservations.get consumer = some n := by
      cases hn : w.reservations.get consumer with
      | none => simp [World.reservedOf, hn] at hheld
      | some n => exact ⟨n, rfl⟩
    have hpositive := hw.positive consumer n hn
    have hset := Dict.sum_set w.reservations consumer (n - 1)
    have hpop := Dict.sum_pop w.reservations consumer
    simp only [hn, Option.getD_some] at hset hpop
    simp only [hsessions, World.totalReserved, Option.isSome_some, if_true, Option.isSome_none, Bool.false_eq_true, if_false] at htotal ⊢
    simp only [World.release, hn]
    split
    · omega
    · omega
  · rw [hheap]
    exact hw.connection
  · simp only [World.totalPending, hconnections, hheap]
    exact hw.registered
  · intro other n hn
    unfold World.release at hn
    split at hn
    · exact hw.positive other n hn
    simp only at hn
    split at hn
    · rw [Dict.get_pop] at hn
      split at hn
      · cases hn
      · exact hw.positive other n hn
    rw [Dict.get_set] at hn
    split at hn
    · cases hn
      omega
    · exact hw.positive other n hn
  · rw [hheap]
    exact hw.paired
  · rw [hheap, hissued]
    exact hw.known
  · rw [hheap, hallocated]
    exact hw.blank

/-! ### Sessions -/

/-- A session is opened for a consumer that holds a reservation. -/
theorem Bounded.openSession (hw : Bounded none w) {handle : String} {session : SavedSession}
    (hallocated : ∀ handle ref, w.sessions.get handle = some ref → ref < w.allocatedSessions) :
    Bounded (some session.consumer) (w.openSession handle session) := by
  refine ⟨fun consumer => ?_, ?_, hw.connection, hw.registered, hw.positive, hw.paired, hw.known, hw.blank⟩
  · have hold := hw.consumer consumer
    have hcount := Dict.countP_set_le (fun kv => decide (((w.openSession handle session).saved kv.2).consumer = consumer)) w.sessions
      handle w.allocatedSessions
    have hsame : w.sessions.rows.countP (fun kv => decide (((w.openSession handle session).saved kv.2).consumer = consumer)) =
        w.occupied consumer := by
      refine List.countP_congr fun kv hkv => ?_
      have href := hallocated kv.1 kv.2 (Dict.get_eq_some.mpr hkv)
      simp only [World.openSession, Function.update_of_ne (Nat.ne_of_lt href)]
    have hnew : ((w.openSession handle session).saved w.allocatedSessions).consumer = session.consumer := by
      simp only [World.openSession, Function.update_self]
    rw [hsame] at hcount
    change (w.openSession handle session).occupied consumer ≤ _ at hcount
    change (w.openSession handle session).occupied consumer + w.reservedOf consumer ≤ _
    simp only [hnew, decide_eq_true_eq] at hcount
    simp only [excess, reduceCtorEq, if_false, Option.some.injEq] at hold ⊢
    split at hcount
    · rename_i hconsumer
      rw [if_pos hconsumer]
      omega
    · omega
  have hold := hw.total
  have hlength := Dict.length_set_le w.sessions handle w.allocatedSessions
  simp only [World.openSession, Option.isSome_none, Option.isSome_some, Bool.false_eq_true, if_false, if_true] at hold ⊢
  simp only [World.totalReserved] at hold ⊢
  omega

/-! ### Pending requests -/

/-- One connection holds one request more, the others what they held. -/
theorem totalPending_succ (hw : Owned w) {heap : Ref → AgentConnection}
    (hself : (heap k).pending.rows.length ≤ (w.heap k).pending.rows.length + 1) (hother : ∀ j, j ≠ k → heap j = w.heap j) :
    ({ w with heap } : World).totalPending ≤ w.totalPending + 1 := by
  have hrest (l : List (String × Ref)) (hl : ∀ kv ∈ l, kv.2 ≠ k) :
      (l.map fun kv => (heap kv.2).pending.rows.length) = l.map fun kv => (w.heap kv.2).pending.rows.length := by
    refine List.map_congr_left fun kv hkv => ?_
    rw [hother _ (hl kv hkv)]
  -- a connection is registered under the id of its agent only
  have hid (kv : String × Ref) (hkv : kv ∈ w.connections.rows) (hk : kv.2 = k) : kv.1 = (w.heap k).identity.id := by
    rw [← hk]
    exact (hw.named kv.1 kv.2 (Dict.get_eq_some.mpr hkv)).symm
  simp only [World.totalPending]
  by_cases hregistered : w.connections.get (w.heap k).identity.id = some k
  · obtain ⟨before, after, hrows, hkeys, -, -⟩ := Dict.split_of_get hregistered
    have hapart (kv : String × Ref) (hkv : kv ∈ before ++ after) : kv.2 ≠ k := by
      intro hk
      refine hkeys kv hkv (hid kv ?_ hk)
      rw [hrows]
      rcases List.mem_append.mp hkv with h | h
      · exact List.mem_append_left _ h
      · exact List.mem_append_right _ (List.mem_cons_of_mem _ h)
    have hbefore := hrest before fun kv hkv => hapart kv (List.mem_append_left _ hkv)
    have hafter := hrest after fun kv hkv => hapart kv (List.mem_append_right _ hkv)
    simp only [hrows, List.map_append, List.map_cons, List.sum_append, List.sum_cons, hbefore, hafter]
    omega
  rw [hrest]
  · exact Nat.le_succ _
  · intro kv hkv hk
    refine hregistered ?_
    rw [← hid kv hkv hk, ← hk]
    exact Dict.get_eq_some.mpr hkv

theorem Bounded.enqueue (hw : Bounded none w) (howned : Owned w) {target id : String} {owner : String × String}
    (hroute : w.targets.get target = some k) (hroom : w.busy k = false) (hid : id ∈ w.issued) :
    Bounded none (w.enqueue k id owner) := by
  simp only [World.busy, Bool.or_eq_false_iff, decide_eq_false_iff_not, Nat.not_le] at hroom
  obtain ⟨hfew, htotal⟩ := hroom
  change (w.heap k).pending.rows.length < 16 at hfew
  have hheap (j : Ref) : (w.enqueue k id owner).heap j = if j = k then { w.heap k with
      pending := (w.heap k).pending.set id .pending, pendingOwners := (w.heap k).pendingOwners.set id owner } else w.heap j :=
    edit_heap _ j
  have hlength := Dict.length_set_le (w.heap k).pending id Future.pending
  refine ⟨hw.consumer, hw.total, fun j => ?_, ?_, hw.positive, fun j id' => ?_, fun j id' owner' h => ?_, fun j hj id' => ?_⟩
  · rw [hheap]
    split
    · show ((w.heap k).pending.set id .pending).rows.length ≤ 16
      omega
    · exact hw.connection j
  · have hsum := @totalPending_succ _ k howned (w.enqueue k id owner).heap (by rw [hheap, if_pos rfl]; exact hlength)
      fun j hj => by rw [hheap, if_neg hj]
    change (w.enqueue k id owner).totalPending ≤ _ at hsum
    omega
  · rw [hheap]
    split
    · simp only [Dict.get_set]
      split
      · rfl
      · exact hw.paired k id'
    · exact hw.paired j id'
  · rw [hheap] at h
    split at h
    · simp only [Dict.get_set] at h
      split at h
      · rename_i hsame
        rw [hsame]
        exact hid
      · exact hw.known k id' owner' h
    · exact hw.known j id' owner' h
  obtain ⟨revision, hregistered, -⟩ := howned.targets target k hroute
  have hallocated := howned.allocated _ k hregistered
  have hne : j ≠ k := by
    rintro rfl
    exact Nat.not_lt.mpr hj hallocated
  rw [hheap, if_neg hne]
  exact hw.blank j hj id'

theorem dismiss_heap (id : String) (j : Ref) : (w.dismiss k id).heap j = if j = k then { w.heap k with
    pending := (w.heap k).pending.pop id, pendingOwners := (w.heap k).pendingOwners.pop id } else w.heap j :=
  edit_heap _ j

theorem Bounded.dismiss (hw : Bounded own w) (k : Ref) (id : String) : Bounded own (w.dismiss k id) := by
  have hlength (j : Ref) : ((w.dismiss k id).heap j).pending.rows.length ≤ (w.heap j).pending.rows.length := by
    rw [dismiss_heap]
    split
    · rename_i hj
      rw [hj]
      exact Dict.length_pop_le _ _
    · exact Nat.le_refl _
  have howner (j : Ref) (id' : String) (owner : String × String) (h : ((w.dismiss k id).heap j).pendingOwners.get id' = some owner) :
      (w.heap j).pendingOwners.get id' = some owner := by
    rw [dismiss_heap] at h
    split at h
    · rename_i hj
      simp only [Dict.get_pop] at h
      split at h
      · cases h
      · rw [hj]
        exact h
    · exact h
  refine ⟨hw.consumer, hw.total, fun j => Nat.le_trans (hlength j) (hw.connection j), ?_, hw.positive, fun j id' => ?_,
    fun j id' owner h => hw.known j id' owner (howner j id' owner h), fun j hj id' => ?_⟩
  · exact Nat.le_trans (totalPending_mono hlength) hw.registered
  · rw [dismiss_heap]
    split
    · simp only [Dict.get_pop]
      split
      · rfl
      · exact hw.paired k id'
    · exact hw.paired j id'
  rw [Option.eq_none_iff_forall_ne_some]
  intro owner h
  have hblank := hw.blank j hj id'
  rw [howner j id' owner h] at hblank
  cases hblank

/-! ## What a call holds -/

/-- The consumer for whom the call keeps a place. -/
def Forward.owner (f : Forward) : Option String := if f.reserved then f.stage.consumer.map (·.id) else none

/-- A pending request: its connection, its id, its consumer and its target. -/
structure Entry where
  connection : Ref
  requestId : String
  owner : String × String

/-- The entry of `pending_owners`. -/
def World.holds (w : World) (e : Entry) : Prop := (w.heap e.connection).pendingOwners.get e.requestId = some e.owner

def Call.entry (c : Call) : Entry := ⟨c.connection, c.frame.requestId, (c.consumer.id, c.target)⟩

def Forward.entry (f : Forward) : Option Entry := f.stage.call.map Call.entry

/-- A call keeps a place only once its body was read. -/
def Forward.Tidy (f : Forward) : Prop := f.stage = .called ∨ (∃ a body, f.stage = .reading a body) → f.reserved = false

theorem Calm.holds (h : Calm w w') (e : Entry) : w'.holds e ↔ w.holds e := by
  rw [World.holds, World.holds, h.owners]

theorem unlock_locals (s : Segment) : s.unlock.locals = s.locals := by
  unfold Segment.unlock
  split <;> rfl

section Finish

variable {answer : Answer}

/-- The state between the two halves of the `finally`. -/
def Segment.dismissed (s : Segment) : World :=
  s.locals.stage.call.elim s.unlock.world fun c => s.unlock.world.dismiss c.connection c.frame.requestId

theorem finish_world : (s.finish answer).world = s.locals.owner.elim s.dismissed fun consumer => s.dismissed.release consumer := by
  simp only [Segment.finish, unlock_locals, Forward.owner]
  cases s.locals.reserved with
  | false => rfl
  | true => cases s.locals.stage.consumer <;> rfl

theorem dismissed_bounded (hb : Bounded own s.world) : Bounded own s.dismissed := by
  unfold Segment.dismissed
  have hunlock := hb.calm (calm_unlock s)
  cases s.locals.stage.call with
  | none => exact hunlock
  | some c => exact hunlock.dismiss _ _

theorem dismissed_reservedOf (consumer : String) : s.dismissed.reservedOf consumer = s.world.reservedOf consumer := by
  unfold Segment.dismissed World.reservedOf
  rw [← (calm_unlock s).reservations]
  cases s.locals.stage.call <;> rfl

theorem finish_bounded (hb : Bounded s.locals.owner s.world)
    (hheld : ∀ consumer, s.locals.owner = some consumer → 0 < s.world.reservedOf consumer) : Bounded none (s.finish answer).world := by
  have hdismissed := dismissed_bounded hb
  rw [finish_world]
  cases howner : s.locals.owner with
  | none =>
    rw [howner] at hdismissed
    exact hdismissed
  | some consumer =>
    rw [howner] at hdismissed
    refine hdismissed.release ?_
    rw [dismissed_reservedOf]
    exact hheld consumer howner

theorem finish_reservedOf (consumer : String) : (s.finish answer).world.reservedOf consumer =
    s.world.reservedOf consumer - excess s.locals.owner consumer := by
  rw [finish_world]
  cases s.locals.owner with
  | none => exact dismissed_reservedOf consumer
  | some other =>
    simp only [Option.elim_some, reservedOf_release, dismissed_reservedOf, excess, Option.some.injEq, eq_comm]

/-- The entry of the call is struck, every other stays. -/
theorem finish_entered (hown : ∀ e, s.locals.entry = some e → s.world.holds e) :
    Pool.Entered World.holds Entry.requestId s.world (s.finish answer).world s.locals.entry none := by
  have hrelease (e : Entry) : (s.finish answer).world.holds e ↔ s.dismissed.holds e := by
    rw [finish_world]
    cases s.locals.owner with
    | none => rfl
    | some consumer =>
      simp only [Option.elim_some, World.holds]
      unfold World.release
      split <;> rfl
  have hcalm := (calm_unlock s).holds
  unfold Segment.dismissed at hrelease
  unfold Forward.entry at hown ⊢
  cases hcall : s.locals.stage.call with
  | none =>
    rw [hcall] at hrelease
    exact .same fun e => (hrelease e).trans (hcalm e)
  | some c =>
    rw [hcall] at hrelease hown
    have hself := hown c.entry rfl
    refine .strike fun e => (hrelease e).trans ?_
    rw [← hcalm]
    simp only [Option.elim_some, World.holds, dismiss_heap]
    rw [← hcalm] at hself
    by_cases hk : e.connection = c.connection
    · rw [if_pos hk, Dict.get_pop]
      by_cases hid : e.requestId = c.frame.requestId
      · rw [if_pos hid]
        refine ⟨by rintro ⟨⟩, fun h => absurd ?_ h.2⟩
        have hheld := h.1
        rw [hk, hid] at hheld
        have howner : e.owner = (c.consumer.id, c.target) := Option.some.inj (hheld.symm.trans hself)
        cases e
        simp only at hk hid howner
        rw [hk, hid, howner]
        rfl
      · rw [if_neg hid, hk]
        refine ⟨fun h => ⟨h, ?_⟩, And.left⟩
        rintro rfl
        exact hid rfl
    · rw [if_neg hk]
      refine ⟨fun h => ⟨h, ?_⟩, And.left⟩
      rintro rfl
      exact hk rfl

theorem finish_stage : (s.finish answer).locals.stage = .ended answer := rfl

end Finish

/-! ## One segment of a call -/

/-- What one segment keeps, from `s` to `s'`. -/
structure Accounted (s s' : Segment) : Prop where
  bounded : Bounded none s'.world
  tidy : s'.locals.Tidy
  reserved : ∀ consumer, s'.world.reservedOf consumer + excess s.locals.owner consumer =
    s.world.reservedOf consumer + excess s'.locals.owner consumer
  entered : Pool.Entered World.holds Entry.requestId s.world s'.world s.locals.entry s'.locals.entry

/-- What the end of a call rests on. -/
structure Closing (s : Segment) : Prop where
  bounded : Bounded s.locals.owner s.world
  reserved : ∀ consumer, excess s.locals.owner consumer ≤ s.world.reservedOf consumer
  entry : ∀ e, s.locals.entry = some e → s.world.holds e

theorem excess_self (consumer : String) : excess (some consumer) consumer = 1 := if_pos rfl

theorem Closing.finish (hs : Closing s) (answer : Answer) : Accounted s (s.finish answer) where
  bounded := by
    refine finish_bounded hs.bounded fun consumer howner => ?_
    have := hs.reserved consumer
    rw [howner, excess_self] at this
    exact this
  tidy := by
    rintro (h | ⟨a, body, h⟩) <;> cases h
  reserved consumer := by
    rw [finish_reservedOf]
    have hle := hs.reserved consumer
    have hnone : excess (s.finish answer).locals.owner consumer = 0 := by
      simp [excess, Forward.owner, finish_stage, Stage.consumer]
    rw [hnone]
    omega
  entered := finish_entered hs.entry

/-- What came before in the same segment left the accounts as they were. -/
theorem Accounted.after {s₁ : Segment} (h : Accounted s₁ s') (hreserved : ∀ consumer, s₁.world.reservedOf consumer +
      excess s.locals.owner consumer = s.world.reservedOf consumer + excess s₁.locals.owner consumer)
    (hholds : ∀ e, s₁.world.holds e ↔ s.world.holds e) (hentry : s₁.locals.entry = s.locals.entry) : Accounted s s' where
  bounded := h.bounded
  tidy := h.tidy
  reserved consumer := by
    have h₁ := h.reserved consumer
    have h₂ := hreserved consumer
    omega
  entered := by
    have h₁ := h.entered
    rw [hentry] at h₁
    generalize s.locals.entry = x, s'.locals.entry = y at h₁
    cases h₁ with
    | same hsame => exact .same fun e => (hsame e).trans (hholds e)
    | enter hnew henter =>
      exact .enter (fun e he => hnew e ((hholds e).mpr he)) fun e => (henter e).trans (or_congr_left (hholds e))
    | strike hstrike => exact .strike fun e => (hstrike e).trans (and_congr_left' (hholds e))

/-- What a segment may start from. -/
structure Ready (r : Reading) (s : Segment) : Prop where
  owned : Owned s.world
  bounded : Bounded none s.world
  tidy : s.locals.Tidy
  reserved : ∀ consumer, excess s.locals.owner consumer ≤ s.world.reservedOf consumer
  entry : ∀ e, s.locals.entry = some e → s.world.holds e
  issued : r.token ∈ s.world.issued
  fresh : ∀ e, s.world.holds e → e.requestId ≠ r.token

theorem Ready.closing (hs : Ready r s) : Closing s := ⟨hs.bounded.weaken _, hs.reserved, hs.entry⟩

/-- The locals and the state change where nothing is counted. -/
theorem Ready.calm (hs : Ready r s) (h : Calm s.world s'.world) (howner : s'.locals.owner = s.locals.owner)
    (hentry : s'.locals.entry = s.locals.entry) (htidy : s'.locals.Tidy) : Accounted s s' where
  bounded := hs.bounded.calm h
  tidy := htidy
  reserved consumer := by
    rw [howner, World.reservedOf, World.reservedOf, h.reservations]
  entered := by
    rw [hentry]
    exact .same h.holds

/-- Before the frame is built a call may come to keep a place. -/
theorem Prepared.accounts (h : Prepared a s s') (hb : Bounded none s.world) (hreserved : s.locals.reserved = false) :
    Bounded none s'.world ∧ s'.world.heap = s.world.heap ∧ s'.world.issued = s.world.issued ∧
      ∀ consumer, s'.world.reservedOf consumer =
        s.world.reservedOf consumer + excess (if s'.locals.reserved then some a.consumer.id else none) consumer := by
  have hcalm {v : World} {f : Forward} (hv : Calm s.world v) (hheap : v.heap = s.world.heap) (hissued : v.issued = s.world.issued)
      (hf : f.reserved = false) : Bounded none v ∧ v.heap = s.world.heap ∧ v.issued = s.world.issued ∧
        ∀ consumer, v.reservedOf consumer = s.world.reservedOf consumer + excess (if f.reserved then some a.consumer.id else none) consumer := by
    refine ⟨hb.calm hv, hheap, hissued, fun consumer => ?_⟩
    rw [hf, World.reservedOf, World.reservedOf, hv.reservations]
    rfl
  cases h with
  | same => exact hcalm (.refl _) rfl rfl hreserved
  | pruned => exact hcalm calm_prune rfl rfl hreserved
  | taken => exact hcalm (calm_prune.trans (calm_pop _)) rfl rfl hreserved
  | placed hreserve =>
    have hplaced := (hb.calm calm_prune).reserve hreserve
    have hof := reservedOf_reserve hreserve
    obtain ⟨-, -, rfl⟩ := reserve_ok hreserve
    refine ⟨hplaced, rfl, rfl, fun consumer => ?_⟩
    rw [hof]
    simp only [if_true, excess, Option.some.injEq, eq_comm]
    rfl

theorem Ready.finish_calm (hs : Ready r s) {w : World} (h : Calm s.world w) {f : Forward} (howner : f.owner = s.locals.owner)
    (hentry : f.entry = s.locals.entry) (answer : Answer) : Accounted s (Segment.finish answer ⟨w, f⟩) := by
  have hreserved (consumer : String) : w.reservedOf consumer = s.world.reservedOf consumer := by
    rw [World.reservedOf, World.reservedOf, h.reservations]
  have hclosing : Closing ⟨w, f⟩ := by
    refine ⟨(hs.bounded.calm h).weaken _, fun consumer => ?_, fun e he => (h.holds e).mpr (hs.entry e (hentry ▸ he))⟩
    show excess f.owner consumer ≤ w.reservedOf consumer
    rw [howner, hreserved]
    exact hs.reserved consumer
  refine (hclosing.finish answer).after (fun consumer => ?_) h.holds hentry
  show w.reservedOf consumer + excess s.locals.owner consumer = s.world.reservedOf consumer + excess f.owner consumer
  rw [howner, hreserved]

section Reading

variable {body : Bytes} {s₁ : Segment}

theorem reading_owner (hstage : s.locals.stage = .reading a body) :
    s.locals.owner = if s.locals.reserved then some a.consumer.id else none := by
  rw [Forward.owner, hstage]
  rfl

theorem Prepared.owner (h : Prepared a s s₁) (hstage : s.locals.stage = .reading a body) :
    s₁.locals.owner = if s₁.locals.reserved then some a.consumer.id else none :=
  reading_owner (h.locals.2.2.2.2.1.trans hstage)

/-- The call fails before its request is registered. -/
theorem Ready.undispatched (hs : Ready r s) (hstage : s.locals.stage = .reading a body) (hprepared : Prepared a s s₁) (answer : Answer) :
    Accounted s (s₁.finish answer) := by
  have hnone : s.locals.reserved = false := hs.tidy (.inr ⟨a, body, hstage⟩)
  obtain ⟨hbounded, hheap, -, hreserved⟩ := hprepared.accounts hs.bounded hnone
  have howner := hprepared.owner hstage
  have howner₀ : s.locals.owner = none := by rw [reading_owner hstage, hnone]; rfl
  have hentry : s₁.locals.entry = s.locals.entry := by rw [Forward.entry, Forward.entry, hprepared.locals.2.2.2.2.1]
  have hholds (e : Entry) : s₁.world.holds e ↔ s.world.holds e := by rw [World.holds, World.holds, hheap]
  have hclosing : Closing s₁ := by
    refine ⟨hbounded.weaken _, fun consumer => ?_, fun e he => (hholds e).mpr (hs.entry e (hentry ▸ he))⟩
    rw [hreserved, howner]
    exact Nat.le_add_left _ _
  refine (hclosing.finish answer).after (fun consumer => ?_) hholds hentry
  rw [hreserved, howner, howner₀]
  rfl

theorem Ready.dispatched (hs : Ready r s) (hstage : s.locals.stage = .reading a body) (hdrafted : Drafted r a s s₁ c) :
    Accounted s (Segment.goto (.queued c) { s₁ with world := s₁.world.enqueue a.connection r.token (a.consumer.id, a.target) }) := by
  have hnone : s.locals.reserved = false := hs.tidy (.inr ⟨a, body, hstage⟩)
  have hprepared := hdrafted.prepared
  obtain ⟨hbounded, hheap, hissued, hreserved⟩ := hprepared.accounts hs.bounded hnone
  have howner₀ : s.locals.owner = none := by rw [reading_owner hstage, hnone]; rfl
  have hentry : c.entry = ⟨a.connection, r.token, (a.consumer.id, a.target)⟩ := by
    rw [Call.entry, hdrafted.connection, hdrafted.requestId, hdrafted.consumer, hdrafted.target]
  refine ⟨?_, ?_, fun consumer => ?_, ?_⟩
  · exact hbounded.enqueue (hs.owned.quiet hprepared.quiet) hdrafted.route hdrafted.room (hissued ▸ hs.issued)
  · rintro (h | ⟨a', body', h⟩) <;> cases h
  · have howner : (Segment.goto (.queued c) { s₁ with world := s₁.world.enqueue a.connection r.token (a.consumer.id, a.target) }).locals.owner =
        if s₁.locals.reserved then some a.consumer.id else none := by
      rw [← hdrafted.consumer]
      rfl
    rw [howner, howner₀]
    exact hreserved consumer
  have hold : s.locals.entry = none := by rw [Forward.entry, hstage]; rfl
  have hnew : (Segment.goto (.queued c)
      { s₁ with world := s₁.world.enqueue a.connection r.token (a.consumer.id, a.target) }).locals.entry = some c.entry := rfl
  rw [hold, hnew, hentry]
  refine .enter (fun e he => hs.fresh e he) fun e => ?_
  have henqueue : (s₁.world.enqueue a.connection r.token (a.consumer.id, a.target)).holds e ↔
      (if e.connection = a.connection ∧ e.requestId = r.token then some (a.consumer.id, a.target)
        else (s.world.heap e.connection).pendingOwners.get e.requestId) = some e.owner := by
    rw [World.holds, World.enqueue, edit_heap]
    by_cases hk : e.connection = a.connection
    · rw [if_pos hk, Dict.get_set, hheap]
      simp only [hk, true_and]
    · rw [if_neg hk, hheap]
      simp only [hk, false_and, if_false]
  refine henqueue.trans ?_
  split
  · rename_i hself
    refine ⟨fun h => .inr ?_, fun h => ?_⟩
    · cases e
      simp only [Option.some.injEq] at h hself
      rw [hself.1, hself.2, h]
    · rcases h with h | rfl
      · exact absurd hself.2 (hs.fresh e h)
      · rfl
  · rename_i hother
    refine ⟨.inl, fun h => h.resolve_right ?_⟩
    rintro rfl
    exact hother ⟨rfl, rfl⟩

end Reading

/-- **What a segment keeps of the accounts.** -/
theorem Ready.turn (hs : Ready r s) (h : Forward.Turn relay r s s') : Accounted s s' := by
  cases h with
  | idle => exact hs.calm (.refl _) rfl rfl hs.tidy
  | admitted hstage =>
    have hnone := hs.tidy (.inl hstage)
    refine hs.calm (calm_begin s.world s.locals) ?_ ?_ fun _ => hnone
    · simp [Forward.owner, Segment.goto, Forward.begin', hnone]
    · simp [Forward.entry, Segment.goto, hstage, Stage.call]
  | refused => exact hs.finish_calm (f := (Forward.begin' s.world s.locals).locals) (calm_begin s.world s.locals) rfl rfl _
  | left | timedOut => exact hs.closing.finish _
  | read hstage =>
    refine hs.calm (.refl _) ?_ ?_ fun _ => hs.tidy (.inr ⟨_, _, hstage⟩)
    · simp only [Forward.owner, Segment.goto, hstage, Stage.consumer]
      rfl
    · simp only [Forward.entry, Segment.goto, hstage, Stage.call]
  | failed => exact hs.closing.finish _
  | undispatched hstage hprepared => exact hs.undispatched hstage hprepared _
  | dispatched hstage hdispatch =>
    obtain ⟨s₁, hdrafted, rfl⟩ := dispatch_ok hdispatch
    exact hs.dispatched hstage hdrafted
  | held => exact hs.closing.finish _
  | @sent c c' remaining hstage _ _ hc' =>
    subst hc'
    have hsent := calm_sent (c.wired r remaining) { s with world := s.world.edit c.connection ({ · with locked := true }) }
    refine hs.calm ((calm_lock c.connection s.world).trans hsent) ?_ ?_ ?_
    · simp only [Forward.owner, Segment.goto, Segment.sent, hstage, Stage.consumer, Call.wired]
    · simp only [Forward.entry, Segment.goto, Segment.sent, hstage, Stage.call]
      rfl
    · rintro (h | ⟨a, body, h⟩) <;> cases h
  | written hstage =>
    refine hs.calm (calm_unlock s) ?_ ?_ ?_
    · simp only [Forward.owner, Segment.goto, unlock_locals, hstage, Stage.consumer]
    · simp only [Forward.entry, Segment.goto, hstage, Stage.call]
    · rintro (h | ⟨a, body, h⟩) <;> cases h
  | unread => exact hs.closing.finish _
  | @answered c reply answer _ hstage _ hresume =>
    obtain ⟨read, w, hroute, -, hkept, -, rfl⟩ := resume_ok hresume
    have htouch : Calm w (w.touchSession c reply.status) := calm_touchSession c reply.status
    cases hkept with
    | same => exact hs.finish_calm htouch rfl rfl answer
    | @renewed ref upstream =>
      have hedit : Calm s.world (s.world.editSession ref ({ · with upstream, deadline := s.world.clock + sessionTtl })) :=
        calm_editSession ref fun _ => rfl
      exact hs.finish_calm (hedit.trans htouch) rfl rfl answer
    | @opened revision upstream _ hreserved =>
      have howner : s.locals.owner = some c.consumer.id := by
        rw [Forward.owner, hreserved, hstage]
        rfl
      -- for the rest of the segment the consumer may be one over its bound
      have hopened := (@Bounded.openSession _ hs.bounded r.token {
        consumer := c.consumer.id, target := c.target, revision, generation := (s.world.heap c.connection).generation, upstream
        deadline := s.world.clock + sessionTtl } hs.owned.sessionsAllocated).calm htouch
      have hreservations (consumer : String) : (World.touchSession c reply.status (s.world.openSession r.token {
          consumer := c.consumer.id, target := c.target, revision, generation := (s.world.heap c.connection).generation, upstream
          deadline := s.world.clock + sessionTtl })).reservedOf consumer = s.world.reservedOf consumer := by
        rw [World.reservedOf, World.reservedOf, htouch.reservations]
        rfl
      have hclosing : Closing { s with world := World.touchSession c reply.status (s.world.openSession r.token {
          consumer := c.consumer.id, target := c.target, revision, generation := (s.world.heap c.connection).generation, upstream
          deadline := s.world.clock + sessionTtl }) } := by
        refine ⟨?_, fun consumer => ?_, fun e he => (htouch.holds e).mpr (hs.entry e he)⟩
        · rw [howner]
          exact hopened
        · rw [hreservations]
          exact hs.reserved consumer
      refine (hclosing.finish answer).after (fun consumer => ?_) htouch.holds rfl
      rw [hreservations]

/-! ## The other tasks -/

theorem calm_register {identity : ConnectorIdentity} {hello : Hello} {raw token : String} (howned : Owned w) (hb : Bounded none w)
    (hgreet : AgentTask.greet relay w identity raw = .ok hello) : Calm w (AgentTask.register identity hello token w) := by
  obtain ⟨hfree, -⟩ := greet_ok hgreet
  have hheap (j : Ref) : (AgentTask.register identity hello token w).heap j =
      if j = w.allocated then { identity, targets := hello.targets, generation := token, lastSeen := w.clock } else w.heap j := by
    simp only [AgentTask.register, Function.update_apply]
  refine ⟨fun _ => Nat.le_refl _, Nat.le_refl _, rfl, fun j id => ?_, fun j id => ?_, fun j => ?_, ?_, fun _ h => h, Nat.le_succ _⟩
  · rw [hheap]
    split
    · rename_i hj
      rw [hj, hb.blank _ (Nat.le_refl _)]
      rfl
    · rfl
  · rw [hheap]
    split
    · rename_i hj
      rw [hj, hb.paired, hb.blank _ (Nat.le_refl _)]
      rfl
    · rfl
  · rw [hheap]
    split
    · exact Nat.zero_le _
    · exact Nat.le_refl _
  have hrows : (AgentTask.register identity hello token w).connections.rows = w.connections.rows ++ [(identity.id, w.allocated)] :=
    Dict.set_rows_of_none hfree
  have hold : (w.connections.rows.map fun kv => ((AgentTask.register identity hello token w).heap kv.2).pending.rows.length) =
      w.connections.rows.map fun kv => (w.heap kv.2).pending.rows.length := by
    refine List.map_congr_left fun kv hkv => ?_
    have hallocated := howned.allocated kv.1 kv.2 (Dict.get_eq_some.mpr hkv)
    rw [hheap, if_neg (Nat.ne_of_lt hallocated)]
  simp only [World.totalPending, hrows, List.map_append, hold, List.sum_append, List.map_cons, List.map_nil, List.sum_singleton]
  rw [hheap, if_pos rfl]
  exact Nat.le_refl _

namespace AgentTask

theorem calm_unlock (p : AgentTask) (w : World) : Calm w (p.unlock w) := by
  unfold AgentTask.unlock
  split
  · exact calm_edit (f := ({ · with locked := false })) _ (fun _ => rfl) (fun _ => rfl) (Nat.le_refl _)
  · exact .refl w

theorem calm_finish (p : AgentTask) (w : World) : Calm w (p.finish w) := by
  have hforget (v : World) : Calm v (p.connection.elim v (World.forget · v)) := by
    cases p.connection with
    | none => exact .refl v
    | some k => exact calm_forget k v
  have hlower : Calm w { w with handshakes := w.handshakes - 1 } := .of_eq rfl rfl rfl rfl rfl (fun _ h => h) rfl
  unfold finish
  split
  · exact hlower.trans (hforget { w with handshakes := w.handshakes - 1 })
  · exact hforget w

theorem calm_refuse (p : AgentTask) (w : World) : Calm w (p.refuse w).1 := calm_unlock p w

/-- A reply completes a request that is there. -/
theorem calm_settle (reply : RelayResponse) (now : Nat) (w : World) (k : Ref) :
    Calm w (w.edit k fun c => { settle reply c with lastSeen := now }) := by
  have hsettle (c : AgentConnection) : (settle reply c).pendingOwners = c.pendingOwners ∧
      (∀ id, ((settle reply c).pending.get id).isSome = (c.pending.get id).isSome) ∧
      (settle reply c).pending.rows.length = c.pending.rows.length := by
    unfold settle
    split
    · rename_i hopen
      refine ⟨rfl, fun id => ?_, Dict.length_set_of_get hopen⟩
      rw [Dict.get_set]
      split
      · rename_i hid
        rw [hid, hopen]
        rfl
      · rfl
    · exact ⟨rfl, fun _ => rfl, rfl⟩
  obtain ⟨howners, hhas, hlength⟩ := hsettle (w.heap k)
  exact calm_edit k (fun id => by rw [howners]) hhas (Nat.le_of_eq hlength)

theorem calm_receive (w : World) (k : Ref) (raw : String) : Calm w (receive relay w k raw).1 := by
  unfold receive
  split_ifs
  · exact calm_refuse _ w
  · exact calm_edit (f := ({ · with lastSeen := w.clock })) k (fun _ => rfl) (fun _ => rfl) (Nat.le_refl _)
  · split
    · exact calm_refuse _ w
    · exact calm_settle _ _ w k

theorem act_calm (howned : Owned w) (hb : Bounded none w) (p : AgentTask) (h : Happening) : Calm w (p.act relay w r h).1 := by
  unfold act
  split
  · exact .refl w
  · exact (calm_unlock p w).trans (calm_finish p _)
  · exact calm_finish _ w
  · exact calm_refuse _ w
  · split
    · exact .of_eq rfl rfl rfl rfl rfl (fun _ h => h) rfl
    · exact calm_refuse _ w
  · exact .refl w
  · split
    · rename_i hgreet
      exact calm_register howned hb hgreet
    · exact calm_refuse _ w
  · split
    · exact .refl w
    · exact calm_lock _ w
  · rename_i k
    exact calm_unlock (sending k) w
  · exact calm_receive w _ _
  · exact .refl w

end AgentTask

theorem Maintain.act_calm (w : World) (p : Maintain) (h : Happening) : Calm w (p.act w h).1 := by
  unfold Maintain.act
  split
  · exact calm_prune
  · exact .refl w
  · split
    · exact calm_forget _ w
    · exact .refl w
  · exact calm_prune
  · exact .refl w

/-! ## The relay as it runs -/

def Task.owner : Task → Option String
  | .forward f => f.owner
  | _ => none

def Task.entry : Task → Option Entry
  | .forward f => f.entry
  | _ => none

def Task.Tidy : Task → Prop
  | .forward f => f.Tidy
  | _ => True

/-- The invariant of the relay: its counters are within their bounds, and what it counts is what its calls hold. -/
structure InAccount (w : Serving) : Prop where
  owned : Owned w.shared
  bounded : Bounded none w.shared
  tidy : ∀ p ∈ w.threads, p.Tidy
  reserved : ∀ consumer, w.shared.reservedOf consumer = Pool.total (fun p => excess (Task.owner p) consumer) w
  ledger : Pool.Ledger World.holds Task.entry Entry.requestId w

theorem segment_accounted {p : Task} {e : Event} (howned : Owned w) (hb : Bounded none w) (htidy : p.Tidy)
    (hreserved : ∀ consumer, excess p.owner consumer ≤ w.reservedOf consumer) (hentry : ∀ e, p.entry = some e → w.holds e) :
    Bounded none (relay.segment w p e).1 ∧ (relay.segment w p e).2.Tidy ∧
      (∀ consumer, (relay.segment w p e).1.reservedOf consumer + excess p.owner consumer =
        w.reservedOf consumer + excess (relay.segment w p e).2.owner consumer) ∧
      Pool.Entered World.holds Entry.requestId w (relay.segment w p e).1 p.entry (relay.segment w p e).2.entry := by
  unfold Relay.segment
  split
  · exact ⟨hb, htidy, fun _ => rfl, .same fun _ => .rfl⟩
  rename_i hnew
  have hadvance := calm_advance e.1 w
  have howned' := howned.quiet (quiet_advance e.1 w)
  have hb' := hb.calm hadvance
  -- the other tasks count nothing and hold nothing
  have hother {v : World} (hv : Calm (w.advance e.1) v) : Bounded none v ∧ True ∧
      (∀ consumer, v.reservedOf consumer + excess none consumer = w.reservedOf consumer + excess none consumer) ∧
      Pool.Entered World.holds Entry.requestId w v none none := by
    refine ⟨hb'.calm hv, trivial, fun consumer => ?_, .same fun e => (hv.holds e).trans (hadvance.holds e)⟩
    rw [World.reservedOf, World.reservedOf, hv.reservations, hadvance.reservations]
  cases p with
  | agent p => exact hother (AgentTask.act_calm howned' hb' p e.2)
  | maintain p => exact hother (Maintain.act_calm _ p e.2)
  | forward f =>
    have hready : Ready e.1 ⟨w.advance e.1, f⟩ := by
      refine ⟨howned', hb', htidy, hreserved, hentry, List.mem_cons_self, fun entry hheld hsame => hnew ?_⟩
      exact hsame ▸ hb.known entry.connection entry.requestId entry.owner hheld
    have hturn : Accounted ⟨w, f⟩ _ :=
      (hready.turn (@Forward.step_turn relay _ _ e.2)).after (fun _ => rfl) hadvance.holds rfl
    exact ⟨hturn.bounded, hturn.tidy, hturn.reserved, hturn.entered⟩

theorem inAccount_run {w : Serving} {tr : List (Pool.Event Task Event)} (h : Run relay.Step Relay.starting tr w) : InAccount w := by
  refine h.invariant (I := InAccount) ?_ ?_
  · refine ⟨.empty, .empty, fun _ h => (nomatch h), fun _ => rfl, ⟨fun a => ⟨fun h => (nomatch h), ?_⟩, ?_⟩⟩
    · rintro ⟨i, p, hp, -⟩
      cases hp
    · intro i j p q a b hp
      cases hp
  rintro w e w' ⟨howned, hb, htidy, hreserved, hledger⟩ hstep
  have hsegment (p : Task) (hp : p ∈ w.threads) (e : Event) (x' : World) (p' : Task) (hentry : ∀ e, p.entry = some e → w.shared.holds e)
      (hact : relay.segment w.shared p e = (x', p')) : Bounded none x' ∧ p'.Tidy ∧
        (∀ consumer, x'.reservedOf consumer + excess p.owner consumer = w.shared.reservedOf consumer + excess p'.owner consumer) ∧
        Pool.Entered World.holds Entry.requestId w.shared x' p.entry p'.entry := by
    have hle (consumer : String) : excess p.owner consumer ≤ w.shared.reservedOf consumer := by
      rw [hreserved]
      exact Pool.le_total (c := fun p => excess (Task.owner p) consumer) hp
    have haccounted := @segment_accounted relay _ _ e howned hb (htidy p hp) hle hentry
    rw [hact] at haccounted
    exact haccounted
  have hstart (p : Task) (hp : p.starts) : p.Tidy ∧ p.owner = none ∧ p.entry = none := by
    cases p with
    | forward f =>
      obtain ⟨request, rfl⟩ := hp
      exact ⟨fun _ => rfl, rfl, rfl⟩
    | agent p | maintain p => exact ⟨trivial, rfl, rfl⟩
  have hheld (i : Nat) (p : Task) (hp : w.threads[i]? = some p) (e : Entry) (he : p.entry = some e) : w.shared.holds e :=
    (hledger.exact e).mpr ⟨i, p, hp, he⟩
  refine ⟨?_, ?_, ?_, fun consumer => ?_, ?_⟩
  · cases hstep with
    | start => exact howned
    | @act i p p' e x' hp hact =>
      have hkept := (@segment_owned relay _ howned p e).1
      rw [show relay.segment w.shared p e = (x', p') from hact] at hkept
      exact hkept
  · cases hstep with
    | start => exact hb
    | @act i p p' e x' hp hact => exact (hsegment p (List.mem_of_getElem? hp) e x' p' (hheld i p hp) hact).1
  · cases hstep with
    | start hp =>
      intro q hq
      rcases List.mem_append.mp hq with hq | hq
      · exact htidy q hq
      · obtain rfl := List.mem_singleton.mp hq
        exact (hstart _ hp).1
    | @act i p p' e x' hp hact =>
      intro q hq
      rcases List.mem_or_eq_of_mem_set hq with hq | rfl
      · exact htidy q hq
      · exact (hsegment p (List.mem_of_getElem? hp) e x' _ (hheld i p hp) hact).2.1
  · have hbalanced := hstep.balanced (m := fun w => (w.reservedOf consumer : Int)) (c := fun p => excess (Task.owner p) consumer)
      (by rw [hreserved]) (fun p hp => by rw [(hstart p hp).2.1]; rfl) ?_
    · exact_mod_cast hbalanced
    · intro p hp e x' p' hact
      obtain ⟨i, hi⟩ := List.getElem?_of_mem hp
      have := (hsegment p hp e x' p' (hheld i p hi) hact).2.2.1 consumer
      omega
  · refine hstep.ledger hledger (fun p hp => (hstart p hp).2.2) ?_
    intro p hp e x' p' hentry hact
    exact (hsegment p hp e x' p' hentry hact).2.2.2

theorem ended_free {f : Forward} (hended : f.stage.live = false) : f.entry = none ∧ f.owner = none := by
  cases hstage : f.stage with
  | ended answer =>
    rw [Forward.entry, Forward.owner, hstage]
    refine ⟨rfl, ?_⟩
    split <;> rfl
  | _ =>
    rw [hstage] at hended
    cases hended

/-- The entry and the reservation of the call are removed, and nothing else is. -/
def Releases (w w' : World) (f : Forward) : Prop :=
  (∀ e, w'.holds e ↔ w.holds e ∧ f.entry ≠ some e) ∧ ∀ consumer, w'.reservedOf consumer + excess f.owner consumer = w.reservedOf consumer

/-- **The relay keeps its bounds.** In every reachable state no consumer has more than 32 sessions and reservations, and there are
no more than 1024 in all; a connection has at most 16 pending requests, and the registered ones together 64. The futures, their
owners and the reservations are those of the calls that go on, each its own; and the segment that ends a call, in whatever way,
removes what the call held and nothing else. -/
theorem capacity {w : Serving} {tr : List (Pool.Event Task Event)} (h : Run relay.Step Relay.starting tr w) :
    (∀ consumer, w.shared.occupied consumer + w.shared.reservedOf consumer ≤ 32) ∧
    w.shared.sessions.rows.length + w.shared.totalReserved ≤ 1024 ∧
    (∀ k, (w.shared.heap k).pending.rows.length ≤ 16) ∧
    w.shared.totalPending ≤ 64 ∧
    (∀ k id, ((w.shared.heap k).pending.get id).isSome = ((w.shared.heap k).pendingOwners.get id).isSome) ∧
    (∀ e, w.shared.holds e ↔ ∃ (i : Nat) (f : Forward), w.threads[i]? = some (.forward f) ∧ f.entry = some e) ∧
    (∀ (i j : Nat) f g e e', w.threads[i]? = some (.forward f) → w.threads[j]? = some (.forward g) → f.entry = some e →
      g.entry = some e' → e.requestId = e'.requestId → i = j) ∧
    (∀ consumer, w.shared.reservedOf consumer = w.threads.countP fun p => decide (p.owner = some consumer)) ∧
    ∀ (i : Nat) e w' f f', relay.Step w (.act i e) w' → w.threads[i]? = some (.forward f) → w'.threads[i]? = some (.forward f') →
      f.stage.live = true → f'.stage.live = false → Releases w.shared w'.shared f := by
  obtain ⟨howned, hb, htidy, hreserved, hledger⟩ := inAccount_run h
  refine ⟨hb.consumer, hb.total, hb.connection, hb.registered, hb.paired, fun e => (hledger.exact e).trans ⟨?_, ?_⟩, ?_,
    fun consumer => ?_, ?_⟩
  · rintro ⟨i, p, hp, hentry⟩
    cases p with
    | forward f => exact ⟨i, f, hp, hentry⟩
    | agent p | maintain p => cases hentry
  · rintro ⟨i, f, hf, hentry⟩
    exact ⟨i, _, hf, hentry⟩
  · intro i j f g e e' hf hg hentry hentry'
    exact hledger.apart i j _ _ e e' hf hg hentry hentry'
  · rw [hreserved, ← Pool.total_ite]
    simp only [excess, decide_eq_true_eq]
  intro i e w' f f' hstep hf hf' hlive hended
  cases hstep with
  | @act _ p p' _ x' hp hact =>
    rw [hf] at hp
    cases hp
    have hi : i < w.threads.length := (List.getElem?_eq_some_iff.mp hf).1
    rw [List.getElem?_set_self hi] at hf'
    cases hf'
    have hle (consumer : String) : excess f.owner consumer ≤ w.shared.reservedOf consumer := by
      rw [hreserved]
      exact Pool.le_total (c := fun p => excess (Task.owner p) consumer) (List.mem_of_getElem? hf)
    obtain ⟨-, -, hreleased, hentered⟩ := @segment_accounted relay _ (.forward f) e howned hb
      (htidy _ (List.mem_of_getElem? hf)) hle fun entry hentry => (hledger.exact entry).mpr ⟨i, _, hf, hentry⟩
    have hnone := ended_free hended
    rw [show relay.segment w.shared (.forward f) e = (x', .forward f') from hact] at hreleased hentered
    refine ⟨fun entry => ?_, fun consumer => ?_⟩
    · change Pool.Entered _ _ _ _ f.entry f'.entry at hentered
      rw [hnone.1] at hentered
      generalize f.entry = key at hentered
      cases hentered with
      | same hsame => exact (hsame entry).trans ⟨fun h => ⟨h, fun h => nomatch h⟩, And.left⟩
      | strike hstrike => exact (hstrike entry).trans (and_congr_right' (by simp [eq_comm]))
    · have := hreleased consumer
      change x'.reservedOf consumer + excess f.owner consumer = w.shared.reservedOf consumer + excess f'.owner consumer at this
      rw [hnone.2] at this
      exact this

/-! ### A consumer that leaves while it opens a session -/

/-- Every body is an `initialize` request. -/
def callingRelay : Relay :=
  { sampleRelay with json := { sampleRelay.json with
      bytes := fun _ => .ok (.obj [("jsonrpc", .str "2.0"), ("id", .int 1), ("method", .str "initialize")]) } }

def sampleCall : Task :=
  .forward { request := {
    headers := [("authorization", "Bearer c" ++ sampleToken), ("content-type", "application/json")], target := "target", method := .post } }

/-- The agent is registered, and the request waits for the lock. -/
def opening : List (Pool.Event Task Event) :=
  [.start sampleAgent, turn 0 0 .done, turn 1 0 .done, turn 2 0 (.text "hello"), turn 3 0 .done, turn 4 0 .done,
    .start sampleCall, turn 5 1 .done, turn 6 1 (.chunk [123, 125] true)]

def openingState : Serving := Pool.play callingRelay.segment Relay.starting opening

theorem opening_run : Run callingRelay.Step Relay.starting opening openingState := by
  have hrun : Run (fun w e w' => callingRelay.Step w e w' ∧ True) Relay.starting opening openingState :=
    Pool.play_run (by simp [Pool.Playable, opening, turn, sampleAgent, sampleCall, Task.starts, Relay.starting]) (Pool.along_true _)
  exact hrun.mono fun _ _ _ hs => hs.1

theorem opening_facts : openingState.shared.reservedOf "owner" = 1 ∧
    (openingState.shared.heap 0).pendingOwners.get (toString 6) = some ("owner", "target") := by
  decide +kernel

theorem capacity_opening : openingState.threads.countP (fun p => decide (p.owner = some "owner")) = 1 ∧
    ∃ (i : Nat) (f : Forward), openingState.threads[i]? = some (.forward f) ∧
      f.entry = some ⟨0, toString 6, ("owner", "target")⟩ := by
  obtain ⟨-, -, -, -, -, hexact, -, hreserved, -⟩ := capacity opening_run
  refine ⟨?_, (hexact ⟨0, toString 6, ("owner", "target")⟩).mp opening_facts.2⟩
  rw [← hreserved "owner"]
  exact opening_facts.1

end LingshuGate.Connector

import Mathlib.Algebra.GroupWithZero.Nat
import LingshuGate.Lib.Run
import LingshuGate.Runtime.Outcomes

/-!
# What the store of late responses keeps (`domain/mcp_request_outcome.py:111-265`)

`Exact` is the state of the store between its sections: the bytes are those of its entries, and what is pending is what waits.
Every operation removes entries, changes one, or adds one, and each of these keeps it. It rests on one thing the callers see to:
a generation and an id belong to one handle (`owner`). With it `remove` pops the pending key of the entry it removes, and of no
other.

Time is read once in an operation. What `json.dumps` has written `json.loads` reads, so that a read finds the response as it was.
-/

namespace LingshuGate.Stdio

open Lib

namespace OutcomeStore

/-- The bytes that are retained. -/
def bytes (entries : List Outcome) : Nat := (entries.map (·.responseBytes)).sum

/-- The state of an entry says whether a response is kept. -/
def Outcome.Consistent (o : Outcome) : Prop :=
  (o.state = .completed ∧ o.response.isSome = true) ∨ (o.state ≠ .completed ∧ o.response = none ∧ o.responseBytes = 0)

structure Exact (owner : Nat × Int → Nat) (s : OutcomeStore) : Prop where
  nodup : (s.entries.map Outcome.handle).Nodup
  owned : ∀ o ∈ s.entries, o.handle = owner o.key
  pending : ∀ k h, s.pending k = some h ↔ ∃ o ∈ s.entries, o.handle = h ∧ o.key = k ∧ o.state = .waiting
  bytes : s.responseBytes = bytes s.entries
  consistent : ∀ o ∈ s.entries, Outcome.Consistent o

variable {owner : Nat × Int → Nat} {s : OutcomeStore} {o : Outcome}

theorem Outcome.Consistent.of_waiting (h : Outcome.Consistent o) (hwaiting : o.state = .waiting) :
    o.response = none ∧ o.responseBytes = 0 := by
  rcases h with ⟨hcompleted, -⟩ | ⟨-, hrest⟩
  · rw [hwaiting] at hcompleted
    cases hcompleted
  · exact hrest

theorem Exact.empty : Exact owner {} where
  nodup := List.nodup_nil
  owned := by simp
  pending := by simp
  bytes := rfl
  consistent := by simp

theorem Exact.eq_of_handle (h : Exact owner s) {o o' : Outcome} (ho : o ∈ s.entries) (ho' : o' ∈ s.entries)
    (he : o.handle = o'.handle) : o = o' := List.inj_on_of_nodup_map h.nodup ho ho' he

theorem Exact.eq_of_key (h : Exact owner s) {o o' : Outcome} (ho : o ∈ s.entries) (ho' : o' ∈ s.entries)
    (he : o.key = o'.key) : o = o' := h.eq_of_handle ho ho' (by rw [h.owned o ho, h.owned o' ho', he])

/-- One entry of the sum. -/
theorem bytes_split {entries : List Outcome} (hnodup : (entries.map Outcome.handle).Nodup) (ho : o ∈ entries) :
    bytes entries = bytes (entries.filter (·.handle ≠ o.handle)) + o.responseBytes := by
  induction entries with
  | nil => cases ho
  | cons a entries ih =>
    rw [List.map_cons, List.nodup_cons] at hnodup
    rcases List.mem_cons.mp ho with rfl | ho
    · have hall : entries.filter (·.handle ≠ o.handle) = entries := by
        refine List.filter_eq_self.mpr fun b hb => ?_
        rw [decide_eq_true_eq]
        exact fun heq => hnodup.1 (List.mem_map.mpr ⟨b, hb, heq⟩)
      rw [List.filter_cons_of_neg (by simp), hall]
      simp [OutcomeStore.bytes, Nat.add_comm]
    have hne : a.handle ≠ o.handle := fun heq => hnodup.1 (List.mem_map.mpr ⟨o, ho, heq.symm⟩)
    rw [List.filter_cons_of_pos (by simpa using hne)]
    have := ih hnodup.2 ho
    simp only [OutcomeStore.bytes, List.map_cons, List.sum_cons] at this ⊢
    omega

/-! ## Removing -/

theorem mem_remove {o' : Outcome} : o' ∈ (s.remove o).entries ↔ o' ∈ s.entries ∧ o'.handle ≠ o.handle := by
  simp [OutcomeStore.remove]

theorem Exact.remove (h : Exact owner s) (ho : o ∈ s.entries) : Exact owner (s.remove o) where
  nodup := h.nodup.sublist (List.filter_sublist.map _)
  owned o' ho' := h.owned o' (mem_remove.mp ho').1
  pending k a := by
    simp only [OutcomeStore.remove, Function.update_apply]
    split
    · rename_i hk
      constructor
      · rintro ⟨⟩
      · rintro ⟨o', ho', -, hkey, -⟩
        obtain ⟨hmem, hne⟩ := List.mem_filter.mp ho'
        rw [decide_eq_true_eq] at hne
        exact absurd (congrArg Outcome.handle (h.eq_of_key hmem ho (hkey.trans hk))) hne
    rename_i hk
    rw [h.pending]
    constructor
    · rintro ⟨o', ho', hhandle, hkey, hwaiting⟩
      refine ⟨o', List.mem_filter.mpr ⟨ho', ?_⟩, hhandle, hkey, hwaiting⟩
      rw [decide_eq_true_eq]
      intro heq
      rw [h.eq_of_handle ho' ho heq] at hkey
      exact hk hkey.symm
    · rintro ⟨o', ho', hrest⟩
      exact ⟨o', (List.mem_filter.mp ho').1, hrest⟩
  bytes := by
    have := bytes_split h.nodup ho
    simp only [OutcomeStore.remove, h.bytes]
    omega
  consistent o' ho' := h.consistent o' (mem_remove.mp ho').1

/-- What a loop that removes leaves behind. -/
structure Left (owner : Nat × Int → Nat) (s s' : OutcomeStore) : Prop where
  exact : Exact owner s'
  sublist : s'.entries.Sublist s.entries
  bytes : s'.responseBytes ≤ s.responseBytes

theorem Left.refl (h : Exact owner s) : Left owner s s := ⟨h, List.Sublist.refl _, Nat.le_refl _⟩

theorem Left.trans {s' s'' : OutcomeStore} (h : Left owner s s') (h' : Left owner s' s'') : Left owner s s'' :=
  ⟨h'.exact, h'.sublist.trans h.sublist, Nat.le_trans h'.bytes h.bytes⟩

theorem Left.remove (h : Exact owner s) (ho : o ∈ s.entries) : Left owner s (s.remove o) :=
  ⟨h.remove ho, List.filter_sublist, Nat.sub_le _ _⟩

variable {l : List Outcome}

theorem Exact.removing {c : OutcomeStore → Outcome → Prop} [∀ s o, Decidable (c s o)] (h : Exact owner s)
    (hl : (l.map Outcome.handle).Nodup) (hmem : ∀ o ∈ l, o ∈ s.entries) :
    Left owner s (l.foldl (fun s o => if c s o then s.remove o else s) s) := by
  induction l generalizing s with
  | nil => exact .refl h
  | cons o l ih =>
    rw [List.map_cons, List.nodup_cons] at hl
    simp only [List.foldl_cons]
    split
    · refine (Left.remove h (hmem o List.mem_cons_self)).trans (ih (h.remove (hmem o List.mem_cons_self)) hl.2 fun a ha => ?_)
      exact mem_remove.mpr ⟨hmem a (List.mem_cons_of_mem _ ha), fun heq => hl.1 (List.mem_map.mpr ⟨a, ha, heq⟩)⟩
    · exact ih h hl.2 fun a ha => hmem a (List.mem_cons_of_mem _ ha)

theorem Exact.purged (h : Exact owner s) (now : Nat) : Left owner s (s.purge now) := h.removing h.nodup fun _ ho => ho

theorem Exact.evicted (h : Exact owner s) (limits : OutcomeLimits) : Left owner s (s.evict limits) :=
  h.removing h.nodup fun _ ho => ho

theorem Exact.discarded (h : Exact owner s) (handle : Nat) : Left owner s (s.discard handle) := by
  unfold OutcomeStore.discard
  split
  · rename_i o hfind
    exact .remove h (find_eq_some hfind).1
  · exact .refl h

/-- What a loop that removes by a condition on the entry leaves. -/
theorem mem_removing {c : Outcome → Prop} [DecidablePred c] : o ∈ (l.foldl (fun s o => if c o then s.remove o else s) s).entries ↔
      o ∈ s.entries ∧ ∀ o' ∈ l, c o' → o.handle ≠ o'.handle := by
  induction l generalizing s with
  | nil => simp
  | cons a l ih =>
    simp only [List.foldl_cons]
    split
    · rename_i hc
      rw [ih, mem_remove]
      constructor
      · rintro ⟨⟨ho, hne⟩, hrest⟩
        exact ⟨ho, List.forall_mem_cons.mpr ⟨fun _ => hne, hrest⟩⟩
      · rintro ⟨ho, hall⟩
        obtain ⟨hfirst, hrest⟩ := List.forall_mem_cons.mp hall
        exact ⟨⟨ho, hfirst hc⟩, hrest⟩
    rename_i hc
    rw [ih]
    constructor
    · rintro ⟨ho, hrest⟩
      exact ⟨ho, List.forall_mem_cons.mpr ⟨fun h => absurd h hc, hrest⟩⟩
    · rintro ⟨ho, hall⟩
      exact ⟨ho, (List.forall_mem_cons.mp hall).2⟩

/-- What is left is what has not expired. -/
theorem Exact.mem_purge (h : Exact owner s) {now : Nat} : o ∈ (s.purge now).entries ↔ o ∈ s.entries ∧ now < o.expiresAt := by
  unfold OutcomeStore.purge
  rw [mem_removing]
  constructor
  · rintro ⟨ho, hkept⟩
    exact ⟨ho, Nat.lt_of_not_le fun hexpired => hkept o ho hexpired rfl⟩
  · rintro ⟨ho, hnow⟩
    refine ⟨ho, fun o' ho' hexpired heq => ?_⟩
    rw [h.eq_of_handle ho ho' heq] at hnow
    exact absurd hexpired (Nat.not_le.mpr hnow)

variable {limits : OutcomeLimits}

/-- Nothing is evicted where there is room. -/
theorem evicting_of_lt (hroom : s.entries.length < limits.maxEntries) :
    l.foldl (fun s o => if limits.maxEntries ≤ s.entries.length then s.remove o else s) s = s := by
  induction l with
  | nil => rfl
  | cons o l ih => rw [List.foldl_cons, if_neg (Nat.not_le.mpr hroom), ih]

theorem evict_of_lt (hroom : s.entries.length < limits.maxEntries) : s.evict limits = s :=
  evicting_of_lt hroom

/-- A full store loses its oldest entry. -/
theorem evict_of_le (hpositive : 0 < limits.maxEntries) (hle : s.entries.length ≤ limits.maxEntries)
    (hfull : limits.maxEntries ≤ s.entries.length) : ∃ a l, s.entries = a :: l ∧ s.evict limits = s.remove a := by
  cases hentries : s.entries with
  | nil =>
    rw [hentries] at hfull
    exact absurd hpositive (Nat.not_lt.mpr hfull)
  | cons a l =>
    refine ⟨a, l, rfl, ?_⟩
    have hroom : (s.remove a).entries.length < limits.maxEntries := by
      simp only [OutcomeStore.remove, hentries]
      rw [List.filter_cons_of_neg (by simp)]
      refine (Nat.lt_succ_of_le (List.length_filter_le _ l)).trans_le ?_
      rwa [hentries] at hle
    unfold OutcomeStore.evict
    rw [hentries, List.foldl_cons, if_pos hfull]
    exact evicting_of_lt hroom

/-- A loop that evicts ends with room, or has removed all it went over. -/
theorem evicting_length :
    (l.foldl (fun s o => if limits.maxEntries ≤ s.entries.length then s.remove o else s) s).entries.length < limits.maxEntries ∨
      ∀ o ∈ (l.foldl (fun s o => if limits.maxEntries ≤ s.entries.length then s.remove o else s) s).entries,
        o ∈ s.entries ∧ ∀ o' ∈ l, o.handle ≠ o'.handle := by
  induction l generalizing s with
  | nil => exact .inr fun o ho => ⟨ho, by simp⟩
  | cons a l ih =>
    simp only [List.foldl_cons]
    split
    · rcases ih (s := s.remove a) with hroom | hall
      · exact .inl hroom
      · refine .inr fun o ho => ?_
        obtain ⟨hmem, hrest⟩ := hall o ho
        exact ⟨(mem_remove.mp hmem).1, List.forall_mem_cons.mpr ⟨(mem_remove.mp hmem).2, hrest⟩⟩
    · rename_i hroom
      rw [evicting_of_lt (Nat.lt_of_not_le hroom)]
      exact .inl (Nat.lt_of_not_le hroom)

/-- There is room after it. -/
theorem evict_length (hpositive : 0 < limits.maxEntries) : (s.evict limits).entries.length < limits.maxEntries := by
  rcases @evicting_length s s.entries limits with hroom | hall
  · exact hroom
  have hnil : (s.evict limits).entries = [] := by
    refine List.eq_nil_iff_forall_not_mem.mpr fun o ho => ?_
    obtain ⟨hmem, hne⟩ := hall o ho
    exact hne o hmem rfl
  rw [hnil]
  exact hpositive

/-! ## Adding and changing -/

theorem Exact.add (h : Exact owner s) {o : Outcome} (hnew : Lacks o.handle s) (howned : o.handle = owner o.key)
    (hwaiting : o.state = .waiting) (hnone : o.response = none) (hzero : o.responseBytes = 0) :
    Exact owner { s with entries := s.entries ++ [o], pending := Function.update s.pending o.key (some o.handle) } where
  nodup := by
    rw [List.map_append, List.map_singleton]
    refine h.nodup.append (List.nodup_singleton _) ?_
    simp only [List.disjoint_singleton, List.mem_map, not_exists, not_and]
    exact fun o' ho' => hnew o' ho'
  owned := List.forall_mem_append.mpr ⟨h.owned, by simpa using howned⟩
  pending k a := by
    simp only [Function.update_apply]
    split
    · rename_i hk
      constructor
      · intro ha
        exact ⟨o, by simp, Option.some.inj ha, hk.symm, hwaiting⟩
      rintro ⟨o', ho', rfl, hkey, -⟩
      rcases List.mem_append.mp ho' with ho' | ho'
      · refine absurd ?_ (hnew o' ho')
        rw [h.owned o' ho', hkey, hk, howned]
      · rw [List.mem_singleton.mp ho']
    rename_i hk
    rw [h.pending]
    constructor
    · rintro ⟨o', ho', hrest⟩
      exact ⟨o', List.mem_append_left _ ho', hrest⟩
    rintro ⟨o', ho', hhandle, hkey, hstate⟩
    rcases List.mem_append.mp ho' with ho' | ho'
    · exact ⟨o', ho', hhandle, hkey, hstate⟩
    · rw [List.mem_singleton.mp ho'] at hkey
      exact absurd hkey.symm hk
  bytes := by simp [h.bytes, OutcomeStore.bytes, hzero]
  consistent := List.forall_mem_append.mpr ⟨h.consistent, by simp [Outcome.Consistent, hwaiting, hnone, hzero]⟩

theorem Exact.mem_change (h : Exact owner s) (ho : o ∈ s.entries) {f : Outcome → Outcome} {o' : Outcome} :
    o' ∈ (s.change o.handle f).entries ↔ o' = f o ∨ (o' ∈ s.entries ∧ o'.handle ≠ o.handle) := by
  simp only [OutcomeStore.change, List.mem_map]
  constructor
  · rintro ⟨p, hp, rfl⟩
    split
    · rename_i hsame
      exact .inl (by rw [h.eq_of_handle hp ho hsame])
    · rename_i hother
      exact .inr ⟨hp, hother⟩
  · rintro (rfl | ⟨hmem, hother⟩)
    · exact ⟨o, ho, by rw [if_pos rfl]⟩
    · exact ⟨o', hmem, by rw [if_neg hother]⟩

/-- A waiting entry is settled: it waits no more, and nothing is pending for it. -/
theorem Exact.settle (h : Exact owner s) (ho : o ∈ s.entries) (hwaiting : o.state = .waiting) {f : Outcome → Outcome}
    (hhandle : (f o).handle = o.handle) (hkey : (f o).key = o.key) (hstate : (f o).state ≠ .waiting)
    (hconsistent : Outcome.Consistent (f o)) :
    Exact owner ⟨(s.change o.handle f).entries, Function.update s.pending o.key none, s.responseBytes + (f o).responseBytes⟩ := by
  have hhandles : (s.change o.handle f).entries.map Outcome.handle = s.entries.map Outcome.handle := by
    simp only [OutcomeStore.change, List.map_map]
    refine List.map_congr_left fun p hp => ?_
    simp only [Function.comp_apply]
    split
    · rename_i hsame
      rw [h.eq_of_handle hp ho hsame, hhandle]
    · rfl
  refine ⟨hhandles ▸ h.nodup, fun o' ho' => ?_, fun k a => ?_, ?_, fun o' ho' => ?_⟩
  · rcases (h.mem_change ho).mp ho' with rfl | ⟨hmem, -⟩
    · rw [hhandle, hkey]
      exact h.owned o ho
    · exact h.owned o' hmem
  · simp only [Function.update_apply]
    split
    · rename_i hk
      constructor
      · nofun
      · rintro ⟨o', ho', -, hkey', hwaits⟩
        rcases (h.mem_change ho).mp ho' with rfl | ⟨hmem, hother⟩
        · exact absurd hwaits hstate
        · exact absurd (congrArg Outcome.handle (h.eq_of_key hmem ho (hkey'.trans hk))) hother
    rename_i hk
    rw [h.pending]
    constructor
    · rintro ⟨o', ho', hhandle', hkey', hwaits⟩
      refine ⟨o', (h.mem_change ho).mpr (.inr ⟨ho', fun heq => ?_⟩), hhandle', hkey', hwaits⟩
      rw [h.eq_of_handle ho' ho heq] at hkey'
      exact hk hkey'.symm
    · rintro ⟨o', ho', hhandle', hkey', hwaits⟩
      rcases (h.mem_change ho).mp ho' with rfl | ⟨hmem, -⟩
      · exact absurd hwaits hstate
      · exact ⟨o', hmem, hhandle', hkey', hwaits⟩
  · have hbefore := bytes_split h.nodup ho
    have hzero := ((h.consistent o ho).of_waiting hwaiting).2
    have hmem : f o ∈ (s.change o.handle f).entries := (h.mem_change ho).mpr (.inl rfl)
    have hafter := bytes_split (hhandles ▸ h.nodup) hmem
    have hfilter : (s.change o.handle f).entries.filter (·.handle ≠ (f o).handle) = s.entries.filter (·.handle ≠ o.handle) := by
      rw [hhandle]
      simp only [OutcomeStore.change, List.filter_map]
      rw [List.map_congr_left (g := id), List.map_id]
      · refine List.filter_congr fun p hp => ?_
        simp only [Function.comp_apply]
        split
        · rename_i hsame
          rw [h.eq_of_handle hp ho hsame, hhandle]
        · rfl
      intro p hp
      obtain ⟨hmem, hne⟩ := List.mem_filter.mp hp
      simp only [Function.comp_apply, decide_eq_true_eq] at hne
      split at hne
      · rename_i hsame
        rw [h.eq_of_handle hmem ho hsame, hhandle] at hne
        exact absurd rfl hne
      · rename_i hother
        rw [if_neg hother, id]
    rw [hfilter] at hafter
    show s.responseBytes + (f o).responseBytes = OutcomeStore.bytes (s.change o.handle f).entries
    rw [hafter, h.bytes, hbefore, hzero, Nat.add_zero]
  · rcases (h.mem_change ho).mp ho' with rfl | ⟨hmem, -⟩
    · exact hconsistent
    · exact h.consistent o' hmem

/-! ## The operations -/

theorem Exact.retain (h : Exact owner s) {now handle generation : Nat} {requestId : Int} {method : String}
    (howner : handle = owner (generation, requestId)) :
    Exact owner (s.retain limits now handle generation requestId method) := by
  have hpurged := h.purged now
  have hdiscarded := hpurged.exact.discarded handle
  have hevicted := hdiscarded.exact.evicted limits
  have hnew : Lacks handle (((s.purge now).discard handle).evict limits) := (lacks_discard _ handle).removing
  exact hevicted.exact.add (o := ⟨handle, generation, requestId, method, now + limits.ttlSeconds, .waiting, none, 0, none⟩)
    hnew howner rfl rfl rfl

variable {k : Nat × Int}

/-- What is pending is one waiting entry. -/
theorem Exact.find_pending (h : Exact owner s) :
    (s.pending k).bind s.find = some o ↔ o ∈ s.entries ∧ o.key = k ∧ o.state = .waiting := by
  rw [Option.bind_eq_some_iff]
  constructor
  · rintro ⟨a, ha, hfind⟩
    obtain ⟨o', ho', hhandle, hkey, hwaiting⟩ := (h.pending k a).mp ha
    obtain ⟨hmem, hhandle'⟩ := find_eq_some hfind
    obtain rfl := h.eq_of_handle ho' hmem (hhandle.trans hhandle'.symm)
    exact ⟨hmem, hkey, hwaiting⟩
  rintro ⟨ho, hkey, hwaiting⟩
  refine ⟨o.handle, (h.pending k _).mpr ⟨o, ho, rfl, hkey, hwaiting⟩, ?_⟩
  cases hfind : s.find o.handle with
  | none =>
    have hdiffers := List.find?_eq_none.mp hfind o ho
    simp at hdiffers
  | some o' =>
    obtain ⟨hmem, hhandle⟩ := find_eq_some hfind
    rw [h.eq_of_handle hmem ho hhandle]

/-- The three ends of `complete`. -/
inductive Completed (encode : Json → Nat → Except String Nat) (limits : OutcomeLimits) (s : OutcomeStore) (k : Nat × Int)
    (response : Json) : OutcomeStore × Option Nat → Prop
  | nothing (idle : ∀ o ∈ s.entries, ¬ (o.key = k ∧ o.state = .waiting)) : Completed encode limits s k response (s, none)
  | settled {o : Outcome} {f : Outcome → Outcome} {t : OutcomeStore} (mem : o ∈ s.entries) (key : o.key = k)
      (waiting : o.state = .waiting)
      (result : (∃ size, f = (fun o => { o with response := some response, responseBytes := size, state := .completed }) ∧
          size ≤ limits.maxResponseBytes - s.responseBytes ∧ encode response (limits.maxResponseBytes - s.responseBytes) = .ok size) ∨
        ∃ reason, f = (Outcome.markUnavailable · reason))
      (entries : t = ⟨(s.change o.handle f).entries, Function.update s.pending o.key none, s.responseBytes + (f o).responseBytes⟩) :
      Completed encode limits s k response (t, some o.handle)

variable {encode : Json → Nat → Except String Nat} {response : Json}

theorem Exact.completed (h : Exact owner s) {now generation : Nat} {requestId : Int} :
    Completed encode limits (s.purge now) (generation, requestId) response
      (s.complete encode limits now generation requestId response) := by
  have hpurged := (h.purged now).exact
  unfold OutcomeStore.complete
  generalize s.purge now = s at hpurged
  dsimp only
  cases hfind : (s.pending (generation, requestId)).bind s.find with
  | none =>
    refine .nothing fun o ho hwaits => ?_
    rw [hpurged.find_pending.mpr ⟨ho, hwaits⟩] at hfind
    cases hfind
  | some o =>
    obtain ⟨ho, hkey, hwaiting⟩ := hpurged.find_pending.mp hfind
    simp only
    have hzero := ((hpurged.consistent o ho).of_waiting hwaiting).2
    cases hsnapshot : snapshot encode limits s response with
    | ok size =>
      refine .settled ho hkey hwaiting (.inl ⟨size, rfl, ?_⟩) (by rw [hkey]; rfl)
      unfold snapshot at hsnapshot
      dsimp only at hsnapshot
      split at hsnapshot
      · cases hsnapshot
      rename_i hencoded
      split at hsnapshot
      · rename_i hfits
        cases hsnapshot
        exact ⟨hfits, hencoded⟩
      · cases hsnapshot
    | error reason =>
      refine .settled ho hkey hwaiting (.inr ⟨reason, rfl⟩) ?_
      rw [hkey, hzero]
      rfl

variable {result : OutcomeStore × Option Nat}

theorem Exact.of_completed (h : Exact owner s) (hc : Completed encode limits s k response result) : Exact owner result.1 := by
  cases hc with
  | nothing => exact h
  | settled ho hkey hwaiting hresult ht =>
    rw [ht]
    rcases hresult with ⟨size, rfl, -⟩ | ⟨reason, rfl⟩
    · exact h.settle ho hwaiting rfl rfl nofun (.inl ⟨rfl, rfl⟩)
    · exact h.settle ho hwaiting rfl rfl nofun (.inr ⟨nofun, rfl, rfl⟩)

theorem Completed.bytes_le (hc : Completed encode limits s k response result)
    (h : s.responseBytes ≤ limits.maxResponseBytes) : result.1.responseBytes ≤ limits.maxResponseBytes := by
  cases hc with
  | nothing => exact h
  | settled ho hkey hwaiting hresult ht =>
    rw [ht]
    rcases hresult with ⟨size, rfl, hsize, -⟩ | ⟨reason, rfl⟩
    · exact (Nat.add_le_add_left hsize _).trans (by rw [Nat.add_sub_cancel' h])
    · exact h

theorem Completed.length (hc : Completed encode limits s k response result) : result.1.entries.length = s.entries.length := by
  cases hc with
  | nothing => rfl
  | settled ho hkey hwaiting hresult ht =>
    rw [ht]
    exact List.length_map _

/-- An entry of an interrupted generation. -/
def interrupted (o : Outcome) : Outcome := { o with state := .interrupted, unavailableReason := some "connection_closed" }

/-- What the loop of `interrupt_generation` does to the store: entries that wait are settled. -/
structure Interrupts (owner : Nat × Int → Nat) (s s' : OutcomeStore) : Prop where
  exact : Exact owner s'
  bytes : s'.responseBytes = s.responseBytes
  length : s'.entries.length = s.entries.length
  settled : ∀ o ∈ s.entries, o.state ≠ .waiting → o ∈ s'.entries
  from_waiting : ∀ o ∈ s'.entries, o ∈ s.entries ∨ ∃ o₀ ∈ s.entries, o₀.state = .waiting ∧ o = interrupted o₀

theorem Exact.interrupting (h : Exact owner s) {generation : Nat} (hl : (l.map Outcome.handle).Nodup)
    (hmem : ∀ o ∈ l, o ∈ s.entries) :
    Interrupts owner s (l.foldl (fun s o =>
      if o.generation = generation ∧ o.state = .waiting then
        { s.change o.handle (fun o => { o with state := .interrupted, unavailableReason := some "connection_closed" }) with
          pending := Function.update s.pending o.key none }
      else s) s) := by
  induction l generalizing s with
  | nil => exact ⟨h, rfl, rfl, fun o ho _ => ho, fun o ho => .inl ho⟩
  | cons a l ih =>
    rw [List.map_cons, List.nodup_cons] at hl
    simp only [List.foldl_cons]
    have ha := hmem a List.mem_cons_self
    split
    · rename_i hcond
      obtain ⟨hnone, hzero⟩ := (h.consistent a ha).of_waiting hcond.2
      have hsettled : Exact owner { s.change a.handle interrupted with pending := Function.update s.pending a.key none } := by
        have := h.settle (f := interrupted) ha hcond.2 rfl rfl nofun (.inr ⟨nofun, hnone, hzero⟩)
        rwa [show (interrupted a).responseBytes = 0 from hzero, Nat.add_zero] at this
      have hrest := ih hsettled hl.2 fun o ho => (h.mem_change ha).mpr
        (.inr ⟨hmem o (List.mem_cons_of_mem _ ho), fun heq => hl.1 (List.mem_map.mpr ⟨o, ho, heq⟩)⟩)
      refine ⟨hrest.exact, hrest.bytes, ?_, fun o ho hstate => ?_, fun o ho => ?_⟩
      · exact hrest.length.trans (by simp [OutcomeStore.change])
      · refine hrest.settled o ((h.mem_change ha).mpr (.inr ⟨ho, fun heq => ?_⟩)) hstate
        rw [h.eq_of_handle ho ha heq] at hstate
        exact hstate hcond.2
      have hback {o : Outcome} (ho : o ∈ (s.change a.handle interrupted).entries) :
          o ∈ s.entries ∨ ∃ o₀ ∈ s.entries, o₀.state = .waiting ∧ o = interrupted o₀ := by
        rcases (h.mem_change ha).mp ho with rfl | ⟨hmem, -⟩
        · exact .inr ⟨a, ha, hcond.2, rfl⟩
        · exact .inl hmem
      rcases hrest.from_waiting o ho with ho | ⟨o₀, ho₀, hwaiting, rfl⟩
      · exact hback ho
      · rcases hback ho₀ with ho₀ | ⟨o₁, -, -, rfl⟩
        · exact .inr ⟨o₀, ho₀, hwaiting, rfl⟩
        · cases hwaiting
    · exact ih h hl.2 fun o ho => hmem o (List.mem_cons_of_mem _ ho)

theorem Exact.interrupts (h : Exact owner s) {now generation : Nat} :
    Interrupts owner (s.purge now) (s.interruptGeneration now generation) :=
  (h.purged now).exact.interrupting (h.purged now).exact.nodup fun _ ho => ho

theorem get_eq (now handle : Nat) : s.get now handle true = s.purge now := by
  simp only [OutcomeStore.get, Bool.not_true, Bool.and_false, Bool.false_eq_true, if_false]
  split <;> rfl

end OutcomeStore

/-! ## Runs -/

inductive OutcomeCall
  | retain (handle generation : Nat) (requestId : Int) (method : String)
  | complete (generation : Nat) (requestId : Int) (response : Json)
  | interruptGeneration (generation : Nat)
  | get (handle : Nat)

/-- A call, and the time it reads. -/
abbrev TimedCall := Nat × OutcomeCall

namespace OutcomeStore

section Runs

variable (encode : Json → Nat → Except String Nat) (limits : OutcomeLimits)

def apply (s : OutcomeStore) (now : Nat) : OutcomeCall → OutcomeStore
  | .retain handle generation requestId method => s.retain limits now handle generation requestId method
  | .complete generation requestId response => (s.complete encode limits now generation requestId response).1
  | .interruptGeneration generation => s.interruptGeneration now generation
  | .get handle => s.get now handle true

/-- The store, and the last time that was read. -/
abbrev Timed := OutcomeStore × Nat

def Step (w : Timed) (call : TimedCall) (w' : Timed) : Prop := w.2 ≤ call.1 ∧ w' = (apply encode limits w.1 call.1 call.2, call.1)

end Runs

/-- A generation and an id belong to one handle. -/
def Owned (owner : Nat × Int → Nat) : TimedCall → Prop
  | (_, .retain handle generation requestId _) => handle = owner (generation, requestId)
  | _ => True

/-- What holds between two calls. -/
structure Good (owner : Nat × Int → Nat) (limits : OutcomeLimits) (s : OutcomeStore) : Prop where
  exact : Exact owner s
  bytes : s.responseBytes ≤ limits.maxResponseBytes
  length : s.entries.length ≤ limits.maxEntries

/-- A store that is full evicts its oldest entry. -/
def Evicts (limits : OutcomeLimits) (s : OutcomeStore) (now handle : Nat) (o : Outcome) : Prop :=
  limits.maxEntries ≤ ((s.purge now).discard handle).entries.length ∧ ((s.purge now).discard handle).entries.head? = some o

/-- Why an entry may be removed: it has expired, its handle is retained again, or it is evicted. -/
def Removes (limits : OutcomeLimits) (s : OutcomeStore) (call : TimedCall) (o : Outcome) : Prop :=
  o.expiresAt ≤ call.1 ∨ ∃ handle generation requestId method, call.2 = .retain handle generation requestId method ∧
    (handle = o.handle ∨ Evicts limits s call.1 handle o)

variable {encode : Json → Nat → Except String Nat} {limits : OutcomeLimits} {owner : Nat × Int → Nat} {s : OutcomeStore} {o : Outcome}

theorem Good.apply (hpositive : 0 < limits.maxEntries) (h : Good owner limits s) {call : TimedCall} (howned : Owned owner call) :
    Good owner limits (s.apply encode limits call.1 call.2) := by
  obtain ⟨now, call⟩ := call
  have hpurged := h.exact.purged now
  have hbytes := Nat.le_trans hpurged.bytes h.bytes
  have hlength := Nat.le_trans hpurged.sublist.length_le h.length
  cases call with
  | retain handle generation requestId method =>
    have hdiscarded := hpurged.exact.discarded handle
    have hevicted := hdiscarded.exact.evicted limits
    refine ⟨h.exact.retain howned, Nat.le_trans hevicted.bytes (Nat.le_trans hdiscarded.bytes hbytes), ?_⟩
    simp only [OutcomeStore.apply, OutcomeStore.retain, List.length_append, List.length_singleton]
    exact evict_length hpositive
  | complete generation requestId response =>
    have hcompleted := @Exact.completed _ _ limits encode response h.exact now generation requestId
    exact ⟨hpurged.exact.of_completed hcompleted, hcompleted.bytes_le hbytes, hcompleted.length.trans_le hlength⟩
  | interruptGeneration generation =>
    have hinterrupts := @Exact.interrupts _ _ h.exact now generation
    exact ⟨hinterrupts.exact, hinterrupts.bytes ▸ hbytes, hinterrupts.length ▸ hlength⟩
  | get handle =>
    simp only [OutcomeStore.apply, get_eq]
    exact ⟨hpurged.exact, hbytes, hlength⟩

/-- A settled entry stays as it is, or is removed. -/
theorem Good.stays (hpositive : 0 < limits.maxEntries) (h : Good owner limits s) {call : TimedCall} (ho : o ∈ s.entries) (hsettled : o.state ≠ .waiting) :
    o ∈ (s.apply encode limits call.1 call.2).entries ∨ Removes limits s call o := by
  obtain ⟨now, call⟩ := call
  by_cases hexpired : o.expiresAt ≤ now
  · exact .inr (.inl hexpired)
  have hpurged : o ∈ (s.purge now).entries := h.exact.mem_purge.mpr ⟨ho, Nat.lt_of_not_le hexpired⟩
  have hexact := (h.exact.purged now).exact
  cases call with
  | retain handle generation requestId method =>
    by_cases hhandle : handle = o.handle
    · exact .inr (.inr ⟨_, _, _, _, rfl, .inl hhandle⟩)
    have hdiscarded : o ∈ ((s.purge now).discard handle).entries := by
      unfold OutcomeStore.discard
      split
      · rename_i o' hfind
        exact mem_remove.mpr ⟨hpurged, fun heq => hhandle ((find_eq_some hfind).2.symm.trans heq.symm)⟩
      · exact hpurged
    have hleft := (h.exact.purged now).trans (hexact.discarded handle)
    by_cases hroom : ((s.purge now).discard handle).entries.length < limits.maxEntries
    · refine .inl ?_
      simp only [OutcomeStore.apply, OutcomeStore.retain, evict_of_lt hroom]
      exact List.mem_append_left _ hdiscarded
    obtain ⟨a, l, hentries, hevict⟩ :=
      evict_of_le hpositive (hleft.sublist.length_le.trans h.length) (Nat.le_of_not_lt hroom)
    by_cases hoa : o = a
    · refine .inr (.inr ⟨_, _, _, _, rfl, .inr ⟨Nat.le_of_not_lt hroom, ?_⟩⟩)
      rw [hentries, hoa, List.head?_cons]
    · refine .inl ?_
      simp only [OutcomeStore.apply, OutcomeStore.retain, hevict]
      refine List.mem_append_left _ (mem_remove.mpr ⟨hdiscarded, fun heq => hoa ?_⟩)
      exact hleft.exact.eq_of_handle hdiscarded (hentries ▸ List.mem_cons_self) heq
  | complete generation requestId response =>
    refine .inl ?_
    have hcompleted := @Exact.completed _ _ limits encode response h.exact now generation requestId
    simp only [OutcomeStore.apply]
    generalize s.complete encode limits now generation requestId response = result at hcompleted ⊢
    cases hcompleted with
    | nothing => exact hpurged
    | settled hmem hkey hwaiting hresult ht =>
      rw [ht]
      refine (hexact.mem_change hmem).mpr (.inr ⟨hpurged, fun heq => ?_⟩)
      rw [hexact.eq_of_handle hpurged hmem heq] at hsettled
      exact hsettled hwaiting
  | interruptGeneration generation =>
    exact .inl (h.exact.interrupts.settled o hpurged hsettled)
  | get handle =>
    simp only [OutcomeStore.apply, get_eq]
    exact .inl hpurged

/-! ## What a whole run keeps -/

/-- What `get` answers for, when there is an answer. -/
def receipt (s : OutcomeStore) (now handle : Nat) : Option Outcome := (s.get now handle true).find handle

/-- The size of a response that is kept is that of its encoding. -/
def Encoded (encode : Json → Nat → Except String Nat) (s : OutcomeStore) : Prop :=
  ∀ o ∈ s.entries, ∀ r, o.response = some r → ∃ room, encode r room = .ok o.responseBytes

theorem Encoded.apply (h : Encoded encode s) (hg : Good owner limits s) (call : TimedCall) :
    Encoded encode (s.apply encode limits call.1 call.2) := by
  obtain ⟨now, call⟩ := call
  have hpurged : Encoded encode (s.purge now) := fun o ho => h o ((hg.exact.purged now).sublist.mem ho)
  have hexact := (hg.exact.purged now).exact
  cases call with
  | retain handle generation requestId method =>
    intro o ho r hr
    simp only [OutcomeStore.apply, OutcomeStore.retain] at ho
    rcases List.mem_append.mp ho with ho | ho
    · have hleft := (hexact.discarded handle).trans ((hexact.discarded handle).exact.evicted limits)
      exact hpurged o (hleft.sublist.mem ho) r hr
    · rw [List.mem_singleton.mp ho] at hr
      cases hr
  | complete generation requestId response =>
    intro o ho r hr
    have hcompleted := @Exact.completed _ _ limits encode response hg.exact now generation requestId
    simp only [OutcomeStore.apply] at ho
    generalize s.complete encode limits now generation requestId response = result at hcompleted ho
    cases hcompleted with
    | nothing => exact hpurged o ho r hr
    | settled hmem hkey hwaiting hresult ht =>
      rw [ht] at ho
      rcases (hexact.mem_change hmem).mp ho with rfl | ⟨ho, -⟩
      · rcases hresult with ⟨size, rfl, -, hencoded⟩ | ⟨reason, rfl⟩
        · cases hr
          exact ⟨_, hencoded⟩
        · cases hr
      · exact hpurged o ho r hr
  | interruptGeneration generation =>
    intro o ho r hr
    rcases hg.exact.interrupts.from_waiting o ho with ho | ⟨o₀, ho₀, -, rfl⟩
    · exact hpurged o ho r hr
    · exact hpurged o₀ ho₀ r hr
  | get handle =>
    simp only [OutcomeStore.apply, get_eq]
    exact hpurged

/-- The responses that `complete` was called with. -/
def Delivered (tr : List TimedCall) (_handle generation : Nat) (requestId : Int) (r : Json) : Prop :=
  ∃ now, (now, OutcomeCall.complete generation requestId r) ∈ tr

variable {tr : List TimedCall}

theorem wf_apply (h : Wf (Delivered tr) s) (call : TimedCall) :
    Wf (Delivered (tr ++ [call])) (s.apply encode limits call.1 call.2) := by
  obtain ⟨now, call⟩ := call
  have hmono (a g : Nat) (i : Int) (m : Json) : Delivered tr a g i m → Delivered (tr ++ [(now, call)]) a g i m := by
    rintro ⟨at', hmem⟩
    exact ⟨at', List.mem_append_left _ hmem⟩
  cases call with
  | retain handle generation requestId method => exact (h.retain limits now handle generation requestId method).mono hmono
  | complete generation requestId response =>
    exact h.complete hmono fun a _ => ⟨now, List.mem_append_right _ (List.mem_singleton_self _)⟩
  | interruptGeneration generation => exact (h.interruptGeneration now generation).mono hmono
  | get handle => exact (h.get now handle true).mono hmono

theorem Good.empty : Good owner limits {} := ⟨.empty, Nat.zero_le _, Nat.zero_le _⟩

theorem Good.run (hpositive : 0 < limits.maxEntries) {w w' : Timed}
    (hrun : Run (Step encode limits) w tr w') (hg : Good owner limits w.1) (howned : ∀ call ∈ tr, Owned owner call) :
    Good owner limits w'.1 := by
  induction hrun with
  | nil => exact hg
  | snoc hrun hstep ih =>
    rw [List.forall_mem_append] at howned
    rw [hstep.2]
    exact (ih howned.1).apply hpositive (howned.2 _ (List.mem_singleton_self _))

theorem encoded_run (hpositive : 0 < limits.maxEntries) {w : Timed}
    (hrun : Run (Step encode limits) ({}, 0) tr w) (howned : ∀ call ∈ tr, Owned owner call) :
    Encoded encode w.1 ∧ Wf (Delivered tr) w.1 := by
  generalize hstart : (({}, 0) : Timed) = w₀ at hrun
  induction hrun with
  | nil =>
    subst hstart
    exact ⟨by simp [Encoded], .empty⟩
  | snoc hrun hstep ih =>
    subst hstart
    rw [List.forall_mem_append] at howned
    obtain ⟨hencoded, hwf⟩ := ih howned.1
    rw [hstep.2]
    exact ⟨hencoded.apply (Good.empty.run hpositive hrun howned.1) _, wf_apply hwf _⟩

/-- A settled entry stays as it is, until a call removes it. -/
theorem Good.stays_run (hpositive : 0 < limits.maxEntries) {w w' : Timed}
    (hrun : Run (Step encode limits) w tr w') (hg : Good owner limits w.1) (howned : ∀ call ∈ tr, Owned owner call)
    (ho : o ∈ w.1.entries) (hsettled : o.state ≠ .waiting) :
    o ∈ w'.1.entries ∨ ∃ pre call post u, tr = pre ++ call :: post ∧ Run (Step encode limits) w pre u ∧ Removes limits u.1 call o := by
  induction hrun with
  | nil => exact .inl ho
  | @snoc t v tr call hrun hstep ih =>
    rw [List.forall_mem_append] at howned
    rcases ih howned.1 with hstays | ⟨pre, e, post, u, rfl, hpre, hremoves⟩
    · rcases @Good.stays encode _ _ _ _ hpositive (hg.run hpositive hrun howned.1) _ hstays hsettled with hstays | hremoves
      · rw [hstep.2]
        exact .inl hstays
      · exact .inr ⟨tr, call, [], t, rfl, hrun, hremoves⟩
    · exact .inr ⟨pre, e, post ++ [call], u, by simp, hpre, hremoves⟩

theorem Good.receipt (h : Good owner limits s) {now handle : Nat} :
    s.receipt now handle = some o ↔ o ∈ s.entries ∧ o.handle = handle ∧ now < o.expiresAt := by
  have hexact := (h.exact.purged now).exact
  unfold OutcomeStore.receipt
  rw [get_eq]
  constructor
  · intro hfind
    obtain ⟨hmem, hhandle⟩ := find_eq_some hfind
    obtain ⟨ho, hnow⟩ := h.exact.mem_purge.mp hmem
    exact ⟨ho, hhandle, hnow⟩
  rintro ⟨ho, rfl, hnow⟩
  have hmem := h.exact.mem_purge.mpr ⟨ho, hnow⟩
  cases hfind : (s.purge now).find o.handle with
  | none =>
    have hdiffers := List.find?_eq_none.mp hfind o hmem
    simp at hdiffers
  | some o' =>
    obtain ⟨hmem', hhandle⟩ := find_eq_some hfind
    rw [hexact.eq_of_handle hmem' hmem hhandle]

theorem Good.complete_none (h : Good owner limits s) {now generation : Nat} {requestId : Int} {response : Json} :
    (s.complete encode limits now generation requestId response).2 = none ↔
      ∀ o ∈ s.entries, now < o.expiresAt → ¬ (o.key = (generation, requestId) ∧ o.state = .waiting) := by
  have hcompleted := @Exact.completed _ _ limits encode response h.exact now generation requestId
  generalize s.complete encode limits now generation requestId response = result at hcompleted
  constructor
  · intro hnone o ho hnow hwaits
    cases hcompleted with
    | nothing hidle => exact hidle o (h.exact.mem_purge.mpr ⟨ho, hnow⟩) hwaits
    | settled => cases hnone
  intro hidle
  cases hcompleted with
  | nothing => rfl
  | settled ho hkey hwaiting hresult ht =>
    obtain ⟨hmem, hnow⟩ := h.exact.mem_purge.mp ho
    exact absurd ⟨hkey, hwaiting⟩ (hidle _ hmem hnow)

/-- **The store of late responses is exact.** In every run its bytes are those of the encodings it keeps and stay under the
limit, as the number of its entries does; what is pending is what waits, and `complete` finds nothing exactly where nothing
waits for the pair. A response that is kept was delivered for its own generation and id. `get` finds an entry under its own
handle until it expires. A settled entry stays as it is until it expires, its handle is retained again, or it is the
oldest of a full store. -/
theorem store_exact (hpositive : 0 < limits.maxEntries) {w : Timed} {tr : List TimedCall}
    (hrun : Run (Step encode limits) ({}, 0) tr w) (howned : ∀ call ∈ tr, Owned owner call) :
    (w.1.responseBytes = OutcomeStore.bytes w.1.entries ∧ w.1.responseBytes ≤ limits.maxResponseBytes ∧
      w.1.entries.length ≤ limits.maxEntries) ∧
    (∀ o ∈ w.1.entries, o.handle = owner o.key ∧
      ((o.state = .completed ∧ ∃ r, o.response = some r ∧ (∃ room, encode r room = .ok o.responseBytes) ∧
          ∃ now, (now, OutcomeCall.complete o.generation o.requestId r) ∈ tr) ∨
        (o.state ≠ .completed ∧ o.response = none ∧ o.responseBytes = 0))) ∧
    (∀ k h, w.1.pending k = some h ↔ ∃ o ∈ w.1.entries, o.handle = h ∧ o.key = k ∧ o.state = .waiting) ∧
    (∀ now generation requestId response, (w.1.complete encode limits now generation requestId response).2 = none ↔
      ∀ o ∈ w.1.entries, now < o.expiresAt → ¬ (o.key = (generation, requestId) ∧ o.state = .waiting)) ∧
    (∀ now handle o, w.1.receipt now handle = some o ↔ o ∈ w.1.entries ∧ o.handle = handle ∧ now < o.expiresAt) ∧
    ∀ o ∈ w.1.entries, o.state ≠ .waiting → ∀ tr' w', Run (Step encode limits) w tr' w' → (∀ call ∈ tr', Owned owner call) →
      o ∈ w'.1.entries ∨
        ∃ pre call post u, tr' = pre ++ call :: post ∧ Run (Step encode limits) w pre u ∧ Removes limits u.1 call o := by
  have hg : Good owner limits w.1 := Good.empty.run hpositive hrun howned
  obtain ⟨hencoded, hwf⟩ := encoded_run hpositive hrun howned
  refine ⟨⟨hg.exact.bytes, hg.bytes, hg.length⟩, fun o ho => ⟨hg.exact.owned o ho, ?_⟩, hg.exact.pending,
    fun _ _ _ _ => hg.complete_none, fun _ _ _ => hg.receipt,
    fun o ho hsettled tr' w' hrun' howned' => hg.stays_run hpositive hrun' howned' ho hsettled⟩
  rcases hg.exact.consistent o ho with ⟨hcompleted, hsome⟩ | hrest
  · obtain ⟨r, hr⟩ := Option.isSome_iff_exists.mp hsome
    exact .inl ⟨hcompleted, r, hr, hencoded o ho r hr, hwf.kept o ho r hr⟩
  · exact .inr hrest

/-! A handle is retained, answered, and retained again for another request. -/

section Replaced

/-- Two bytes for every response. -/
def twoBytes : Json → Nat → Except String Nat := fun _ _ => .ok 2

def answered : List TimedCall := [(0, .retain 7 1 1 "tools/call"), (1, .complete 1 1 (.obj []))]

def retainedAgain : List TimedCall := [(2, .retain 7 1 2 "tools/call")]

def after (tr : List TimedCall) (w : Timed) : Timed := tr.foldl (fun w call => (apply twoBytes {} w.1 call.1 call.2, call.1)) w

theorem answered_run : Run (Step twoBytes {}) ({}, 0) answered (after answered ({}, 0)) :=
  @Run.of_guarded _ _ _ _ (fun (w : Timed) (call : TimedCall) => decide (w.2 ≤ call.1)) (fun _ _ h => ⟨of_decide_eq_true h, rfl⟩) _ _
    (by decide)

theorem retainedAgain_run : Run (Step twoBytes {}) (after answered ({}, 0)) retainedAgain (after retainedAgain (after answered ({}, 0))) :=
  @Run.of_guarded _ _ _ _ (fun (w : Timed) (call : TimedCall) => decide (w.2 ≤ call.1)) (fun _ _ h => ⟨of_decide_eq_true h, rfl⟩) _ _
    (by decide)

theorem store_exact_answered : 0 < ({} : OutcomeLimits).maxEntries ∧ ((after answered ({}, 0)).1.receipt 1 7).isSome = true ∧
      (after answered ({}, 0)).1.responseBytes = OutcomeStore.bytes (after answered ({}, 0)).1.entries := by
  refine ⟨by decide, by decide, ?_⟩
  exact (@store_exact _ _ (fun _ => 7) (by decide) _ _ answered_run (by simp [answered, Owned])).1.1

/-- A response that has been answered is gone, though it has not expired and the store is not full: its handle was retained
again. -/
theorem response_replaced : ∃ tr tr' w w' o, Run (Step twoBytes {}) ({}, 0) tr w ∧ Run (Step twoBytes {}) w tr' w' ∧
    (∀ call ∈ tr ++ tr', Owned (fun _ => 7) call) ∧ w.1.receipt w.2 7 = some o ∧ o.state = .completed ∧ w'.2 < o.expiresAt ∧
    w.1.entries.length + tr'.length < ({} : OutcomeLimits).maxEntries ∧
    (w'.1.receipt w'.2 7).map (·.state) = some .waiting ∧ (w'.1.receipt w'.2 7).bind (·.response) = none :=
  ⟨answered, retainedAgain, _, _, _, answered_run, retainedAgain_run, by simp [answered, retainedAgain, Owned], rfl, rfl,
    by decide, by decide, by decide, rfl⟩

end Replaced

end OutcomeStore

end LingshuGate.Stdio

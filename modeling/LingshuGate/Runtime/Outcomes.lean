import LingshuGate.Lib.Json
import Mathlib.Logic.Function.Basic
import Mathlib.Data.List.Nodup

/-!
# Late responses (`domain/mcp_request_outcome.py`)

| here | there |
| --- | --- |
| `Outcome`, `OutcomeStore` | `_Outcome` (98), `RequestOutcomeStore` (111) |
| `purge`, `remove`         | `_purge` (257), `_remove` (263) |
| `retain`                  | `retain` (146) |
| `complete`                | `complete` (158) |
| `interruptGeneration`     | `interrupt_generation` (212) |
| `get`                     | `get` (222), what it does to the store |

A generation is the number of a start of the client, and a handle the number of the request it was made for.
`checked_json_size` and the encoding of a response are the parameter `encode`: the size of the snapshot, or the reason
why there is none, where so many bytes are left.

The store never mixes two requests up: `OutcomeStore.Wf` says that what is pending for a generation and an id is the
entry made for them, and every operation keeps it.
-/

namespace LingshuGate.Stdio

open Lib

inductive OutcomeState
  | waiting | completed | unavailable | interrupted
  deriving DecidableEq

structure Outcome where
  handle : Nat
  generation : Nat
  requestId : Int
  method : String
  expiresAt : Nat
  state : OutcomeState := .waiting
  response : Option Json := none
  responseBytes : Nat := 0
  unavailableReason : Option String := none

structure OutcomeLimits where
  maxEntries : Nat := 128
  maxResponseBytes : Nat := 8 * 1024 * 1024
  ttlSeconds : Nat := 300

structure OutcomeStore where
  entries : List Outcome := []
  pending : Nat × Int → Option Nat := fun _ => none
  responseBytes : Nat := 0

def Outcome.key (o : Outcome) : Nat × Int := (o.generation, o.requestId)

def Outcome.markUnavailable (o : Outcome) (reason : String) : Outcome :=
  { o with response := none, responseBytes := 0, state := .unavailable, unavailableReason := some reason }

namespace OutcomeStore

def remove (s : OutcomeStore) (o : Outcome) : OutcomeStore where
  entries := s.entries.filter (·.handle ≠ o.handle)
  pending := Function.update s.pending o.key none
  responseBytes := s.responseBytes - o.responseBytes

def purge (s : OutcomeStore) (now : Nat) : OutcomeStore :=
  s.entries.foldl (fun s o => if o.expiresAt ≤ now then s.remove o else s) s

/-- Removes the oldest entries until there is room for one. -/
def evict (limits : OutcomeLimits) (s : OutcomeStore) : OutcomeStore :=
  s.entries.foldl (fun s o => if limits.maxEntries ≤ s.entries.length then s.remove o else s) s

def find (s : OutcomeStore) (handle : Nat) : Option Outcome := s.entries.find? (·.handle = handle)

/-- Removes the entry of this handle. -/
def discard (s : OutcomeStore) (handle : Nat) : OutcomeStore :=
  match s.find handle with
  | some o => s.remove o
  | none => s

def retain (limits : OutcomeLimits) (s : OutcomeStore) (now handle generation : Nat) (requestId : Int) (method : String) :
    OutcomeStore :=
  let s := ((s.purge now).discard handle).evict limits
  { s with
    entries := s.entries ++ [⟨handle, generation, requestId, method, now + limits.ttlSeconds, .waiting, none, 0, none⟩]
    pending := Function.update s.pending (generation, requestId) (some handle) }

/-- `outcome` is changed where it is. -/
def change (s : OutcomeStore) (handle : Nat) (f : Outcome → Outcome) : OutcomeStore :=
  { s with entries := s.entries.map fun o => if o.handle = handle then f o else o }

/-- The snapshot of a response, or why there is none. -/
def snapshot (encode : Json → Nat → Except String Nat) (limits : OutcomeLimits) (s : OutcomeStore) (response : Json) :
    Except String Nat :=
  let room := limits.maxResponseBytes - s.responseBytes
  match encode response room with
  | .error reason => .error reason
  | .ok size => if size ≤ room then .ok size else .error "response_byte_limit"

/-- The handle of the outcome that was waiting, if there was one. -/
def complete (encode : Json → Nat → Except String Nat) (limits : OutcomeLimits) (s : OutcomeStore)
    (now generation : Nat) (requestId : Int) (response : Json) : OutcomeStore × Option Nat :=
  let s := s.purge now
  match (s.pending (generation, requestId)).bind s.find with
  | none => (s, none)
  | some o =>
    let t := { s with pending := Function.update s.pending (generation, requestId) none }
    match snapshot encode limits s response with
    | .ok size =>
      ({ t.change o.handle (fun o => { o with response := some response, responseBytes := size, state := .completed }) with
        responseBytes := s.responseBytes + size }, some o.handle)
    | .error reason =>
      ({ t.change o.handle (Outcome.markUnavailable · reason) with responseBytes := s.responseBytes - o.responseBytes },
        some o.handle)

def interruptGeneration (s : OutcomeStore) (now generation : Nat) : OutcomeStore :=
  let s := s.purge now
  s.entries.foldl (fun s o =>
    if o.generation = generation ∧ o.state = .waiting then
      { s.change o.handle (fun o => { o with state := .interrupted, unavailableReason := some "connection_closed" }) with
        pending := Function.update s.pending o.key none }
    else s) s

/-- What a read does to the store: the snapshot of a response that does not decode is dropped. -/
def get (s : OutcomeStore) (now handle : Nat) (decodes : Bool) : OutcomeStore :=
  let s := s.purge now
  match s.find handle with
  | none => s
  | some o =>
    if o.response.isSome && !decodes then
      { s.change handle (Outcome.markUnavailable · "response_snapshot_unavailable") with
        responseBytes := s.responseBytes - o.responseBytes }
    else s

/-! ## What the store keeps -/

/-- Handles are unique, what is pending has its entry, and `P` holds of every response that is kept. -/
structure Wf (P : Nat → Nat → Int → Json → Prop) (s : OutcomeStore) : Prop where
  nodup : (s.entries.map Outcome.handle).Nodup
  pending : ∀ g i h, s.pending (g, i) = some h → ∃ o ∈ s.entries, o.handle = h ∧ o.generation = g ∧ o.requestId = i
  kept : ∀ o ∈ s.entries, ∀ m, o.response = some m → P o.handle o.generation o.requestId m

variable {P Q : Nat → Nat → Int → Json → Prop} {s : OutcomeStore}

theorem Wf.empty : Wf P {} := ⟨List.nodup_nil, by simp, by simp⟩

theorem Wf.mono (h : Wf P s) (hPQ : ∀ a g i m, P a g i m → Q a g i m) : Wf Q s :=
  ⟨h.nodup, h.pending, fun o ho m hm => hPQ _ _ _ _ (h.kept o ho m hm)⟩

theorem Wf.eq_of_handle (h : Wf P s) {o o' : Outcome} (ho : o ∈ s.entries) (ho' : o' ∈ s.entries)
    (he : o.handle = o'.handle) : o = o' := List.inj_on_of_nodup_map h.nodup ho ho' he

theorem Wf.remove (h : Wf P s) {o : Outcome} (ho : o ∈ s.entries) : Wf P (s.remove o) := by
  refine ⟨?_, ?_, ?_⟩
  · exact (h.nodup.sublist ((List.filter_sublist).map _))
  · intro g i a ha
    simp only [OutcomeStore.remove, Function.update_apply] at ha
    split at ha
    · cases ha
    rename_i hkey
    obtain ⟨o', ho', rfl, rfl, rfl⟩ := h.pending g i a ha
    refine ⟨o', List.mem_filter.mpr ⟨ho', ?_⟩, rfl, rfl, rfl⟩
    by_contra hsame
    obtain rfl := h.eq_of_handle ho' ho (by simpa using hsame)
    exact hkey rfl
  · intro o' ho' m hm
    exact h.kept o' (List.mem_of_mem_filter ho') m hm

variable {c : OutcomeStore → Outcome → Prop}

/-- A loop over the entries that removes some of them. -/
theorem Wf.removing [∀ s o, Decidable (c s o)] {l : List Outcome} (h : Wf P s)
    (hl : l.Nodup) (hmem : ∀ o ∈ l, o ∈ s.entries) (hinj : ∀ o ∈ l, ∀ o' ∈ l, o.handle = o'.handle → o = o') :
    Wf P (l.foldl (fun s o => if c s o then s.remove o else s) s) := by
  induction l generalizing s with
  | nil => exact h
  | cons o l ih =>
    obtain ⟨hnot, hl⟩ := List.nodup_cons.mp hl
    have hinj' : ∀ a ∈ l, ∀ b ∈ l, a.handle = b.handle → a = b :=
      fun a ha b hb => hinj a (List.mem_cons_of_mem _ ha) b (List.mem_cons_of_mem _ hb)
    simp only [List.foldl_cons]
    split
    · refine ih (h.remove (hmem o List.mem_cons_self)) hl ?_ hinj'
      intro a ha
      refine List.mem_filter.mpr ⟨hmem a (List.mem_cons_of_mem _ ha), ?_⟩
      by_contra hsame
      have hao := hinj a (List.mem_cons_of_mem _ ha) o List.mem_cons_self (by simpa using hsame)
      exact hnot (hao ▸ ha)
    · exact ih h hl (fun a ha => hmem a (List.mem_cons_of_mem _ ha)) hinj'

theorem Wf.removing_entries [∀ s o, Decidable (c s o)] (h : Wf P s) :
    Wf P (s.entries.foldl (fun s o => if c s o then s.remove o else s) s) :=
  h.removing (List.Nodup.of_map _ h.nodup) (fun _ ho => ho) (fun _ ho _ ho' => h.eq_of_handle ho ho')

theorem Wf.purge (h : Wf P s) (now : Nat) : Wf P (s.purge now) := h.removing_entries

theorem Wf.evict (h : Wf P s) (limits : OutcomeLimits) : Wf P (s.evict limits) := h.removing_entries

theorem find_eq_some {handle : Nat} {o : Outcome} (h : s.find handle = some o) : o ∈ s.entries ∧ o.handle = handle :=
  ⟨List.mem_of_find?_eq_some h, by simpa using List.find?_some h⟩

theorem Wf.discard (h : Wf P s) (handle : Nat) : Wf P (s.discard handle) := by
  unfold OutcomeStore.discard
  split
  · next hfind => exact h.remove (find_eq_some hfind).1
  · exact h

/-- No entry has this handle. -/
def Lacks (handle : Nat) (s : OutcomeStore) : Prop := ∀ o ∈ s.entries, o.handle ≠ handle

theorem lacks_discard (s : OutcomeStore) (handle : Nat) : Lacks handle (s.discard handle) := by
  unfold OutcomeStore.discard
  split
  · next o hfind =>
    intro o' ho'
    have hne := (List.mem_filter.mp ho').2
    rw [(find_eq_some hfind).2] at hne
    simpa using hne
  · next hfind =>
    intro o ho
    simpa using List.find?_eq_none.mp hfind o ho

theorem Lacks.removing {handle : Nat} [∀ s o, Decidable (c s o)] {l : List Outcome}
    (h : Lacks handle s) : Lacks handle (l.foldl (fun s o => if c s o then s.remove o else s) s) := by
  induction l generalizing s with
  | nil => exact h
  | cons o l ih =>
    simp only [List.foldl_cons]
    split
    · exact ih fun o' ho' => h o' (List.mem_of_mem_filter ho')
    · exact ih h

theorem Wf.retain (h : Wf P s) (limits : OutcomeLimits) (now handle generation : Nat) (requestId : Int) (method : String) :
    Wf P (s.retain limits now handle generation requestId method) := by
  have hwf := ((h.purge now).discard handle).evict limits
  have hnew : Lacks handle (((s.purge now).discard handle).evict limits) := (lacks_discard _ handle).removing
  unfold OutcomeStore.retain
  generalize ((s.purge now).discard handle).evict limits = t at hwf hnew
  refine ⟨?_, ?_, ?_⟩
  · simp only [List.map_append, List.map_singleton]
    refine hwf.nodup.append (List.nodup_singleton _) ?_
    simp only [List.disjoint_singleton, List.mem_map, not_exists, not_and]
    exact fun o ho => hnew o ho
  · intro g i a ha
    simp only [Function.update_apply] at ha
    split at ha
    · next hkey =>
      cases ha
      cases hkey
      exact ⟨_, List.mem_append_right _ (List.mem_singleton_self _), rfl, rfl, rfl⟩
    · obtain ⟨o, ho, hrest⟩ := hwf.pending g i a ha
      exact ⟨o, List.mem_append_left _ ho, hrest⟩
  · intro o ho m hm
    rcases List.mem_append.mp ho with ho | ho
    · exact hwf.kept o ho m hm
    · obtain rfl := List.mem_singleton.mp ho
      cases hm

/-- Some entries change, what they are for does not, and less is pending. -/
theorem Wf.changed {t : OutcomeStore} {f : Outcome → Outcome} (h : Wf P s) (ht : t.entries = s.entries.map f)
    (hpending : ∀ k a, t.pending k = some a → s.pending k = some a)
    (hf : ∀ o, (f o).handle = o.handle ∧ (f o).generation = o.generation ∧ (f o).requestId = o.requestId)
    (hkept : ∀ o ∈ s.entries, ∀ m, (f o).response = some m → P o.handle o.generation o.requestId m) : Wf P t := by
  refine ⟨?_, ?_, ?_⟩
  · have hhandles : t.entries.map Outcome.handle = s.entries.map Outcome.handle := by
      rw [ht, List.map_map]
      exact List.map_congr_left fun o _ => (hf o).1
    exact hhandles ▸ h.nodup
  · intro g i a ha
    obtain ⟨o, ho, rfl, rfl, rfl⟩ := h.pending g i a (hpending _ _ ha)
    exact ⟨f o, ht ▸ List.mem_map_of_mem ho, hf o⟩
  intro o' ho' m hm
  rw [ht] at ho'
  obtain ⟨o, ho, rfl⟩ := List.mem_map.mp ho'
  obtain ⟨hhandle, hgeneration, hrequest⟩ := hf o
  rw [hhandle, hgeneration, hrequest]
  exact hkept o ho m hm

theorem popped {k : Nat × Int} {k' : Nat × Int} {a : Nat} (h : Function.update s.pending k none k' = some a) :
    s.pending k' = some a := by
  rw [Function.update_apply] at h
  split at h
  · cases h
  · exact h

theorem Wf.interruptGeneration (h : Wf P s) (now generation : Nat) : Wf P (s.interruptGeneration now generation) := by
  unfold OutcomeStore.interruptGeneration
  have hwf := h.purge now
  generalize s.purge now = s at hwf
  dsimp only
  generalize s.entries = l
  induction l generalizing s with
  | nil => exact hwf
  | cons o l ih =>
    simp only [List.foldl_cons]
    split
    · refine ih _ (hwf.changed rfl (fun _ _ => popped) ?_ ?_)
      · intro o'
        split <;> exact ⟨rfl, rfl, rfl⟩
      · intro o' ho' m hm
        refine hwf.kept o' ho' m ?_
        split at hm <;> exact hm
    · exact ih _ hwf

/-- A response is kept for the request that is pending for its generation and id, and for no other. -/
theorem Wf.complete {encode : Json → Nat → Except String Nat} {limits : OutcomeLimits} {now generation : Nat}
    {requestId : Int} {response : Json} (h : Wf P s) (hPQ : ∀ a g i m, P a g i m → Q a g i m)
    (hnew : ∀ a, (s.complete encode limits now generation requestId response).2 = some a → Q a generation requestId response) :
    Wf Q (s.complete encode limits now generation requestId response).1 := by
  unfold OutcomeStore.complete at hnew ⊢
  have hwf := h.purge now
  generalize s.purge now = s at hwf hnew
  dsimp only at hnew ⊢
  cases hfind : (s.pending (generation, requestId)).bind s.find with
  | none => exact hwf.mono hPQ
  | some o =>
    obtain ⟨a, ha, ho⟩ := Option.bind_eq_some_iff.mp hfind
    obtain ⟨hmem, rfl⟩ := find_eq_some ho
    obtain ⟨o', ho', hhandle, hgeneration, hrequest⟩ := hwf.pending _ _ _ ha
    obtain rfl := hwf.eq_of_handle ho' hmem hhandle
    rw [hfind] at hnew
    cases hsnapshot : snapshot encode limits s response with
    | ok size =>
      simp only [hsnapshot] at hnew
      refine (hwf.mono hPQ).changed rfl (fun _ _ => popped) ?_ ?_
      · intro p
        split <;> exact ⟨rfl, rfl, rfl⟩
      intro p hp m hm
      split at hm
      · next hsame =>
        obtain rfl := hwf.eq_of_handle hp hmem hsame
        cases hm
        rw [hgeneration, hrequest]
        exact hnew _ rfl
      · exact hPQ _ _ _ _ (hwf.kept p hp m hm)
    | error reason =>
      refine (hwf.mono hPQ).changed rfl (fun _ _ => popped) ?_ ?_
      · intro p
        split <;> exact ⟨rfl, rfl, rfl⟩
      · intro p hp m hm
        split at hm
        · cases hm
        · exact hPQ _ _ _ _ (hwf.kept p hp m hm)

theorem Wf.get (h : Wf P s) (now handle : Nat) (decodes : Bool) : Wf P (s.get now handle decodes) := by
  unfold OutcomeStore.get
  have hwf := h.purge now
  generalize s.purge now = s at hwf
  dsimp only
  split
  · exact hwf
  split
  · refine hwf.changed rfl (fun _ _ => id) ?_ ?_
    · intro o
      split <;> exact ⟨rfl, rfl, rfl⟩
    · intro o ho m hm
      split at hm
      · cases hm
      · exact hwf.kept o ho m hm
  · exact hwf

end OutcomeStore

end LingshuGate.Stdio

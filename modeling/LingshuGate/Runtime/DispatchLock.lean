import LingshuGate.Lib.Run
import LingshuGate.Lib.Table
import Mathlib.Tactic.SplitIfs

/-!
# The dispatch lock (`domain/dispatch_lock.py`)

| here | there |
| --- | --- |
| `Lock.acquire`, `Lock.wake` | `acquire` (:31): up to its first wait, and from one wait to the next |
| `Lock.release`       | `release` (:54) |
| `Lock.enter`, `Lock.exit` | `read_lock` (:75) |

Every section under the condition is one step. A thread that waits may look again at any time, whether it was notified or not,
so that nothing rests on a notification. A deadline that has passed is the environment's to say.

The lock knows its holders by their idents; what a thread itself has open is kept beside it (`Thread`), and `Good` says that the
two agree.
-/

namespace LingshuGate.DispatchLock

open Lib

structure Lock where
  writer : Option Nat := none
  depth : Nat := 0
  readers : Table (Nat × Nat) Prod.fst := Table.empty
  waitingWriters : Nat := 0

inductive Outcome
  | granted
  /-- `return False` -/
  | refused
  | raised
  | waits
  deriving DecidableEq

namespace Lock

variable (l : Lock) (owner : Nat)

/-- `self._writer is None and not self._readers` -/
def free : Bool := l.writer = none && l.readers.rows.isEmpty

def reads : Bool := (l.readers.find owner).isSome

def acquire (blocking timed expired : Bool) : Lock × Outcome :=
  if !blocking && timed then (l, .raised)
  else if l.writer = some owner then ({ l with depth := l.depth + 1 }, .granted)
  else if l.reads owner then (l, .raised)
  else if l.free then ({ l with writer := some owner, depth := 1 }, .granted)
  else if !blocking || (timed && expired) then (l, .refused)
  else ({ l with waitingWriters := l.waitingWriters + 1 }, .waits)

def wake (timed expired : Bool) : Lock × Outcome :=
  if l.free then ({ l with writer := some owner, depth := 1, waitingWriters := l.waitingWriters - 1 }, .granted)
  else if timed && expired then ({ l with waitingWriters := l.waitingWriters - 1 }, .refused)
  else (l, .waits)

/-- An exception out of the wait: the `finally` of `acquire`. -/
def interrupt : Lock := { l with waitingWriters := l.waitingWriters - 1 }

def release : Lock × Outcome :=
  if l.writer ≠ some owner then (l, .raised)
  else if l.depth - 1 = 0 then ({ l with depth := 0, writer := none }, .granted)
  else ({ l with depth := l.depth - 1 }, .granted)

/-- The loop of `read_lock` ends. -/
def admits : Bool :=
  (l.writer = none || l.writer = some owner) && (l.waitingWriters = 0 || l.reads owner || l.writer = some owner)

def enter : Lock × Outcome :=
  if l.admits owner then ({ l with readers := l.readers.upsert (owner, 1) (fun r => (r.1, r.2 + 1)) fun _ => rfl }, .granted)
  else (l, .waits)

def exit : Lock × Outcome :=
  match l.readers.find owner with
  | none => (l, .raised)
  | some r =>
    if r.2 - 1 = 0 then ({ l with readers := l.readers.delete fun r => r.1 = owner }, .granted)
    else ({ l with readers := l.readers.update (fun r => r.1 = owner) (fun r => (r.1, r.2 - 1)) fun _ => rfl }, .granted)

end Lock

/-! ## Threads -/

inductive Place
  | idle
  /-- in the wait of `acquire` -/
  | acquiring (timed : Bool)
  /-- in the wait of `read_lock` -/
  | entering
  deriving DecidableEq

/-- What a thread has open. -/
structure Thread where
  held : Nat := 0
  leases : Nat := 0
  place : Place := .idle
  deriving DecidableEq

def Thread.acquires (t : Thread) : Bool :=
  match t.place with
  | .acquiring _ => true
  | _ => false

/-- Threads by their idents. -/
structure World where
  lock : Lock := {}
  threads : List Thread := []

inductive Event
  | start
  | acquire (i : Nat) (blocking timed expired : Bool)
  | wake (i : Nat) (expired : Bool)
  | interrupt (i : Nat)
  | release (i : Nat)
  | enter (i : Nat)
  | exit (i : Nat)
  deriving Repr

def Thread.acquired (t : Thread) (timed : Bool) : Outcome → Thread
  | .granted => { t with held := t.held + 1, place := .idle }
  | .waits => { t with place := .acquiring timed }
  | .refused | .raised => { t with place := .idle }

def Thread.released (t : Thread) : Outcome → Thread
  | .granted => { t with held := t.held - 1 }
  | _ => t

def Thread.entered (t : Thread) : Outcome → Thread
  | .granted => { t with leases := t.leases + 1, place := .idle }
  | _ => { t with place := .entering }

def Thread.exited (t : Thread) : Outcome → Thread
  | .granted => { t with leases := t.leases - 1 }
  | _ => t

/-- The step of one thread, if it is where it can make it. -/
def act (l : Lock) (t : Thread) : Event → Lock × Thread
  | .start => (l, t)
  | .acquire i blocking timed expired =>
    if t.place = .idle then
      let (l, outcome) := l.acquire i blocking timed expired
      (l, t.acquired timed outcome)
    else (l, t)
  | .wake i expired => match t.place with
    | .acquiring timed =>
      let (l, outcome) := l.wake i timed expired
      (l, t.acquired timed outcome)
    | _ => (l, t)
  | .interrupt _ => match t.place with
    | .acquiring timed => (l.interrupt, t.acquired timed .raised)
    | _ => (l, t)
  | .release i =>
    if t.place = .idle then
      let (l, outcome) := l.release i
      (l, t.released outcome)
    else (l, t)
  | .enter i =>
    if t.acquires then (l, t)
    else
      let (l, outcome) := l.enter i
      (l, t.entered outcome)
  | .exit i =>
    if t.place = .idle && 0 < t.leases then
      let (l, outcome) := l.exit i
      (l, t.exited outcome)
    else (l, t)

def Event.thread : Event → Option Nat
  | .start => none
  | .acquire i _ _ _ | .wake i _ | .interrupt i | .release i | .enter i | .exit i => some i

def next (w : World) (e : Event) : World :=
  match e.thread with
  | none => { w with threads := w.threads ++ [{}] }
  | some i => match w.threads[i]? with
    | none => w
    | some t =>
      let (lock, t') := act w.lock t e
      ⟨lock, w.threads.set i t'⟩

def Step (w : World) (e : Event) (w' : World) : Prop := next w e = w'

/-! ## What always holds -/

/-- The entry of a thread. -/
def entry (i leases : Nat) : Option (Nat × Nat) := if leases = 0 then none else some (i, leases)

structure Good (w : World) : Prop where
  exclusive : ∀ i, w.lock.writer = some i → ∀ r ∈ w.lock.readers, r.1 = i
  writer : ∀ i, w.lock.writer = some i → 0 < w.lock.depth ∧ ∃ t, w.threads[i]? = some t ∧ t.held = w.lock.depth
  none : w.lock.writer = none → w.lock.depth = 0
  held : ∀ i t, w.threads[i]? = some t → 0 < t.held → w.lock.writer = some i
  leases : ∀ i t, w.threads[i]? = some t → w.lock.readers.find i = entry i t.leases
  known : ∀ r ∈ w.lock.readers, r.1 < w.threads.length
  waiting : w.lock.waitingWriters = w.threads.countP Thread.acquires

/-- How a step of thread `i` may change who writes. -/
inductive Writes (i : Nat) (l : Lock) (t : Thread) (l' : Lock) (t' : Thread) : Prop
  | same (writer : l'.writer = l.writer) (depth : l'.depth = l.depth) (held : t'.held = t.held)
  | takes (before : l.writer = none ∨ l.writer = some i) (writer : l'.writer = some i) (depth : 0 < l'.depth)
      (held : t'.held = l'.depth)
  | leaves (before : l.writer = some i) (writer : l'.writer = none) (depth : l'.depth = 0) (held : t'.held = 0)

/-- What every step of a thread does to the lock. -/
structure Effect (i : Nat) (l : Lock) (t : Thread) (l' : Lock) (t' : Thread) : Prop where
  writes : Writes i l t l' t'
  exclusive : ∀ j, l'.writer = some j → ∀ r ∈ l'.readers, r.1 = j
  readers : ∀ k, l'.readers.find k = if k = i then entry i t'.leases else l.readers.find k
  waiting : l'.waitingWriters + (if t.acquires then 1 else 0) = l.waitingWriters + (if t'.acquires then 1 else 0)

variable {w : World}

variable {i : Nat}

theorem Good.put (h : Good w) {t t' : Thread} (ht : w.threads[i]? = some t) {l' : Lock}
    (he : Effect i w.lock t l' t') : Good ⟨l', w.threads.set i t'⟩ := by
  have hi : i < w.threads.length := (List.getElem?_eq_some_iff.mp ht).1
  have hself : (w.threads.set i t')[i]? = some t' := by rw [List.getElem?_set_self hi]
  have hother {k : Nat} (hk : k ≠ i) : (w.threads.set i t')[k]? = w.threads[k]? := List.getElem?_set_ne (Ne.symm hk)
  refine ⟨he.exclusive, fun j hj => ?_, fun hnone => ?_, fun j u hu hheld => ?_, fun j u hu => ?_, fun r hr => ?_, ?_⟩
  · show 0 < l'.depth ∧ ∃ u, (w.threads.set i t')[j]? = some u ∧ u.held = l'.depth
    rcases he.writes with ⟨hwriter, hdepth, hheld⟩ | ⟨-, hwriter, hdepth, hheld⟩ | ⟨-, hwriter, -, -⟩
    · obtain ⟨hpos, u, hu, hudepth⟩ := h.writer j (hwriter ▸ hj)
      rw [hdepth]
      by_cases hji : j = i
      · subst hji
        refine ⟨hpos, t', hself, ?_⟩
        obtain rfl := Option.some.inj (hu.symm.trans ht)
        rw [hheld, hudepth]
      · exact ⟨hpos, u, by rw [hother hji, hu], hudepth⟩
    · obtain rfl := Option.some.inj (hwriter.symm.trans hj)
      exact ⟨hdepth, t', hself, hheld⟩
    · cases hwriter.symm.trans hj
  · rcases he.writes with ⟨hwriter, hdepth, -⟩ | ⟨-, hwriter, -, -⟩ | ⟨-, -, hdepth, -⟩
    · exact hdepth.trans (h.none (hwriter.symm.trans hnone))
    · cases hwriter.symm.trans hnone
    · exact hdepth
  · show l'.writer = some j
    by_cases hji : j = i
    · subst hji
      obtain rfl := Option.some.inj (hself.symm.trans hu)
      rcases he.writes with ⟨hwriter, -, hsame⟩ | ⟨-, hwriter, -, -⟩ | ⟨-, -, -, hzero⟩
      · exact hwriter.trans (h.held j t ht (hsame ▸ hheld))
      · exact hwriter
      · omega
    rw [hother hji] at hu
    have hbefore := h.held j u hu hheld
    rcases he.writes with ⟨hwriter, -, -⟩ | ⟨hwas, -, -, -⟩ | ⟨hwas, -, -, -⟩
    · exact hwriter.trans hbefore
    · rcases hwas with hwas | hwas
      · cases hwas.symm.trans hbefore
      · exact absurd (Option.some.inj (hbefore.symm.trans hwas)) hji
    · exact absurd (Option.some.inj (hbefore.symm.trans hwas)) hji
  · show l'.readers.find j = entry j u.leases
    rw [he.readers]
    by_cases hji : j = i
    · subst hji
      obtain rfl := Option.some.inj (hself.symm.trans hu)
      rw [if_pos rfl]
    · rw [hother hji] at hu
      rw [if_neg hji]
      exact h.leases j u hu
  · show r.1 < (w.threads.set i t').length
    rw [List.length_set]
    have hfind := Table.find_eq_some.mpr ⟨hr, rfl⟩
    rw [he.readers] at hfind
    split at hfind
    · rename_i hri
      rw [hri]
      exact hi
    · exact h.known r (Table.find_eq_some.mp hfind).1
  show l'.waitingWriters = (w.threads.set i t').countP Thread.acquires
  have hget : w.threads[i] = t := (List.getElem?_eq_some_iff.mp ht).2
  rw [List.countP_set hi, hget]
  have hcount := h.waiting
  have hwaiting := he.waiting
  have hle : (if t.acquires = true then 1 else 0) ≤ w.threads.countP Thread.acquires := by
    rw [← hget]
    exact List.boole_getElem_le_countP hi
  omega

variable {t : Thread}

/-- Nothing is changed. -/
theorem Effect.refl (h : Good w) (ht : w.threads[i]? = some t) : Effect i w.lock t w.lock t where
  writes := .same rfl rfl rfl
  exclusive := h.exclusive
  readers k := by
    split
    · rename_i hk
      rw [hk, h.leases i t ht]
    · rfl
  waiting := rfl

theorem Lock.free_iff {l : Lock} (hfree : l.free = true) : l.writer = .none ∧ ∀ r, r ∉ l.readers := by
  simp only [Lock.free, Bool.and_eq_true, decide_eq_true_eq, List.isEmpty_iff] at hfree
  refine ⟨hfree.1, fun r hr => ?_⟩
  rw [Table.mem_def, hfree.2] at hr
  cases hr

section Effects

variable {w : World} {i : Nat} {t : Thread} (h : Good w) (ht : w.threads[i]? = some t)

include h ht

theorem reads_iff : w.lock.reads i = true ↔ 0 < t.leases := by
  unfold Lock.reads
  rw [h.leases i t ht, entry]
  split <;> simp <;> omega

theorem effect_same_readers {l' : Lock} {t' : Thread} (hreaders : l'.readers = w.lock.readers) (hleases : t'.leases = t.leases)
    (k : Nat) : l'.readers.find k = if k = i then entry i t'.leases else w.lock.readers.find k := by
  rw [hreaders, hleases]
  exact (Effect.refl h ht).readers k

theorem effect_acquire (hidle : t.place = .idle) {blocking timed expired : Bool} :
    Effect i w.lock t (w.lock.acquire i blocking timed expired).1
      (t.acquired timed (w.lock.acquire i blocking timed expired).2) := by
  have hrefl := Effect.refl h ht
  have hacquires : t.acquires = false := by rw [Thread.acquires, hidle]
  unfold Lock.acquire
  split_ifs with hinvalid hwriter hreads hfree hrefuse
  · exact ⟨.same rfl rfl rfl, hrefl.exclusive, hrefl.readers, by rw [hacquires]; rfl⟩
  · obtain ⟨hpos, u, hu, hdepth⟩ := h.writer i hwriter
    obtain rfl := Option.some.inj (hu.symm.trans ht)
    refine ⟨.takes (.inr hwriter) hwriter (Nat.succ_pos _) (congrArg (· + 1) hdepth), hrefl.exclusive,
      effect_same_readers h ht rfl rfl, ?_⟩
    rw [hacquires]
    rfl
  · exact ⟨.same rfl rfl rfl, hrefl.exclusive, hrefl.readers, by rw [hacquires]; rfl⟩
  · obtain ⟨hnone, hempty⟩ := Lock.free_iff hfree
    have hheld : t.held = 0 := by
      refine Nat.eq_zero_of_not_pos fun hpos => ?_
      cases hnone.symm.trans (h.held i t ht hpos)
    refine ⟨.takes (.inl hnone) rfl Nat.one_pos (congrArg (· + 1) hheld), fun j _ r hr => absurd hr (hempty r),
      effect_same_readers h ht rfl rfl, ?_⟩
    rw [hacquires]
    rfl
  · exact ⟨.same rfl rfl rfl, hrefl.exclusive, hrefl.readers, by rw [hacquires]; rfl⟩
  · exact ⟨.same rfl rfl rfl, hrefl.exclusive, effect_same_readers h ht rfl rfl, by rw [hacquires]; rfl⟩

theorem waiting_pos {timed : Bool} (hplace : t.place = .acquiring timed) : 0 < w.lock.waitingWriters := by
  rw [h.waiting, List.countP_pos_iff]
  exact ⟨t, List.mem_of_getElem? ht, by rw [Thread.acquires, hplace]⟩

theorem effect_wake {timed expired : Bool} (hplace : t.place = .acquiring timed) :
    Effect i w.lock t (w.lock.wake i timed expired).1 (t.acquired timed (w.lock.wake i timed expired).2) := by
  have hrefl := Effect.refl h ht
  have hacquires : t.acquires = true := by rw [Thread.acquires, hplace]
  have hpos := waiting_pos h ht hplace
  unfold Lock.wake
  split_ifs with hfree hexpired
  · obtain ⟨hnone, hempty⟩ := Lock.free_iff hfree
    have hheld : t.held = 0 := by
      refine Nat.eq_zero_of_not_pos fun hpos => ?_
      cases hnone.symm.trans (h.held i t ht hpos)
    refine ⟨.takes (.inl hnone) rfl Nat.one_pos (congrArg (· + 1) hheld), fun j _ r hr => absurd hr (hempty r),
      effect_same_readers h ht rfl rfl, ?_⟩
    rw [hacquires]
    exact Nat.sub_add_cancel hpos
  · refine ⟨.same rfl rfl rfl, hrefl.exclusive, effect_same_readers h ht rfl rfl, ?_⟩
    rw [hacquires]
    exact Nat.sub_add_cancel hpos
  · exact ⟨.same rfl rfl rfl, hrefl.exclusive, effect_same_readers h ht rfl rfl, by rw [hacquires]; rfl⟩

theorem effect_interrupt {timed : Bool} (hplace : t.place = .acquiring timed) :
    Effect i w.lock t w.lock.interrupt (t.acquired timed .raised) := by
  refine ⟨.same rfl rfl rfl, (Effect.refl h ht).exclusive, effect_same_readers h ht rfl rfl, ?_⟩
  rw [Thread.acquires, hplace]
  exact Nat.sub_add_cancel (waiting_pos h ht hplace)

theorem effect_release (hidle : t.place = .idle) : Effect i w.lock t (w.lock.release i).1 (t.released (w.lock.release i).2) := by
  have hrefl := Effect.refl h ht
  have hacquires : t.acquires = false := by rw [Thread.acquires, hidle]
  unfold Lock.release
  split_ifs with hwriter hlast
  · exact hrefl
  · rw [ne_eq, Decidable.not_not] at hwriter
    obtain ⟨hpos, u, hu, hdepth⟩ := h.writer i hwriter
    obtain rfl := Option.some.inj (hu.symm.trans ht)
    refine ⟨.leaves hwriter rfl rfl ?_, fun j hj => (by cases hj), effect_same_readers h ht rfl rfl, rfl⟩
    show u.held - 1 = 0
    omega
  rw [ne_eq, Decidable.not_not] at hwriter
  obtain ⟨hpos, u, hu, hdepth⟩ := h.writer i hwriter
  obtain rfl := Option.some.inj (hu.symm.trans ht)
  refine ⟨.takes (.inr hwriter) hwriter (Nat.pos_of_ne_zero hlast) ?_, hrefl.exclusive, effect_same_readers h ht rfl rfl, rfl⟩
  show u.held - 1 = w.lock.depth - 1
  rw [hdepth]

/-- The entry that an admitted reader has. -/
theorem find_enter (k : Nat) : (w.lock.readers.upsert (i, 1) (fun r => (r.1, r.2 + 1)) fun _ => rfl).find k =
    if k = i then entry i (t.leases + 1) else w.lock.readers.find k := by
  have hentry : entry i (t.leases + 1) = some (i, t.leases + 1) := by simp [entry]
  have hfind := h.leases i t ht
  unfold Table.upsert
  split
  · rename_i readers' hinsert
    have hzero : t.leases = 0 := by
      by_contra hne
      rw [entry, if_neg hne] at hfind
      exact (Table.insert_eq_some hinsert).2 _ (Table.find_eq_some.mp hfind).1 rfl
    rw [Table.find_insert hinsert, hentry, hzero]
  rename_i hinsert
  have hsome := Table.insert_isNone hinsert
  rw [Table.find_update_key (f := fun r : Nat × Nat => (r.1, r.2 + 1))]
  have hne : t.leases ≠ 0 := by
    intro hzero
    rw [hfind, entry, if_pos hzero] at hsome
    cases hsome
  split
  · rename_i hk
    rw [hk, hfind, entry, if_neg hne, hentry]
    rfl
  · rfl

theorem effect_enter (hplace : t.acquires = false) : Effect i w.lock t (w.lock.enter i).1 (t.entered (w.lock.enter i).2) := by
  have hrefl := Effect.refl h ht
  unfold Lock.enter
  split_ifs with hadmits
  · refine ⟨.same rfl rfl rfl, fun j hj r hr => ?_, find_enter h ht, by rw [hplace]; rfl⟩
    have hwriter : j = i := by
      simp only [Lock.admits, Bool.and_eq_true, Bool.or_eq_true, decide_eq_true_eq] at hadmits
      rcases hadmits.1 with hnone | hself
      · cases hnone.symm.trans hj
      · exact Option.some.inj (hj.symm.trans hself)
    have hfind := Table.find_eq_some.mpr ⟨hr, rfl⟩
    rw [find_enter h ht] at hfind
    split at hfind
    · rename_i hri
      exact hri.trans hwriter.symm
    · exact h.exclusive j hj r (Table.find_eq_some.mp hfind).1
  · exact ⟨.same rfl rfl rfl, hrefl.exclusive, effect_same_readers h ht rfl rfl, by rw [hplace]; rfl⟩

theorem effect_exit (hleases : 0 < t.leases) : Effect i w.lock t (w.lock.exit i).1 (t.exited (w.lock.exit i).2) := by
  have hrefl := Effect.refl h ht
  have hfind : w.lock.readers.find i = some (i, t.leases) := by
    rw [h.leases i t ht, entry, if_neg (by omega)]
  have hexit : ∀ l', (∀ k, l'.readers.find k = if k = i then entry i (t.leases - 1) else w.lock.readers.find k) →
      l'.writer = w.lock.writer → l'.depth = w.lock.depth → l'.waitingWriters = w.lock.waitingWriters →
      Effect i w.lock t l' (t.exited .granted) := by
    intro l' hreaders hwriter hdepth hwaiting
    refine ⟨.same hwriter hdepth rfl, fun j hj r hr => ?_, hreaders, by rw [hwaiting]; rfl⟩
    have hr := Table.find_eq_some.mpr ⟨hr, rfl⟩
    rw [hreaders] at hr
    split at hr
    · rename_i hri
      rw [hri]
      exact h.exclusive j (hwriter ▸ hj) (i, t.leases) (Table.find_eq_some.mp hfind).1
    · exact h.exclusive j (hwriter ▸ hj) r (Table.find_eq_some.mp hr).1
  unfold Lock.exit
  rw [hfind]
  simp only
  split_ifs with hlast
  · refine hexit _ (fun k => ?_) rfl rfl rfl
    rw [Table.find_delete]
    split
    · rw [entry, if_pos hlast]
    · rfl
  refine hexit _ (fun k => ?_) rfl rfl rfl
  rw [Table.find_update_key (f := fun r : Nat × Nat => (r.1, r.2 - 1))]
  split
  · rename_i hk
    rw [hk, hfind, entry, if_neg hlast]
    rfl
  · rfl

end Effects

/-- A new thread has nothing open. -/
theorem Good.start (h : Good w) : Good { w with threads := w.threads ++ [{}] } := by
  have hold {i : Nat} {t : Thread} (ht : (w.threads ++ [({} : Thread)])[i]? = some t) :
      w.threads[i]? = some t ∨ (i = w.threads.length ∧ t = ({} : Thread)) := by
    rw [List.getElem?_append] at ht
    split at ht
    · exact .inl ht
    rename_i hi
    rw [List.getElem?_singleton] at ht
    split at ht
    · exact .inr ⟨by omega, (Option.some.inj ht).symm⟩
    · cases ht
  refine ⟨h.exclusive, fun i hi => ?_, h.none, fun i t ht hheld => ?_, fun i t ht => ?_, fun r hr => ?_, ?_⟩
  · obtain ⟨hpos, t, ht, hdepth⟩ := h.writer i hi
    exact ⟨hpos, t, by rw [List.getElem?_append_left (List.getElem?_eq_some_iff.mp ht).1, ht], hdepth⟩
  · rcases hold ht with ht | ⟨-, rfl⟩
    · exact h.held i t ht hheld
    · cases hheld
  · rcases hold ht with ht | ⟨rfl, rfl⟩
    · exact h.leases i t ht
    · refine Table.find_eq_none.mpr fun r hr hkey => ?_
      have := h.known r hr
      omega
  · have := h.known r hr
    simp only [List.length_append]
    omega
  · rw [List.countP_append, h.waiting]
    rfl

/-- What a thread does, where it is. -/
theorem Good.act (h : Good w) (ht : w.threads[i]? = some t) {e : Event}
    (he : e.thread = some i) : Effect i w.lock t (act w.lock t e).1 (act w.lock t e).2 := by
  cases e with
  | start => cases he
  | acquire j blocking timed expired =>
    cases he
    simp only [DispatchLock.act]
    split
    · rename_i hidle
      exact effect_acquire h ht hidle
    · exact .refl h ht
  | wake j expired =>
    cases he
    simp only [DispatchLock.act]
    split
    · rename_i timed hplace
      exact effect_wake h ht hplace
    · exact .refl h ht
  | interrupt j =>
    cases he
    simp only [DispatchLock.act]
    split
    · rename_i timed hplace
      exact effect_interrupt h ht hplace
    · exact .refl h ht
  | release j =>
    cases he
    simp only [DispatchLock.act]
    split
    · rename_i hidle
      exact effect_release h ht hidle
    · exact .refl h ht
  | enter j =>
    cases he
    simp only [DispatchLock.act]
    split
    · exact .refl h ht
    · rename_i hplace
      exact effect_enter h ht (by simpa using hplace)
  | exit j =>
    cases he
    simp only [DispatchLock.act]
    split
    · rename_i hopen
      rw [Bool.and_eq_true, decide_eq_true_eq, decide_eq_true_eq] at hopen
      exact effect_exit h ht hopen.2
    · exact .refl h ht

/-- **Every section under the condition.** -/
theorem Good.next (h : Good w) (e : Event) : Good (next w e) := by
  unfold DispatchLock.next
  split
  · exact h.start
  rename_i i hthread
  split
  · exact h
  · rename_i t ht
    exact h.put ht (h.act ht hthread)

theorem Good.init : Good {} where
  exclusive := nofun
  writer := nofun
  none _ := rfl
  held := nofun
  leases := nofun
  known r hr := by cases hr
  waiting := rfl

/-! ## Exclusion -/

/-- A nested lease is taken at once: the thread has one lease more, and waits for nothing. -/
def NestedAtOnce (w : World) (i : Nat) (t : Thread) : Prop :=
  (DispatchLock.next w (.enter i)).threads[i]? = some { t with leases := t.leases + 1 }

theorem Good.nested (h : Good w) (ht : w.threads[i]? = some t) (hidle : t.place = .idle)
    (hopen : 0 < t.held ∨ 0 < t.leases) : NestedAtOnce w i t := by
  have hadmits : w.lock.admits i = true := by
    simp only [Lock.admits, Bool.and_eq_true, Bool.or_eq_true, decide_eq_true_eq]
    rcases hopen with hheld | hleases
    · have hwriter := h.held i t ht hheld
      exact ⟨.inr hwriter, .inr hwriter⟩
    refine ⟨?_, .inl (.inr ((reads_iff h ht).mpr hleases))⟩
    have hreader : w.lock.readers.find i = some (i, t.leases) := by
      rw [h.leases i t ht, entry, if_neg (by omega)]
    cases hwriter : w.lock.writer with
    | none => exact .inl rfl
    | some j => exact .inr (congrArg some (h.exclusive j hwriter _ (Table.find_eq_some.mp hreader).1).symm)
  have hacquires : t.acquires = false := by rw [Thread.acquires, hidle]
  have hi : i < w.threads.length := (List.getElem?_eq_some_iff.mp ht).1
  unfold NestedAtOnce DispatchLock.next
  simp only [Event.thread, ht, DispatchLock.act, hacquires, Bool.false_eq_true, if_false, Lock.enter, hadmits, if_true]
  rw [List.getElem?_set_self hi]
  cases t
  simp_all [Thread.entered]

/-- **Writers exclude readers, and the counts are those of the threads.** -/
theorem lock_excludes {w : World} (h : Reachable Step {} w) : (∀ i, w.lock.writer = some i → ∀ r ∈ w.lock.readers, r.1 = i) ∧
    (0 < w.lock.depth ↔ w.lock.writer.isSome = true) ∧
    (∀ i t, w.threads[i]? = some t → ((w.lock.readers.find i).map (·.2)).getD 0 = t.leases) ∧
    w.lock.waitingWriters = w.threads.countP Thread.acquires ∧
    ∀ i t, w.threads[i]? = some t → t.place = .idle → (0 < t.held ∨ 0 < t.leases) → NestedAtOnce w i t := by
  have hgood : Good w := h.invariant Good.init fun w e w' hw hstep => hstep ▸ hw.next e
  refine ⟨hgood.exclusive, ?_, fun i t ht => ?_, hgood.waiting, fun i t ht hidle hopen => hgood.nested ht hidle hopen⟩
  · cases hwriter : w.lock.writer with
    | none => simp [hgood.none hwriter]
    | some i => simp [(hgood.writer i hwriter).1]
  rw [hgood.leases i t ht, entry]
  split
  · rename_i hzero
    exact hzero.symm
  · rfl

/-- A writer that also reads, and another writer that waits for it. -/
def nestedTrace : List Event :=
  [.start, .start, .acquire 0 true false false, .enter 0, .acquire 1 true true false]

theorem lock_excludes_nested : NestedAtOnce (nestedTrace.foldl next {}) 0 { held := 1, leases := 1 } :=
  (lock_excludes ⟨nestedTrace, Run.of_foldl (f := next) (fun _ _ => rfl) {} nestedTrace⟩).2.2.2.2 0 _ (by decide) rfl (.inl (by decide))

end LingshuGate.DispatchLock

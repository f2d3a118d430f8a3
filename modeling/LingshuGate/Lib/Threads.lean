import Mathlib.Algebra.GroupWithZero.Nat
import LingshuGate.Lib.Run

/-!
# Threads over a shared state

A thread is its local state: where it is and what it has read. `act x p e x' p'` is one statement of a thread at `p`
on the shared state `x`; `e` says what the statement met. Threads start at any time and their statements interleave in
any order. A thread that crashes is one that is never scheduled again, so no event is needed for it.

* `Pool.invariant`: the rule of Owicki and Gries. What each statement keeps of the shared state and of its own thread,
  and what it leaves to every other thread, holds in every run.
* `Pool.invariant_apart`: the same where two threads never hold the same thing, and what a statement leaves to another
  thread may rest on that.
* `Pool.thread_run`: what every statement keeps of its own thread relates a thread to what it becomes.
* `Pool.Step.ledger`: an account that the shared state keeps of what its threads hold stays exact.
* `Pool.budget`: what no statement makes more of is bounded by what there was at the start.
* `Pool.play_run`, `Pool.run_of_guarded`: where a statement is a function, a list of events can be evaluated, and is a run.
-/

namespace Lib

structure Pool (σ π : Type*) where
  shared : σ
  threads : List π := []

namespace Pool

variable {σ π ε : Type*}

inductive Event (π ε : Type*)
  | start (p : π)
  | act (i : Nat) (e : ε)

variable (start : π → Prop) (act : σ → π → ε → σ → π → Prop)

inductive Step : Pool σ π → Event π ε → Pool σ π → Prop
  | start {w : Pool σ π} {p : π} : start p → Step w (.start p) { w with threads := w.threads ++ [p] }
  | act {w : Pool σ π} {i : Nat} {p p' : π} {e : ε} {x' : σ} : w.threads[i]? = some p → act w.shared p e x' p' →
    Step w (.act i e) ⟨x', w.threads.set i p'⟩

variable {start act} {G : σ → Prop} {L : σ → π → Prop} {w w' : Pool σ π}

/-- Every thread of a pool meets its own assertion. -/
def Holds (G : σ → Prop) (L : σ → π → Prop) (w : Pool σ π) : Prop := G w.shared ∧ ∀ p ∈ w.threads, L w.shared p

variable {tr : List (Event π ε)} {e : Event π ε} {c : π → Nat}

theorem Step.holds (hw : Holds G L w) (hs : Step start act w e w') (hstart : ∀ x p, G x → start p → L x p)
    (hown : ∀ x p e x' p', G x → L x p → act x p e x' p' → G x' ∧ L x' p')
    (hothers : ∀ x p e x' p' q, G x → L x p → L x q → act x p e x' p' → L x' q) : Holds G L w' := by
  cases hs with
  | start hp =>
    refine ⟨hw.1, ?_⟩
    intro q hq
    rcases List.mem_append.mp hq with hq | hq
    · exact hw.2 q hq
    · obtain rfl := List.mem_singleton.mp hq
      exact hstart _ _ hw.1 hp
  | act hp hact =>
    have hlocal := hw.2 _ (List.mem_of_getElem? hp)
    obtain ⟨hG, hL⟩ := hown _ _ _ _ _ hw.1 hlocal hact
    refine ⟨hG, ?_⟩
    intro q hq
    rcases List.mem_or_eq_of_mem_set hq with hq | rfl
    · exact hothers _ _ _ _ _ q hw.1 hlocal (hw.2 q hq) hact
    · exact hL

theorem invariant (h : Run (Step start act) w tr w') (hw : Holds G L w)
    (hstart : ∀ x p, G x → start p → L x p)
    (hown : ∀ x p e x' p', G x → L x p → act x p e x' p' → G x' ∧ L x' p')
    (hothers : ∀ x p e x' p' q, G x → L x p → L x q → act x p e x' p' → L x' q) : Holds G L w' :=
  h.invariant hw fun _ _ _ hI hs => hs.holds hI hstart hown hothers

/-! ## One thread over a run -/

/-- **A thread over a run.** What every statement keeps between its thread and what the thread becomes relates a thread to
what it has become; threads are never removed or confused. -/
theorem thread_run {I : Pool σ π → Prop} {R : π → π → Prop} (h : Run (Step start act) w tr w') (hw : I w)
    (hI : ∀ w e w', I w → Step start act w e w' → I w') (hrefl : ∀ p, R p p) (htrans : ∀ p q r, R p q → R q r → R p r)
    (hact : ∀ w p e x' p', I w → p ∈ w.threads → act w.shared p e x' p' → R p p') {i : Nat} {p : π} (hp : w.threads[i]? = some p) :
    ∃ p', w'.threads[i]? = some p' ∧ R p p' := by
  refine (h.invariant (I := fun v => I v ∧ ∃ p', v.threads[i]? = some p' ∧ R p p') ⟨hw, p, hp, hrefl p⟩ ?_).2
  rintro v e v' ⟨hv, q, hq, hR⟩ hs
  refine ⟨hI v e v' hv hs, ?_⟩
  cases hs with
  | start =>
    refine ⟨q, ?_, hR⟩
    rw [List.getElem?_append_left (List.getElem?_eq_some_iff.mp hq).1]
    exact hq
  | @act j r r' e x' hr hact' =>
    by_cases hij : j = i
    · subst hij
      rw [hq] at hr
      cases hr
      exact ⟨r', List.getElem?_set_self (List.getElem?_eq_some_iff.mp hq).1,
        htrans _ _ _ hR (hact v q e x' r' hv (List.mem_of_getElem? hq) hact')⟩
    · exact ⟨q, (List.getElem?_set_ne hij).trans hq, hR⟩

/-! ## Threads that are kept apart -/

variable {D : π → π → Prop}

/-- Any two threads of a pool are as `D` says. -/
def Apart (D : π → π → Prop) (w : Pool σ π) : Prop :=
  ∀ (i j : Nat) p q, i ≠ j → w.threads[i]? = some p → w.threads[j]? = some q → D p q

theorem Apart.nil {x : σ} : Apart D ⟨x, []⟩ := by
  intro i j p q _ hp
  cases hp

theorem Apart.append {p : π} (h : Apart D w) (hsymm : ∀ p q, D p q → D q p) (hp : ∀ q ∈ w.threads, D p q) :
    Apart D { w with threads := w.threads ++ [p] } := by
  intro i j a b hij ha hb
  simp only [List.getElem?_append, List.getElem?_singleton] at ha hb
  split at ha <;> split at hb
  · exact h i j a b hij ha hb
  · split at hb
    · cases hb
      exact hsymm _ _ (hp a (List.mem_of_getElem? ha))
    · cases hb
  · split at ha
    · cases ha
      exact hp b (List.mem_of_getElem? hb)
    · cases ha
  · split at ha
    · split at hb
      · omega
      · cases hb
    · cases ha

theorem Apart.set {i : Nat} {p p' : π} {x' : σ} (h : Apart D w) (hsymm : ∀ p q, D p q → D q p) (hi : w.threads[i]? = some p)
    (hp : ∀ q ∈ w.threads, D p q → D p' q) : Apart D ⟨x', w.threads.set i p'⟩ := by
  intro j k a b hjk ha hb
  simp only [List.getElem?_set] at ha hb
  split at ha <;> split at hb
  · omega
  · split at ha
    · cases ha
      exact hp b (List.mem_of_getElem? hb) (h i k p b (by omega) hi hb)
    · cases ha
  · split at hb
    · cases hb
      exact hsymm _ _ (hp a (List.mem_of_getElem? ha) (h i j p a (by omega) hi ha))
    · cases hb
  · exact h j k a b hjk ha hb

theorem Step.holds_apart (hw : Holds G L w ∧ Apart D w) (hs : Step start act w e w')
    (hsymm : ∀ p q, D p q → D q p) (hstart : ∀ x p, G x → start p → L x p ∧ ∀ q, L x q → D p q)
    (hown : ∀ x p e x' p', G x → L x p → act x p e x' p' → G x' ∧ L x' p')
    (hothers : ∀ x p e x' p' q, G x → L x p → L x q → D p q → act x p e x' p' → L x' q ∧ D p' q) :
    Holds G L w' ∧ Apart D w' := by
  obtain ⟨⟨hG, hL⟩, hD⟩ := hw
  cases hs with
  | start hp =>
    obtain ⟨hlocal, hapart⟩ := hstart _ _ hG hp
    refine ⟨⟨hG, ?_⟩, hD.append hsymm fun q hq => hapart q (hL q hq)⟩
    intro q hq
    rcases List.mem_append.mp hq with hq | hq
    · exact hL q hq
    · obtain rfl := List.mem_singleton.mp hq
      exact hlocal
  | @act i p p' e x' hp hact =>
    have hlocal := hL _ (List.mem_of_getElem? hp)
    obtain ⟨hG', hL'⟩ := hown _ _ _ _ _ hG hlocal hact
    refine ⟨⟨hG', ?_⟩, hD.set hsymm hp fun q hq hpq => (hothers _ _ _ _ _ q hG hlocal (hL q hq) hpq hact).2⟩
    intro q hq
    obtain ⟨j, hj⟩ := List.getElem?_of_mem hq
    rw [List.getElem?_set] at hj
    split at hj
    · split at hj
      · cases hj
        exact hL'
      · cases hj
    · next hij =>
      have hqmem := List.mem_of_getElem? hj
      exact (hothers _ _ _ _ _ q hG hlocal (hL q hqmem) (hD i j p q hij hp hj) hact).1

/-- **Threads kept apart.** As `invariant`, where what a statement leaves to another thread may rest on how the two are
kept apart. -/
theorem invariant_apart (h : Run (Step start act) w tr w') (hw : Holds G L w ∧ Apart D w)
    (hsymm : ∀ p q, D p q → D q p) (hstart : ∀ x p, G x → start p → L x p ∧ ∀ q, L x q → D p q)
    (hown : ∀ x p e x' p', G x → L x p → act x p e x' p' → G x' ∧ L x' p')
    (hothers : ∀ x p e x' p' q, G x → L x p → L x q → D p q → act x p e x' p' → L x' q ∧ D p' q) :
    Holds G L w' ∧ Apart D w' :=
  h.invariant hw fun _ _ _ hI hs => hs.holds_apart hI hsymm hstart hown hothers

/-! ## What no statement makes more of -/

/-- What the threads hold together. -/
def total (c : π → Nat) (w : Pool σ π) : Nat := (w.threads.map c).sum

theorem sum_map_set {l : List π} {i : Nat} {p p' : π} (h : l[i]? = some p) :
    ((l.set i p').map c).sum + c p = (l.map c).sum + c p' := by
  induction l generalizing i with
  | nil => cases h
  | cons q l ih =>
    cases i with
    | zero =>
      obtain rfl : q = p := by simpa using h
      simp only [List.set_cons_zero, List.map_cons, List.sum_cons]
      omega
    | succ i =>
      have ih' := ih (show l[i]? = some p by simpa using h)
      simp only [List.set_cons_succ, List.map_cons, List.sum_cons]
      omega

theorem Step.total_le {m : σ → Nat} (hs : Step start act w e w')
    (hstart : ∀ p, start p → c p = 0) (hact : ∀ x p e x' p', act x p e x' p' → m x' + c p' ≤ m x + c p) :
    m w'.shared + total c w' ≤ m w.shared + total c w := by
  cases hs with
  | start hp => simp [total, hstart _ hp]
  | @act i p p' e x' hp h =>
    have hset := @sum_map_set _ c _ i p p' hp
    have hle := hact _ _ _ _ _ h
    simp only [total]
    omega

/-- What is counted by the shared state is what the threads hold together. -/
theorem Step.balanced {m : σ → Int} (hs : Step start act w e w') (hw : m w.shared = total c w)
    (hstart : ∀ p, start p → c p = 0)
    (hact : ∀ p ∈ w.threads, ∀ e x' p', act w.shared p e x' p' → m x' + c p = m w.shared + c p') : m w'.shared = total c w' := by
  cases hs with
  | start hp => simp [total, hstart _ hp, hw]
  | @act i p p' e x' hp h =>
    have hset := @sum_map_set _ c _ i p p' hp
    have hmoved := hact p (List.mem_of_getElem? hp) _ _ _ h
    simp only [total] at hw ⊢
    omega

theorem total_ite (f : π → Bool) (w : Pool σ π) : total (fun p => if f p then 1 else 0) w = w.threads.countP f := by
  rw [total]
  induction w.threads with
  | nil => rfl
  | cons p l ih =>
    rw [List.map_cons, List.sum_cons, ih, List.countP_cons]
    omega

/-- What a thread holds is within what they hold together. -/
theorem le_total {p : π} (hp : p ∈ w.threads) : c p ≤ total c w := by
  obtain ⟨before, after, hsplit⟩ := List.append_of_mem hp
  rw [total, hsplit, List.map_append, List.map_cons, List.sum_append, List.sum_cons]
  omega

/-- **A budget.** A statement moves what is counted between its thread and the shared state, or drops it; so the shared
state never counts more than there was at the start. -/
theorem budget {m : σ → Nat} (h : Run (Step start act) w tr w')
    (hstart : ∀ p, start p → c p = 0) (hact : ∀ x p e x' p', act x p e x' p' → m x' + c p' ≤ m x + c p) :
    m w'.shared ≤ m w.shared + total c w := by
  have hle : m w'.shared + total c w' ≤ m w.shared + total c w := by
    refine @Run.invariant _ _ _ (fun v => m v.shared + total c v ≤ m w.shared + total c w) _ _ _ h (Nat.le_refl _) ?_
    intro t e v hI hs
    exact Nat.le_trans (hs.total_le hstart hact) hI
  omega

/-! ## A ledger of what the threads hold -/

variable {α β : Type*} {entry : σ → α → Prop} {key : π → Option α} {name : α → β}

/-- The entries of the shared state are exactly what the threads hold, each thread its own. -/
structure Ledger (entry : σ → α → Prop) (key : π → Option α) (name : α → β) (w : Pool σ π) : Prop where
  exact : ∀ a, entry w.shared a ↔ ∃ (i : Nat) (p : π), w.threads[i]? = some p ∧ key p = some a
  apart : ∀ (i j : Nat) p q a b, w.threads[i]? = some p → w.threads[j]? = some q → key p = some a → key q = some b →
    name a = name b → i = j

/-- What a statement may do to the ledger: nothing, enter what its thread now holds under a new name, or strike what its thread
held. -/
inductive Entered (entry : σ → α → Prop) (name : α → β) (x x' : σ) : Option α → Option α → Prop
  | same {a : Option α} : (∀ b, entry x' b ↔ entry x b) → Entered entry name x x' a a
  | enter {a : α} : (∀ b, entry x b → name b ≠ name a) → (∀ b, entry x' b ↔ entry x b ∨ b = a) → Entered entry name x x' none (some a)
  | strike {a : α} : (∀ b, entry x' b ↔ entry x b ∧ b ≠ a) → Entered entry name x x' (some a) none

theorem Step.ledger (hs : Step start act w e w') (hw : Ledger entry key name w)
    (hstart : ∀ p, start p → key p = none)
    (hact : ∀ p ∈ w.threads, ∀ e x' p', (∀ a, key p = some a → entry w.shared a) → act w.shared p e x' p' →
      Entered entry name w.shared x' (key p) (key p')) : Ledger entry key name w' := by
  obtain ⟨hexact, hapart⟩ := hw
  cases hs with
  | @start p hp =>
    have hat (i : Nat) (q : π) (a : α) (hkey : key q = some a) : (w.threads ++ [p])[i]? = some q ↔ w.threads[i]? = some q := by
      rw [List.getElem?_append]
      split
      · rfl
      rename_i hi
      rw [List.getElem?_eq_none (Nat.le_of_not_lt hi)]
      refine ⟨fun h => ?_, fun h => nomatch h⟩
      obtain rfl := List.mem_singleton.mp (List.mem_of_getElem? h)
      rw [hstart _ hp] at hkey
      cases hkey
    refine ⟨fun a => (hexact a).trans ⟨?_, ?_⟩, ?_⟩
    · rintro ⟨i, q, hq, hkey⟩
      exact ⟨i, q, (hat i q a hkey).mpr hq, hkey⟩
    · rintro ⟨i, q, hq, hkey⟩
      exact ⟨i, q, (hat i q a hkey).mp hq, hkey⟩
    · intro i j q q' a b hq hq' hkey hkey'
      exact hapart i j q q' a b ((hat i q a hkey).mp hq) ((hat j q' b hkey').mp hq') hkey hkey'
  | @act i p p' e x' hp h =>
    have hentered := hact p (List.mem_of_getElem? hp) e x' p' (fun a hkey => (hexact a).mpr ⟨i, p, hp, hkey⟩) h
    have hlength : i < w.threads.length := (List.getElem?_eq_some_iff.mp hp).1
    have hself : (w.threads.set i p')[i]? = some p' := by rw [List.getElem?_set_self hlength]
    have hother (j : Nat) (hj : j ≠ i) : (w.threads.set i p')[j]? = w.threads[j]? := List.getElem?_set_ne (Ne.symm hj)
    -- what the threads other than `i` hold
    let rest (a : α) : Prop := ∃ (j : Nat) (q : π), j ≠ i ∧ w.threads[j]? = some q ∧ key q = some a
    have hafter (a : α) : (∃ (j : Nat) (q : π), (w.threads.set i p')[j]? = some q ∧ key q = some a) ↔ key p' = some a ∨ rest a := by
      constructor
      · rintro ⟨j, q, hq, hkey⟩
        by_cases hj : j = i
        · rw [hj, hself] at hq
          cases hq
          exact .inl hkey
        · rw [hother j hj] at hq
          exact .inr ⟨j, q, hj, hq, hkey⟩
      · rintro (hkey | ⟨j, q, hj, hq, hkey⟩)
        · exact ⟨i, p', hself, hkey⟩
        · exact ⟨j, q, (hother j hj).trans hq, hkey⟩
    have hbefore (a : α) : entry w.shared a ↔ key p = some a ∨ rest a := by
      rw [hexact]
      constructor
      · rintro ⟨j, q, hq, hkey⟩
        by_cases hj : j = i
        · rw [hj, hp] at hq
          cases hq
          exact .inl hkey
        · exact .inr ⟨j, q, hj, hq, hkey⟩
      · rintro (hkey | ⟨j, q, -, hq, hkey⟩)
        · exact ⟨i, p, hp, hkey⟩
        · exact ⟨j, q, hq, hkey⟩
    have hown (a b : α) (hkey : key p = some a) (hb : rest b) : name b ≠ name a := by
      obtain ⟨j, q, hj, hq, hkey'⟩ := hb
      exact fun hname => hj (hapart j i q p b a hq hp hkey' hkey hname)
    have hnames (a b : α) (hkey : key p' = some a) (hb : rest b) : name b ≠ name a := by
      generalize hx : key p = x at hentered
      generalize hy : key p' = y at hentered
      rw [hy] at hkey
      cases hentered with
      | same => exact hown a b (hx.trans hkey) hb
      | enter hnew _ =>
        cases hkey
        exact hnew b ((hbefore b).mpr (.inr hb))
      | strike => cases hkey
    refine ⟨fun a => Iff.trans ?_ (hafter a).symm, ?_⟩
    · generalize hx : key p = x at hentered hbefore hown
      generalize hy : key p' = y at hentered
      cases hentered with
      | same hsame => exact (hsame a).trans (hbefore a)
      | @enter b _ henter =>
        rw [henter, hbefore, Option.some.injEq, eq_comm (a := a)]
        simp only [reduceCtorEq, false_or]
        exact or_comm
      | @strike b hstrike =>
        rw [hstrike, hbefore, Option.some.injEq, eq_comm (a := b)]
        simp only [reduceCtorEq, false_or]
        refine ⟨fun h => h.1.resolve_left h.2, fun h => ⟨.inr h, ?_⟩⟩
        rintro rfl
        exact hown a a rfl h rfl
    intro j k q q' a b hq hq' hkey hkey' hname
    by_cases hj : j = i
    · by_cases hk : k = i
      · rw [hj, hk]
      · rw [hj, hself] at hq
        cases hq
        rw [hother k hk] at hq'
        exact absurd hname.symm (hnames a b hkey ⟨k, q', hk, hq', hkey'⟩)
    rw [hother j hj] at hq
    by_cases hk : k = i
    · rw [hk, hself] at hq'
      cases hq'
      exact absurd hname (hnames b a hkey' ⟨j, q, hj, hq, hkey⟩)
    · rw [hother k hk] at hq'
      exact hapart j k q q' a b hq hq' hkey hkey' hname

/-! ## Statements that compute -/

/-- The relation of a statement that is a function. -/
def ofFun (f : σ → π → ε → σ × π) (x : σ) (p : π) (e : ε) (x' : σ) (p' : π) : Prop := f x p e = (x', p')

variable (f : σ → π → ε → σ × π)

def next (w : Pool σ π) : Event π ε → Pool σ π
  | .start p => { w with threads := w.threads ++ [p] }
  | .act i e => match w.threads[i]? with
    | none => w
    | some p => ⟨(f w.shared p e).1, w.threads.set i (f w.shared p e).2⟩

def play : Pool σ π → List (Event π ε) → Pool σ π
  | w, [] => w
  | w, e :: tr => play (next f w e) tr

/-- From `n` threads on, every event starts a thread at its start, or schedules one that is there. -/
def Playable (start : π → Prop) : Nat → List (Event π ε) → Prop
  | _, [] => True
  | n, .start p :: tr => start p ∧ Playable start (n + 1) tr
  | n, .act i _ :: tr => i < n ∧ Playable start n tr

/-- The condition holds before every event. -/
def Along (C : Pool σ π → Event π ε → Prop) : Pool σ π → List (Event π ε) → Prop
  | _, [] => True
  | w, e :: tr => C w e ∧ Along C (next f w e) tr

variable {f}

theorem next_act {i : Nat} {e : ε} (h : i < w.threads.length) : Step start (ofFun f) w (.act i e) (next f w (.act i e)) ∧
    (next f w (.act i e)).threads.length = w.threads.length := by
  have hp : w.threads[i]? = some w.threads[i] := List.getElem?_eq_getElem h
  simp only [next, hp, List.length_set, and_true]
  exact .act hp rfl

/-- What may happen: a thread starts at its start, or a thread that is there goes on where `ok` lets it. -/
def possible (begins : π → Bool) (ok : σ → π → Bool) (w : Pool σ π) : Event π ε → Bool
  | .start p => begins p
  | .act i _ => (w.threads[i]?.map (ok w.shared)).getD false

theorem run_of_guarded {begins : π → Bool} {ok : σ → π → Bool} (hstart : ∀ p, begins p = true → start p)
    (hact : ∀ x p e, ok x p = true → act x p e (f x p e).1 (f x p e).2) (h : guarded (next f) (possible begins ok) w tr = true) :
    Run (Step start act) w tr (tr.foldl (next f) w) := by
  refine Run.of_guarded ?_ h
  intro w e he
  cases e with
  | start p => exact .start (hstart p he)
  | act i e =>
    cases hp : w.threads[i]? with
    | none => simp [possible, hp] at he
    | some p =>
      simp only [next, hp]
      exact .act hp (hact _ _ _ (by simpa [possible, hp] using he))

/-- **A playable list of events is a run**, and its steps meet what holds before every event. -/
theorem play_run {C : Pool σ π → Event π ε → Prop} (h : Playable start w.threads.length tr)
    (hC : Along f C w tr) : Run (fun w e w' => Step start (ofFun f) w e w' ∧ C w e) w tr (play f w tr) := by
  induction tr generalizing w with
  | nil => exact .nil w
  | cons e tr ih =>
    cases e with
    | start p =>
      refine .cons ⟨.start h.1, hC.1⟩ (ih ?_ hC.2)
      simpa [next] using h.2
    | act i e =>
      obtain ⟨hstep, hlength⟩ := @next_act _ _ _ start w f _ e h.1
      refine .cons ⟨hstep, hC.1⟩ (ih ?_ hC.2)
      rw [hlength]
      exact h.2

theorem along_true (tr : List (Event π ε)) : Along f (fun _ _ => True) w tr := by
  induction tr generalizing w with
  | nil => trivial
  | cons e tr ih => exact ⟨trivial, ih⟩

end Pool

end Lib

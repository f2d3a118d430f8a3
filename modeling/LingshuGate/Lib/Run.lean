import Mathlib.Logic.Basic
import Mathlib.Data.List.Induction

/-!
# Runs of a labelled transition system

`step s e t` is a relation: from `s` the event `e` may lead to `t`. A run is a list of events,
oldest first. The rules below are the only way later modules reason about whole runs:

* `Run.invariant`: what holds at the start and is kept by a step holds at the end;
* `Run.rel`: a reflexive transitive relation kept by a step relates the two ends;
* `Run.once`: an event that needs its `spent` flag clear and sets it for good happens at most once;
* `Run.of_guarded`, `Run.of_foldl`, `Run.of_foldlM`: where steps are computed, a run can be evaluated.
-/

namespace Lib

variable {σ ε : Type*} {step : σ → ε → σ → Prop}

/-- `Run step s tr u`: the events `tr`, oldest first, lead from `s` to `u`. -/
inductive Run (step : σ → ε → σ → Prop) : σ → List ε → σ → Prop
  | nil (s : σ) : Run step s [] s
  | snoc {s t u : σ} {tr : List ε} {e : ε} :
    Run step s tr t → step t e u → Run step s (tr ++ [e]) u

/-- Reached from `s` by some run. -/
def Reachable (step : σ → ε → σ → Prop) (s u : σ) : Prop := ∃ tr, Run step s tr u

namespace Run

theorem invariant {I : σ → Prop} {s u : σ} {tr : List ε} (h : Run step s tr u) (h0 : I s)
    (hs : ∀ t e v, I t → step t e v → I v) : I u := by
  induction h with
  | nil => exact h0
  | snoc _ he ih => exact hs _ _ _ ih he

/-- A run of steps is one of any steps they are. -/
theorem mono {step' : σ → ε → σ → Prop} {s u : σ} {tr : List ε} (h : Run step s tr u)
    (hstep : ∀ t e v, step t e v → step' t e v) : Run step' s tr u := by
  induction h with
  | nil => exact .nil _
  | snoc _ he ih => exact ih.snoc (hstep _ _ _ he)

/-- A preorder kept by every step taken inside an invariant relates the ends of a run. -/
theorem rel {I : σ → Prop} {R : σ → σ → Prop} {s u : σ} {tr : List ε} (h : Run step s tr u)
    (h0 : I s) (hI : ∀ t e v, I t → step t e v → I v) (hrefl : ∀ t, R t t)
    (htrans : ∀ a b c, R a b → R b c → R a c) (hs : ∀ t e v, I t → step t e v → R t v) : R s u := by
  induction h with
  | nil => exact hrefl _
  | snoc hr he ih => exact htrans _ _ _ ih (hs _ _ _ (hr.invariant h0 hI) he)

theorem append {s t u : σ} {tr tr' : List ε} (h : Run step s tr t) (h' : Run step t tr' u) : Run step s (tr ++ tr') u := by
  induction h' with
  | nil => simpa using h
  | snoc _ he ih => rw [← List.append_assoc]; exact ih.snoc he

theorem cons {s t u : σ} {e : ε} {tr : List ε} (he : step s e t) (h : Run step t tr u) : Run step s (e :: tr) u :=
  append ((Run.nil s).snoc he) h

/-- A run is cut at any of its events: what came before, the step itself, what came after. -/
theorem split {s u : σ} {pre post : List ε} {e : ε} (h : Run step s (pre ++ e :: post) u) :
    ∃ t v, Run step s pre t ∧ step t e v ∧ Run step v post u := by
  induction post using List.reverseRecOn generalizing u with
  | nil =>
    generalize hl : pre ++ [e] = l at h
    cases h with
    | nil => simp at hl
    | @snoc t _ tr e' hr he =>
      obtain ⟨rfl, rfl⟩ := List.append_inj' hl rfl |>.imp_right List.singleton_inj.1
      exact ⟨t, u, hr, he, .nil u⟩
  | append_singleton post e' ih =>
    generalize hl : pre ++ e :: (post ++ [e']) = l at h
    cases h with
    | nil => simp at hl
    | @snoc t _ tr e'' hr he =>
      have hl' : (pre ++ e :: post) ++ [e'] = tr ++ [e''] := by simpa using hl
      obtain ⟨rfl, rfl⟩ := List.append_inj' hl' rfl |>.imp_right List.singleton_inj.1
      obtain ⟨a, b, hra, hab, hbt⟩ := ih hr
      exact ⟨a, b, hra, hab, hbt.snoc he⟩

/-- **At most once.** If an event of the kind `p` only happens while `spent` is false and makes it
true, and no step makes it false again, then a run holds at most one event of that kind. -/
theorem once {I : σ → Prop} (spent : σ → Prop) (p : ε → Bool) {s u : σ} {tr : List ε} (h : Run step s tr u)
    (h0 : I s) (hI : ∀ t e v, I t → step t e v → I v)
    (hstable : ∀ t e v, I t → step t e v → spent t → spent v)
    (hp : ∀ t e v, I t → step t e v → p e = true → ¬ spent t ∧ spent v) :
    tr.countP p ≤ 1 := by
  -- the count is one only once the flag is set
  suffices hc : tr.countP p ≤ 1 ∧ (0 < tr.countP p → spent u) from hc.1
  induction h with
  | nil => simp
  | @snoc t v tr e hr he ih =>
    obtain ⟨hle, hsp⟩ := ih
    have hIt := hr.invariant h0 hI
    rw [List.countP_append, List.countP_singleton]
    cases hpe : p e with
    | false => exact ⟨by simpa using hle, fun h => hstable _ _ _ hIt he (hsp (by simpa using h))⟩
    | true =>
      obtain ⟨hns, hv⟩ := hp _ _ _ hIt he hpe
      have : tr.countP p = 0 := Nat.eq_zero_of_not_pos fun h => hns (hsp h)
      exact ⟨by simp [this], fun _ => hv⟩

end Run

/-! ## Runs that compute -/

/-- The guard holds before every event. -/
def guarded (f : σ → ε → σ) (ok : σ → ε → Bool) : σ → List ε → Bool
  | _, [] => true
  | s, e :: tr => ok s e && guarded f ok (f s e) tr

/-- Where a step is a function wherever its guard holds, a list of events that meets its guards is a run. -/
theorem Run.of_guarded {f : σ → ε → σ} {ok : σ → ε → Bool} (hstep : ∀ s e, ok s e = true → step s e (f s e)) {s : σ}
    {tr : List ε} (h : guarded f ok s tr = true) : Run step s tr (tr.foldl f s) := by
  induction tr generalizing s with
  | nil => exact .nil s
  | cons e tr ih =>
    rw [guarded, Bool.and_eq_true] at h
    exact .cons (hstep s e h.1) (ih h.2)

/-- Where every event is possible, every list of events is a run. -/
theorem Run.of_foldl {f : σ → ε → σ} (hstep : ∀ s e, step s e (f s e)) (s : σ) (tr : List ε) : Run step s tr (tr.foldl f s) := by
  induction tr generalizing s with
  | nil => exact .nil s
  | cons e tr ih => exact .cons (hstep s e) (ih (f s e))

/-- Where a step is a partial function, a list of events that is possible to its end is a run. -/
theorem Run.of_foldlM {f : σ → ε → Option σ} {s u : σ} {tr : List ε} (h : tr.foldlM f s = some u) :
    Run (fun s e t => f s e = some t) s tr u := by
  induction tr generalizing s with
  | nil =>
    cases h
    exact .nil _
  | cons e tr ih =>
    obtain ⟨t, ht, hrest⟩ := Option.bind_eq_some_iff.mp h
    exact .cons ht (ih hrest)

theorem Reachable.invariant {I : σ → Prop} {s u : σ} (h : Reachable step s u) (h0 : I s)
    (hs : ∀ t e v, I t → step t e v → I v) : I u :=
  h.elim fun _ hr => hr.invariant h0 hs

end Lib

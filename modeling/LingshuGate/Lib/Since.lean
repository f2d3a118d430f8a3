import LingshuGate.Lib.Run

/-!
# What happened, and what has held since

`Since step cause keeps s tr u`: in the run `tr` from `s` to `u` there was a step that `cause` describes, and every step
after it was one of `keeps`. A state that a run can only enter by a `cause`, and only stays in by a `keeps`, is one with
such a history (`Run.since`). `cause` is given the events before its step, so that histories nest.
-/

namespace Lib

variable {σ ε : Type*} {step : σ → ε → σ → Prop} {cause : List ε → σ → ε → σ → Prop} {keeps : σ → ε → σ → Prop}

inductive Since (step : σ → ε → σ → Prop) (cause : List ε → σ → ε → σ → Prop) (keeps : σ → ε → σ → Prop) (s : σ) : List ε → σ → Prop
  | now {tr : List ε} {t v : σ} {e : ε} : Run step s tr t → step t e v → cause tr t e v → Since step cause keeps s (tr ++ [e]) v
  | later {tr : List ε} {t v : σ} {e : ε} :
    Since step cause keeps s tr t → step t e v → keeps t e v → Since step cause keeps s (tr ++ [e]) v

/-- What is entered only by a `cause` and kept only by a `keeps` has been kept since a `cause`. -/
theorem Run.since {I A : σ → Prop} {s u : σ} {tr : List ε} (h : Run step s tr u) (h0 : I s)
    (hI : ∀ t e v, I t → step t e v → I v) (hA : ¬ A s)
    (hs : ∀ tr t e v, Run step s tr t → I t → step t e v → A v → cause tr t e v ∨ A t ∧ keeps t e v) (hu : A u) :
    Since step cause keeps s tr u := by
  induction h with
  | nil => exact absurd hu hA
  | @snoc t v tr e hr he ih =>
    rcases hs tr t e v hr (hr.invariant h0 hI) he hu with hcause | ⟨ht, hkeeps⟩
    · exact .now hr he hcause
    · exact .later (ih ht) he hkeeps

/-- The step that a history goes back to. -/
theorem Since.split {s u : σ} {tr : List ε} (h : Since step cause keeps s tr u) :
    ∃ pre e post t v, tr = pre ++ e :: post ∧ Run step s pre t ∧ step t e v ∧ cause pre t e v ∧
      Run (fun a e b => step a e b ∧ keeps a e b) v post u := by
  induction h with
  | @now pre t v e hr he hcause => exact ⟨pre, e, [], t, v, rfl, hr, he, hcause, .nil v⟩
  | @later tr t v e _ he hkeeps ih =>
    obtain ⟨pre, e', post, t', v', rfl, hr, he', hcause, hpost⟩ := ih
    exact ⟨pre, e', post ++ [e], t', v', by simp, hr, he', hcause, hpost.snoc ⟨he, hkeeps⟩⟩

/-! ## Where steps are computed -/

theorem Run.foldl_eq {f : σ → ε → σ} {s u : σ} {tr : List ε} (h : Run step s tr u)
    (hf : ∀ t e v, step t e v → f t e = v) : tr.foldl f s = u := by
  induction h with
  | nil => rfl
  | snoc _ he ih => rw [List.foldl_append, ih, List.foldl_cons, List.foldl_nil, hf _ _ _ he]

/-- Some event of the list meets `c` where it happens. -/
def occurs (f : σ → ε → σ) (c : σ → ε → Bool) : σ → List ε → Bool
  | _, [] => false
  | s, e :: tr => c s e || occurs f c (f s e) tr

theorem occurs_append {f : σ → ε → σ} {c : σ → ε → Bool} {s : σ} {pre post : List ε} {e : ε}
    (h : c (pre.foldl f s) e = true) : occurs f c s (pre ++ e :: post) = true := by
  induction pre generalizing s with
  | nil => simp [occurs, show c s e = true from h]
  | cons a pre ih => simp [occurs, ih h]

/-- A history that goes back to an event that can be recognised is found by evaluation. -/
theorem Since.occurs {f : σ → ε → σ} {c : σ → ε → Bool} {s u : σ} {tr : List ε} (h : Since step cause keeps s tr u)
    (hf : ∀ t e v, step t e v → f t e = v) (hc : ∀ tr t e v, cause tr t e v → c t e = true) :
    Lib.occurs f c s tr = true := by
  obtain ⟨pre, e, post, t, v, rfl, hpre, -, hcause, -⟩ := h.split
  exact occurs_append (hpre.foldl_eq hf ▸ hc pre t e v hcause)

end Lib

import LingshuGate.Lib.Acts

/-!
# Computations that ask their surroundings

What a computation does not do itself it asks for, and the answer may depend on everything asked before. Each question leaves an
event with its answer in the history. `Leaves x w P` says what a computation adds to the history, how it ends and in which state;
there is one rule for each way of composing computations, both outcomes included.
-/

namespace Lib

structure World (E S : Type) where
  history : List E := []
  state : S

abbrev Asking (ε E S α : Type) := Act ε (World E S) α

variable {ε E S α β : Type}

namespace Asking

/-- A question: the answer goes into the history. -/
def ask (answer : List E → Except ε α) (event : Except ε α → E) : Asking ε E S α := fun world =>
  match answer world.history with
  | .ok a => .ok a { world with history := world.history ++ [event (.ok a)] }
  | .error e => .error e { world with history := world.history ++ [event (.error e)] }

/-- A question that is asked only where there is someone to ask. -/
def askIf (answer : Option (List E → Except ε Unit)) (event : Except ε Unit → E) : Asking ε E S Unit :=
  match answer with
  | none => pure ()
  | some answer => ask answer event

def getState : Asking ε E S S := fun world => .ok world.state world

def modifyState (f : S → S) : Asking ε E S Unit := fun world => .ok () { world with state := f world.state }

/-- `try … except … else …`, without a way to return from an exception. -/
def afterwards (body : Asking ε E S α) (onOk : Asking ε E S Unit) (onError : ε → Asking ε E S Unit) : Asking ε E S α := fun world =>
  match body world with
  | .ok a world => (onOk >>= fun _ => pure a : Asking ε E S α) world
  | .error e world => (onError e >>= fun _ => throw e : Asking ε E S α) world

end Asking

open Asking

/-- The computation adds the events `new` to the history and ends with `result` and the state `s`, for which `P` holds. -/
def Leaves (x : Asking ε E S α) (w : World E S) (P : List E → Except ε α → S → Prop) : Prop :=
  match x w with
  | .ok a w' => ∃ new, w'.history = w.history ++ new ∧ P new (.ok a) w'.state
  | .error e w' => ∃ new, w'.history = w.history ++ new ∧ P new (.error e) w'.state

namespace Leaves

variable {x : Asking ε E S α} {f : α → Asking ε E S β} {w : World E S} {P P' : List E → Except ε α → S → Prop}
  {Q : List E → Except ε β → S → Prop}

variable {w' : World E S}

theorem ok_iff {a : α} (h : x w = .ok a w') : Leaves x w P ↔ ∃ new, w'.history = w.history ++ new ∧ P new (.ok a) w'.state := by
  rw [Leaves, h]

theorem error_iff {e : ε} (h : x w = .error e w') :
    Leaves x w P ↔ ∃ new, w'.history = w.history ++ new ∧ P new (.error e) w'.state := by
  rw [Leaves, h]

theorem imp (h : Leaves x w P) (himp : ∀ new result s, P new result s → P' new result s) : Leaves x w P' := by
  unfold Leaves at h ⊢
  split at h
  · obtain ⟨new, hnew, hp⟩ := h
    exact ⟨new, hnew, himp _ _ _ hp⟩
  · obtain ⟨new, hnew, hp⟩ := h
    exact ⟨new, hnew, himp _ _ _ hp⟩

theorem pure {a : α} (h : P [] (.ok a) w.state) : Leaves (Pure.pure a : Asking ε E S α) w P := ⟨[], (List.append_nil _).symm, h⟩

theorem throw {e : ε} (h : P [] (.error e) w.state) : Leaves (MonadExcept.throw e : Asking ε E S α) w P :=
  ⟨[], (List.append_nil _).symm, h⟩

theorem require {condition : Bool} {e : ε} {P : List E → Except ε Unit → S → Prop} (hok : condition = true → P [] (.ok ()) w.state)
    (herror : condition = false → P [] (.error e) w.state) : Leaves (Act.require condition e : Asking ε E S Unit) w P := by
  cases condition with
  | true => exact pure (hok rfl)
  | false => exact throw (herror rfl)

theorem ask {answer : List E → Except ε α} {event : Except ε α → E} (h : P [event (answer w.history)] (answer w.history) w.state) :
    Leaves (ask answer event) w P := by
  unfold Leaves Asking.ask
  cases hanswer : answer w.history with
  | ok a | error e =>
    rw [hanswer] at h
    exact ⟨_, rfl, h⟩

theorem getState {P : List E → Except ε S → S → Prop} (h : P [] (.ok w.state) w.state) : Leaves (Asking.getState) w P :=
  ⟨[], (List.append_nil _).symm, h⟩

theorem modifyState {g : S → S} {P : List E → Except ε Unit → S → Prop} (h : P [] (.ok ()) (g w.state)) :
    Leaves (Asking.modifyState g) w P := ⟨[], (List.append_nil _).symm, h⟩

/-- What is run in the world that is left adds its events to those that are there. -/
theorem join {x y : Asking ε E S α} {new : List E} (hnew : w'.history = w.history ++ new) (hrun : x w = y w')
    (h : Leaves y ⟨w.history ++ new, w'.state⟩ fun more result s => P (new ++ more) result s) : Leaves x w P := by
  have hworld : (⟨w.history ++ new, w'.state⟩ : World E S) = w' := by rw [← hnew]
  rw [hworld] at h
  unfold Leaves at h ⊢
  rw [hrun]
  split at h
  · obtain ⟨more, hmore, hp⟩ := h
    exact ⟨new ++ more, by rw [hmore, hnew, List.append_assoc], hp⟩
  · obtain ⟨more, hmore, hp⟩ := h
    exact ⟨new ++ more, by rw [hmore, hnew, List.append_assoc], hp⟩

theorem bind (hx : Leaves x w P) (herror : ∀ new e s, P new (.error e) s → Q new (.error e) s)
    (hok : ∀ new a s, P new (.ok a) s → Leaves (f a) ⟨w.history ++ new, s⟩ fun more result s' => Q (new ++ more) result s') :
    Leaves (x >>= f) w Q := by
  cases hrun : x w with
  | ok a w' =>
    obtain ⟨new, hnew, hp⟩ := (ok_iff hrun).mp hx
    exact join hnew (Act.bind_run hrun) (hok new a _ hp)
  | error e w' =>
    obtain ⟨new, hnew, hp⟩ := (error_iff hrun).mp hx
    have hbind : (x >>= f) w = .error e w' := by simp only [Bind.bind, EStateM.bind, hrun]
    exact (error_iff hbind).mpr ⟨new, hnew, herror new e _ hp⟩

variable {R : List E → Except ε α → S → Prop}

theorem tryCatch {handler : ε → Asking ε E S α} (hx : Leaves x w P) (hok : ∀ new a s, P new (.ok a) s → R new (.ok a) s)
    (herror : ∀ new e s, P new (.error e) s → Leaves (handler e) ⟨w.history ++ new, s⟩ fun more result s' => R (new ++ more) result s') :
    Leaves (MonadExcept.tryCatch x handler) w R := by
  cases hrun : x w with
  | ok a w' =>
    obtain ⟨new, hnew, hp⟩ := (ok_iff hrun).mp hx
    have hcatch : (MonadExcept.tryCatch x handler : Asking ε E S α) w = .ok a w' := by
      simp only [MonadExcept.tryCatch, tryCatchThe, MonadExceptOf.tryCatch, EStateM.tryCatch, hrun]
    exact (ok_iff hcatch).mpr ⟨new, hnew, hok new a _ hp⟩
  | error e w' =>
    obtain ⟨new, hnew, hp⟩ := (error_iff hrun).mp hx
    have hcatch : (MonadExcept.tryCatch x handler : Asking ε E S α) w = handler e w' := by
      simp only [MonadExcept.tryCatch, tryCatchThe, MonadExceptOf.tryCatch, EStateM.tryCatch, hrun]
      rfl
    exact join hnew hcatch (herror new e _ hp)

theorem afterwards {onOk : Asking ε E S Unit} {onError : ε → Asking ε E S Unit} (hx : Leaves x w P)
    (hok : ∀ new a s, P new (.ok a) s →
      Leaves (onOk >>= fun _ => Pure.pure a) ⟨w.history ++ new, s⟩ fun more result s' => R (new ++ more) result s')
    (herror : ∀ new e s, P new (.error e) s →
      Leaves (onError e >>= fun _ => MonadExcept.throw e) ⟨w.history ++ new, s⟩ fun more result s' => R (new ++ more) result s') :
    Leaves (Asking.afterwards x onOk onError) w R := by
  cases hrun : x w with
  | ok a w' =>
    obtain ⟨new, hnew, hp⟩ := (ok_iff hrun).mp hx
    exact join hnew (by simp only [Asking.afterwards, hrun]) (hok new a _ hp)
  | error e w' =>
    obtain ⟨new, hnew, hp⟩ := (error_iff hrun).mp hx
    exact join hnew (by simp only [Asking.afterwards, hrun]) (herror new e _ hp)

end Leaves

end Lib

import Mathlib.Tactic.Common

/-!
# Actions on a state that may fail

`Act ε σ α` is `EStateM`: an action that fails leaves the state it has reached. `Leads I J E x` is the contract of an
action in both outcomes: from `I` it leads to `J`, or fails with `E`. The lemmas `*_ok` say what a successful action has done.
-/

namespace Lib

abbrev Act (ε σ : Type) (α : Type) := EStateM ε σ α

variable {ε σ α β : Type} {s t : σ} {a b : α}

namespace Act

/-- `if not condition: raise e` -/
def require (condition : Bool) (e : ε) : Act ε σ Unit := if condition then pure () else throw e

def ofExcept : Except ε α → Act ε σ α
  | .ok a => pure a
  | .error e => throw e

@[simp] theorem pure_ok : (pure a : Act ε σ α) s = .ok b t ↔ a = b ∧ s = t := by
  simp [pure, EStateM.pure]

@[simp] theorem throw_ok {e : ε} : (throw e : Act ε σ α) s = .ok b t ↔ False := by
  show EStateM.Result.error e s = .ok b t ↔ False
  simp

variable {f : β → Act ε σ α} {x : Act ε σ β}

theorem bind_ok : (x >>= f) s = .ok a t ↔ ∃ b u, x s = .ok b u ∧ f b u = .ok a t := by
  simp only [bind, EStateM.bind]
  constructor
  · intro h
    split at h
    · exact ⟨_, _, ‹_›, h⟩
    · cases h
  · rintro ⟨b, u, hx, hf⟩
    rw [hx]
    exact hf

@[simp] theorem require_ok {condition : Bool} {e : ε} {u : Unit} :
    (require condition e : Act ε σ Unit) s = .ok u t ↔ condition = true ∧ s = t := by
  unfold require
  split <;> simp_all

@[simp] theorem ofExcept_ok {x : Except ε α} : (ofExcept x : Act ε σ α) s = .ok a t ↔ x = .ok a ∧ s = t := by
  cases x <;> simp [ofExcept]

@[simp] theorem get_ok {v : σ} : (get : Act ε σ σ) s = .ok v t ↔ v = s ∧ s = t := by
  show EStateM.Result.ok s s = .ok v t ↔ v = s ∧ s = t
  simp only [EStateM.Result.ok.injEq]
  constructor
  · rintro ⟨rfl, rfl⟩
    exact ⟨rfl, rfl⟩
  · rintro ⟨rfl, rfl⟩
    exact ⟨rfl, rfl⟩

@[simp] theorem modify_ok {f : σ → σ} {u : Unit} : (modify f : Act ε σ Unit) s = .ok u t ↔ f s = t := by
  show EStateM.Result.ok () (f s) = .ok u t ↔ f s = t
  simp

/-! ### What a failed action has done -/

variable {e e' : ε}

@[simp] theorem pure_error : (pure a : Act ε σ α) s = .error e t ↔ False := by
  simp [pure, EStateM.pure]

@[simp] theorem throw_error : (throw e' : Act ε σ α) s = .error e t ↔ e' = e ∧ s = t := by
  show EStateM.Result.error e' s = .error e t ↔ e' = e ∧ s = t
  simp

theorem bind_error : (x >>= f) s = .error e t ↔ x s = .error e t ∨ ∃ b u, x s = .ok b u ∧ f b u = .error e t := by
  simp only [bind, EStateM.bind]
  constructor
  · intro h
    split at h
    · exact .inr ⟨_, _, ‹_›, h⟩
    · cases h
      exact .inl ‹_›
  · rintro (hx | ⟨b, u, hx, hf⟩)
    · rw [hx]
    · rw [hx]
      exact hf

@[simp] theorem require_error {condition : Bool} : (require condition e' : Act ε σ Unit) s = .error e t ↔
    condition = false ∧ e' = e ∧ s = t := by
  unfold require
  split <;> simp_all

@[simp] theorem ofExcept_error {x : Except ε α} : (ofExcept x : Act ε σ α) s = .error e t ↔ x = .error e ∧ s = t := by
  cases x <;> simp [ofExcept]

@[simp] theorem get_error : (get : Act ε σ σ) s = .error e t ↔ False := by
  show EStateM.Result.ok s s = .error e t ↔ False
  simp

@[simp] theorem modify_error {f : σ → σ} : (modify f : Act ε σ Unit) s = .error e t ↔ False := by
  show EStateM.Result.ok () (f s) = .error e t ↔ False
  simp

@[simp] theorem set_ok {v : σ} {u : PUnit} : (set v : Act ε σ PUnit) s = .ok u t ↔ v = t := by
  show EStateM.Result.ok PUnit.unit v = .ok u t ↔ v = t
  simp

@[simp] theorem set_error {v : σ} : (set v : Act ε σ PUnit) s = .error e t ↔ False := by
  show EStateM.Result.ok PUnit.unit v = .error e t ↔ False
  simp

@[simp] theorem forM_nil_ok {f : β → Act ε σ Unit} {u : Unit} : ([] : List β).forM f s = .ok u t ↔ s = t := by
  show EStateM.Result.ok () s = .ok u t ↔ s = t
  simp

theorem forM_cons_ok {f : β → Act ε σ Unit} {x : β} {xs : List β} {u : Unit} :
    (x :: xs).forM f s = .ok u t ↔ ∃ v, f x s = .ok () v ∧ xs.forM f v = .ok u t := by
  have h := @bind_ok ε σ Unit Unit s t u (fun _ => xs.forM f) (f x)
  refine h.trans ⟨?_, ?_⟩
  · rintro ⟨_, v, hx, hxs⟩
    exact ⟨v, hx, hxs⟩
  · rintro ⟨v, hx, hxs⟩
    exact ⟨(), v, hx, hxs⟩

/-- `except: cleanup; raise` -/
theorem cleanup_run {x : Act ε σ α} {f : σ → σ} : (tryCatch x fun e => do modify f; throw e) s = match x s with
    | .error e u => .error e (f u)
    | result => result := by
  cases hx : x s with
  | ok a u => simp [tryCatch, tryCatchThe, MonadExceptOf.tryCatch, EStateM.tryCatch, hx]
  | error e u =>
    simp only [tryCatch, tryCatchThe, MonadExceptOf.tryCatch, EStateM.tryCatch, hx]
    rfl

theorem cleanup_error {x : Act ε σ α} {f : σ → σ} : (tryCatch x fun e => do modify f; throw e) s = .error e t ↔
    ∃ u, x s = .error e u ∧ t = f u := by
  rw [cleanup_run]
  cases hx : x s with
  | ok a u => simp
  | error e' u =>
    simp only [EStateM.Result.error.injEq]
    constructor
    · rintro ⟨rfl, rfl⟩
      exact ⟨u, ⟨rfl, rfl⟩, rfl⟩
    · rintro ⟨u', ⟨rfl, rfl⟩, rfl⟩
      exact ⟨rfl, rfl⟩

theorem cleanup_ok {x : Act ε σ α} {f : σ → σ} : (tryCatch x fun e => do modify f; throw e) s = .ok a t ↔ x s = .ok a t := by
  rw [cleanup_run]
  cases hx : x s with
  | ok a u => rfl
  | error e u => simp

theorem map_ok {f : β → α} : (f <$> x) s = .ok a t ↔ ∃ b, x s = .ok b t ∧ f b = a := by
  simp only [Functor.map, EStateM.map]
  cases x s <;> simp [and_comm]

theorem map_error {f : β → α} : (f <$> x) s = .error e t ↔ x s = .error e t := by
  simp only [Functor.map, EStateM.map]
  cases x s <;> simp

/-! ## Step by step -/

theorem bind_run {b : β} (h : x s = .ok b t) : (x >>= f) s = f b t := by
  simp only [bind, EStateM.bind, h]

theorem ofExcept_run {b : β} : (ofExcept (.ok b) >>= f) s = f b s := rfl

theorem ofExcept_error_run {e : ε} : (ofExcept (.error e) >>= f) s = .error e s := rfl

theorem get_run {f : σ → Act ε σ α} : (get >>= f) s = f s s := rfl

theorem modify_run {g : σ → σ} {f : Unit → Act ε σ α} : (modify g >>= f) s = f () (g s) := rfl

theorem require_run {e : ε} {f : Unit → Act ε σ α} : (require true e >>= f) s = f () s := rfl

/-! ## Both outcomes -/

/-- The contract of the outcome. -/
def Ends (J : σ → Prop) (E : ε → σ → Prop) : EStateM.Result ε σ α → Prop
  | .ok _ s => J s
  | .error e s => E e s

/-- From `I` the action leads to `J`, or fails with `E`. -/
def Leads (I J : σ → Prop) (E : ε → σ → Prop) (x : Act ε σ α) : Prop := ∀ s, I s → Ends J E (x s)

variable {I J K : σ → Prop} {E : ε → σ → Prop}

theorem Leads.ok {x : Act ε σ α} (hx : Leads I J E x) (h : x s = .ok a t) (hs : I s) : J t := by
  have := hx s hs
  rwa [h] at this

theorem Leads.error {x : Act ε σ α} (hx : Leads I J E x) {e : ε} (h : x s = .error e t) (hs : I s) : E e t := by
  have := hx s hs
  rwa [h] at this

theorem Leads.pure (a : α) : Leads I I E (pure a : Act ε σ α) := fun _ hs => hs

theorem Leads.throw {e : ε} (h : ∀ s, I s → E e s) : Leads I J E (throw e : Act ε σ α) := h

theorem Leads.require {condition : Bool} {e : ε} (h : ∀ s, I s → E e s) : Leads I I E (require condition e : Act ε σ Unit) := by
  unfold Act.require
  split
  · exact Leads.pure ()
  · exact Leads.throw h

theorem Leads.ofExcept {x : Except ε α} (h : ∀ e s, x = .error e → I s → E e s) : Leads I I E (ofExcept x : Act ε σ α) := by
  cases x with
  | ok a => exact Leads.pure a
  | error e => exact Leads.throw fun s => h e s rfl

theorem Leads.get : Leads I I E (get : Act ε σ σ) := fun _ hs => hs

theorem Leads.modify {f : σ → σ} (h : ∀ s, I s → J (f s)) : Leads I J E (modify f : Act ε σ Unit) := h

/-- The rest may use what the first action has returned. -/
theorem Leads.bind (hx : Leads I J E x)
    (hf : ∀ b u v, I u → x u = .ok b v → Leads (fun w => w = v ∧ J w) K E (f b)) : Leads I K E (x >>= f) := by
  intro s hs
  simp only [Bind.bind, EStateM.bind]
  have := hx s hs
  split
  · rename_i b u hok
    rw [hok] at this
    exact hf b s u hs hok u ⟨rfl, this⟩
  · rename_i e u herror
    rwa [herror] at this

theorem Leads.seq (hx : Leads I J E x) (hf : ∀ b, Leads J K E (f b)) : Leads I K E (x >>= f) :=
  Leads.bind hx fun b _ _ _ _ w hw => hf b w hw.2

theorem Leads.get_seq {f : σ → Act ε σ α} (hf : ∀ s, I s → Leads I K E (f s)) : Leads I K E (MonadState.get >>= f) :=
  fun s hs => hf s hs s hs

theorem Leads.ofExcept_seq {x : Except ε β} (hx : ∀ e s, x = .error e → I s → E e s)
    (hf : ∀ b, x = .ok b → Leads I K E (f b)) : Leads I K E (Act.ofExcept x >>= f) := by
  cases x with
  | ok b => exact hf b rfl
  | error e => exact fun s hs => hx e s rfl hs

theorem Leads.map {f : β → α} (hx : Leads I J E x) : Leads I J E (f <$> x) := by
  intro s hs
  have := hx s hs
  simp only [Functor.map, EStateM.map]
  cases hrun : x s with
  | ok b t | error e t => rwa [hrun] at this

theorem Leads.forM {f : β → Act ε σ Unit} {xs : List β} (hf : ∀ x ∈ xs, Leads I I E (f x)) : Leads I I E (xs.forM f) := by
  induction xs with
  | nil => exact Leads.pure ()
  | cons x xs ih =>
    exact Leads.seq (hf x List.mem_cons_self) fun _ => ih fun y hy => hf y (List.mem_cons_of_mem _ hy)

end Act

end Lib

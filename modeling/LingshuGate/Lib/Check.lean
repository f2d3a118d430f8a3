import Mathlib.Logic.Basic

/-!
# Computations that check and fail

A function that raises is an `Except`; its guards are `require`. The lemmas turn a successful run into the
facts its guards established, so that callers never unfold a bind.
-/

namespace Lib

variable {ε α β : Type}

/-- `if not condition: raise error`. -/
def require (condition : Bool) (error : ε) : Except ε Unit :=
  if condition then .ok () else .error error

/-- `value or raise error`. -/
def expect (value : Option α) (error : ε) : Except ε α :=
  match value with
  | some a => .ok a
  | none => .error error

variable {f : α → Except ε β}

@[simp] theorem bind_eq_ok {x : Except ε α} {b : β} : (x >>= f) = .ok b ↔ ∃ a, x = .ok a ∧ f a = .ok b := by
  cases x with
  | error e =>
    constructor
    · intro h
      cases h
    · rintro ⟨a, h, -⟩
      cases h
  | ok a =>
    constructor
    · intro h
      exact ⟨a, rfl, h⟩
    · rintro ⟨a', h, hf⟩
      cases h
      exact hf

@[simp] theorem pure_eq_ok {a b : α} : (pure a : Except ε α) = .ok b ↔ a = b := by
  constructor
  · intro h
    cases h
    rfl
  · rintro rfl
    rfl

@[simp] theorem require_eq_ok {condition : Bool} {error : ε} {u : Unit} : require condition error = .ok u ↔ condition = true := by
  cases condition with
  | false | true => simp [require]

@[simp] theorem expect_eq_ok {value : Option α} {error : ε} {a : α} : expect value error = .ok a ↔ value = some a := by
  cases value with
  | none | some b => simp [expect]

theorem mapError_eq_ok {ε' : Type} {x : Except ε α} {g : ε → ε'} {a : α} : x.mapError g = .ok a ↔ x = .ok a := by
  cases x with
  | error e => constructor <;> rintro ⟨⟩
  | ok b =>
    constructor <;> rintro ⟨⟩
    · rfl
    · rfl

/-- `for a in xs: check(a)`. -/
def each (f : α → Except ε Unit) : List α → Except ε Unit
  | [] => .ok ()
  | a :: xs => do
    f a
    each f xs

variable {xs : List α}

@[simp] theorem each_eq_ok {f : α → Except ε Unit} {u : Unit} : each f xs = .ok u ↔ ∀ a ∈ xs, f a = .ok () := by
  induction xs with
  | nil => simp [each]
  | cons a xs ih =>
    constructor
    · intro h
      obtain ⟨_, ha, hxs⟩ := bind_eq_ok.mp h
      rw [List.forall_mem_cons]
      exact ⟨ha, ih.mp hxs⟩
    · intro h
      rw [List.forall_mem_cons] at h
      exact bind_eq_ok.mpr ⟨(), h.1, ih.mpr h.2⟩

variable {ys : List β}

/-- Every result of a successful loop comes from an element. -/
theorem mem_mapM_ok (h : xs.mapM f = .ok ys) {y : β} (hy : y ∈ ys) : ∃ x ∈ xs, f x = .ok y := by
  induction xs generalizing ys with
  | nil =>
    obtain rfl := pure_eq_ok.mp h
    cases hy
  | cons x xs ih =>
    simp only [List.mapM_cons, bind_eq_ok, pure_eq_ok] at h
    obtain ⟨z, hz, zs, hzs, rfl⟩ := h
    rcases List.mem_cons.mp hy with rfl | hy
    · exact ⟨x, List.mem_cons_self, hz⟩
    · obtain ⟨x', hx', hfx'⟩ := ih hzs hy
      exact ⟨x', List.mem_cons_of_mem x hx', hfx'⟩

/-- Every element of a successful loop has its result among the results. -/
theorem mapM_ok_mem (h : xs.mapM f = .ok ys) {x : α} (hx : x ∈ xs) : ∃ y ∈ ys, f x = .ok y := by
  induction xs generalizing ys with
  | nil => cases hx
  | cons x' xs ih =>
    simp only [List.mapM_cons, bind_eq_ok, pure_eq_ok] at h
    obtain ⟨z, hz, zs, hzs, rfl⟩ := h
    rcases List.mem_cons.mp hx with rfl | hx
    · exact ⟨z, List.mem_cons_self, hz⟩
    · obtain ⟨y, hy, hfy⟩ := ih hzs hx
      exact ⟨y, List.mem_cons_of_mem z hy, hfy⟩

/-- A loop whose body keeps an attribute keeps the list of them. -/
theorem map_mapM_ok {γ : Type} {g : α → γ} {g' : β → γ} (hf : ∀ x y, f x = .ok y → g' y = g x)
    (h : xs.mapM f = .ok ys) : ys.map g' = xs.map g := by
  induction xs generalizing ys with
  | nil =>
    obtain rfl := pure_eq_ok.mp h
    rfl
  | cons x xs ih =>
    simp only [List.mapM_cons, bind_eq_ok, pure_eq_ok] at h
    obtain ⟨z, hz, zs, hzs, rfl⟩ := h
    rw [List.map_cons, List.map_cons, hf x z hz, ih hzs]

end Lib

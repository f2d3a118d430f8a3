import Mathlib.Data.List.Perm.Basic
import Mathlib.Tactic.Ring

/-!
# Reading in batches

`for offset in range(0, len(xs), size): batch = xs[offset:offset + size]`, and the order in which a set, or the rows of a
query, are gone through: any order, each element once.
-/

namespace Lib

variable {α β : Type}

/-- `xs[offset:offset + size] for offset in range(0, len(xs), size)`. -/
def batches (size : Nat) (xs : List α) : List (List α) :=
  (List.range ((xs.length + size - 1) / size)).map fun i => (xs.drop (size * i)).take size

/-- The first `n` batches are the first `size * n` elements. -/
theorem flatten_slices (size : Nat) (xs : List α) (n : Nat) :
    ((List.range n).map fun i => (xs.drop (size * i)).take size).flatten = xs.take (size * n) := by
  induction n with
  | zero => simp
  | succ n ih =>
    rw [List.range_succ, List.map_append, List.flatten_append, ih, List.map_singleton, List.flatten_singleton]
    rw [show size * (n + 1) = size * n + size by ring, List.take_add]

/-- The batches are the list, cut. -/
theorem flatten_batches {size : Nat} (hsize : 0 < size) (xs : List α) : (batches size xs).flatten = xs := by
  rw [batches, flatten_slices, List.take_of_length_le]
  have hdiv := Nat.div_add_mod (xs.length + size - 1) size
  have hmod := Nat.mod_lt (xs.length + size - 1) hsize
  omega

theorem mem_batches {size : Nat} (hsize : 0 < size) {xs : List α} {a : α} : (∃ batch ∈ batches size xs, a ∈ batch) ↔ a ∈ xs := by
  rw [← List.mem_flatten, flatten_batches hsize]

/-- The order in which a set, or the rows of a query, are gone through. -/
structure Order (α : Type) where
  of : List α → List α
  perm : ∀ xs, (of xs).Perm xs

namespace Order

@[simp] theorem mem_of (o : Order α) {xs : List α} {a : α} : a ∈ o.of xs ↔ a ∈ xs := (o.perm xs).mem_iff

/-- As the elements came in. -/
def kept : Order α := ⟨id, fun _ => .refl _⟩

/-- The last one first. -/
def reversed : Order α := ⟨List.reverse, List.reverse_perm⟩

end Order

end Lib

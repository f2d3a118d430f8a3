import Mathlib.Data.List.Infix

/-!
# Searching a stream chunk by chunk

A pattern is a list of conditions on consecutive elements. A stream is searched in windows: what was kept of the end of the
last window, and the next chunk. `occursIn_append` says that this misses nothing, however the stream is cut, if what is
kept is as long as the pattern.
-/

namespace Lib

variable {α : Type*}

abbrev Pattern (α : Type*) := List (α → Bool)

namespace Pattern

def startsAt : Pattern α → List α → Bool
  | [], _ => true
  | _ :: _, [] => false
  | c :: p, x :: xs => c x && startsAt p xs

/-- Somewhere in the list. -/
def occursIn (p : Pattern α) (xs : List α) : Bool := xs.tails.any p.startsAt

/-- The pattern that one list matches. -/
def literal [DecidableEq α] (xs : List α) : Pattern α := xs.map fun x y => decide (y = x)

variable {p : Pattern α} {xs ys zs : List α}

theorem occursIn_iff : p.occursIn xs = true ↔ ∃ ys zs, ys ++ zs = xs ∧ p.startsAt zs = true := by
  unfold occursIn
  rw [List.any_eq_true]
  constructor
  · rintro ⟨zs, hzs, hstarts⟩
    obtain ⟨ys, hys⟩ := List.mem_tails zs xs |>.mp hzs
    exact ⟨ys, zs, hys, hstarts⟩
  · rintro ⟨ys, zs, hys, hstarts⟩
    exact ⟨zs, List.mem_tails zs xs |>.mpr ⟨ys, hys⟩, hstarts⟩

theorem startsAt_append (h : p.startsAt xs = true) (ys : List α) : p.startsAt (xs ++ ys) = true := by
  induction p generalizing xs with
  | nil => simp [startsAt]
  | cons c p ih =>
    cases xs with
    | nil => cases h
    | cons x xs =>
      obtain ⟨hx, hrest⟩ := Bool.and_eq_true _ _ ▸ h
      exact (Bool.and_eq_true _ _).mpr ⟨hx, ih hrest⟩

/-- What starts at a list is within its first elements. -/
theorem startsAt_of_append (h : p.startsAt (xs ++ ys) = true) (hlength : p.length ≤ xs.length) : p.startsAt xs = true := by
  induction p generalizing xs with
  | nil => simp [startsAt]
  | cons c p ih =>
    cases xs with
    | nil => simp at hlength
    | cons x xs =>
      obtain ⟨hx, hrest⟩ := Bool.and_eq_true _ _ ▸ h
      exact (Bool.and_eq_true _ _).mpr ⟨hx, ih hrest (Nat.le_of_succ_le_succ hlength)⟩

theorem occursIn_inside (h : p.occursIn ys = true) : p.occursIn (xs ++ ys ++ zs) = true := by
  obtain ⟨as, bs, rfl, hstarts⟩ := occursIn_iff.mp h
  exact occursIn_iff.mpr ⟨xs ++ as, bs ++ zs, by simp, startsAt_append hstarts zs⟩

end Pattern

/-- The last `n` elements. -/
def keep (n : Nat) (xs : List α) : List α := xs.drop (xs.length - n)

theorem keep_append_keep (n : Nat) (xs ys : List α) : keep n (keep n xs ++ ys) = keep n (xs ++ ys) := by
  unfold keep
  rw [List.drop_append, List.drop_append, List.drop_drop]
  simp only [List.length_append, List.length_drop]
  congr 2 <;> omega

theorem keep_suffix (n : Nat) (xs : List α) : xs.take (xs.length - n) ++ keep n xs = xs := List.take_append_drop _ _

variable {n : Nat}

/-- **No occurrence is lost between two windows.** -/
theorem Pattern.occursIn_append {p : Pattern α} (hlength : p.length ≤ n) (xs chunk : List α) :
    p.occursIn (xs ++ chunk) = (p.occursIn xs || p.occursIn (keep n xs ++ chunk)) := by
  rw [Bool.eq_iff_iff, Bool.or_eq_true]
  constructor
  · intro h
    obtain ⟨as, bs, hsplit, hstarts⟩ := occursIn_iff.mp h
    by_cases hbefore : as.length < xs.length - n
    · -- it ends before the chunk
      obtain ⟨mid, rfl, rfl⟩ : ∃ mid, xs = as ++ mid ∧ bs = mid ++ chunk := by
        rcases List.append_eq_append_iff.mp hsplit with ⟨mid, hxs, hbs⟩ | ⟨mid, has, -⟩
        · exact ⟨mid, hxs, hbs⟩
        · have := congrArg List.length has
          simp only [List.length_append] at this
          omega
      refine .inl (occursIn_iff.mpr ⟨as, mid, rfl, startsAt_of_append hstarts ?_⟩)
      simp only [List.length_append] at hbefore
      omega
    · -- it starts within what is kept
      refine .inr (occursIn_iff.mpr ⟨as.drop (xs.length - n), bs, ?_, hstarts⟩)
      have hdrop := congrArg (List.drop (xs.length - n)) hsplit
      rw [List.drop_append_of_le_length (by omega), List.drop_append_of_le_length (by omega)] at hdrop
      exact hdrop
  · rintro (h | h)
    · exact @occursIn_inside _ _ [] _ _ h
    · have := @occursIn_inside _ _ (xs.take (xs.length - n)) _ [] h
      rwa [List.append_nil, ← List.append_assoc, keep_suffix] at this

/-! ## Reading in chunks -/

/-- The chunks of at most `n` elements that reading gives, `fuel` of them at most. -/
def cutFuel (n : Nat) : Nat → List α → List (List α)
  | 0, _ => []
  | _, [] => []
  | fuel + 1, x :: xs => (x :: xs).take n :: cutFuel n fuel ((x :: xs).drop n)

def cut (n : Nat) (xs : List α) : List (List α) := cutFuel n xs.length xs

theorem cutFuel_flatten (hn : 0 < n) (fuel : Nat) (xs : List α) (h : xs.length ≤ fuel) : (cutFuel n fuel xs).flatten = xs := by
  induction fuel generalizing xs with
  | zero =>
    obtain rfl := List.eq_nil_of_length_eq_zero (Nat.le_zero.mp h)
    rfl
  | succ fuel ih =>
    cases xs with
    | nil => rfl
    | cons x xs =>
      have hshorter : ((x :: xs).drop n).length ≤ fuel := by
        simp only [List.length_drop, List.length_cons] at h ⊢
        omega
      rw [cutFuel, List.flatten_cons, ih _ hshorter, List.take_append_drop]

/-- The chunks are the whole. -/
theorem cut_flatten (hn : 0 < n) (xs : List α) : (cut n xs).flatten = xs :=
  cutFuel_flatten hn xs.length xs (Nat.le_refl _)

theorem cut_ne_nil (hn : 0 < n) {xs chunk : List α} (h : chunk ∈ cut n xs) : chunk ≠ [] := by
  unfold cut at h
  generalize xs.length = fuel at h
  induction fuel generalizing xs with
  | zero => cases h
  | succ fuel ih =>
    cases xs with
    | nil => cases h
    | cons x xs =>
      rcases List.mem_cons.mp h with rfl | h
      · rw [Ne, List.take_eq_nil_iff, not_or]
        exact ⟨Nat.pos_iff_ne_zero.mp hn, List.cons_ne_nil _ _⟩
      · exact ih h

theorem cut_length {xs chunk : List α} (h : chunk ∈ cut n xs) : chunk.length ≤ n := by
  unfold cut at h
  generalize xs.length = fuel at h
  induction fuel generalizing xs with
  | zero => cases h
  | succ fuel ih =>
    cases xs with
    | nil => cases h
    | cons x xs =>
      rcases List.mem_cons.mp h with rfl | h
      · exact List.length_take_le _ _
      · exact ih h

end Lib

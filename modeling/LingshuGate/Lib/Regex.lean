import LingshuGate.Lib.Scan

/-!
# Regular expressions that are searched for

A text has a match if and only if it has a shortest one, as long as a repetition without an upper bound comes last: what follows the
fewest characters that are asked for may be left out of the match. So a search is a search for finitely many patterns
(`searches_iff`), and each of them is as long as it is, whatever the match was.
-/

namespace Lib

inductive Regex (α : Type)
  | empty
  | one (q : α → Bool)
  | seq (r s : Regex α)
  | alt (r s : Regex α)
  /-- `q{n,}` -/
  | atLeast (n : Nat) (q : α → Bool)

namespace Regex

variable {α : Type}

def Matches : Regex α → List α → Prop
  | .empty, xs => xs = []
  | .one q, xs => ∃ x, xs = [x] ∧ q x = true
  | .seq r s, xs => ∃ ys zs, xs = ys ++ zs ∧ r.Matches ys ∧ s.Matches zs
  | .alt r s, xs => r.Matches xs ∨ s.Matches xs
  | .atLeast n q, xs => n ≤ xs.length ∧ ∀ x ∈ xs, q x = true

/-- `re.search` finds something. -/
def Searches (r : Regex α) (xs : List α) : Prop := ∃ before found after, xs = before ++ (found ++ after) ∧ r.Matches found

/-- The text itself. -/
def lit [DecidableEq α] : List α → Regex α
  | [] => .empty
  | x :: xs => .seq (.one fun y => decide (y = x)) (lit xs)

/-- `q{n}` -/
def times (q : α → Bool) : Nat → Regex α
  | 0 => .empty
  | n + 1 => .seq (.one q) (times q n)

/-- `r?` -/
def optional (r : Regex α) : Regex α := .alt r .empty

/-- Nothing is repeated without an upper bound. -/
def rigid : Regex α → Bool
  | .empty => true
  | .one _ => true
  | .seq r s => r.rigid && s.rigid
  | .alt r s => r.rigid && s.rigid
  | .atLeast _ _ => false

/-- What is repeated without an upper bound comes last. -/
def trailing : Regex α → Bool
  | .empty => true
  | .one _ => true
  | .seq r s => r.rigid && s.trailing
  | .alt r s => r.trailing && s.trailing
  | .atLeast _ _ => true

/-- The patterns of the shortest matches. -/
def shortest : Regex α → List (Pattern α)
  | .empty => [[]]
  | .one q => [[q]]
  | .seq r s => r.shortest.flatMap fun p => s.shortest.map (p ++ ·)
  | .alt r s => r.shortest ++ s.shortest
  | .atLeast n q => [List.replicate n q]

theorem shortest_lit [DecidableEq α] (xs : List α) : (lit xs).shortest = [Pattern.literal xs] := by
  induction xs with
  | nil => rfl
  | cons x xs ih =>
    rw [lit, shortest, ih]
    rfl

theorem shortest_times (q : α → Bool) (n : Nat) : (times q n).shortest = [List.replicate n q] := by
  induction n with
  | zero => rfl
  | succ n ih =>
    rw [times, shortest, ih]
    rfl

theorem startsAt_seq {p q : Pattern α} {xs ys : List α} (hp : p.startsAt xs = true) (hlength : p.length = xs.length)
    (hq : q.startsAt ys = true) : Pattern.startsAt (p ++ q) (xs ++ ys) = true := by
  induction p generalizing xs with
  | nil =>
    obtain rfl := List.eq_nil_of_length_eq_zero hlength.symm
    exact hq
  | cons c p ih =>
    cases xs with
    | nil => cases hlength
    | cons x xs =>
      obtain ⟨hx, hrest⟩ := (Bool.and_eq_true _ _).mp hp
      exact (Bool.and_eq_true _ _).mpr ⟨hx, ih hrest (Nat.succ.inj hlength)⟩

variable {xs : List α}

theorem startsAt_replicate {q : α → Bool} {n : Nat} (hn : n ≤ xs.length) (hall : ∀ x ∈ xs, q x = true) :
    Pattern.startsAt (List.replicate n q) xs = true := by
  induction n generalizing xs with
  | zero => rfl
  | succ n ih =>
    cases xs with
    | nil => cases hn
    | cons x xs =>
      exact (Bool.and_eq_true _ _).mpr ⟨hall x List.mem_cons_self, ih (Nat.le_of_succ_le_succ hn) fun y hy => hall y (List.mem_cons_of_mem _ hy)⟩

/-- What a pattern starts at is split where the pattern is. -/
theorem startsAt_split {p q : Pattern α} (h : Pattern.startsAt (p ++ q) xs = true) :
    ∃ ys zs, xs = ys ++ zs ∧ ys.length = p.length ∧ p.startsAt ys = true ∧ q.startsAt zs = true := by
  induction p generalizing xs with
  | nil => exact ⟨[], xs, rfl, rfl, rfl, h⟩
  | cons c p ih =>
    cases xs with
    | nil => cases h
    | cons x xs =>
      obtain ⟨hx, hrest⟩ := (Bool.and_eq_true _ _).mp h
      obtain ⟨ys, zs, rfl, hlength, hp, hq⟩ := ih hrest
      exact ⟨x :: ys, zs, rfl, congrArg _ hlength, (Bool.and_eq_true _ _).mpr ⟨hx, hp⟩, hq⟩

theorem startsAt_replicate_inv {q : α → Bool} {n : Nat} (hlength : xs.length = n)
    (h : Pattern.startsAt (List.replicate n q) xs = true) : ∀ x ∈ xs, q x = true := by
  induction n generalizing xs with
  | zero =>
    obtain rfl := List.eq_nil_of_length_eq_zero hlength
    exact nofun
  | succ n ih =>
    cases xs with
    | nil => cases hlength
    | cons x xs =>
      obtain ⟨hx, hrest⟩ := (Bool.and_eq_true _ _).mp h
      intro y hy
      rcases List.mem_cons.mp hy with rfl | hy
      · exact hx
      · exact ih (Nat.succ.inj hlength) hrest y hy

variable {r : Regex α}

theorem trailing_of_rigid (hr : r.rigid = true) : r.trailing = true := by
  induction r with
  | empty | one => rfl
  | seq r s _ ihs =>
    obtain ⟨hr, hs⟩ := (Bool.and_eq_true _ _).mp hr
    exact (Bool.and_eq_true _ _).mpr ⟨hr, ihs hs⟩
  | alt r s ihr ihs =>
    obtain ⟨hr, hs⟩ := (Bool.and_eq_true _ _).mp hr
    exact (Bool.and_eq_true _ _).mpr ⟨ihr hr, ihs hs⟩
  | atLeast => cases hr

/-- A match begins with one of the patterns; a rigid expression matches what one of its patterns is. -/
theorem startsAt_of_matches (hr : r.trailing = true) (h : r.Matches xs) :
    ∃ p ∈ r.shortest, p.startsAt xs = true ∧ (r.rigid = true → p.length = xs.length) := by
  induction r generalizing xs with
  | empty =>
    obtain rfl : xs = [] := h
    exact ⟨[], List.mem_singleton_self _, rfl, fun _ => rfl⟩
  | one q =>
    obtain ⟨x, rfl, hx⟩ := h
    exact ⟨[q], List.mem_singleton_self _, (Bool.and_eq_true _ _).mpr ⟨hx, rfl⟩, fun _ => rfl⟩
  | seq r s ihr ihs =>
    obtain ⟨hr, hs⟩ := (Bool.and_eq_true _ _).mp hr
    obtain ⟨ys, zs, rfl, hys, hzs⟩ := h
    obtain ⟨p, hp, hpstarts, hplength⟩ := ihr (trailing_of_rigid hr) hys
    obtain ⟨q, hq, hqstarts, hqlength⟩ := ihs hs hzs
    refine ⟨p ++ q, List.mem_flatMap.mpr ⟨p, hp, List.mem_map_of_mem hq⟩, startsAt_seq hpstarts (hplength hr) hqstarts, ?_⟩
    intro hrigid
    rw [List.length_append, List.length_append, hplength hr, hqlength ((Bool.and_eq_true _ _).mp hrigid).2]
  | alt r s ihr ihs =>
    obtain ⟨hr, hs⟩ := (Bool.and_eq_true _ _).mp hr
    rcases h with h | h
    · obtain ⟨p, hp, hstarts, hlength⟩ := ihr hr h
      exact ⟨p, List.mem_append_left _ hp, hstarts, fun hrigid => hlength ((Bool.and_eq_true _ _).mp hrigid).1⟩
    · obtain ⟨p, hp, hstarts, hlength⟩ := ihs hs h
      exact ⟨p, List.mem_append_right _ hp, hstarts, fun hrigid => hlength ((Bool.and_eq_true _ _).mp hrigid).2⟩
  | atLeast n q => exact ⟨_, List.mem_singleton_self _, startsAt_replicate h.1 h.2, nofun⟩

/-- What one of the patterns starts at begins with a match of its length. -/
theorem matches_of_startsAt {p : Pattern α} (hp : p ∈ r.shortest) (h : p.startsAt xs = true)
    (hlength : xs.length = p.length) : r.Matches xs := by
  induction r generalizing p xs with
  | empty =>
    obtain rfl := List.mem_singleton.mp hp
    exact List.eq_nil_of_length_eq_zero hlength
  | one q =>
    obtain rfl := List.mem_singleton.mp hp
    obtain ⟨x, rfl⟩ := List.length_eq_one_iff.mp hlength
    exact ⟨x, rfl, ((Bool.and_eq_true _ _).mp h).1⟩
  | seq r s ihr ihs =>
    obtain ⟨p₁, hp₁, hrest⟩ := List.mem_flatMap.mp hp
    obtain ⟨p₂, hp₂, rfl⟩ := List.mem_map.mp hrest
    obtain ⟨ys, zs, rfl, hys, hstarts₁, hstarts₂⟩ := startsAt_split h
    refine ⟨ys, zs, rfl, ihr hp₁ hstarts₁ hys, ihs hp₂ hstarts₂ ?_⟩
    rw [List.length_append, List.length_append, hys] at hlength
    exact Nat.add_left_cancel hlength
  | alt r s ihr ihs =>
    rcases List.mem_append.mp hp with hp | hp
    · exact .inl (ihr hp h hlength)
    · exact .inr (ihs hp h hlength)
  | atLeast n q =>
    obtain rfl := List.mem_singleton.mp hp
    rw [List.length_replicate] at hlength
    exact ⟨Nat.le_of_eq hlength.symm, startsAt_replicate_inv hlength h⟩

/-- **A search finds a match exactly where one of the shortest patterns occurs.** -/
theorem searches_iff (hr : r.trailing = true) (xs : List α) : r.Searches xs ↔ ∃ p ∈ r.shortest, p.occursIn xs = true := by
  constructor
  · rintro ⟨before, found, after, rfl, h⟩
    obtain ⟨p, hp, hstarts, -⟩ := startsAt_of_matches hr h
    exact ⟨p, hp, Pattern.occursIn_iff.mpr ⟨before, found ++ after, rfl, Pattern.startsAt_append hstarts after⟩⟩
  · rintro ⟨p, hp, hoccurs⟩
    obtain ⟨before, rest, rfl, hstarts⟩ := Pattern.occursIn_iff.mp hoccurs
    obtain ⟨found, after, rfl, hlength, hfound, -⟩ := startsAt_split (show Pattern.startsAt (p ++ []) rest = true by rwa [List.append_nil])
    exact ⟨before, found, after, rfl, matches_of_startsAt hp hfound hlength⟩

end Regex

end Lib

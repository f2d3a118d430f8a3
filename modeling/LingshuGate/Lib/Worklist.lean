import Mathlib.Logic.Relation

/-!
# A worklist

`closure` is the loop that pops a key, adds it to the keys that were reached, and pushes what it leads to. Its keys may form cycles.
The stack is a list with its top first; a key that no record has raises, which is `none`.
-/

namespace Lib.Worklist

variable {α : Type} [DecidableEq α] {keys : List α} {next : α → List α} {reached pending result : List α} {key x : α}

/-- The keys that are still to be reached. -/
def missing (keys reached : List α) : Nat := keys.countP (· ∉ reached)

theorem missing_le (keys reached : List α) (key : α) : missing keys (key :: reached) ≤ missing keys reached := by
  refine List.countP_mono_left fun k _ hk => ?_
  simp only [decide_eq_true_eq, List.mem_cons, not_or] at hk ⊢
  exact hk.2

theorem missing_lt (hkey : key ∈ keys) (hnew : key ∉ reached) : missing keys (key :: reached) < missing keys reached := by
  induction keys with
  | nil => cases hkey
  | cons k keys ih =>
    simp only [missing, List.countP_cons] at ih ⊢
    have hle := missing_le keys reached key
    simp only [missing] at hle
    by_cases hk : key = k
    · subst hk
      rw [if_neg (by simp), if_pos (by simpa using hnew)]
      omega
    · have hlt := ih ((List.mem_cons.mp hkey).resolve_left hk)
      have hsame : (k ∉ key :: reached) ↔ k ∉ reached := by simp [List.mem_cons, Ne.symm hk]
      simp only [hsame]
      omega

def closure (keys : List α) (next : α → List α) : List α → List α → Option (List α)
  | reached, [] => some reached
  | reached, key :: pending =>
    if key ∈ reached then closure keys next reached pending
    else if key ∈ keys then closure keys next (key :: reached) ((next key).reverse ++ pending)
    else none
termination_by reached pending => (missing keys reached, pending.length)
decreasing_by
  · exact Prod.Lex.right _ (Nat.lt_succ_self _)
  · rename_i hnew hkey
    exact Prod.Lex.left _ _ (missing_lt hkey hnew)

/-- The loop raises on no key when every key leads to keys. -/
theorem closure_isSome (hnext : ∀ k ∈ keys, ∀ d ∈ next k, d ∈ keys) (hpending : ∀ p ∈ pending, p ∈ keys) :
    (closure keys next reached pending).isSome = true := by
  fun_induction closure keys next reached pending with
  | case1 => rfl
  | case2 reached key pending hold ih => exact ih fun p hp => hpending p (List.mem_cons_of_mem _ hp)
  | case3 reached key pending hnew hkey ih =>
    refine ih fun p hp => ?_
    rcases List.mem_append.mp hp with hp | hp
    · exact hnext key hkey p (List.mem_reverse.mp hp)
    · exact hpending p (List.mem_cons_of_mem _ hp)
  | case4 reached key pending hnew hkey => exact absurd (hpending key List.mem_cons_self) hkey

/-- What was reached or is pending is in the result, and the result is closed. -/
theorem closure_closed (h : closure keys next reached pending = some result)
    (hfront : ∀ a ∈ reached, ∀ b ∈ next a, b ∈ reached ∨ b ∈ pending) :
    (∀ a ∈ reached, a ∈ result) ∧ (∀ a ∈ pending, a ∈ result) ∧ ∀ a ∈ result, ∀ b ∈ next a, b ∈ result := by
  fun_induction closure keys next reached pending with
  | case1 reached =>
    cases h
    refine ⟨fun _ ha => ha, fun _ ha => absurd ha List.not_mem_nil, fun a ha b hb => ?_⟩
    exact (hfront a ha b hb).resolve_right List.not_mem_nil
  | case2 reached key pending hold ih =>
    obtain ⟨hreached, hpending, hclosed⟩ := ih h fun a ha b hb => by
      rcases hfront a ha b hb with hb | hb
      · exact .inl hb
      · rcases List.mem_cons.mp hb with rfl | hb
        · exact .inl hold
        · exact .inr hb
    refine ⟨hreached, fun a ha => ?_, hclosed⟩
    rcases List.mem_cons.mp ha with rfl | ha
    · exact hreached _ hold
    · exact hpending a ha
  | case3 reached key pending hnew hkey ih =>
    obtain ⟨hreached, hpending, hclosed⟩ := ih h fun a ha b hb => by
      rcases List.mem_cons.mp ha with rfl | ha
      · exact .inr (List.mem_append_left _ (List.mem_reverse.mpr hb))
      rcases hfront a ha b hb with hb | hb
      · exact .inl (List.mem_cons_of_mem _ hb)
      · rcases List.mem_cons.mp hb with rfl | hb
        · exact .inl List.mem_cons_self
        · exact .inr (List.mem_append_right _ hb)
    refine ⟨fun a ha => hreached a (List.mem_cons_of_mem _ ha), fun a ha => ?_, hclosed⟩
    rcases List.mem_cons.mp ha with rfl | ha
    · exact hreached _ List.mem_cons_self
    · exact hpending a (List.mem_append_right _ ha)
  | case4 => cases h

/-- Nothing else is in the result. -/
theorem closure_sound (h : closure keys next reached pending = some result) (hx : x ∈ result) :
    x ∈ reached ∨ ∃ p ∈ pending, Relation.ReflTransGen (fun a b => b ∈ next a) p x := by
  fun_induction closure keys next reached pending with
  | case1 reached =>
    cases h
    exact .inl hx
  | case2 reached key pending hold ih =>
    rcases ih h with hreached | ⟨p, hp, hpath⟩
    · exact .inl hreached
    · exact .inr ⟨p, List.mem_cons_of_mem _ hp, hpath⟩
  | case3 reached key pending hnew hkey ih =>
    rcases ih h with hreached | ⟨p, hp, hpath⟩
    · rcases List.mem_cons.mp hreached with rfl | hreached
      · exact .inr ⟨_, List.mem_cons_self, .refl⟩
      · exact .inl hreached
    · rcases List.mem_append.mp hp with hp | hp
      · exact .inr ⟨key, List.mem_cons_self, .head (List.mem_reverse.mp hp) hpath⟩
      · exact .inr ⟨p, List.mem_cons_of_mem _ hp, hpath⟩
  | case4 => cases h

/-- **The result is what can be reached.** -/
theorem mem_closure (h : closure keys next [] pending = some result) :
    x ∈ result ↔ ∃ p ∈ pending, Relation.ReflTransGen (fun a b => b ∈ next a) p x := by
  constructor
  · intro hx
    exact (closure_sound h hx).resolve_left List.not_mem_nil
  rintro ⟨p, hp, hpath⟩
  obtain ⟨-, hpending, hclosed⟩ := closure_closed h fun a ha => absurd ha List.not_mem_nil
  induction hpath with
  | refl => exact hpending p hp
  | tail _ hstep ih => exact hclosed _ ih _ hstep

end Lib.Worklist

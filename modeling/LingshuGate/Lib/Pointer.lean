import LingshuGate.Lib.Replace
import Mathlib.Data.List.Nodup

/-!
# JSON Pointer (RFC 6901)

A pointer is a list of tokens, each written after a slash, with `~0` for the tilde and `~1` for the slash. `spell` writes the
tokens, `tokens` reads them as a program does: split at the slashes, then two replacements one after the other. The order of
the replacements matters: `tokens_spell` holds because `~1` comes first.
-/

namespace Lib.Pointer

open Text

variable {α : Type} [DecidableEq α]

/-- The four characters with a meaning. -/
structure Marks (α : Type) where
  slash : α
  tilde : α
  zero : α
  one : α
  distinct : [slash, tilde, zero, one].Nodup

variable (m : Marks α)

/-! ## Writing -/

def escapeOne (c : α) : List α :=
  if c = m.tilde then [m.tilde, m.zero] else if c = m.slash then [m.tilde, m.one] else [c]

def escape (token : List α) : List α := token.flatMap (escapeOne m)

def spell (tokens : List (List α)) : List α := tokens.flatMap fun token => m.slash :: escape m token

/-! ## Reading -/

/-- The text between separators. -/
def split (sep : α) : List α → List (List α)
  | [] => [[]]
  | c :: cs =>
    if c = sep then [] :: split sep cs
    else match split sep cs with
      | [] => [[c]]
      | part :: parts => (c :: part) :: parts

def unescape (part : List α) : List α := replace [m.tilde, m.zero] [m.tilde] (replace [m.tilde, m.one] [m.slash] part)

/-- The first part is what stands before the first slash. -/
def tokens (pointer : List α) : List (List α) := (split m.slash pointer).tail.map (unescape m)

/-- Every tilde has a zero or a one after it. -/
def tildesPaired : List α → Bool
  | [] => true
  | c :: cs => (c ≠ m.tilde || cs.head? = some m.zero || cs.head? = some m.one) && tildesPaired cs

/-- What a pointer must look like. -/
def wellFormed (pointer : List α) : Bool := (pointer = [] || pointer.head? = some m.slash) && tildesPaired m pointer

/-! ## Splitting -/

variable {m}

theorem split_part {sep : α} {part : List α} (h : sep ∉ part) : split sep part = [part] := by
  induction part with
  | nil => rfl
  | cons c part ih =>
    have hc : ¬ c = sep := fun heq => h (heq ▸ List.mem_cons_self)
    rw [split, if_neg hc, ih fun hmem => h (List.mem_cons_of_mem _ hmem)]

theorem split_append {sep : α} {part rest : List α} (h : sep ∉ part) : split sep (part ++ sep :: rest) = part :: split sep rest := by
  induction part with
  | nil => rw [List.nil_append, split, if_pos rfl]
  | cons c part ih =>
    have hc : ¬ c = sep := fun heq => h (heq ▸ List.mem_cons_self)
    rw [List.cons_append, split, if_neg hc, ih fun hmem => h (List.mem_cons_of_mem _ hmem)]

theorem split_parts {sep : α} {parts : List (List α)} (h : ∀ part ∈ parts, sep ∉ part) (first : List α) (hfirst : sep ∉ first) :
    split sep (first ++ parts.flatMap fun part => sep :: part) = first :: parts := by
  induction parts generalizing first with
  | nil => rw [List.flatMap_nil, List.append_nil, split_part hfirst]
  | cons part parts ih =>
    rw [List.flatMap_cons, List.cons_append, split_append hfirst, ih (fun p hp => h p (List.mem_cons_of_mem _ hp)) part
      (h part List.mem_cons_self)]

/-- A text is its first part and the parts after the separators. -/
theorem exists_parts (sep : α) (text : List α) : ∃ (first : List α) (parts : List (List α)), sep ∉ first ∧ (∀ part ∈ parts, sep ∉ part) ∧
    text = first ++ parts.flatMap fun part => sep :: part := by
  induction text with
  | nil => exact ⟨[], [], List.not_mem_nil, by simp, rfl⟩
  | cons c text ih =>
    obtain ⟨first, parts, hfirst, hparts, rfl⟩ := ih
    by_cases hc : c = sep
    · refine ⟨[], first :: parts, List.not_mem_nil, ?_, by rw [hc]; rfl⟩
      intro part hpart
      rcases List.mem_cons.mp hpart with rfl | hpart
      · exact hfirst
      · exact hparts part hpart
    refine ⟨c :: first, parts, ?_, hparts, rfl⟩
    intro hmem
    rcases List.mem_cons.mp hmem with heq | hmem
    · exact hc heq.symm
    · exact hfirst hmem

/-! ## Escaping -/

/-- The text between the two replacements. -/
def halfEscaped (m : Marks α) (token : List α) : List α := token.flatMap fun c => if c = m.tilde then [m.tilde, m.zero] else [c]

omit [DecidableEq α] in
theorem Marks.ne (m : Marks α) : m.slash ≠ m.tilde ∧ m.tilde ≠ m.zero ∧ m.tilde ≠ m.one ∧ m.zero ≠ m.one ∧ m.slash ≠ m.zero ∧ m.slash ≠ m.one := by
  have hdistinct := m.distinct
  simp only [List.nodup_cons, List.mem_cons, List.not_mem_nil, or_false, not_or] at hdistinct
  obtain ⟨⟨h₁, h₂, h₃⟩, ⟨h₄, h₅⟩, h₆, -⟩ := hdistinct
  exact ⟨h₁, h₄, h₅, h₆, h₂, h₃⟩

theorem slash_not_mem_escape (token : List α) : m.slash ∉ escape m token := by
  obtain ⟨h₁, -, -, -, h₂, h₃⟩ := m.ne
  intro hmem
  obtain ⟨c, -, hc⟩ := List.mem_flatMap.mp hmem
  unfold escapeOne at hc
  split at hc
  · simp [h₁, h₂] at hc
  · split at hc
    · simp [h₁, h₃] at hc
    · rename_i hslash
      exact hslash (List.mem_singleton.mp hc).symm

theorem replace_slashes (token : List α) : replace [m.tilde, m.one] [m.slash] (escape m token) = halfEscaped m token := by
  obtain ⟨-, h₁, -, h₂, -, -⟩ := m.ne
  have hzero : ∀ text, ¬ [m.tilde, m.one] <+: m.tilde :: m.zero :: text := by
    intro text
    rw [List.cons_prefix_cons, List.cons_prefix_cons]
    exact fun h => h₂ h.2.1.symm
  have hother : ∀ c text, c ≠ m.tilde → ¬ [m.tilde, m.one] <+: c :: text := by
    intro c text hc
    rw [List.cons_prefix_cons]
    exact fun h => hc h.1.symm
  induction token with
  | nil => rfl
  | cons c token ih =>
    rw [escape, halfEscaped, List.flatMap_cons, List.flatMap_cons, ← escape, ← halfEscaped, escapeOne]
    by_cases htilde : c = m.tilde
    · rw [if_pos htilde, if_pos htilde]
      show replace _ _ (m.tilde :: m.zero :: escape m token) = _
      rw [replace_pass _ (hzero _), replace_pass _ (hother _ _ (Ne.symm h₁)), ih]
      rfl
    rw [if_neg htilde, if_neg htilde]
    by_cases hslash : c = m.slash
    · rw [if_pos hslash, replace_here _ _ (List.cons_ne_nil _ _), ih, hslash]
    · rw [if_neg hslash]
      show replace _ _ (c :: escape m token) = _
      rw [replace_pass _ (hother _ _ htilde), ih]
      rfl

theorem replace_tildes (token : List α) : replace [m.tilde, m.zero] [m.tilde] (halfEscaped m token) = token := by
  induction token with
  | nil => rfl
  | cons c token ih =>
    rw [halfEscaped, List.flatMap_cons, ← halfEscaped]
    by_cases htilde : c = m.tilde
    · rw [if_pos htilde, replace_here _ _ (List.cons_ne_nil _ _), ih, htilde]
      rfl
    have hpass : ¬ [m.tilde, m.zero] <+: c :: halfEscaped m token := by
      rw [List.cons_prefix_cons]
      exact fun h => htilde h.1.symm
    rw [if_neg htilde]
    show replace _ _ (c :: halfEscaped m token) = _
    rw [replace_pass _ hpass, ih]

/-- Every token is read as it was written. -/
theorem unescape_escape (token : List α) : unescape m (escape m token) = token := by
  rw [unescape, replace_slashes, replace_tildes]

/-- **A pointer that was written from tokens is read as these tokens.** -/
theorem tokens_spell (tokens' : List (List α)) : tokens m (spell m tokens') = tokens' := by
  have hescaped : spell m tokens' = [] ++ (tokens'.map (escape m)).flatMap fun part => m.slash :: part := by
    rw [List.nil_append, List.flatMap_map]
    rfl
  have hparts : ∀ part ∈ tokens'.map (escape m), m.slash ∉ part := by
    intro part hpart
    obtain ⟨token, -, rfl⟩ := List.mem_map.mp hpart
    exact slash_not_mem_escape token
  rw [tokens, hescaped, split_parts hparts [] List.not_mem_nil, List.tail_cons, List.map_map]
  exact (List.map_congr_left fun token _ => unescape_escape token).trans (List.map_id _)

/-! ## Well-formed pointers -/

theorem tildesPaired_append {part rest : List α} : tildesPaired m (part ++ m.slash :: rest) = true →
    tildesPaired m part = true ∧ tildesPaired m (m.slash :: rest) = true := by
  obtain ⟨-, -, -, -, h₁, h₂⟩ := m.ne
  induction part with
  | nil => exact fun h => ⟨rfl, h⟩
  | cons c part ih =>
    intro h
    rw [List.cons_append, tildesPaired, Bool.and_eq_true] at h
    obtain ⟨hpart, hrest⟩ := ih h.2
    refine ⟨?_, hrest⟩
    rw [tildesPaired, Bool.and_eq_true]
    refine ⟨?_, hpart⟩
    cases part with
    | nil => simpa [h₁, h₂] using h.1
    | cons d part => exact h.1

/-- A part with its tildes paired is an escaped token. -/
theorem exists_token : ∀ (part : List α), tildesPaired m part = true → m.slash ∉ part → ∃ token, part = escape m token
  | [], _, _ => ⟨[], rfl⟩
  | [c], hpaired, hslash => by
    have htilde : c ≠ m.tilde := by simpa [tildesPaired] using hpaired
    have hc : ¬ c = m.slash := fun heq => hslash (heq ▸ List.mem_cons_self)
    exact ⟨[c], by simp [escape, escapeOne, htilde, hc]⟩
  | c :: d :: part, hpaired, hslash => by
    rw [tildesPaired, Bool.and_eq_true] at hpaired
    by_cases htilde : c = m.tilde
    · have hrest := hpaired.2
      rw [tildesPaired, Bool.and_eq_true] at hrest
      obtain ⟨token, rfl⟩ := exists_token part hrest.2 fun h => hslash (List.mem_cons_of_mem _ (List.mem_cons_of_mem _ h))
      have hd : d = m.zero ∨ d = m.one := by simpa [htilde] using hpaired.1
      rcases hd with rfl | rfl
      · exact ⟨m.tilde :: token, by simp [escape, escapeOne, htilde]⟩
      · exact ⟨m.slash :: token, by simp [escape, escapeOne, htilde, m.ne.1]⟩
    obtain ⟨token, htoken⟩ := exists_token (d :: part) hpaired.2 fun h => hslash (List.mem_cons_of_mem _ h)
    have hc : ¬ c = m.slash := fun heq => hslash (heq ▸ List.mem_cons_self)
    refine ⟨c :: token, ?_⟩
    rw [escape, List.flatMap_cons, ← escape, ← htoken, escapeOne, if_neg htilde, if_neg hc]
    rfl

theorem tildesPaired_parts {parts : List (List α)} (h : tildesPaired m (parts.flatMap fun part => m.slash :: part) = true) :
    ∀ part ∈ parts, tildesPaired m part = true := by
  induction parts with
  | nil => simp
  | cons part parts ih =>
    rw [List.flatMap_cons, List.cons_append, tildesPaired, Bool.and_eq_true] at h
    have hboth : tildesPaired m part = true ∧ tildesPaired m (parts.flatMap fun part => m.slash :: part) = true := by
      cases parts with
      | nil => exact ⟨by simpa using h.2, rfl⟩
      | cons next parts => exact tildesPaired_append h.2
    intro p hp
    rcases List.mem_cons.mp hp with rfl | hp
    · exact hboth.1
    · exact ih hboth.2 p hp

/-- **A well-formed pointer is written from tokens.** -/
theorem exists_spell {pointer : List α} (h : wellFormed m pointer = true) : ∃ tokens', pointer = spell m tokens' := by
  obtain ⟨first, parts, hfirst, hparts, rfl⟩ := exists_parts m.slash pointer
  rw [wellFormed, Bool.and_eq_true] at h
  obtain rfl : first = [] := by
    cases first with
    | nil => rfl
    | cons c first =>
      have hc : c = m.slash := by simpa using h.1
      exact absurd (hc ▸ List.mem_cons_self) hfirst
  rw [List.nil_append] at h ⊢
  have htokens : ∀ part ∈ parts, ∃ token, part = escape m token :=
    fun part hpart => exists_token part (tildesPaired_parts h.2 part hpart) (hparts part hpart)
  clear hparts h
  induction parts with
  | nil => exact ⟨[], rfl⟩
  | cons part parts ih =>
    obtain ⟨token, rfl⟩ := htokens part List.mem_cons_self
    obtain ⟨tokens', htokens'⟩ := ih fun p hp => htokens p (List.mem_cons_of_mem _ hp)
    exact ⟨token :: tokens', by rw [List.flatMap_cons, htokens']; rfl⟩

end Lib.Pointer

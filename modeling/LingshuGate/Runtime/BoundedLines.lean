import Mathlib.Algebra.GroupWithZero.Nat
import LingshuGate.Lib.Run

/-!
# Reading lines of a peer (`mcp_stdio_client.py`)

| here | there |
| --- | --- |
| `readline`   | `stream.readline(size)` of a text stream |
| `step`       | `_iter_bounded_text_lines` (mcp_stdio_client.py:641), from one read or `yield` to the next |
| `utf8Length` | `len(text.encode("utf-8"))` |

`chunk` is the one text the generator holds. A stream is what it has still to give; every text stream has `readline`, so the loop over
a plain iterable of lines is left out. Reading counts characters and judging counts bytes, but a character is at least a byte: a chunk
that a line goes on after has `limit + 1` characters and is oversized.
-/

namespace LingshuGate.BoundedLines

/-- `stream.readline(size)`, and the stream after it. -/
def readline : ℕ → List Char → List Char × List Char
  | 0, stream => ([], stream)
  | _ + 1, [] => ([], [])
  | size + 1, c :: stream =>
    if c = '\n' then (['\n'], stream) else (c :: (readline size stream).1, (readline size stream).2)

def utf8Length (text : List Char) : ℕ := (text.map Char.utf8Size).sum

def endsLine (chunk : List Char) : Bool := chunk.getLast? = some '\n'

/-! ## The generator -/

/-- Where the generator is: before the outer read, in the loop that drains an oversized line, at the `yield`, or done. -/
inductive Point where
  | reading
  | draining
  | yielding
  | returned
  deriving DecidableEq

structure Reader where
  stream : List Char
  point : Point := .reading
  chunk : List Char := []
  oversized : Bool := false
  yielded : List (List Char × Bool) := []

def step (limit : ℕ) (r : Reader) : Option Reader :=
  match r.point with
  | .reading =>
    let (chunk, stream) := readline (limit + 1) r.stream
    if chunk = [] then some { r with point := .returned, chunk, stream }
    else
      let oversized := limit < utf8Length chunk
      some { r with point := if oversized && !endsLine chunk then .draining else .yielding, chunk, stream, oversized }
  | .draining =>
    if r.chunk ≠ [] && !endsLine r.chunk then
      let (chunk, stream) := readline (limit + 1) r.stream
      some { r with chunk, stream }
    else some { r with point := .yielding }
  | .yielding => some { r with point := .reading, yielded := r.yielded ++ [(if r.oversized then [] else r.chunk, r.oversized)] }
  | .returned => none

/-- Reached from the start of a stream. -/
def Reached (limit : ℕ) (stream : List Char) (r : Reader) : Prop :=
  Lib.Reachable (fun s (_ : Unit) t => step limit s = some t) { stream } r

/-! ## The lines of a text -/

/-- The lines, each with its newline; the last one may have none. -/
def lines : List Char → List (List Char)
  | [] => []
  | c :: text =>
    if c = '\n' then ['\n'] :: lines text
    else match lines text with
      | [] => [[c]]
      | line :: rest => (c :: line) :: rest

/-- A line that is too long is not shown. -/
def entry (limit : ℕ) (line : List Char) : List Char × Bool :=
  if limit < utf8Length line then ([], true) else (line, false)

theorem flatten_lines (text : List Char) : (lines text).flatten = text := by
  induction text with
  | nil => rfl
  | cons c text ih =>
    rw [lines]
    by_cases hc : c = '\n'
    · rw [if_pos hc, List.flatten_cons, ih, hc]
      rfl
    rw [if_neg hc]
    cases hlines : lines text with
    | nil | cons line rest =>
      rw [hlines] at ih
      rw [← ih]
      rfl

/-- A text without a newline is the start of the first line of what follows. -/
theorem lines_append {text : List Char} (h : '\n' ∉ text) (rest : List Char) (hne : text ≠ []) :
    lines (text ++ rest) = (text ++ ((lines rest).head?.getD [])) :: (lines rest).tail := by
  induction text with
  | nil => exact absurd rfl hne
  | cons c text ih =>
    rw [List.mem_cons, not_or] at h
    rw [List.cons_append, lines, if_neg (Ne.symm h.1)]
    by_cases htext : text = []
    · subst htext
      rw [List.nil_append]
      cases lines rest <;> rfl
    · rw [ih h.2 htext]
      rfl

theorem lines_append_newline {text : List Char} (h : '\n' ∉ text) (rest : List Char) :
    lines (text ++ '\n' :: rest) = (text ++ ['\n']) :: lines rest := by
  have hnewline : lines ('\n' :: rest) = ['\n'] :: lines rest := by rw [lines, if_pos rfl]
  by_cases htext : text = []
  · subst htext
    exact hnewline
  · rw [lines_append h _ htext, hnewline]
    rfl

theorem length_le_utf8Length (text : List Char) : text.length ≤ utf8Length text := by
  induction text with
  | nil => exact Nat.le_refl 0
  | cons c text ih =>
    have := c.utf8Size_pos
    simp only [utf8Length, List.map_cons, List.sum_cons, List.length_cons] at ih ⊢
    omega

theorem utf8Length_append (text rest : List Char) : utf8Length (text ++ rest) = utf8Length text + utf8Length rest := by
  simp [utf8Length]

/-! ## What `readline` gives -/

/-- What one `readline` takes from a stream: the whole of its first line, the whole of what is left, or `size` characters of a line. -/
inductive Takes (size : ℕ) (stream : List Char) : List Char → List Char → Prop
  | line {front rest : List Char} (hstream : stream = front ++ '\n' :: rest) (h : '\n' ∉ front) (hlength : front.length < size) :
    Takes size stream (front ++ ['\n']) rest
  | last (h : '\n' ∉ stream) (hlength : stream.length < size) : Takes size stream stream []
  | part {front rest : List Char} (hstream : stream = front ++ rest) (h : '\n' ∉ front) (hlength : front.length = size) :
    Takes size stream front rest

theorem readline_takes (size : ℕ) (stream : List Char) : Takes size stream (readline size stream).1 (readline size stream).2 := by
  induction size generalizing stream with
  | zero => exact .part rfl List.not_mem_nil rfl
  | succ size ih =>
    cases stream with
    | nil => exact .last List.not_mem_nil (Nat.succ_pos size)
    | cons c stream =>
      rw [readline]
      by_cases hc : c = '\n'
      · subst hc
        rw [if_pos rfl]
        exact @Takes.line (size + 1) ('\n' :: stream) [] stream rfl List.not_mem_nil (Nat.succ_pos size)
      rw [if_neg hc]
      show Takes (size + 1) (c :: stream) (c :: (readline size stream).1) (readline size stream).2
      have hnot : ∀ {front : List Char}, '\n' ∉ front → '\n' ∉ c :: front := by
        intro front h hmem
        rcases List.mem_cons.mp hmem with heq | hmem
        · exact hc heq.symm
        · exact h hmem
      have hread := ih stream
      generalize (readline size stream).1 = chunk, (readline size stream).2 = rest at hread
      cases hread with
      | line hstream h hlength =>
        exact @Takes.line (size + 1) (c :: stream) (c :: _) _ (congrArg (c :: ·) hstream) (hnot h) (Nat.succ_lt_succ hlength)
      | last h hlength => exact .last (hnot h) (Nat.succ_lt_succ hlength)
      | part hstream h hlength => exact .part (congrArg (c :: ·) hstream) (hnot h) (congrArg Nat.succ hlength)

section Generator

variable {limit : ℕ} {r t : Reader}

/-- The entries of what the generator has not yielded. -/
def toCome (limit : ℕ) (r : Reader) : List (List Char × Bool) :=
  match r.point with
  | .reading => (lines r.stream).map (entry limit)
  | .draining =>
    ([], true) :: (if r.chunk ≠ [] && !endsLine r.chunk then (lines r.stream).tail else lines r.stream).map (entry limit)
  | .yielding => (if r.oversized then [] else r.chunk, r.oversized) :: (lines r.stream).map (entry limit)
  | .returned => []

theorem endsLine_concat (front : List Char) : endsLine (front ++ ['\n']) = true := by simp [endsLine]

theorem endsLine_of_not_mem {chunk : List Char} (h : '\n' ∉ chunk) : endsLine chunk = false := by
  refine decide_eq_false fun hlast => h ?_
  exact List.mem_of_getLast? hlast

theorem entry_eq (limit : ℕ) (line : List Char) :
    entry limit line = (if decide (limit < utf8Length line) then [] else line, decide (limit < utf8Length line)) := by
  by_cases h : limit < utf8Length line <;> simp [entry, h]

theorem entry_oversized {line : List Char} (h : limit < utf8Length line) : entry limit line = ([], true) := if_pos h

variable {stream chunk rest : List Char}

/-- One read at the start of a line. -/
theorem reading_toCome (h : Takes (limit + 1) stream chunk rest) (hne : chunk ≠ []) :
    (lines stream).map (entry limit) = toCome limit { r with
      point := if limit < utf8Length chunk && !endsLine chunk then .draining else .yielding, chunk, stream := rest,
      oversized := limit < utf8Length chunk } := by
  cases h with
  | @line front rest hstream hfront hlength =>
    rw [hstream, lines_append_newline hfront, List.map_cons, endsLine_concat, entry_eq]
    simp [toCome]
  | last hstream hlength =>
    have hlines : lines stream = [stream] := by simpa [lines] using lines_append hstream [] hne
    rw [hlines, endsLine_of_not_mem hstream, List.map_singleton, entry_eq]
    by_cases hlong : limit < utf8Length stream <;> simp [toCome, hlong, lines]
  | part hstream hfront hlength =>
    have hlong : limit < utf8Length chunk := by
      have := length_le_utf8Length chunk
      omega
    have hline : limit < utf8Length (chunk ++ (lines rest).head?.getD []) := by
      rw [utf8Length_append]
      omega
    rw [hstream, lines_append hfront rest hne, List.map_cons, entry_oversized hline, endsLine_of_not_mem hfront]
    simp [toCome, hlong, hne, endsLine_of_not_mem hfront]

variable {size : ℕ}

/-- One read in the middle of a line that is being drained. -/
theorem draining_tail (h : Takes (size + 1) stream chunk rest) :
    (lines stream).tail = if chunk ≠ [] && !endsLine chunk then (lines rest).tail else lines rest := by
  cases h with
  | @line front rest hstream hfront hlength =>
    rw [hstream, lines_append_newline hfront, endsLine_concat]
    simp
  | last hstream hlength =>
    by_cases hne : stream = []
    · subst hne
      rfl
    · have hlines : lines stream = [stream] := by simpa [lines] using lines_append hstream [] hne
      rw [hlines, endsLine_of_not_mem hstream]
      simp [hne, lines]
  | part hstream hfront hlength =>
    have hne : chunk ≠ [] := by
      rintro rfl
      cases hlength
    rw [hstream, lines_append hfront rest hne, endsLine_of_not_mem hfront]
    simp [hne]

theorem Takes.length_le (h : Takes size stream chunk rest) : chunk.length ≤ size := by
  cases h with
  | line _ _ hlength =>
    rw [List.length_append, List.length_singleton]
    omega
  | last _ hlength | part _ _ hlength => omega

theorem Takes.length_add (h : Takes size stream chunk rest) : chunk.length + rest.length = stream.length := by
  cases h with
  | line hstream =>
    rw [hstream]
    simp only [List.length_append, List.length_cons, List.length_nil]
    omega
  | last => rfl
  | part hstream => rw [hstream, List.length_append]

theorem Takes.eq_nil (h : Takes (size + 1) stream chunk rest) (hnil : chunk = []) : stream = [] := by
  cases h with
  | line => simp at hnil
  | last => exact hnil
  | part _ _ hlength =>
    rw [hnil] at hlength
    cases hlength

/-- What holds between two moves of the generator. -/
structure Kept (limit : ℕ) (stream : List Char) (r : Reader) : Prop where
  bounded : r.chunk.length ≤ limit + 1
  draining : r.point = .draining → r.oversized = true
  entries : r.yielded ++ toCome limit r = (lines stream).map (entry limit)

theorem Kept.step {stream : List Char} (h : Kept limit stream r) (hstep : step limit r = some t) : Kept limit stream t := by
  obtain ⟨rest, point, chunk, oversized, yielded⟩ := r
  have htakes := readline_takes (limit + 1) rest
  have hentries := h.entries
  cases point with
  | reading =>
    simp only [BoundedLines.step] at hstep
    by_cases hchunk : (readline (limit + 1) rest).1 = []
    · have hrest := htakes.eq_nil hchunk
      rw [if_pos hchunk] at hstep
      obtain rfl := Option.some.inj hstep
      refine ⟨htakes.length_le, nofun, ?_⟩
      rw [← hentries, hrest]
      rfl
    rw [if_neg hchunk] at hstep
    obtain rfl := Option.some.inj hstep
    refine ⟨htakes.length_le, ?_, ?_⟩
    · intro hdraining
      simp only [ite_eq_left_iff, reduceCtorEq, imp_false, not_not, Bool.and_eq_true] at hdraining
      exact hdraining.1
    · rw [← hentries]
      exact congrArg _ (reading_toCome (r := ⟨rest, .reading, chunk, oversized, yielded⟩) htakes hchunk).symm
  | draining =>
    have hlong : oversized = true := h.draining rfl
    simp only [BoundedLines.step] at hstep
    split at hstep
    · rename_i hmore
      obtain rfl := Option.some.inj hstep
      refine ⟨htakes.length_le, fun _ => hlong, ?_⟩
      rw [← hentries]
      simp only [toCome, hmore, if_true, draining_tail htakes]
    rename_i hdone
    obtain rfl := Option.some.inj hstep
    refine ⟨h.bounded, nofun, ?_⟩
    rw [← hentries]
    simp only [toCome, hdone, hlong, if_true]
    rfl
  | yielding =>
    obtain rfl := Option.some.inj hstep
    refine ⟨h.bounded, nofun, ?_⟩
    rw [← hentries]
    exact List.append_assoc _ _ _
  | returned => cases hstep

theorem kept_reached {stream : List Char} (h : Reached limit stream r) : Kept limit stream r := by
  obtain ⟨tr, hrun⟩ := h
  exact hrun.invariant ⟨Nat.zero_le _, nofun, rfl⟩ fun _ _ _ hkept hstep => hkept.step hstep

/-! ## The generator returns -/

/-- How far the generator is from the next read, or from its end. -/
def rank (r : Reader) : ℕ :=
  match r.point with
  | .reading => 1
  | .draining => if r.chunk ≠ [] && !endsLine r.chunk then 4 else 3
  | .yielding => 2
  | .returned => 0

def measure (r : Reader) : ℕ := 8 * r.stream.length + rank r

theorem rank_le (r : Reader) : rank r ≤ 4 := by
  unfold rank
  split
  · omega
  · split <;> omega
  · omega
  · omega

theorem step_decreases (hstep : step limit r = some t) : measure t < measure r := by
  obtain ⟨rest, point, chunk, oversized, yielded⟩ := r
  have hlength := (readline_takes (limit + 1) rest).length_add
  cases point with
  | reading =>
    simp only [step] at hstep
    by_cases hchunk : (readline (limit + 1) rest).1 = []
    · rw [if_pos hchunk] at hstep
      obtain rfl := Option.some.inj hstep
      simp only [measure, rank]
      omega
    have hpos := List.length_pos_iff.mpr hchunk
    rw [if_neg hchunk] at hstep
    obtain rfl := Option.some.inj hstep
    show 8 * (readline (limit + 1) rest).2.length + rank _ < 8 * rest.length + _
    refine Nat.lt_of_le_of_lt (Nat.add_le_add_left (rank_le _) _) ?_
    have hread : rank { stream := rest, chunk, yielded, oversized } = 1 := rfl
    omega
  | draining =>
    simp only [step] at hstep
    split at hstep
    · rename_i hmore
      obtain rfl := Option.some.inj hstep
      simp only [measure, rank, hmore, if_true]
      by_cases hchunk : (readline (limit + 1) rest).1 = []
      · rw [if_neg (by simp [hchunk])]
        omega
      · have hpos := List.length_pos_iff.mpr hchunk
        split <;> omega
    · rename_i hdone
      obtain rfl := Option.some.inj hstep
      simp only [measure, rank, hdone]
      exact Nat.lt_succ_self _
  | yielding =>
    obtain rfl := Option.some.inj hstep
    exact Nat.lt_succ_self _
  | returned => cases hstep

theorem reaches_end {stream : List Char} (h : Reached limit stream r) : ∃ t, Reached limit stream t ∧ t.point = .returned := by
  induction hsize : measure r using Nat.strongRecOn generalizing r with
  | _ n ih =>
    cases hstep : step limit r with
    | none =>
      refine ⟨r, h, ?_⟩
      obtain ⟨rest, point, chunk, oversized, yielded⟩ := r
      cases point with
      | reading | draining =>
        simp only [step] at hstep
        split at hstep <;> cases hstep
      | yielding => cases hstep
      | returned => rfl
    | some t =>
      obtain ⟨tr, hrun⟩ := h
      exact ih _ (hsize ▸ step_decreases hstep) ⟨tr ++ [()], hrun.snoc hstep⟩ rfl

end Generator

/-- **The reader is faithful and bounded.** At every moment it holds no more than `limit + 1` characters and has yielded a first part of
the entries of the lines of the stream, in order; and it comes to its end with all of them. -/
theorem bounded_lines (limit : ℕ) (stream : List Char) : (lines stream).flatten = stream ∧
    (∀ r, Reached limit stream r → r.chunk.length ≤ limit + 1 ∧ r.yielded <+: (lines stream).map (entry limit)) ∧
    ∃ r, Reached limit stream r ∧ r.point = .returned ∧ r.yielded = (lines stream).map (entry limit) := by
  refine ⟨flatten_lines stream, ?_, ?_⟩
  · intro r hr
    have hkept := kept_reached hr
    exact ⟨hkept.bounded, ⟨_, hkept.entries⟩⟩
  · have hstart : Reached limit stream { stream } := ⟨[], .nil _⟩
    obtain ⟨r, hr, hend⟩ := reaches_end hstart
    refine ⟨r, hr, hend, ?_⟩
    rw [← (kept_reached hr).entries, toCome, hend, List.append_nil]

end LingshuGate.BoundedLines

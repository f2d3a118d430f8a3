import Mathlib.Algebra.GroupWithZero.Nat
import LingshuGate.Lib.Check
import LingshuGate.Lib.PyText
import LingshuGate.Lib.Replace
import Mathlib.Data.List.Sort
import Mathlib.Data.String.Basic

/-!
# Credential references (`credential_refs.py`)

| here | there |
| --- | --- |
| `reference`, `refHere`, `extract` | `CREDENTIAL_REF_RE`, `extract_credential_refs` (19, 51) |
| `resolveRef`, `resolveEntry`      | the loop over `refs` (75) |
| `resolveEnv`                      | `resolve_env_credential_refs` (55) |

The loop replaces one reference after another in the text it has so far, so a secret that was put in may be read as a
reference by a later turn. The text is followed with marks: the head of a reference of the original text is marked, what a
secret brings is not. `Separate` is the condition on the text and the secrets; `one_pass_iff` says that it is exact.
-/

namespace LingshuGate.CredentialRefs

open Lib Py Text

/-! ## References in a text -/

/-- What a reference has between its dollar sign and its id. -/
def opening : List Char := '\x7b' :: "credential:".toList

/-- `$\x7bcredential:id\x7d` -/
def reference (id : List Char) : List Char := '$' :: (opening ++ id ++ ['\x7d'])

/-- The id of the reference that the text begins with. -/
def refHere (text : List Char) : Option (List Char) :=
  if ('$' :: opening).isPrefixOf text then
    let rest := text.drop (opening.length + 1)
    if rest.takeWhile idChar ≠ [] && (rest.dropWhile idChar).head? = some '\x7d' then some (rest.takeWhile idChar) else none
  else none

/-- A text as its references and the characters between them. -/
inductive Piece where
  | char (c : Char)
  | ref (id : List Char)
  deriving DecidableEq

/-- The search of `findall`, from left to right; the counter is what is left of the last match. -/
def pieces : Nat → List Char → List Piece
  | _, [] => []
  | skip + 1, _ :: text => pieces skip text
  | 0, c :: text =>
    match refHere (c :: text) with
    | some id => .ref id :: pieces ((reference id).length - 1) text
    | none => .char c :: pieces 0 text

def Piece.id? : Piece → Option (List Char)
  | .char _ => none
  | .ref id => some id

/-- `extract_credential_refs(text)`, over characters. -/
def extract (text : List Char) : List (List Char) := (pieces 0 text).filterMap Piece.id?

def extractCredentialRefs (value : String) : List String := (extract value.toList).map String.ofList

/-! ## Resolving -/

/-- What `store.resolve_value(ref)` raises: `KeyError`, or anything else. -/
inductive ReadError where
  | missing
  | refused
  deriving DecidableEq

inductive ResolveError where
  /-- `KeyError(text)` -/
  | missing (text : String)
  | refused
  deriving DecidableEq

/-- A dictionary of lists. -/
abbrev KeysByRef := List (String × List String)

/-- `d.setdefault(ref, []).append(key)`. -/
def append (d : KeysByRef) (ref key : String) : KeysByRef :=
  if d.any (·.1 = ref) then d.map fun entry => if entry.1 = ref then (ref, entry.2 ++ [key]) else entry else d ++ [(ref, [key])]

structure Progress where
  resolved : List (String × String) := []
  used : KeysByRef := []
  missing : KeysByRef := []
  deriving DecidableEq

variable (read : String → Except ReadError (Option String))

/-- One turn of the inner loop. -/
def resolveRef (key : String) : Progress × List Char → String → Except ResolveError (Progress × List Char)
  | (p, next), ref =>
    match read ref with
    | .ok secret => .ok ({ p with used := append p.used ref key }, replace (reference ref.toList) (secret.getD "").toList next)
    | .error .missing => .ok ({ p with used := append p.used ref key, missing := append p.missing ref key }, next)
    | .error .refused => .error .refused

/-- One turn of the outer loop. -/
def resolveEntry (p : Progress) (entry : String × String) : Except ResolveError Progress := do
  let (p, next) ← (extractCredentialRefs entry.2).foldlM (resolveRef read entry.1) (p, entry.2.toList)
  return { p with resolved := p.resolved ++ [(entry.1, String.ofList next)] }

/-- The text of the `KeyError`. -/
def missingText (missing : KeysByRef) : String :=
  "Missing credential reference(s): " ++
    ", ".intercalate ((missing.insertionSort (·.1 ≤ ·.1)).map fun (ref, keys) => ref ++ " -> " ++ ", ".intercalate keys)

/-- The `safe_metadata`. -/
structure Metadata where
  usedCredentials : KeysByRef
  credentialRefCount : Nat
  deriving DecidableEq

/-- `resolve_env_credential_refs`. -/
def resolveEnv (env : List (String × String)) : Except ResolveError (List (String × String) × Metadata) := do
  let p ← env.foldlM (resolveEntry read) {}
  require (p.missing = []) (.missing (missingText p.missing))
  return (p.resolved, ⟨p.used, (p.used.map fun entry => entry.2.length).sum⟩)

/-! ## One pass -/

variable (secret : List Char → List Char)

/-- The text with every reference replaced at once. -/
def substituted (text : List Char) : List Char :=
  (pieces 0 text).flatMap fun
    | .char c => [c]
    | .ref id => secret id

/-- A text whose first character is marked. -/
def headed : List Char → List (Char × Bool)
  | [] => []
  | c :: text => (c, true) :: text.map (·, false)

/-- The text with the references to `done` replaced at once; the heads of the others are marked. -/
def rendered (done : List (List Char)) (ps : List Piece) : List (Char × Bool) :=
  ps.flatMap fun
    | .char c => [(c, false)]
    | .ref id => if id ∈ done then (secret id).map (·, false) else headed (reference id)

/-- The text of the loop after the references `refs`, a mark on the heads of references of the original text. -/
def tracked (text : List Char) (refs : List (List Char)) : List (Char × Bool) :=
  refs.foldl (fun next ref => rewrite (wordHere (reference ref)) (reference ref).length ((secret ref).map (·, false)) 0 next)
    (rendered secret [] (pieces 0 text))

/-- No turn of the loop takes for a reference what is not one of the original text. -/
def Literal (text : List Char) : Prop :=
  ∀ before ref after, extract text = before ++ ref :: after →
    onlyMarked (wordHere (reference ref)) (reference ref).length 0 (tracked secret text before) = true

/-- Once the references before it are replaced at once, each reference is found only where the original text has it. -/
def Separate (text : List Char) : Prop :=
  ∀ before ref after, extract text = before ++ ref :: after → Marked (reference ref) (rendered secret before (pieces 0 text))

/-! ## What the search finds -/

/-- An id that the pattern can find. -/
structure ValidId (id : List Char) : Prop where
  chars : ∀ c ∈ id, idChar c = true
  nonempty : id ≠ []

theorem takeWhile_id {id rest : List Char} (h : ∀ c ∈ id, idChar c = true) :
    (id ++ '\x7d' :: rest).takeWhile idChar = id ∧ (id ++ '\x7d' :: rest).dropWhile idChar = '\x7d' :: rest := by
  have hclose : idChar '\x7d' = false := by decide
  constructor
  · rw [List.takeWhile_append_of_pos h]
    simp [hclose]
  · rw [List.dropWhile_append_of_pos h]
    simp [hclose]

theorem refHere_eq_some {text id : List Char} (h : refHere text = some id) : ValidId id ∧ ∃ rest, text = reference id ++ rest := by
  unfold refHere at h
  split at h
  · rename_i hopening
    obtain ⟨tail, rfl⟩ := List.isPrefixOf_iff_prefix.mp hopening
    have hdrop : ('$' :: opening ++ tail).drop ('$' :: opening).length = tail := List.drop_left
    rw [List.length_cons] at hdrop
    simp only [hdrop, Bool.and_eq_true, decide_eq_true_eq, ne_eq] at h
    split at h
    · rename_i hclosed
      obtain rfl := Option.some.inj h
      refine ⟨⟨fun c hc => List.all_eq_true.mp List.all_takeWhile c hc, hclosed.1⟩, (tail.dropWhile idChar).tail, ?_⟩
      obtain ⟨rest, hrest⟩ := List.head?_eq_some_iff.mp hclosed.2
      have hsplit := List.takeWhile_append_dropWhile (p := idChar) (l := tail)
      rw [hrest] at hsplit
      have hwhole : reference (tail.takeWhile idChar) ++ rest = '$' :: (opening ++ (tail.takeWhile idChar ++ '\x7d' :: rest)) := by
        simp [reference]
      rw [hrest, List.tail_cons, hwhole, hsplit]
      rfl
    · cases h
  · cases h

/-- Two references that one text begins with are the same. -/
theorem reference_unique {a b rest : List Char} (ha : ValidId a) (hb : ValidId b) (h : reference a <+: reference b ++ rest) :
    a = b := by
  obtain ⟨tail, htail⟩ := h
  simp only [reference, List.cons_append, List.append_assoc, List.nil_append, List.cons.injEq, true_and,
    List.append_cancel_left_eq] at htail
  have htake := congrArg (List.takeWhile idChar) htail
  rwa [(takeWhile_id ha.chars).1, (takeWhile_id hb.chars).1] at htake

variable {id : List Char}

theorem dollar_not_mem (h : ValidId id) : '$' ∉ opening ++ id ++ ['\x7d'] := by
  intro hmem
  rcases List.mem_append.mp hmem with hmem | hmem
  · rcases List.mem_append.mp hmem with hmem | hmem
    · exact absurd hmem (by decide)
    · exact absurd (h.chars _ hmem) (by decide)
  · exact absurd hmem (by decide)

/-- The text of a piece. -/
def Piece.text : Piece → List Char
  | .char c => [c]
  | .ref id => reference id

theorem pieces_text (skip : Nat) (text : List Char) : (pieces skip text).flatMap Piece.text = text.drop skip := by
  induction text generalizing skip with
  | nil => simp [pieces]
  | cons c text ih =>
    cases skip with
    | succ skip => exact ih skip
    | zero =>
      rw [pieces]
      split
      · rename_i id hid
        obtain ⟨-, rest, hrest⟩ := refHere_eq_some hid
        rw [List.flatMap_cons, ih, List.drop_zero, hrest]
        have hlength : text = (opening ++ id ++ ['\x7d']) ++ rest := (List.cons.inj hrest).2
        rw [hlength]
        show reference id ++ ((opening ++ id ++ ['\x7d']) ++ rest).drop (opening ++ id ++ ['\x7d']).length = _
        rw [List.drop_left]
      · rw [List.flatMap_cons, ih]
        rfl

theorem pieces_valid {skip : Nat} {text id : List Char} (h : .ref id ∈ pieces skip text) : ValidId id := by
  induction text generalizing skip with
  | nil => simp [pieces] at h
  | cons c text ih =>
    cases skip with
    | succ skip => exact ih h
    | zero =>
      rw [pieces] at h
      split at h
      · rename_i id' hid
        rcases List.mem_cons.mp h with heq | h
        · cases heq
          exact (refHere_eq_some hid).1
        · exact ih h
      · rcases List.mem_cons.mp h with heq | h
        · cases heq
        · exact ih h

theorem mem_extract {text id : List Char} : id ∈ extract text ↔ .ref id ∈ pieces 0 text := by
  unfold extract
  rw [List.mem_filterMap]
  constructor
  · rintro ⟨piece, hmem, hid⟩
    cases piece with
    | char c => cases hid
    | ref id' =>
      obtain rfl := Option.some.inj hid
      exact hmem
  · exact fun h => ⟨_, h, rfl⟩

/-! ## What one turn of the loop does -/

variable {secret}

theorem fst_headed (text : List Char) : (headed text).map Prod.fst = text := by
  cases text with
  | nil => rfl
  | cons c text => simp [headed, Function.comp_def]

variable {text : List Char}

theorem unmarked : ∀ c ∈ text.map (·, false), c.2 = false := by
  intro c hc
  obtain ⟨d, -, rfl⟩ := List.mem_map.mp hc
  rfl

theorem unmarkedChar (c : Char) : ∀ d ∈ [(c, false)], d.2 = false := by
  intro d hd
  rw [List.mem_singleton.mp hd]

/-- **One turn.** Where the reference is found at marks only, the turn replaces the references of the original text to it
and nothing else. -/
theorem rewrite_rendered {done : List (List Char)} (hid : ValidId id) {ps : List Piece} (hps : ∀ s, .ref s ∈ ps → ValidId s)
    (h : onlyMarked (wordHere (reference id)) (reference id).length 0 (rendered secret done ps) = true) :
    rewrite (wordHere (reference id)) (reference id).length ((secret id).map (·, false)) 0 (rendered secret done ps) =
      rendered secret (done ++ [id]) ps := by
  induction ps with
  | nil => rfl
  | cons piece ps ih =>
    have hrest := fun s hs => hps s (List.mem_cons_of_mem _ hs)
    rw [rendered, List.flatMap_cons] at h ⊢
    rw [rendered, List.flatMap_cons]
    change onlyMarked _ _ 0 (_ ++ rendered secret done ps) = true at h
    change rewrite _ _ _ 0 (_ ++ rendered secret done ps) = _ ++ rendered secret (done ++ [id]) ps
    cases piece with
    | char c =>
      obtain ⟨heq, hmarked⟩ := rewrite_unmarked (unmarkedChar c) h
      simp only at h ⊢
      rw [heq, ih hrest hmarked]
    | ref s =>
      by_cases hdone : s ∈ done
      · have hdone' : s ∈ done ++ [id] := List.mem_append_left _ hdone
        simp only [if_pos hdone, if_pos hdone'] at h ⊢
        obtain ⟨heq, hmarked⟩ := rewrite_unmarked unmarked h
        rw [heq, ih hrest hmarked]
      by_cases hs : s = id
      · subst hs
        have hhere : wordHere (reference s) (headed (reference s) ++ rendered secret done ps) = true := by
          rw [wordHere, List.map_append, fst_headed]
          exact List.isPrefixOf_iff_prefix.mpr (List.prefix_append _ _)
        simp only [if_neg hdone, List.mem_append, List.mem_singleton, or_true, if_true] at h ⊢
        have hlength : (reference s).length - 1 = ((opening ++ s ++ ['\x7d']).map fun c => (c, false)).length := by
          simp [reference]
        change onlyMarked _ _ 0 (('$', true) :: ((opening ++ s ++ ['\x7d']).map (·, false) ++ rendered secret done ps)) = true at h
        change wordHere _ (('$', true) :: ((opening ++ s ++ ['\x7d']).map (·, false) ++ rendered secret done ps)) = true at hhere
        change rewrite _ _ _ 0 (('$', true) :: ((opening ++ s ++ ['\x7d']).map (·, false) ++ rendered secret done ps)) = _
        rw [onlyMarked, if_pos hhere, Bool.and_eq_true, hlength, onlyMarked_skip] at h
        rw [rewrite, if_pos hhere, hlength, rewrite_skip, ih hrest h.2]
      have hnot : ¬ wordHere (reference id) (headed (reference s) ++ rendered secret done ps) = true := by
        rw [wordHere, List.map_append, fst_headed, List.isPrefixOf_iff_prefix]
        exact fun hp => hs (reference_unique hid (hps s List.mem_cons_self) hp).symm
      have hdone' : s ∉ done ++ [id] := by simp [hdone, hs]
      simp only [if_neg hdone, if_neg hdone'] at h ⊢
      change onlyMarked _ _ 0 (('$', true) :: ((opening ++ s ++ ['\x7d']).map (·, false) ++ rendered secret done ps)) = true at h
      change ¬ wordHere _ (('$', true) :: ((opening ++ s ++ ['\x7d']).map (·, false) ++ rendered secret done ps)) = true at hnot
      change rewrite _ _ _ 0 (('$', true) :: ((opening ++ s ++ ['\x7d']).map (·, false) ++ rendered secret done ps)) = _
      rw [onlyMarked, if_neg hnot] at h
      obtain ⟨heq, hmarked⟩ := rewrite_unmarked unmarked h
      rw [rewrite, if_neg hnot, heq, ih hrest hmarked]
      rfl

/-! ## The whole loop -/

theorem tracked_append (text : List Char) (before : List (List Char)) (ref : List Char) : tracked secret text (before ++ [ref]) =
      rewrite (wordHere (reference ref)) (reference ref).length ((secret ref).map (·, false)) 0 (tracked secret text before) := by
  simp [tracked, List.foldl_append]

/-- The marks do not touch the characters. -/
theorem tracked_fst (text : List Char) (refs : List (List Char)) :
    (tracked secret text refs).map Prod.fst = refs.foldl (fun next ref => replace (reference ref) (secret ref) next) text := by
  induction refs using List.reverseRecOn with
  | nil =>
    show (rendered secret [] (pieces 0 text)).map Prod.fst = text
    have htext := pieces_text 0 text
    rw [List.drop_zero] at htext
    conv_rhs => rw [← htext]
    rw [rendered, List.map_flatMap]
    refine List.flatMap_congr ?_
    intro piece _
    cases piece with
    | char c => rfl
    | ref id =>
      simp only [List.not_mem_nil, if_false]
      exact fst_headed _
  | append_singleton refs ref ih =>
    rw [tracked_append, map_fst_rewrite, ih, List.foldl_append]
    simp [Function.comp_def]

/-- As long as the turns are literal, the text is that of one pass over the references so far. -/
theorem tracked_rendered {refs : List (List Char)} (hrefs : ∀ ref ∈ refs, ValidId ref)
    (h : ∀ before ref after, refs = before ++ ref :: after →
      onlyMarked (wordHere (reference ref)) (reference ref).length 0 (tracked secret text before) = true) :
    tracked secret text refs = rendered secret refs (pieces 0 text) := by
  induction refs using List.reverseRecOn with
  | nil => rfl
  | append_singleton refs ref ih =>
    have hbefore := ih (fun r hr => hrefs r (List.mem_append_left _ hr)) fun before r after heq =>
      h before r (after ++ [ref]) (by rw [heq]; simp)
    have hlast := h refs ref [] rfl
    rw [hbefore] at hlast
    rw [tracked_append, hbefore]
    exact rewrite_rendered (hrefs ref (List.mem_append_right _ (List.mem_singleton_self ref))) (fun s hs => pieces_valid hs) hlast

/-- The search is only as good as the marks: it finds a reference at marks only when it occurs there only. -/
theorem onlyMarked_reference (hid : ValidId id) {text : List (Char × Bool)} :
    onlyMarked (wordHere (reference id)) (reference id).length 0 text = true ↔ Marked (reference id) text :=
  onlyMarked_iff (dollar_not_mem hid)

theorem literal_iff_separate : Literal secret text ↔ Separate secret text := by
  have hvalid : ∀ ref ∈ extract text, ValidId ref := fun ref hmem => pieces_valid (mem_extract.mp hmem)
  constructor
  · intro h before ref after heq
    have hsame : tracked secret text before = rendered secret before (pieces 0 text) := by
      refine tracked_rendered (fun r hr => hvalid r (heq ▸ List.mem_append_left _ hr)) ?_
      intro before' r after' heq'
      exact h before' r (after' ++ ref :: after) (by rw [heq, heq']; simp)
    rw [← hsame, ← onlyMarked_reference (hvalid ref (heq ▸ by simp))]
    exact h before ref after heq
  intro h
  -- the turns before each one are literal, by induction on their number
  have hall : ∀ n before ref after, before.length ≤ n → extract text = before ++ ref :: after →
      onlyMarked (wordHere (reference ref)) (reference ref).length 0 (tracked secret text before) = true := by
    intro n
    induction n with
    | zero =>
      intro before ref after hle heq
      obtain rfl := List.eq_nil_of_length_eq_zero (Nat.le_zero.mp hle)
      exact (onlyMarked_reference (hvalid ref (heq ▸ by simp))).mpr (h [] ref after heq)
    | succ n ih =>
      intro before ref after hle heq
      have hsame : tracked secret text before = rendered secret before (pieces 0 text) := by
        refine tracked_rendered (fun r hr => hvalid r (heq ▸ List.mem_append_left _ hr)) ?_
        intro before' r after' heq'
        have hlt := congrArg List.length heq'
        simp only [List.length_append, List.length_cons] at hlt
        exact ih before' r (after' ++ ref :: after) (by omega) (by rw [heq, heq']; simp)
      rw [hsame]
      exact (onlyMarked_reference (hvalid ref (heq ▸ by simp))).mpr (h before ref after heq)
  exact fun before ref after heq => hall before.length before ref after (le_refl _) heq

/-- A loop without a turn that goes astray is one pass. -/
theorem resolved_substituted (h : Literal secret text) :
    (extract text).foldl (fun next ref => replace (reference ref) (secret ref) next) text = substituted secret text := by
  have hvalid : ∀ ref ∈ extract text, ValidId ref := fun ref hmem => pieces_valid (mem_extract.mp hmem)
  rw [← tracked_fst, tracked_rendered hvalid h, rendered, List.map_flatMap]
  refine List.flatMap_congr ?_
  intro piece hmem
  cases piece with
  | char c => rfl
  | ref id =>
    simp only [if_pos (mem_extract.mpr hmem), List.map_map, Function.comp_def, List.map_id']

/-! ## Every environment -/

variable {read : String → Except ReadError (Option String)}

/-- `secret or ""` -/
def secretOf (read : String → Except ReadError (Option String)) (id : List Char) : List Char :=
  match read (String.ofList id) with
  | .ok secret => (secret.getD "").toList
  | .error _ => []

/-- The text of the loop. -/
def resolvedText (read : String → Except ReadError (Option String)) (text : List Char) : List Char :=
  (extract text).foldl (fun next ref => replace (reference ref) (secretOf read ref) next) text

/-- Every id that the environment refers to can be read. -/
def AllExist (read : String → Except ReadError (Option String)) (env : List (String × String)) : Prop :=
  ∀ entry ∈ env, ∀ ref ∈ extract entry.2.toList, ∃ secret, read (String.ofList ref) = .ok secret

theorem foldlM_resolveRef {key : String} {refs : List (List Char)}
    (h : ∀ ref ∈ refs, ∃ secret, read (String.ofList ref) = .ok secret) (p : Progress) (next : List Char) :
    (refs.map String.ofList).foldlM (resolveRef read key) (p, next) =
      .ok ({ p with used := refs.foldl (fun used ref => append used (String.ofList ref) key) p.used },
        refs.foldl (fun next ref => replace (reference ref) (secretOf read ref) next) next) := by
  induction refs generalizing p next with
  | nil => rfl
  | cons ref refs ih =>
    obtain ⟨secret, hread⟩ := h ref List.mem_cons_self
    have hsecret : (secret.getD "").toList = secretOf read ref := by rw [secretOf, hread]
    have hturn : resolveRef read key (p, next) (String.ofList ref) =
        .ok ({ p with used := append p.used (String.ofList ref) key }, replace (reference ref) (secretOf read ref) next) := by
      simp only [resolveRef, hread, String.toList_ofList, hsecret]
    rw [List.map_cons, List.foldlM_cons, hturn]
    exact ih (fun r hr => h r (List.mem_cons_of_mem _ hr)) _ _

/-- The references of an environment, each with the key it stands under, in the order of the loops. -/
def uses (env : List (String × String)) : List (String × String) :=
  env.flatMap fun entry => (extract entry.2.toList).map fun ref => (String.ofList ref, entry.1)

theorem resolveEntry_eq {entry : String × String} (h : ∀ ref ∈ extract entry.2.toList, ∃ secret, read (String.ofList ref) = .ok secret)
    (p : Progress) : resolveEntry read p entry = .ok { p with
        used := (uses [entry]).foldl (fun used use => append used use.1 use.2) p.used
        resolved := p.resolved ++ [(entry.1, String.ofList (resolvedText read entry.2.toList))] } := by
  have huses : uses [entry] = (extract entry.2.toList).map fun ref => (String.ofList ref, entry.1) := by simp [uses]
  rw [resolveEntry, extractCredentialRefs, foldlM_resolveRef h, huses, List.foldl_map]
  rfl

theorem resolveEnv_eq {env : List (String × String)} (h : AllExist read env) :
    ∃ count, resolveEnv read env = .ok (env.map fun entry => (entry.1, String.ofList (resolvedText read entry.2.toList)),
      ⟨(uses env).foldl (fun used use => append used use.1 use.2) [], count⟩) := by
  have hfold : ∀ p : Progress, env.foldlM (resolveEntry read) p = .ok { p with
      used := (uses env).foldl (fun used use => append used use.1 use.2) p.used
      resolved := p.resolved ++ env.map fun entry => (entry.1, String.ofList (resolvedText read entry.2.toList)) } := by
    induction env with
    | nil =>
      intro p
      simp [uses]
    | cons entry env ih =>
      intro p
      have hsplit : uses (entry :: env) = uses [entry] ++ uses env := by simp [uses]
      rw [List.foldlM_cons, resolveEntry_eq (h entry List.mem_cons_self)]
      refine (ih (fun e he => h e (List.mem_cons_of_mem _ he)) _).trans ?_
      rw [hsplit, List.foldl_append, List.map_cons]
      simp
  refine ⟨(((uses env).foldl (fun used use => append used use.1 use.2) []).map fun entry => entry.2.length).sum, ?_⟩
  rw [resolveEnv, hfold]
  rfl

/-- The list under a key of a dictionary of lists. -/
def keysOf (d : KeysByRef) (ref : String) : Option (List String) := (d.find? (·.1 = ref)).map (·.2)

theorem keysOf_append (d : KeysByRef) (ref key ref' : String) :
    keysOf (append d ref key) ref' = if ref' = ref then some ((keysOf d ref).getD [] ++ [key]) else keysOf d ref' := by
  unfold append keysOf
  split
  · rename_i hany
    have hkey : (fun entry : String × List String => decide (entry.1 = ref')) ∘
        (fun entry => if entry.1 = ref then (ref, entry.2 ++ [key]) else entry) = fun entry => decide (entry.1 = ref') := by
      funext entry
      by_cases hentry : entry.1 = ref
      · simp [hentry]
      · simp [hentry]
    rw [List.find?_map, hkey, Option.map_map]
    split
    · rename_i heq
      subst heq
      obtain ⟨entry, hmem, hentry⟩ := List.any_eq_true.mp hany
      cases hfind : d.find? (fun entry => decide (entry.1 = ref')) with
      | none => exact absurd hentry (List.find?_eq_none.mp hfind entry hmem)
      | some found =>
        have hfound : found.1 = ref' := by simpa using List.find?_some hfind
        simp [hfound]
    rename_i hne
    cases hfind : d.find? (fun entry => decide (entry.1 = ref')) with
    | none => rfl
    | some found =>
      have hfound : found.1 = ref' := by simpa using List.find?_some hfind
      have hother : ¬ found.1 = ref := fun h => hne (hfound.symm.trans h)
      simp [hother]
  rename_i hany
  have hnone : d.find? (fun entry => decide (entry.1 = ref)) = none := by
    rw [List.find?_eq_none]
    intro entry hmem hentry
    exact hany (List.any_eq_true.mpr ⟨entry, hmem, hentry⟩)
  rw [List.find?_append]
  split
  · rename_i heq
    subst heq
    simp [hnone]
  · rename_i hne
    have hlast : [(ref, [key])].find? (fun entry => decide (entry.1 = ref')) = none := by simp [Ne.symm hne]
    rw [hlast, Option.or_none]

/-- `used_credentials` has each reference of the environment, with the keys of the texts it occurs in. -/
theorem keysOf_uses (us : List (String × String)) (ref : String) :
    (keysOf (us.foldl (fun used use => append used use.1 use.2) []) ref).getD [] = (us.filter (·.1 = ref)).map (·.2) ∧
      ((keysOf (us.foldl (fun used use => append used use.1 use.2) []) ref).isSome = true ↔ ref ∈ us.map (·.1)) := by
  induction us using List.reverseRecOn with
  | nil => simp [keysOf]
  | append_singleton us use ih =>
    rw [List.foldl_append, List.foldl_cons, List.foldl_nil, keysOf_append]
    by_cases heq : ref = use.1
    · subst heq
      rw [if_pos rfl]
      refine ⟨?_, by simp⟩
      rw [Option.getD_some, ih.1, List.filter_append, List.map_append]
      simp
    rw [if_neg heq]
    refine ⟨?_, ?_⟩
    · rw [ih.1, List.filter_append, List.map_append]
      simp [Ne.symm heq]
    · rw [ih.2, List.map_append, List.mem_append]
      simp [heq]

/-- **Substitution in one pass, exactly when the secrets keep apart.** For every environment whose references all exist: the
call returns, and `used_credentials` has exactly the references of the original texts. Each value is the text with every
reference replaced at once, and no text of a secret is taken for a reference, if and only if in each text every reference,
once those before it are replaced at once, is found only where the original text has it. -/
theorem one_pass_iff {env : List (String × String)} (h : AllExist read env) :
    ∃ resolved metadata, resolveEnv read env = .ok (resolved, metadata) ∧
      (∀ ref, (keysOf metadata.usedCredentials ref).getD [] = ((uses env).filter (·.1 = ref)).map (·.2) ∧
        ((keysOf metadata.usedCredentials ref).isSome = true ↔ ref ∈ (uses env).map (·.1))) ∧
      ((resolved = env.map (fun entry => (entry.1, String.ofList (substituted (secretOf read) entry.2.toList))) ∧
          ∀ entry ∈ env, Literal (secretOf read) entry.2.toList) ↔
        ∀ entry ∈ env, Separate (secretOf read) entry.2.toList) := by
  obtain ⟨count, hresolve⟩ := resolveEnv_eq h
  refine ⟨_, _, hresolve, fun ref => keysOf_uses (uses env) ref, ?_⟩
  constructor
  · exact fun hliteral entry hentry => literal_iff_separate.mp (hliteral.2 entry hentry)
  · intro hseparate
    refine ⟨List.map_congr_left fun entry hentry => ?_, fun entry hentry => literal_iff_separate.mpr (hseparate entry hentry)⟩
    rw [resolvedText, resolved_substituted (literal_iff_separate.mpr (hseparate entry hentry))]

/-- A store with two credentials; the secret of `a` is a text of its own. -/
def twoSecrets (a : String) : String → Except ReadError (Option String)
  | "a" => .ok (some a)
  | "b" => .ok (some "hunter2")
  | _ => .error .missing

/-- `$\x7bcredential:a\x7d-$\x7bcredential:b\x7d` under the key `AUTH`. -/
def twoReferences : List (String × String) :=
  [("AUTH", String.ofList (reference ['a'] ++ '-' :: reference ['b']))]

theorem one_pass_iff_plain : ∃ resolved metadata, resolveEnv (twoSecrets "pass") twoReferences = .ok (resolved, metadata) ∧
    (∀ ref, (keysOf metadata.usedCredentials ref).getD [] = ((uses twoReferences).filter (·.1 = ref)).map (·.2) ∧
      ((keysOf metadata.usedCredentials ref).isSome = true ↔ ref ∈ (uses twoReferences).map (·.1))) ∧
    ((resolved = twoReferences.map (fun entry => (entry.1, String.ofList (substituted (secretOf (twoSecrets "pass")) entry.2.toList))) ∧
        ∀ entry ∈ twoReferences, Literal (secretOf (twoSecrets "pass")) entry.2.toList) ↔
      ∀ entry ∈ twoReferences, Separate (secretOf (twoSecrets "pass")) entry.2.toList) :=
  one_pass_iff (by
    have hrefs : extract (reference ['a'] ++ '-' :: reference ['b']) = [['a'], ['b']] := by decide +kernel
    intro entry hentry ref href
    obtain rfl := List.mem_singleton.mp hentry
    rw [String.toList_ofList, hrefs] at href
    simp only [List.mem_cons, List.not_mem_nil, or_false] at href
    rcases href with rfl | rfl
    · exact ⟨some "pass", by decide⟩
    · exact ⟨some "hunter2", by decide⟩)

/-- The secret of `a` is the text of the reference to `b`: the value holds the secret of `b` twice. -/
theorem secret_resolved_again : (∀ entry ∈ twoReferences, ∀ ref ∈ extract entry.2.toList,
      ∃ secret, twoSecrets (String.ofList (reference ['b'])) (String.ofList ref) = .ok secret) ∧
    (resolveEnv (twoSecrets (String.ofList (reference ['b']))) twoReferences).toOption.map (·.1) = some [("AUTH", "hunter2-hunter2")] ∧
    twoReferences.map (fun entry => (entry.1, String.ofList (substituted (secretOf (twoSecrets (String.ofList (reference ['b']))))
      entry.2.toList))) = [("AUTH", String.ofList (reference ['b']) ++ "-hunter2")] ∧
    "hunter2-hunter2" ≠ String.ofList (reference ['b']) ++ "-hunter2" := by
  have hrefs : extract (reference ['a'] ++ '-' :: reference ['b']) = [['a'], ['b']] := by decide +kernel
  refine ⟨?_, by decide +kernel, by decide +kernel, by decide +kernel⟩
  intro entry hentry ref href
  obtain rfl := List.mem_singleton.mp hentry
  rw [String.toList_ofList, hrefs] at href
  simp only [List.mem_cons, List.not_mem_nil, or_false] at href
  rcases href with rfl | rfl
  · exact ⟨_, rfl⟩
  · exact ⟨some "hunter2", by decide⟩

end LingshuGate.CredentialRefs

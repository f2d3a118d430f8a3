import LingshuGate.Delivery.BuildPlans

/-!
# The Node range of an official tool (`adapters/native_executor/packages.py`)

| here | there |
| --- | --- |
| `scan`                        | `(?:>=|<=|>|<|\^|~|=)?\s*\d+(?:\.\d+){0,2}` at one place (packages.py:43) |
| `findall`, `comparators`      | `re.findall` of it, and the join that is compared (43-45) |
| `Comparator.holds`            | the branches of one comparator (48-65) |
| `engineSatisfies`             | `engine_satisfies` (37) |
| `Comparator.denotes`, `Alternative`, `InRange` | node-semver, for stable versions |

The evaluator fills a partial version with zeros before it compares. For `>` that is too much: `>18` holds of `18.20.0` here and of
nothing below `19.0.0` there (`overread`). For `<=`, `~A` and `^0` it is too little, which refuses but never admits (`missed`). The one
other overreading is `^0.0.C`, which is held to the minor version only.

The pattern is deterministic: no two of its parts begin with the same character, so what is taken greedily is never given back, and an
alternative is read in one way (`Alternative.unique`). The digits of an expression are at most 256, the ones of the version may be too many for `int`, which raises.
-/

namespace LingshuGate.Executor

open Lib Plans

/-! ## Versions and comparators -/

structure Version where
  major : Nat
  minor : Nat
  patch : Nat
  deriving DecidableEq

/-- The order of the tuples. -/
def Version.lt (v w : Version) : Prop :=
  v.major < w.major ∨ v.major = w.major ∧ (v.minor < w.minor ∨ v.minor = w.minor ∧ v.patch < w.patch)

instance (v w : Version) : Decidable (v.lt w) := by unfold Version.lt; infer_instance

def Version.le (v w : Version) : Prop := ¬w.lt v

instance (v w : Version) : Decidable (v.le w) := by unfold Version.le; infer_instance

inductive Op
  | ge | le | gt | lt | caret | tilde | eq
  /-- No operator at all. -/
  | none
  deriving DecidableEq

def Op.text : Op → List Char
  | .ge => ['>', '=']
  | .le => ['<', '=']
  | .gt => ['>']
  | .lt => ['<']
  | .caret => ['^']
  | .tilde => ['~']
  | .eq => ['=']
  | .none => []

/-- `parts`: the major version, and the minor version with the patch, as far as they are given. -/
inductive Partial
  | major (a : Nat)
  | minor (a b : Nat)
  | full (a b c : Nat)
  deriving DecidableEq

/-- `target = parts + (0,) * (3 - len(parts))` -/
def Partial.target : Partial → Version
  | .major a => ⟨a, 0, 0⟩
  | .minor a b => ⟨a, b, 0⟩
  | .full a b c => ⟨a, b, c⟩

/-- `current[:len(parts)] == parts` -/
def Partial.isPrefix (v : Version) : Partial → Bool
  | .major a => v.major = a
  | .minor a b => v.major = a && v.minor = b
  | .full a b c => v.major = a && v.minor = b && v.patch = c

structure Comparator where
  op : Op
  parts : Partial
  deriving DecidableEq

/-- `upper`, of `^` and `~` -/
def Comparator.upper (c : Comparator) : Version :=
  let target := c.parts.target
  if c.op = .caret ∧ target.major ≠ 0 then ⟨target.major + 1, 0, 0⟩ else ⟨target.major, target.minor + 1, 0⟩

def Comparator.holds (c : Comparator) (current : Version) : Bool :=
  let target := c.parts.target
  match c.op with
  | .caret | .tilde => target.le current && current.lt c.upper
  | .ge => target.le current
  | .gt => target.lt current
  | .le => current.le target
  | .lt => current.lt target
  | .eq | .none => c.parts.isPrefix current

/-! ## Reading an expression -/

section Scan

variable (py : Python)

def isDigit (c : Char) : Bool := (py.digit c).isSome

/-- `int(value)` of the digits of an expression. -/
def number (digits : List Char) : Nat := digits.foldl (fun n c => n * 10 + (py.digit c).getD 0) 0

def scanOp : List Char → Op × List Char
  | '>' :: '=' :: cs => (.ge, cs)
  | '<' :: '=' :: cs => (.le, cs)
  | '>' :: cs => (.gt, cs)
  | '<' :: cs => (.lt, cs)
  | '^' :: cs => (.caret, cs)
  | '~' :: cs => (.tilde, cs)
  | '=' :: cs => (.eq, cs)
  | cs => (.none, cs)

/-- `\d+` -/
def scanDigits (cs : List Char) : Option (List Char × List Char) :=
  match cs.takeWhile (isDigit py) with
  | [] => none
  | digits => some (digits, cs.dropWhile (isDigit py))

/-- `\.\d+` -/
def scanPart : List Char → Option (List Char × List Char)
  | '.' :: cs => scanDigits py cs
  | _ => none

/-- `\d+(?:\.\d+){0,2}` -/
def scanPartial (cs : List Char) : Option (Partial × List Char) :=
  match scanDigits py cs with
  | none => none
  | some (a, cs) => match scanPart py cs with
    | none => some (.major (number py a), cs)
    | some (b, cs) => match scanPart py cs with
      | none => some (.minor (number py a) (number py b), cs)
      | some (c, cs) => some (.full (number py a) (number py b) (number py c), cs)

/-- A comparator at the beginning of a text, and what is behind it. -/
def scan (cs : List Char) : Option (Comparator × List Char) :=
  let (op, cs) := scanOp cs
  (scanPartial py (cs.dropWhile Py.isSpace)).map fun (parts, cs) => (⟨op, parts⟩, cs)

def versionOf (version : String) : Except Raised (Option Version) :=
  match versionParts py version with
  | none => .ok none
  | some (major, minor, patch) => do return some ⟨← py.int major, ← py.int minor, ← py.int patch⟩

end Scan

/-! ## What node-semver says of it -/

/-- The first version behind the X-range of a partial version. -/
def Partial.ceiling : Partial → Version
  | .major a => ⟨a + 1, 0, 0⟩
  | .minor a b => ⟨a, b + 1, 0⟩
  | .full a b c => ⟨a, b, c + 1⟩

/-- The leftmost component that is not zero stays. -/
def Partial.caretCeiling : Partial → Version
  | .major a => ⟨a + 1, 0, 0⟩
  | .minor a b => if a ≠ 0 then ⟨a + 1, 0, 0⟩ else ⟨0, b + 1, 0⟩
  | .full a b c => if a ≠ 0 then ⟨a + 1, 0, 0⟩ else if b ≠ 0 then ⟨0, b + 1, 0⟩ else ⟨0, 0, c + 1⟩

/-- The major version stays, and the minor version where it is given. -/
def Partial.tildeCeiling : Partial → Version
  | .major a => ⟨a + 1, 0, 0⟩
  | .minor a b => ⟨a, b + 1, 0⟩
  | .full a b _ => ⟨a, b + 1, 0⟩

def Comparator.denotes (c : Comparator) (v : Version) : Prop :=
  match c.op with
  | .ge => c.parts.target.le v
  | .gt => c.parts.ceiling.le v
  | .le => v.lt c.parts.ceiling
  | .lt => v.lt c.parts.target
  | .caret => c.parts.target.le v ∧ v.lt c.parts.caretCeiling
  | .tilde => c.parts.target.le v ∧ v.lt c.parts.tildeCeiling
  | .eq | .none => c.parts.target.le v ∧ v.lt c.parts.ceiling

/-- The zeros that are filled in let a version of the X-range behind `>`, and `^0.0.C` lets a later patch through. -/
def Comparator.overread (c : Comparator) (v : Version) : Prop :=
  match c.op, c.parts with
  | .gt, .major a => v.major = a ∧ (v.minor ≠ 0 ∨ v.patch ≠ 0)
  | .gt, .minor a b => v.major = a ∧ v.minor = b ∧ v.patch ≠ 0
  | .caret, .full 0 0 p => v.major = 0 ∧ v.minor = 0 ∧ p < v.patch
  | _, _ => False

/-- The versions of an X-range that are refused. -/
def Comparator.missed (c : Comparator) (v : Version) : Prop :=
  match c.op, c.parts with
  | .le, .major a => v.major = a ∧ (v.minor ≠ 0 ∨ v.patch ≠ 0)
  | .le, .minor a b => v.major = a ∧ v.minor = b ∧ v.patch ≠ 0
  | .caret, .major 0 => v.major = 0 ∧ v.minor ≠ 0
  | .tilde, .major a => v.major = a ∧ v.minor ≠ 0
  | _, _ => False

theorem Comparator.holds_iff (c : Comparator) (v : Version) : c.holds v = true ↔ (c.denotes v ∧ ¬c.missed v) ∨ c.overread v := by
  obtain ⟨op, parts⟩ := c
  obtain ⟨x, y, z⟩ := v
  cases op with
  | caret =>
    -- the ceiling depends on the first component that is not zero
    cases parts with
    | major a =>
      cases a <;> simp [holds, upper, denotes, missed, overread, Partial.target, Partial.caretCeiling, Version.le, Version.lt]
      all_goals omega
    | minor a b => cases a <;> simp [holds, upper, denotes, missed, overread, Partial.target, Partial.caretCeiling, Version.le, Version.lt] <;> omega
    | full a b c =>
      cases a <;> cases b <;> simp [holds, upper, denotes, missed, overread, Partial.target, Partial.caretCeiling, Version.le, Version.lt] <;> omega
  | tilde =>
    cases parts <;> simp [holds, upper, denotes, missed, overread, Partial.target, Partial.tildeCeiling, Version.le, Version.lt] <;> omega
  | eq | none =>
    simp only [holds, denotes]
    cases parts <;> simp only [Partial.isPrefix, Bool.and_eq_true, decide_eq_true_eq, Partial.target, Partial.ceiling, missed, overread,
      Version.le, Version.lt, not_false_eq_true, and_true, or_false] <;> omega
  | ge | le | gt | lt =>
    simp only [holds, denotes, decide_eq_true_eq]
    cases parts <;> simp only [Partial.target, Partial.ceiling, missed, overread, Version.le, Version.lt, not_false_eq_true, and_true,
      or_false] <;> omega

section Grammar

variable (py : Python)

def Blanks (cs : List Char) : Prop := ∀ c ∈ cs, Py.isSpace c = true

/-- `\d+` of the value `n`. -/
def Spells (n : Nat) (cs : List Char) : Prop := cs ≠ [] ∧ (∀ c ∈ cs, isDigit py c = true) ∧ number py cs = n

inductive SpelledPartial : Partial → List Char → Prop
  | major {a : Nat} {as : List Char} : Spells py a as → SpelledPartial (.major a) as
  | minor {a b : Nat} {as bs : List Char} : Spells py a as → Spells py b bs → SpelledPartial (.minor a b) (as ++ '.' :: bs)
  | full {a b c : Nat} {as bs cs : List Char} : Spells py a as → Spells py b bs → Spells py c cs →
      SpelledPartial (.full a b c) (as ++ '.' :: (bs ++ '.' :: cs))

inductive Spelled : Comparator → List Char → Prop
  | intro (op : Op) {blanks w : List Char} {parts : Partial} : Blanks blanks → SpelledPartial py parts w →
      Spelled ⟨op, parts⟩ (op.text ++ (blanks ++ w))

/-- A blank or an operator. -/
def Begins (cs : List Char) : Prop := ∃ c rest, cs = c :: rest ∧ (Py.isSpace c = true ∨ c ∈ ['>', '<', '^', '~', '='])

/-- Comparators and blanks; a comparator ends where a blank or an operator follows. -/
inductive Alternative : List Char → List Comparator → Prop
  | last {c : Comparator} {before w after : List Char} : Blanks before → Spelled py c w → Blanks after →
      Alternative (before ++ (w ++ after)) [c]
  | cons {c : Comparator} {cs : List Comparator} {before w rest : List Char} : Blanks before → Spelled py c w → Begins rest →
      Alternative rest cs → Alternative (before ++ (w ++ rest)) (c :: cs)

variable {py} {cs rest : List Char}

variable {parts : Partial}

variable {c : Comparator}

variable {w : List Char}

theorem SpelledPartial.head (h : SpelledPartial py parts w) : ∃ d w', w = d :: w' ∧ isDigit py d = true := by
  have hof : ∀ {n : Nat} {ds : List Char} (ds' : List Char), Spells py n ds → ∃ d w', ds ++ ds' = d :: w' ∧ isDigit py d = true := by
    rintro n ds ds' ⟨hne, hall, -⟩
    cases ds with
    | nil => exact (hne rfl).elim
    | cons d ds => exact ⟨d, ds ++ ds', rfl, hall d List.mem_cons_self⟩
  cases h with
  | major ha =>
    obtain ⟨d, w', heq, hd⟩ := hof [] ha
    exact ⟨d, w', by rw [← heq, List.append_nil], hd⟩
  | minor ha | full ha => exact hof _ ha

variable {list : List Comparator}

/-- An alternative begins with a blank, an operator or a digit. -/
theorem Alternative.begins (h : Alternative py cs list) (hdigit : ∀ c, cs.head? = some c → isDigit py c = false) : Begins cs := by
  have hspelled : ∀ {c : Comparator} {before w rest : List Char}, Blanks before → Spelled py c w →
      (∀ d, (before ++ (w ++ rest)).head? = some d → isDigit py d = false) → Begins (before ++ (w ++ rest)) := by
    intro c before w rest hbefore hw hdigit
    cases before with
    | cons b before => exact ⟨b, _, rfl, .inl (hbefore b List.mem_cons_self)⟩
    | nil =>
      obtain ⟨op, hblanks, hparts⟩ := hw
      next blanks w parts =>
      cases op with
      | none =>
        cases blanks with
        | cons b blanks => exact ⟨b, _, rfl, .inl (hblanks b List.mem_cons_self)⟩
        | nil =>
          obtain ⟨d, w', rfl, hd⟩ := hparts.head
          rw [hdigit d rfl] at hd
          cases hd
      | _ => exact ⟨_, _, rfl, .inr (by decide)⟩
  cases h with
  | last hbefore hw | cons hbefore hw => exact hspelled hbefore hw hdigit

theorem Alternative.blank (h : Alternative py cs list) : Alternative py (' ' :: cs) list := by
  have hblank : ∀ {before : List Char}, Blanks before → Blanks (' ' :: before) := by
    intro before hbefore c hc
    rcases List.mem_cons.mp hc with rfl | hc
    · decide
    · exact hbefore c hc
  cases h with
  | last hbefore hw hafter => exact .last (hblank hbefore) hw hafter
  | cons hbefore hw hrest htail => exact .cons (hblank hbefore) hw hrest htail

variable (py) in
/-- `\d` matches no blank, no operator and no dot. -/
def DigitsApart : Prop := ∀ c, isDigit py c = true → Py.isSpace c = false ∧ c ∉ ['>', '<', '^', '~', '=', '.']

theorem dropWhile_blanks {blanks : List Char} (h : Blanks blanks) (cs : List Char) :
    (blanks ++ cs).dropWhile Py.isSpace = cs.dropWhile Py.isSpace := List.dropWhile_append_of_pos h

theorem scanDigits_spells {n : Nat} {ds : List Char} (h : Spells py n ds) (hend : ∀ c, rest.head? = some c → isDigit py c = false) :
    scanDigits py (ds ++ rest) = some (ds, rest) := by
  obtain ⟨hne, hall, -⟩ := h
  have hrest : rest.takeWhile (isDigit py) = [] ∧ rest.dropWhile (isDigit py) = rest := by
    cases rest with
    | nil => exact ⟨rfl, rfl⟩
    | cons c rest => simp [hend c rfl]
  rw [scanDigits, List.takeWhile_append_of_pos hall, List.dropWhile_append_of_pos hall, hrest.1, hrest.2, List.append_nil]
  cases ds with
  | nil => exact (hne rfl).elim
  | cons d ds => rfl

theorem scanPartial_spelled (hpy : DigitsApart py) (h : SpelledPartial py parts w)
    (hend : ∀ c, rest.head? = some c → isDigit py c = false ∧ c ≠ '.') : scanPartial py (w ++ rest) = some (parts, rest) := by
  have hdot : ∀ (cs : List Char) (c : Char), ('.' :: cs).head? = some c → isDigit py c = false := by
    rintro cs c ⟨⟩
    rw [← Bool.not_eq_true]
    exact fun h => absurd (hpy '.' h).2 (by decide)
  have hstop : scanPart py rest = none := by
    cases rest with
    | nil => rfl
    | cons c rest =>
      unfold scanPart
      split
      · next heq => exact absurd (List.cons.inj heq).1 (hend c rfl).2
      · rfl
  have hrest : ∀ c, rest.head? = some c → isDigit py c = false := fun c hc => (hend c hc).1
  have hpart : ∀ cs, scanPart py ('.' :: cs) = scanDigits py cs := fun cs => rfl
  cases h with
  | major ha =>
    rw [scanPartial, scanDigits_spells ha hrest]
    simp only [hstop]
    rw [ha.2.2]
  | minor ha hb =>
    rw [List.append_assoc, List.cons_append, scanPartial, scanDigits_spells ha (hdot _)]
    simp only [hpart, scanDigits_spells hb hrest, hstop]
    rw [ha.2.2, hb.2.2]
  | full ha hb hc =>
    rw [List.append_assoc, List.cons_append, List.append_assoc, List.cons_append, scanPartial, scanDigits_spells ha (hdot _)]
    simp only [hpart, scanDigits_spells hb (hdot _), scanDigits_spells hc hrest]
    rw [ha.2.2, hb.2.2, hc.2.2]

/-- An operator is taken whole where no operator follows. -/
theorem scanOp_of_text (op : Op) {cs : List Char} (hcs : ∀ c, cs.head? = some c → c ∉ ['>', '<', '^', '~', '=']) :
    scanOp (op.text ++ cs) = (op, cs) := by
  cases cs with
  | nil => cases op <;> rfl
  | cons c cs =>
    have hc := hcs c rfl
    simp only [List.mem_cons, List.not_mem_nil, or_false, not_or] at hc
    cases op <;> simp [Op.text, scanOp, hc]

theorem scan_spelled (hpy : DigitsApart py) {before w : List Char} (hbefore : Blanks before) (h : Spelled py c w)
    (hend : ∀ c, rest.head? = some c → isDigit py c = false ∧ c ≠ '.') :
    scan py ((before ++ (w ++ rest)).dropWhile Py.isSpace) = some (c, rest) := by
  obtain ⟨op, hblanks, hparts⟩ := h
  next blanks w parts =>
  obtain ⟨d, w', rfl, hd⟩ := hparts.head
  obtain ⟨hspace, hop⟩ := hpy d hd
  have hnumber : ((d :: w') ++ rest).dropWhile Py.isSpace = (d :: w') ++ rest := by simp [hspace]
  have hread : ∀ {cs : List Char}, Blanks cs → scan py (op.text ++ (cs ++ ((d :: w') ++ rest))) = some (⟨op, parts⟩, rest) := by
    intro cs hcs
    have hnext : ∀ e, (cs ++ ((d :: w') ++ rest)).head? = some e → e ∉ ['>', '<', '^', '~', '='] := by
      intro e he hmem
      cases cs with
      | nil =>
        obtain rfl := Option.some.inj he
        exact hop (by simp only [List.mem_cons] at hmem ⊢; tauto)
      | cons b cs =>
        obtain rfl := Option.some.inj he
        have hblank := hcs b List.mem_cons_self
        simp only [List.mem_cons, List.not_mem_nil, or_false] at hmem
        rcases hmem with rfl | rfl | rfl | rfl | rfl <;> exact absurd hblank (by decide)
    rw [scan, scanOp_of_text op hnext]
    simp only [dropWhile_blanks hcs, hnumber, scanPartial_spelled hpy hparts hend]
    rfl
  rw [dropWhile_blanks hbefore, List.append_assoc, List.append_assoc]
  cases op with
  | none =>
    have hnil : Blanks [] := by rintro c ⟨⟩
    rw [show Op.none.text = [] from rfl, List.nil_append, dropWhile_blanks hblanks, hnumber]
    exact hread hnil
  | _ => exact hread hblanks

/-- The first comparator of an alternative, and what is behind it. -/
theorem Alternative.read (hpy : DigitsApart py) (h : Alternative py cs list) :
    ∃ c list' rest, list = c :: list' ∧ scan py (cs.dropWhile Py.isSpace) = some (c, rest) ∧
      ((list' = [] ∧ Blanks rest) ∨ Alternative py rest list') := by
  have hblank : ∀ {c : Char}, Py.isSpace c = true → isDigit py c = false ∧ c ≠ '.' := by
    intro c hc
    refine ⟨?_, ?_⟩
    · rw [← Bool.not_eq_true]
      intro hd
      rw [(hpy c hd).1] at hc
      cases hc
    · rintro rfl
      cases hc
  cases h with
  | last hbefore hw hafter =>
    exact ⟨_, [], _, rfl, scan_spelled hpy hbefore hw fun c hc => hblank (hafter c (List.mem_of_head? hc)), .inl ⟨rfl, hafter⟩⟩
  | cons hbefore hw hrest htail =>
    refine ⟨_, _, _, rfl, scan_spelled hpy hbefore hw fun c hc => ?_, .inr htail⟩
    obtain ⟨d, rest, rfl, hd⟩ := hrest
    obtain rfl := Option.some.inj hc
    rcases hd with hspace | hop
    · exact hblank hspace
    · refine ⟨?_, ?_⟩
      · rw [← Bool.not_eq_true]
        exact fun hd => (hpy d hd).2 (by simp only [List.mem_cons] at hop ⊢; tauto)
      · rintro rfl
        exact absurd hop (by decide)

theorem Alternative.not_blanks (hpy : DigitsApart py) (h : Alternative py cs list) : ¬Blanks cs := by
  intro hblanks
  obtain ⟨c, list', rest, -, hscan, -⟩ := h.read hpy
  have hnil : cs.dropWhile Py.isSpace = [] := by simpa using dropWhile_blanks hblanks []
  rw [hnil] at hscan
  cases hscan

theorem Alternative.unique (hpy : DigitsApart py) {list list' : List Comparator} (h : Alternative py cs list)
    (h' : Alternative py cs list') : list = list' := by
  induction list generalizing cs list' with
  | nil =>
    obtain ⟨c, _, rest, heq, -⟩ := h.read hpy
    cases heq
  | cons c list ih =>
    obtain ⟨_, _, rest, heq, hscan, hcase⟩ := h.read hpy
    obtain ⟨rfl, rfl⟩ := List.cons.inj heq
    obtain ⟨c', list', rest', rfl, hscan', hcase'⟩ := h'.read hpy
    obtain ⟨rfl, rfl⟩ := Prod.mk.inj (Option.some.inj (hscan.symm.trans hscan'))
    rcases hcase with ⟨rfl, hblanks⟩ | htail
    · rcases hcase' with ⟨rfl, -⟩ | htail'
      · rfl
      · exact (htail'.not_blanks hpy hblanks).elim
    · rcases hcase' with ⟨-, hblanks⟩ | htail'
      · exact (htail.not_blanks hpy hblanks).elim
      · rw [ih htail htail']

/-! ## Where the evaluator says too much -/

end Grammar

end LingshuGate.Executor

import LingshuGate.Lib.JsonRead
import LingshuGate.Lib.Pointer
import LingshuGate.Tools.Structure
import Mathlib.Data.Rat.Init
import Mathlib.Algebra.Order.Ring.Rat
import Mathlib.Order.WithBot

/-!
# Argument policies (`argument_policy.py`)

| here | there |
| --- | --- |
| `pointerSupported`, `Operator`, `Rule` | `RuleBase`, `EqualsRule`, `AllowedRule`, `NumberRule`, `PrefixRule` (argument_policy.py:21-63) |
| `sameJson`                 | `_same_json` (119) |
| `atPointer`                | `_at_pointer` (145) |
| `checkRule`, `checkPolicy` | the loop of `check_policy` (160) |
| `IsJson`, `Sem`, `denote`  | what a JSON value is, without the order of members and with numbers as numbers |
| `Evaluates`, `Satisfies`   | RFC 6901, and the rules on JSON values |

Python compares an int with a float exactly, as numbers: `exact` is the number that a finite float is. A text is a list of code
points, so a lone surrogate in an argument is one like any other.
-/

namespace LingshuGate.Policies

open Lib Structure

abbrev Text := List CodePoint

variable (exact : FloatRepr → ℚ)

/-! ## Numbers -/

inductive Number
  | int (n : Int)
  | float (x : FloatRepr)

/-- The numbers between the two infinities. -/
abbrev Extended := WithBot (WithTop ℚ)

def finite (q : ℚ) : Extended := ((q : WithTop ℚ) : WithBot (WithTop ℚ))

/-- The number, or an infinity; `none` is not a number. -/
def Number.real : Number → Option Extended
  | .int n => some (finite n)
  | .float x =>
    if x.text = "nan" then none
    else if x.text = "inf" then some ((⊤ : WithTop ℚ) : WithBot (WithTop ℚ))
    else if x.text = "-inf" then some ⊥
    else some (finite (exact x))

/-- `a <= b` -/
def Number.le (a b : Number) : Bool :=
  match a.real exact, b.real exact with
  | some p, some q => p ≤ q
  | _, _ => false

/-- `a == b` -/
def Number.eq (a b : Number) : Bool :=
  match a.real exact, b.real exact with
  | some p, some q => p = q
  | _, _ => false

/-- `math.isfinite`, of a float. -/
def Number.isFinite : Number → Bool
  | .int _ => true
  | .float x => x.isFinite

def Number.value : Number → Value
  | .int n => .int n
  | .float x => .float x

/-- The types `int` and `float`; a boolean is neither. -/
def number? : Value → Option Number
  | .int n => some (.int n)
  | .float x => some (.float x)
  | _ => none

/-! ## Equality of JSON values -/

def sameKey : Value → Value → Bool
  | .str s, .str t => s = t
  | _, _ => false

/-- `fields.get(key)` -/
def get (fields : List (Value × Value)) (key : Value) : Option Value := (fields.find? fun kv => sameKey kv.1 key).map (·.2)

/-- `left.keys() == right.keys()` -/
def sameKeys (left right : List (Value × Value)) : Bool :=
  (left.all fun kv => (get right kv.1).isSome) && right.all fun kv => (get left kv.1).isSome

mutual

/-- `_same_json`, on JSON values. -/
def sameJson : Value → Value → Bool
  | .none, .none => true
  | .bool a, .bool b => a = b
  | .str s, .str t => s = t
  | .list left, .list right => sameItems left right
  | .dict left, .dict right => sameKeys left right && sameFields left right
  | left, right =>
    match number? left, number? right with
    | some a, some b => a.eq exact b
    | _, _ => false

def sameItems : List Value → List Value → Bool
  | [], [] => true
  | a :: left, b :: right => sameJson a b && sameItems left right
  | _, _ => false

def sameFields : List (Value × Value) → List (Value × Value) → Bool
  | [], _ => true
  | (key, value) :: left, right =>
    (match get right key with
    | some counterpart => sameJson value counterpart
    | none => false) && sameFields left right

end

/-! ## Pointers -/

def marks : Pointer.Marks CodePoint where
  slash := 47
  tilde := 126
  zero := 48
  one := 49
  distinct := by decide

/-- `pointer_supported`, with the length of the field. -/
def pointerSupported (pointer : Text) : Bool :=
  pointer.length ≤ 512 && Pointer.wellFormed marks pointer && pointer.count marks.slash ≤ 32 && pointer.all fun c => 32 ≤ c.val

/-- `key.isascii() and key.isdecimal()` -/
def isDecimal (key : Text) : Bool := key ≠ [] && key.all fun c => 48 ≤ c.val && c.val ≤ 57

/-- `int(key)` -/
def decimal (key : Text) : Nat := key.foldl (fun n c => 10 * n + (c.val - 48)) 0

/-- One part of the pointer. -/
def step (value : Value) (key : Text) : Option Value :=
  match value with
  | .dict fields => get fields (.str key)
  | .list items =>
    if isDecimal key && (key = [48] || key.head? ≠ some 48) && key.length ≤ 8 then items[decimal key]? else none
  | _ => none

/-- `_at_pointer`; `none` is `_MISSING`. -/
def atPointer (arguments : Value) (pointer : Text) : Option Value := (Pointer.tokens marks pointer).foldlM step arguments

/-! ## Rules -/

inductive Operator
  | equals (value : Value)
  | allowedValues (values : List Value)
  | numberRange (minimum maximum : Option Number)
  | stringPrefix (text : Text)

/-- The limits of the fields, and `range_supported`. -/
def Operator.supported : Operator → Bool
  | .equals _ => true
  | .allowedValues values => 1 ≤ values.length && values.length ≤ 64
  | .numberRange minimum maximum =>
    (minimum.isSome || maximum.isSome) && minimum.all Number.isFinite && maximum.all Number.isFinite &&
      minimum.all fun low => maximum.all fun high => low.le exact high
  | .stringPrefix text => 1 ≤ text.length && text.length ≤ 1024

def isAlphanumeric (c : CodePoint) : Bool :=
  48 ≤ c.val && c.val ≤ 57 || 65 ≤ c.val && c.val ≤ 90 || 97 ≤ c.val && c.val ≤ 122

/-- `^[a-zA-Z0-9][a-zA-Z0-9_-]{0,63}$` -/
def idSupported (id : Text) : Bool :=
  match id with
  | [] => false
  | c :: rest => isAlphanumeric c && rest.length ≤ 63 && rest.all fun c => isAlphanumeric c || c.val = 95 || c.val = 45

structure Rule where
  id : Text
  pointer : Text
  operator : Operator
  idValid : idSupported id = true
  pointerValid : pointerSupported pointer = true
  operatorValid : operator.supported exact = true

structure ArgumentPolicy where
  enabled : Bool := false
  revision : Int := 0
  rules : List (Rule exact) := []

structure ArgumentPolicyDenied where
  policyRevision : Int
  ruleId : Option Text := none
  pointer : Option Text := none
  reason : String := "rule_not_satisfied"
  deriving DecidableEq

/-- `allowed`, for a value that is there. -/
def Operator.allows (value : Value) : Operator → Bool
  | .equals expected => sameJson exact value expected
  | .allowedValues values => values.any (sameJson exact value)
  | .numberRange minimum maximum =>
    match number? value with
    | some n => minimum.all (·.le exact n) && maximum.all (n.le exact ·)
    | none => false
  | .stringPrefix text =>
    match value with
    | .str s => text.isPrefixOf s
    | _ => false

variable {exact}

def checkRule (revision : Int) (arguments : Value) (rule : Rule exact) : Except ArgumentPolicyDenied Unit :=
  match atPointer arguments rule.pointer with
  | none => .error ⟨revision, some rule.id, some rule.pointer, "value_missing"⟩
  | some value => require (rule.operator.allows exact value) ⟨revision, some rule.id, some rule.pointer, "rule_not_satisfied"⟩

def checkPolicy (policy : ArgumentPolicy exact) (arguments : Value) : Except ArgumentPolicyDenied Unit :=
  if policy.enabled then each (checkRule policy.revision arguments) policy.rules else .ok ()

variable (exact)

/-! ## What a JSON value is -/

mutual

/-- A finite JSON value; a dict has each key once. -/
def IsJson : Value → Prop
  | .none | .bool _ | .int _ | .str _ => True
  | .float x => x.isFinite = true
  | .list items => IsJsonItems items
  | .dict fields => (fields.map Prod.fst).Nodup ∧ IsJsonFields fields
  | _ => False

def IsJsonItems : List Value → Prop
  | [] => True
  | value :: items => IsJson value ∧ IsJsonItems items

def IsJsonFields : List (Value × Value) → Prop
  | [] => True
  | (key, value) :: fields => (∃ s, key = .str s) ∧ IsJson value ∧ IsJsonFields fields

end

/-- JSON values: one type of numbers, objects as functions of their member names. -/
inductive Sem
  | null
  | bool (b : Bool)
  | number (q : ℚ)
  | string (s : Text)
  | array (items : List Sem)
  | object (members : Text → Option Sem)

mutual

def denote : Value → Sem
  | .bool b => .bool b
  | .int n => .number n
  | .float x => .number (exact x)
  | .str s => .string s
  | .list items => .array (denoteItems items)
  | .dict fields => .object (denoteFields fields)
  | _ => .null

def denoteItems : List Value → List Sem
  | [] => []
  | value :: items => denote value :: denoteItems items

def denoteFields : List (Value × Value) → Text → Option Sem
  | [], _ => none
  | (key, value) :: fields, name => if sameKey key (.str name) then some (denote value) else denoteFields fields name

end

/-! ## What a policy says -/

/-- One token of RFC 6901: a member of an object, or an element of an array under its canonical decimal, of at most eight
digits. -/
inductive Steps (key : Text) : Value → Value → Prop
  | member {fields : List (Value × Value)} {child : Value} : (.str key, child) ∈ fields → Steps key (.dict fields) child
  | element {items : List Value} {index : Nat} {child : Value} :
      key.map (·.val) = (Nat.toDigits 10 index).map Char.toNat → key.length ≤ 8 → items[index]? = some child →
        Steps key (.list items) child

/-- All tokens of a pointer, from a value on. -/
inductive Evaluates : List Text → Value → Value → Prop
  | whole {value : Value} : Evaluates [] value value
  | token {key : Text} {keys : List Text} {start child value : Value} :
      Steps key start child → Evaluates keys child value → Evaluates (key :: keys) start value

/-- The value is what the rule asks for. -/
def Satisfies (value : Value) : Operator → Prop
  | .equals expected => sameJson exact value expected = true
  | .allowedValues values => ∃ expected ∈ values, sameJson exact value expected = true
  | .numberRange minimum maximum => ∃ q, denote exact value = .number q ∧
      (∀ low ∈ minimum, ∀ p, denote exact low.value = .number p → p ≤ q) ∧
      ∀ high ∈ maximum, ∀ p, denote exact high.value = .number p → q ≤ p
  | .stringPrefix text => ∃ rest, denote exact value = .string (text ++ rest)

/-! ## Members -/

variable {exact}

variable {name : Text}

theorem sameKey_iff {key : Value} : sameKey key (.str name) = true ↔ key = .str name := by
  cases key <;> simp [sameKey]

theorem get_cons (key value : Value) (fields : List (Value × Value)) (name : Text) :
    get ((key, value) :: fields) (.str name) = if sameKey key (.str name) then some value else get fields (.str name) := by
  unfold get
  rw [List.find?_cons]
  cases sameKey key (.str name) <;> rfl

theorem denoteFields_eq (fields : List (Value × Value)) (name : Text) :
    denoteFields exact fields name = (get fields (.str name)).map (denote exact) := by
  induction fields with
  | nil => rfl
  | cons field fields ih =>
    rw [denoteFields, get_cons, ih]
    split <;> rfl

variable {fields : List (Value × Value)}

theorem isJson_of_mem (h : IsJsonFields fields) : ∀ kv ∈ fields, (∃ s, kv.1 = .str s) ∧ IsJson kv.2 := by
  induction fields with
  | nil => simp
  | cons field fields ih =>
    obtain ⟨hkey, hvalue, hrest⟩ := h
    intro kv hkv
    rcases List.mem_cons.mp hkv with rfl | hkv
    · exact ⟨hkey, hvalue⟩
    · exact ih hrest kv hkv

variable {value : Value}

theorem mem_of_get (h : get fields (.str name) = some value) : (.str name, value) ∈ fields := by
  obtain ⟨⟨key, v⟩, hfind, rfl⟩ := Option.map_eq_some_iff.mp h
  have hkey : sameKey key (.str name) = true := by simpa using List.find?_some hfind
  obtain rfl := sameKey_iff.mp hkey
  exact List.mem_of_find?_eq_some hfind

theorem get_of_mem (hnodup : (fields.map Prod.fst).Nodup)
    (h : (.str name, value) ∈ fields) : get fields (.str name) = some value := by
  induction fields with
  | nil => cases h
  | cons field fields ih =>
    obtain ⟨key, v⟩ := field
    rw [List.map_cons, List.nodup_cons] at hnodup
    rw [get_cons]
    rcases List.mem_cons.mp h with heq | hmem
    · cases heq
      rw [if_pos (sameKey_iff.mpr rfl)]
    · have hne : ¬ sameKey key (.str name) = true := by
        rw [sameKey_iff]
        rintro rfl
        exact hnodup.1 (List.mem_map.mpr ⟨_, hmem, rfl⟩)
      rw [if_neg hne, ih hnodup.2 hmem]

/-! ## Equality -/

/-- The number itself, where it is finite. -/
def Number.rat (exact : FloatRepr → ℚ) : Number → ℚ
  | .int n => n
  | .float x => exact x

variable {n : Number}

theorem real_finite (h : n.isFinite = true) : n.real exact = some (finite (n.rat exact)) := by
  cases n with
  | int n => rfl
  | float x =>
    have htexts : ¬ x.text = "inf" ∧ ¬ x.text = "-inf" ∧ ¬ x.text = "nan" := by
      simpa [Number.isFinite, FloatRepr.isFinite] using h
    rw [Number.real, if_neg htexts.2.2, if_neg htexts.1, if_neg htexts.2.1]
    rfl

theorem eq_finite {a b : Number} (ha : a.isFinite = true) (hb : b.isFinite = true) :
    a.eq exact b = true ↔ a.rat exact = b.rat exact := by
  simp only [Number.eq, real_finite ha, real_finite hb, finite, decide_eq_true_eq, WithBot.coe_inj, WithTop.coe_inj]

theorem le_finite {a b : Number} (ha : a.isFinite = true) (hb : b.isFinite = true) :
    a.le exact b = true ↔ a.rat exact ≤ b.rat exact := by
  simp only [Number.le, real_finite ha, real_finite hb, finite, decide_eq_true_eq, WithBot.coe_le_coe, WithTop.coe_le_coe]

theorem number_json (h : number? value = some n) (hjson : IsJson value) :
    n.isFinite = true ∧ denote exact value = .number (n.rat exact) := by
  cases value <;> simp [number?] at h <;> subst h
  · exact ⟨rfl, rfl⟩
  · exact ⟨hjson, rfl⟩

theorem number_of_denote {q : ℚ} (h : denote exact value = .number q) : ∃ n, number? value = some n := by
  cases value with
  | int n | float x => exact ⟨_, rfl⟩
  | _ => simp [denote] at h

theorem sameJson_number {a b : Value} (h : number? a = some n) : sameJson exact a b = (number? b).any (n.eq exact ·) := by
  cases a <;> simp only [number?, Option.some.injEq, reduceCtorEq] at h <;> subst h <;> cases b <;> simp [sameJson, number?]

theorem sameJson_number_iff {a b : Value} (h : number? a = some n) (ha : IsJson a) (hb : IsJson b) :
    sameJson exact a b = true ↔ denote exact a = denote exact b := by
  obtain ⟨hfinite, hdenote⟩ := @number_json exact _ _ h ha
  rw [sameJson_number h, hdenote]
  cases hnumber : number? b with
  | none =>
    refine iff_of_false (by simp) ?_
    intro heq
    obtain ⟨m, hm⟩ := number_of_denote heq.symm
    rw [hm] at hnumber
    cases hnumber
  | some m =>
    obtain ⟨hfinite', hdenote'⟩ := @number_json exact _ _ hnumber hb
    rw [Option.any_some, eq_finite hfinite hfinite', hdenote', Sem.number.injEq]

theorem sameKeys_iff {left right : List (Value × Value)} (hl : IsJsonFields left) (hr : IsJsonFields right) :
    sameKeys left right = true ↔ ∀ name, (get left (.str name)).isSome = (get right (.str name)).isSome := by
  have hinner : ∀ {fields fields' : List (Value × Value)}, IsJsonFields fields →
      ((fields.all fun kv => (get fields' kv.1).isSome) = true ↔
        ∀ name, (get fields (.str name)).isSome = true → (get fields' (.str name)).isSome = true) := by
    intro fields fields' hfields
    rw [List.all_eq_true]
    constructor
    · intro h name hsome
      obtain ⟨value, hget⟩ := Option.isSome_iff_exists.mp hsome
      exact h _ (mem_of_get hget)
    intro h kv hkv
    obtain ⟨⟨s, hs⟩, -⟩ := isJson_of_mem hfields kv hkv
    rw [hs]
    refine h s ?_
    unfold get
    rw [Option.isSome_map, List.find?_isSome]
    exact ⟨kv, hkv, sameKey_iff.mpr hs⟩
  unfold sameKeys
  rw [Bool.and_eq_true, hinner hl, hinner hr]
  constructor
  · rintro ⟨hlr, hrl⟩ name
    exact Bool.eq_iff_iff.mpr ⟨hlr name, hrl name⟩
  · intro h
    exact ⟨fun name hsome => h name ▸ hsome, fun name hsome => (h name).symm ▸ hsome⟩

/-- The same names, with the same values under each. -/
theorem members_iff {left right : List (Value × Value)} (hnodup : (left.map Prod.fst).Nodup) (hl : IsJsonFields left) :
    ((∀ name, (get left (.str name)).isSome = (get right (.str name)).isSome) ∧
      ∀ kv ∈ left, ∃ value, get right kv.1 = some value ∧ denote exact kv.2 = denote exact value) ↔
    denoteFields exact left = denoteFields exact right := by
  constructor
  · rintro ⟨hkeys, hvalues⟩
    funext name
    rw [denoteFields_eq, denoteFields_eq]
    cases hget : get left (.str name) with
    | none =>
      have hnone : get right (.str name) = none := by
        have hsome := hkeys name
        rw [hget] at hsome
        exact Option.isNone_iff_eq_none.mp (Option.isSome_eq_false_iff.mp hsome.symm)
      rw [hnone]
    | some value =>
      obtain ⟨counterpart, hright, heq⟩ := hvalues _ (mem_of_get hget)
      rw [hright, Option.map_some, Option.map_some, heq]
  intro h
  have hnames : ∀ name, (get left (.str name)).map (denote exact) = (get right (.str name)).map (denote exact) := by
    intro name
    rw [← denoteFields_eq, ← denoteFields_eq, h]
  constructor
  · intro name
    rw [← Option.isSome_map (f := denote exact), hnames, Option.isSome_map]
  rintro ⟨key, value⟩ hkv
  obtain ⟨⟨name, rfl⟩, -⟩ := isJson_of_mem hl _ hkv
  have hname := hnames name
  rw [get_of_mem hnodup hkv, Option.map_some] at hname
  obtain ⟨counterpart, hright, heq⟩ := Option.map_eq_some_iff.mp hname.symm
  exact ⟨counterpart, hright, heq.symm⟩

mutual

theorem sameJson_iff : ∀ {a : Value}, IsJson a → ∀ {b : Value}, IsJson b →
    (sameJson exact a b = true ↔ denote exact a = denote exact b)
  | .none, _, b, hb => by cases b <;> simp_all [sameJson, denote, number?, IsJson]
  | .bool p, _, b, hb => by cases b <;> simp_all [sameJson, denote, number?, IsJson]
  | .str s, _, b, hb => by cases b <;> simp_all [sameJson, denote, number?, IsJson]
  | .int _, ha, _, hb => sameJson_number_iff rfl ha hb
  | .float _, ha, _, hb => sameJson_number_iff rfl ha hb
  | .list left, ha, b, hb => by
    cases b with
    | list right =>
      rw [sameJson, sameItems_iff ha hb]
      simp [denote]
    | _ => simp_all [sameJson, denote, number?, IsJson]
  | .dict left, ha, b, hb => by
    cases b with
    | dict right =>
      rw [sameJson, Bool.and_eq_true, sameKeys_iff ha.2 hb.2, sameFields_iff ha.2 hb.2, denote, denote, Sem.object.injEq]
      exact members_iff ha.1 ha.2
    | _ => simp_all [sameJson, denote, number?, IsJson]
  | .tuple _, ha, _, _ => ha.elim
  | .proxy _, ha, _, _ => ha.elim
  | .other, ha, _, _ => ha.elim

theorem sameItems_iff : ∀ {left : List Value}, IsJsonItems left → ∀ {right : List Value}, IsJsonItems right →
    (sameItems exact left right = true ↔ denoteItems exact left = denoteItems exact right)
  | [], _, [], _ => by simp [sameItems]
  | [], _, _ :: _, _ => by simp [sameItems, denoteItems]
  | _ :: _, _, [], _ => by simp [sameItems, denoteItems]
  | a :: left, hl, b :: right, hr => by
    rw [sameItems, Bool.and_eq_true, sameJson_iff hl.1 hr.1, sameItems_iff hl.2 hr.2, denoteItems, denoteItems, List.cons_eq_cons]

theorem sameFields_iff : ∀ {left : List (Value × Value)}, IsJsonFields left → ∀ {right : List (Value × Value)}, IsJsonFields right →
    (sameFields exact left right = true ↔ ∀ kv ∈ left, ∃ value, get right kv.1 = some value ∧ denote exact kv.2 = denote exact value)
  | [], _, _, _ => by simp [sameFields]
  | (key, value) :: left, hl, right, hr => by
    obtain ⟨⟨s, rfl⟩, hvalue, hleft⟩ := hl
    rw [sameFields, Bool.and_eq_true, sameFields_iff hleft hr, List.forall_mem_cons]
    refine and_congr_left' ?_
    cases hget : get right (.str s) with
    | none => simp
    | some counterpart =>
      have hjson := (isJson_of_mem hr _ (mem_of_get hget)).2
      simp [sameJson_iff hvalue hjson]

end

/-! ## Pointers -/

theorem decimal_eq (key : Text) : decimal key = (key.map (·.val)).foldl (fun n c => 10 * n + (c - 48)) 0 := by
  rw [decimal, List.foldl_map]

variable {key : Text}

theorem decimal_toDigits {index : Nat} (h : key.map (·.val) = (Nat.toDigits 10 index).map Char.toNat) : decimal key = index := by
  rw [decimal_eq, h, List.foldl_map]
  exact Nat.ofDigitChars_ten_toDigits

theorem map_val_injective : Function.Injective (List.map fun c : CodePoint => c.val) :=
  List.map_injective_iff.mpr Fin.val_injective

theorem isDecimal_of_toDigits {index : Nat} (h : key.map (·.val) = (Nat.toDigits 10 index).map Char.toNat) :
    (isDecimal key && (key = [48] || key.head? ≠ some 48)) = true := by
  have hne : key ≠ [] := by
    rintro rfl
    have hdigits : Nat.toDigits 10 index ≠ [] := Nat.toDigits_ne_nil
    exact hdigits (List.map_eq_nil_iff.mp h.symm)
  have hdigit : ∀ c ∈ key, 48 ≤ c.val ∧ c.val ≤ 57 := by
    intro c hc
    have hmem : c.val ∈ (Nat.toDigits 10 index).map Char.toNat := h ▸ List.mem_map_of_mem hc
    obtain ⟨ch, hch, heq⟩ := List.mem_map.mp hmem
    have hrange := JsonRead.isDigit_toDigits hch
    rw [Char.isDigit, Bool.and_eq_true, decide_eq_true_eq, decide_eq_true_eq] at hrange
    rw [← heq]
    exact hrange
  have hhead : key.head? = some 48 → key = [48] := by
    intro hhead
    have hzero : (Nat.toDigits 10 index).head? = some '0' := by
      have hmap := congrArg List.head? h
      rw [List.head?_map, List.head?_map, hhead] at hmap
      obtain ⟨ch, hch, heq⟩ := Option.map_eq_some_iff.mp hmap.symm
      rw [hch]
      exact congrArg some (Char.toNat_inj.mp heq)
    rw [JsonRead.toDigits_head hzero] at h
    exact map_val_injective h
  simp only [isDecimal, Bool.and_eq_true, Bool.or_eq_true, List.all_eq_true, decide_eq_true_eq, ne_eq]
  refine ⟨⟨hne, hdigit⟩, ?_⟩
  by_cases h48 : key.head? = some 48
  · exact .inl (hhead h48)
  · exact .inr h48

theorem toDigits_decimal (hdecimal : isDecimal key = true) (hzero : key = [48] ∨ key.head? ≠ some 48) :
    key.map (·.val) = (Nat.toDigits 10 (decimal key)).map Char.toNat := by
  have hdigit : ∀ d < 10, (Nat.digitChar d).toNat = 48 + d := by decide
  induction key using List.reverseRecOn with
  | nil => simp [isDecimal] at hdecimal
  | append_singleton front c ih =>
    have hall : ∀ d ∈ front ++ [c], 48 ≤ d.val ∧ d.val ≤ 57 := by
      rw [isDecimal, Bool.and_eq_true, List.all_eq_true] at hdecimal
      exact fun d hd => by simpa using hdecimal.2 d hd
    obtain ⟨hlow, hhigh⟩ := hall c (by simp)
    have hlast : decimal (front ++ [c]) = 10 * decimal front + (c.val - 48) := by
      rw [decimal, List.foldl_append]
      rfl
    have hsingle : Nat.toDigits 10 (c.val - 48) = [Nat.digitChar (c.val - 48)] := Nat.toDigits_of_lt_base (by omega)
    have hchar : (Nat.digitChar (c.val - 48)).toNat = c.val := by
      rw [hdigit _ (by omega)]
      omega
    by_cases hfront : front = []
    · subst hfront
      rw [hlast]
      show [c.val] = (Nat.toDigits 10 (10 * 0 + (c.val - 48))).map Char.toNat
      rw [Nat.mul_zero, Nat.zero_add, hsingle, List.map_singleton, hchar]
    have hstart : front.head? ≠ some 48 := by
      rcases hzero with heq | hhead
      · have hlength := congrArg List.length heq
        have hpos := List.length_pos_iff.mpr hfront
        simp only [List.length_append, List.length_cons, List.length_nil] at hlength
        omega
      · rwa [List.head?_append_of_ne_nil _ hfront] at hhead
    have hbefore := ih (by
      rw [isDecimal, Bool.and_eq_true, List.all_eq_true]
      exact ⟨by simpa using hfront, fun d hd => by simpa using hall d (List.mem_append_left _ hd)⟩) (.inr hstart)
    -- no zero in front, so the number before the last digit is not zero
    have hpos : 0 < decimal front := by
      refine Nat.pos_of_ne_zero fun hz => hstart ?_
      rw [hz] at hbefore
      rw [@map_val_injective front [48] hbefore]
      rfl
    rw [hlast, ← Nat.toDigits_append_toDigits (by omega) hpos (by omega), hsingle, List.map_append, List.map_append, hbefore,
      List.map_singleton, List.map_singleton, hchar]

theorem step_iff {value child : Value} (hjson : IsJson value) : step value key = some child ↔ Steps key value child := by
  cases value with
  | dict fields =>
    constructor
    · exact fun h => .member (mem_of_get h)
    · rintro ⟨hmem⟩
      exact get_of_mem hjson.1 hmem
  | list items =>
    simp only [step]
    constructor
    · intro h
      split at h
      · rename_i hkey
        simp only [Bool.and_eq_true, Bool.or_eq_true, decide_eq_true_eq] at hkey
        exact .element (toDigits_decimal hkey.1.1 hkey.1.2) hkey.2 h
      · cases h
    · rintro (⟨⟩ | ⟨hdigits, hlength, hitem⟩)
      rw [isDecimal_of_toDigits hdigits, Bool.true_and, if_pos (by simpa using hlength), decimal_toDigits hdigits]
      exact hitem
  | _ =>
    refine iff_of_false (by simp [step]) ?_
    rintro ⟨⟩

theorem isJson_items {items : List Value} (h : IsJsonItems items) : ∀ value ∈ items, IsJson value := by
  induction items with
  | nil => simp
  | cons value items ih => exact List.forall_mem_cons.mpr ⟨h.1, ih h.2⟩

theorem isJson_step {value child : Value} (hjson : IsJson value) (h : Steps key value child) : IsJson child := by
  cases h with
  | member hmem => exact (isJson_of_mem hjson.2 _ hmem).2
  | element _ _ hitem => exact isJson_items hjson _ (List.mem_of_getElem? hitem)

theorem foldlM_step_iff {keys : List Text} {start value : Value} (hjson : IsJson start) :
    keys.foldlM step start = some value ↔ Evaluates keys start value := by
  induction keys generalizing start with
  | nil =>
    constructor
    · rintro ⟨⟩
      exact .whole
    · rintro ⟨⟩
      rfl
  | cons key keys ih =>
    rw [List.foldlM_cons]
    constructor
    · intro h
      obtain ⟨child, hstep, hrest⟩ := Option.bind_eq_some_iff.mp h
      have hsteps := (step_iff hjson).mp hstep
      exact .token hsteps ((ih (isJson_step hjson hsteps)).mp hrest)
    · rintro (_ | ⟨hsteps, hrest⟩)
      exact Option.bind_eq_some_iff.mpr ⟨_, (step_iff hjson).mpr hsteps, (ih (isJson_step hjson hsteps)).mpr hrest⟩

/-- What a valid pointer finds is what the RFC says. -/
theorem atPointer_iff {arguments value : Value} {pointer : Text} (hjson : IsJson arguments) (hvalid : pointerSupported pointer = true) :
    atPointer arguments pointer = some value ↔ ∃ keys, pointer = Pointer.spell marks keys ∧ Evaluates keys arguments value := by
  have hformed : Pointer.wellFormed marks pointer = true := by
    simp only [pointerSupported, Bool.and_eq_true] at hvalid
    exact hvalid.1.1.2
  constructor
  · intro h
    obtain ⟨keys, rfl⟩ := Pointer.exists_spell hformed
    rw [atPointer, Pointer.tokens_spell] at h
    exact ⟨keys, rfl, (foldlM_step_iff hjson).mp h⟩
  · rintro ⟨keys, rfl, h⟩
    rw [atPointer, Pointer.tokens_spell]
    exact (foldlM_step_iff hjson).mpr h

theorem isJson_evaluates {keys : List Text} {start value : Value} (hjson : IsJson start) (h : Evaluates keys start value) :
    IsJson value := by
  induction h with
  | whole => exact hjson
  | token hstep _ ih => exact ih (isJson_step hjson hstep)

/-! ## Rules -/

theorem denote_value (n : Number) : denote exact n.value = .number (n.rat exact) := by
  cases n <;> rfl

theorem allows_iff (hjson : IsJson value) {operator : Operator} (hvalid : operator.supported exact = true) :
    operator.allows exact value = true ↔ Satisfies exact value operator := by
  cases operator with
  | equals expected => rfl
  | allowedValues values => exact List.any_eq_true
  | numberRange minimum maximum =>
    simp only [Operator.supported, Bool.and_eq_true] at hvalid
    obtain ⟨⟨⟨-, hmin⟩, hmax⟩, -⟩ := hvalid
    have hlow : ∀ low ∈ minimum, low.isFinite = true := by simpa [Option.all_eq_true] using hmin
    have hhigh : ∀ high ∈ maximum, high.isFinite = true := by simpa [Option.all_eq_true] using hmax
    unfold Operator.allows Satisfies
    cases hnumber : number? value with
    | none =>
      refine iff_of_false (by simp) ?_
      rintro ⟨q, hq, -⟩
      obtain ⟨n, hn⟩ := number_of_denote hq
      rw [hn] at hnumber
      cases hnumber
    | some n =>
      obtain ⟨hfinite, hdenote⟩ := @number_json exact _ _ hnumber hjson
      have hfinite_le : (minimum.all (·.le exact n) && maximum.all (n.le exact ·)) = true ↔
          (∀ low ∈ minimum, low.rat exact ≤ n.rat exact) ∧ ∀ high ∈ maximum, n.rat exact ≤ high.rat exact := by
        rw [Bool.and_eq_true, Option.all_eq_true, Option.all_eq_true]
        exact and_congr (forall₂_congr fun low hmem => le_finite (hlow low hmem) hfinite)
          (forall₂_congr fun high hmem => le_finite hfinite (hhigh high hmem))
      simp only [hfinite_le, hdenote, denote_value, Sem.number.injEq]
      constructor
      · rintro ⟨hmin, hmax⟩
        refine ⟨n.rat exact, rfl, ?_, ?_⟩
        · rintro low hmem p rfl
          exact hmin low hmem
        · rintro high hmem p rfl
          exact hmax high hmem
      · rintro ⟨q, rfl, hmin, hmax⟩
        exact ⟨fun low hmem => hmin low hmem _ rfl, fun high hmem => hmax high hmem _ rfl⟩
  | stringPrefix text =>
    unfold Operator.allows Satisfies
    cases value with
    | str s =>
      simp only [List.isPrefixOf_iff_prefix, denote, Sem.string.injEq]
      exact ⟨fun ⟨rest, h⟩ => ⟨rest, h.symm⟩, fun ⟨rest, h⟩ => ⟨rest, h.symm⟩⟩
    | _ => simp [denote]

theorem checkRule_iff {revision : Int} {arguments : Value} (hjson : IsJson arguments) {rule : Rule exact} :
    checkRule revision arguments rule = .ok () ↔ ∃ keys value, rule.pointer = Pointer.spell marks keys ∧
      Evaluates keys arguments value ∧ Satisfies exact value rule.operator := by
  unfold checkRule
  cases hfound : atPointer arguments rule.pointer with
  | none =>
    refine iff_of_false (by simp) ?_
    rintro ⟨keys, value, hspell, hevaluates, -⟩
    rw [(atPointer_iff hjson rule.pointerValid).mpr ⟨keys, hspell, hevaluates⟩] at hfound
    cases hfound
  | some value =>
    have hevaluates := (atPointer_iff hjson rule.pointerValid).mp hfound
    simp only [require_eq_ok]
    constructor
    · intro hallows
      obtain ⟨keys, hspell, hvalue⟩ := hevaluates
      exact ⟨keys, value, hspell, hvalue, (allows_iff (isJson_evaluates hjson hvalue) rule.operatorValid).mp hallows⟩
    · rintro ⟨keys, found, hspell, hvalue, hsatisfies⟩
      have hsame : some found = some value := ((atPointer_iff hjson rule.pointerValid).mpr ⟨keys, hspell, hvalue⟩).symm.trans hfound
      cases hsame
      exact (allows_iff (isJson_evaluates hjson hvalue) rule.operatorValid).mpr hsatisfies

/-- **An enabled policy lets arguments through exactly where every rule's pointer has a value there and it satisfies the rule;
and `_same_json` is equality of JSON values.** -/
theorem check_policy_iff {policy : ArgumentPolicy exact} (henabled : policy.enabled = true) {fields : List (Value × Value)}
    (hjson : IsJson (.dict fields)) :
    (checkPolicy policy (.dict fields) = .ok () ↔ ∀ rule ∈ policy.rules, ∃ keys value, rule.pointer = Pointer.spell marks keys ∧
      Evaluates keys (.dict fields) value ∧ Satisfies exact value rule.operator) ∧
    (∀ a b, IsJson a → IsJson b → (sameJson exact a b = true ↔ denote exact a = denote exact b)) ∧
    Equivalence fun a b : {value // IsJson value} => sameJson exact a.1 b.1 = true := by
  refine ⟨?_, fun a b ha hb => sameJson_iff ha hb, ?_, ?_, ?_⟩
  · rw [checkPolicy, if_pos henabled, each_eq_ok]
    exact forall₂_congr fun rule _ => checkRule_iff hjson
  · exact fun a => (sameJson_iff a.2 a.2).mpr rfl
  · exact fun {a b} h => (sameJson_iff b.2 a.2).mpr ((sameJson_iff a.2 b.2).mp h).symm
  · exact fun {a b c} hab hbc => (sameJson_iff a.2 c.2).mpr (((sameJson_iff a.2 b.2).mp hab).trans ((sameJson_iff b.2 c.2).mp hbc))

theorem r_supported : idSupported [114] = true := by decide

/-- `/a~1b/1` is at least 2. -/
def secondAtLeastTwo : ArgumentPolicy fun _ => 0 where
  enabled := true
  revision := 1
  rules := [{
    id := [114]
    pointer := [47, 97, 126, 49, 98, 47, 49]
    operator := .numberRange (some (.int 2)) none
    idValid := r_supported
    pointerValid := by decide
    operatorValid := by decide }]

theorem check_policy_iff_second : checkPolicy secondAtLeastTwo (.dict [(.str [97, 47, 98], .list [.int 1, .int 5])]) = .ok () := by
  refine (check_policy_iff rfl (by simp [IsJson, IsJsonFields, IsJsonItems])).1.mpr ?_
  intro rule hrule
  obtain rfl := List.mem_singleton.mp hrule
  refine ⟨[[97, 47, 98], [49]], .int 5, by decide, .token (.member List.mem_cons_self) (.token ?_ .whole), 5, rfl, ?_, ?_⟩
  · exact .element (by decide : _ = (Nat.toDigits 10 1).map Char.toNat) (by decide) rfl
  · rintro low hlow p hp
    obtain rfl := Option.mem_some_iff.mp hlow
    cases hp
    decide
  · simp

end LingshuGate.Policies

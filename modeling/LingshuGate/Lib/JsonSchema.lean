import LingshuGate.Lib.Json
import LingshuGate.Lib.PyText
import Mathlib.Data.Rat.Defs

/-!
# JSON Schema (2020-12), the keywords without references

`valid` is what a validator says of a value under a schema: the assertions on the value itself (`keyword`), `items`, `properties`
and `additionalProperties`. Every keyword is looked up in the schema, so the order of the keywords does not matter. Keywords that
are not listed are annotations.
-/

namespace Lib.JsonSchema

/-- What is left to a JSON library: the number that a literal with a fraction or an exponent names, and when two values are the
same. -/
structure Values where
  number : String → ℚ
  equal : Json → Json → Bool

abbrev Fields := List (String × Json)

def get (fields : Fields) (key : String) : Option Json := (fields.find? fun kv => kv.1 = key).map (·.2)

/-- `fields.pop(key)` -/
def pop (fields : Fields) (key : String) : Fields := fields.filter (·.1 ≠ key)

theorem get_cons (k : String) (value : Json) (fields : Fields) (key : String) :
    get ((k, value) :: fields) key = if k = key then some value else get fields key := by
  unfold get
  by_cases h : k = key
  · simp [h]
  · simp [h]

variable {fields : Fields}

theorem get_eq_none {key : String} : get fields key = none ↔ ∀ kv ∈ fields, kv.1 ≠ key := by
  simp [get]

theorem get_pop (fields : Fields) (key name : String) : get (pop fields key) name = if name = key then none else get fields name := by
  induction fields with
  | nil => simp [pop, get]
  | cons kv fields ih =>
    obtain ⟨k, value⟩ := kv
    have hpop : pop ((k, value) :: fields) key = if k = key then pop fields key else (k, value) :: pop fields key := by
      simp [pop, List.filter_cons]
    rw [hpop, get_cons]
    by_cases hk : k = key
    · rw [if_pos hk, ih]
      by_cases hname : name = key
      · rw [if_pos hname, if_pos hname]
      · rw [if_neg hname, if_neg hname, if_neg fun h => hname (h.symm.trans hk)]
    · rw [if_neg hk, get_cons, ih]
      by_cases hname : name = key
      · rw [if_neg (by rw [hname]; exact hk), if_pos hname, if_pos hname]
      · rw [if_neg hname, if_neg hname]

theorem get_replace (fields : Fields) (key : String) (value : Json) (name : String) :
    get (fields.map fun kv => if kv.1 = key then (key, value) else kv) name =
      if name = key then (get fields key).map fun _ => value else get fields name := by
  induction fields with
  | nil => simp [get]
  | cons kv fields ih =>
    obtain ⟨k, old⟩ := kv
    rw [List.map_cons]
    by_cases hk : k = key
    · subst hk
      simp only [if_true, get_cons, ih, Option.map_some]
      by_cases hname : name = k
      · simp [hname]
      · simp [hname, Ne.symm hname]
    · simp only [if_neg hk, get_cons, ih]
      by_cases hname : name = key
      · subst hname
        simp [hk]
      · simp [hname]

/-- `fields[key] = value` -/
theorem get_set (fields : Fields) (key : String) (value : Json) (name : String) :
    get (Py.dictSet fields key value) name = if name = key then some value else get fields name := by
  unfold Py.dictSet
  split
  · rename_i hany
    have hsome : get fields key ≠ none := by
      rw [Ne, get_eq_none]
      obtain ⟨kv, hkv, hkey⟩ := List.any_eq_true.mp hany
      exact fun hall => hall kv hkv (by simpa using hkey)
    obtain ⟨old, hold⟩ := Option.ne_none_iff_exists'.mp hsome
    rw [get_replace, hold, Option.map_some]
  rename_i hnone
  have hkey : get fields key = none := by
    rw [get_eq_none]
    exact fun kv hkv heq => hnone (List.any_eq_true.mpr ⟨kv, hkv, by simpa using heq⟩)
  have happend : get (fields ++ [(key, value)]) name = (get fields name).or (get [(key, value)] name) := by
    unfold get
    rw [List.find?_append, Option.map_or]
  rw [happend, get_cons]
  by_cases hname : name = key
  · subst hname
    simp [hkey]
  · simp [hname, Ne.symm hname, get]

variable (v : Values)

def numeric : Json → Option ℚ
  | .int n => some n
  | .float literal => some (v.number literal)
  | _ => none

def typed (type : String) : Json → Bool
  | .null => type = "null"
  | .bool _ => type = "boolean"
  | .int _ => type = "integer" || type = "number"
  | .float literal => type = "number" || type = "integer" && (v.number literal).isInt
  | .str _ => type = "string"
  | .arr _ => type = "array"
  | .obj _ => type = "object"

/-- `type`: a name, or a list of names of which one has to fit. -/
def typeHolds (type x : Json) : Bool :=
  match type with
  | .str t => typed v t x
  | .arr ts => ts.any fun
    | .str t => typed v t x
    | _ => false
  | _ => false

/-- A bound on a number; what is no number is not bounded. -/
def bounds (holds : ℚ → ℚ → Bool) (bound : Json) (x : Option ℚ) : Bool :=
  match numeric v bound, x with
  | some b, some n => holds b n
  | none, some _ => false
  | _, none => true

def textLength : Json → Option ℚ
  | .str s => some s.length
  | _ => none

def itemCount : Json → Option ℚ
  | .arr items => some items.length
  | _ => none

def memberCount : Json → Option ℚ
  | .obj members => some members.length
  | _ => none

/-- One assertion on the value itself. -/
def keyword (key : String) (value x : Json) : Bool :=
  match key with
  | "type" => typeHolds v value x
  | "enum" => match value with
    | .arr options => options.any (v.equal · x)
    | _ => false
  | "const" => v.equal value x
  | "required" => match value, x with
    | .arr names, .obj members => names.all fun
      | .str name => members.any (·.1 = name)
      | _ => false
    | _, _ => true
  | "minimum" => bounds v (· ≤ ·) value (numeric v x)
  | "maximum" => bounds v (· ≥ ·) value (numeric v x)
  | "exclusiveMinimum" => bounds v (· < ·) value (numeric v x)
  | "exclusiveMaximum" => bounds v (· > ·) value (numeric v x)
  | "minLength" => bounds v (· ≤ ·) value (textLength x)
  | "maxLength" => bounds v (· ≥ ·) value (textLength x)
  | "minItems" => bounds v (· ≤ ·) value (itemCount x)
  | "maxItems" => bounds v (· ≥ ·) value (itemCount x)
  | "minProperties" => bounds v (· ≤ ·) value (memberCount x)
  | "maxProperties" => bounds v (· ≥ ·) value (memberCount x)
  | _ => true

/-- The assertions among `keys` that a schema makes, on the value itself. -/
def asserts (keys : List String) (fields : Fields) (x : Json) : Bool :=
  keys.all fun key => (get fields key).all fun value => keyword v key value x

theorem asserts_congr {keys : List String} {fields fields' : Fields} (h : ∀ key ∈ keys, get fields key = get fields' key) (x : Json) :
    asserts v keys fields x = asserts v keys fields' x := by
  induction keys with
  | nil => rfl
  | cons key keys ih =>
    rw [List.forall_mem_cons] at h
    simp only [asserts, List.all_cons, h.1] at ih ⊢
    rw [ih h.2]

/-- The assertions whose reading no dialect changes. -/
def plainKeys : List String :=
  ["enum", "const", "required", "minLength", "maxLength", "minItems", "maxItems", "minProperties", "maxProperties"]

def assertionKeys : List String := plainKeys ++ ["type", "minimum", "exclusiveMinimum", "maximum", "exclusiveMaximum"]

/-- The schema that `properties` has under a name. -/
def property (fields : Fields) (name : String) : Option Json :=
  match get fields "properties" with
  | some (.obj properties) => get properties name
  | _ => none

/-- The schema of a member of an object: the one under its name, or the one for all others. -/
def member (fields : Fields) (name : String) : Option Json := (property fields name).or (get fields "additionalProperties")

mutual

/-- `Draft202012Validator(schema).is_valid(x)` -/
def valid : Json → Json → Bool
  | .bool b, _ => b
  | .obj fields, x => asserts v assertionKeys fields x && match x with
    | .arr items => items.all (validAt "items" fields)
    | .obj members => members.all fun kv =>
      if (property fields kv.1).isSome then validProperty kv.1 fields kv.2 else validAt "additionalProperties" fields kv.2
    | _ => true
  | _, _ => false

/-- A value under the schema that a keyword has, where the keyword is there. -/
def validAt (key : String) : Fields → Json → Bool
  | [], _ => true
  | (k, schema) :: rest, x => if k = key then valid schema x else validAt key rest x

/-- A value under the schema that `properties` has for a name. -/
def validProperty (name : String) : Fields → Json → Bool
  | [], _ => true
  | (k, .obj properties) :: rest, x => if k = "properties" then validAt name properties x else validProperty name rest x
  | (_, _) :: rest, x => validProperty name rest x

end

variable {v}

theorem validAt_eq (key : String) (fields : Fields) (x : Json) :
    validAt v key fields x = (get fields key).all fun schema => valid v schema x := by
  induction fields with
  | nil => simp [validAt, get]
  | cons kv fields ih =>
    obtain ⟨k, schema⟩ := kv
    rw [validAt, get_cons]
    by_cases hk : k = key
    · simp [hk]
    · rw [if_neg hk, if_neg hk, ih]

theorem validProperty_eq {name : String} (h : (property fields name).isSome = true) (x : Json) :
    validProperty v name fields x = (property fields name).all fun schema => valid v schema x := by
  induction fields with
  | nil => simp [property, get] at h
  | cons kv fields ih =>
    obtain ⟨k, schema⟩ := kv
    by_cases hk : k = "properties"
    · subst hk
      cases schema with
      | obj properties =>
        rw [validProperty, if_pos rfl, validAt_eq]
        simp only [property, get_cons, if_true]
      | _ => simp [property, get_cons] at h
    have hrest : property ((k, schema) :: fields) name = property fields name := by
      simp only [property, get_cons, if_neg hk]
    rw [hrest] at h ⊢
    rw [← ih h]
    cases schema with
    | obj properties => rw [validProperty, if_neg hk]
    | _ => simp [validProperty]

/-- **What a schema accepts.** The assertions hold of the value, its items are accepted by `items`, and every member of it by the
schema that is there for its name. -/
theorem valid_obj {x : Json} : valid v (.obj fields) x = true ↔ asserts v assertionKeys fields x = true ∧
      (∀ items, x = .arr items → ∀ schema, get fields "items" = some schema → ∀ y ∈ items, valid v schema y = true) ∧
      ∀ members, x = .obj members → ∀ kv ∈ members, ∀ schema, member fields kv.1 = some schema → valid v schema kv.2 = true := by
  cases x with
  | arr items =>
    rw [valid, Bool.and_eq_true]
    refine and_congr Iff.rfl ?_
    constructor
    · intro hall
      refine ⟨?_, nofun⟩
      rintro _ ⟨⟩ schema hschema y hy
      have := List.all_eq_true.mp hall y hy
      rw [validAt_eq, hschema] at this
      simpa using this
    rintro ⟨hitems, -⟩
    refine List.all_eq_true.mpr fun y hy => ?_
    rw [validAt_eq]
    cases hschema : get fields "items" with
    | none => rfl
    | some schema => exact hitems items rfl schema hschema y hy
  | obj members =>
    have hmember : ∀ kv : String × Json, (if (property fields kv.1).isSome = true then validProperty v kv.1 fields kv.2
        else validAt v "additionalProperties" fields kv.2) = (member fields kv.1).all fun schema => valid v schema kv.2 := by
      intro kv
      unfold member
      split
      · rename_i hsome
        rw [validProperty_eq hsome]
        obtain ⟨schema, hschema⟩ := Option.isSome_iff_exists.mp hsome
        simp [hschema]
      · rename_i hnone
        rw [validAt_eq]
        rw [Option.not_isSome_iff_eq_none] at hnone
        simp [hnone]
    rw [valid, Bool.and_eq_true]
    refine and_congr Iff.rfl ?_
    simp only [hmember, List.all_eq_true, Option.all_eq_true]
    constructor
    · intro hall
      refine ⟨nofun, ?_⟩
      rintro _ ⟨⟩ kv hkv schema hschema
      exact hall kv hkv schema hschema
    · rintro ⟨-, hmembers⟩ kv hkv schema hschema
      exact hmembers members rfl kv hkv schema hschema
  | _ => simp [valid]

end Lib.JsonSchema

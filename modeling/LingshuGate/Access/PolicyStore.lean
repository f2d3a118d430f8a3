import Mathlib
import LingshuGate.Access.ArgumentPolicy
import LingshuGate.Lib.Table
import LingshuGate.Tools.Frozen

/-!
# Stored argument policies (`argument_policy.py`)

| here | there |
| --- | --- |
| `Rule.modelDump`, `parseRule` | `model_dump`, and the union of the four rules with a discriminator (argument_policy.py:21-68) |
| `validateRules`            | `validate_rules` (106) |
| `PolicyWrite`              | `PolicyWrite` (71) |
| `Store`, `current`, `save` | the table and `ArgumentPolicyStore` (177) |
| `Save`, `run`              | one request and any sequence of them |

A save writes the rules as JSON text and a later read validates them again. `policies_never_lock_out` says that nothing is lost on
the way: what the write accepts is read back as it was, and the revision counts the saves that succeed. A save that fails is
rolled back, also where the authorization or the journal of events raises.

`float` is `repr(float(literal))`. A value of a rule is a Python value: `Proper` says that its dicts have distinct keys and that
`float` reads what `repr` prints of a float.
-/

namespace LingshuGate.Policies

open Lib Structure

/-! ## From text to values -/

mutual

/-- The Python value of a JSON value. -/
def ofJson : Json → Value
  | .null => .none
  | .bool b => .bool b
  | .int n => .int n
  | .float text => if h : (∀ c ∈ text.toList, c.toNat < 128) ∧ text ≠ "" then .float ⟨text, h.1, h.2⟩ else .other
  | .str s => .str (codes s)
  | .arr items => .list (ofJsonItems items)
  | .obj fields => .dict (ofJsonFields fields)

def ofJsonItems : List Json → List Value
  | [] => []
  | item :: items => ofJson item :: ofJsonItems items

def ofJsonFields : List (String × Json) → List (Value × Value)
  | [] => []
  | (key, value) :: fields => (.str (codes key), ofJson value) :: ofJsonFields fields

end

variable (float : String → String)

/-- `json.loads(text, object_pairs_hook=_unique_members)` -/
def loads (text : String) : Option Value := (JsonRead.loads ⟨float, JsonRead.uniqueMembers⟩ text.toList).map ofJson

mutual

/-- A value that Python can hold. -/
def Proper : Value → Prop
  | .float x => JsonRead.Stable ⟨float, JsonRead.uniqueMembers⟩ (.float x.text)
  | .list items => ProperItems items
  | .dict fields => (fields.map Prod.fst).Nodup ∧ ProperFields fields
  | _ => True

def ProperItems : List Value → Prop
  | [] => True
  | value :: items => Proper value ∧ ProperItems items

def ProperFields : List (Value × Value) → Prop
  | [] => True
  | (_, value) :: fields => Proper value ∧ ProperFields fields

end

/-! ## Rules as dictionaries -/

def key (name : String) : Value := .str (codes name)

def bound : Option Number → Value
  | none => .none
  | some n => n.value

/-- The fields of the rule's own class. -/
def Operator.modelDump : Operator → List (Value × Value)
  | .equals value => [(key "operator", .str (codes "equals")), (key "value", value)]
  | .allowedValues values => [(key "operator", .str (codes "allowed_values")), (key "values", .list values)]
  | .numberRange minimum maximum =>
    [(key "operator", .str (codes "number_range")), (key "minimum", bound minimum), (key "maximum", bound maximum)]
  | .stringPrefix text => [(key "operator", .str (codes "string_prefix")), (key "prefix", .str text)]

variable {exact : FloatRepr → ℚ}

def Rule.modelDump (rule : Rule exact) : Value :=
  .dict ((key "id", .str rule.id) :: (key "pointer", .str rule.pointer) :: rule.operator.modelDump)

def modelDumps (rules : List (Rule exact)) : Value := .list (rules.map Rule.modelDump)

def field (fields : List (Value × Value)) (name : String) : Option Value := get fields (key name)

/-- A `str`; the validator refuses one with a lone surrogate. -/
def strField : Option Value → Option Text
  | some (.str s) => if (text s).isSome then some s else none
  | _ => none

/-- `int | float | None = None`, strictly. -/
def boundField : Option Value → Option (Option Number)
  | none | some .none => some none
  | some value => (number? value).map some

/-- `extra="forbid"` -/
def onlyNames (fields : List (Value × Value)) (names : List String) : Bool :=
  fields.all fun kv => names.any fun name => sameKey kv.1 (key name)

def parseOperator (fields : List (Value × Value)) : Option Operator :=
  match field fields "operator" with
  | some (.str operator) =>
    if operator = codes "equals" then
      if onlyNames fields ["id", "pointer", "operator", "value"] then (field fields "value").map .equals else none
    else if operator = codes "allowed_values" then
      match onlyNames fields ["id", "pointer", "operator", "values"], field fields "values" with
      | true, some (.list values) => some (.allowedValues values)
      | _, _ => none
    else if operator = codes "number_range" then
      match onlyNames fields ["id", "pointer", "operator", "minimum", "maximum"], boundField (field fields "minimum"),
        boundField (field fields "maximum") with
      | true, some minimum, some maximum => some (.numberRange minimum maximum)
      | _, _, _ => none
    else if operator = codes "string_prefix" then
      if onlyNames fields ["id", "pointer", "operator", "prefix"] then (strField (field fields "prefix")).map .stringPrefix else none
    else none
  | _ => none

variable (exact)

def parseRule : Value → Option (Rule exact)
  | .dict fields =>
    match parseOperator fields, strField (field fields "id"), strField (field fields "pointer") with
    | some operator, some id, some pointer =>
      if h : idSupported id = true ∧ pointerSupported pointer = true ∧ operator.supported exact = true then
        some ⟨id, pointer, operator, h.1, h.2.1, h.2.2⟩
      else none
    | _, _, _ => none
  | _ => none

/-! ## Validation -/

structure PolicyError where
  code : String
  status : Nat := 422
  deriving DecidableEq

def maxPolicyBytes : Nat := 65536

def limits : Limits := ⟨maxPolicyBytes, 8192, 24⟩

def invalid : PolicyError := { code := "argument_policy_invalid" }

def listItems : Value → Option (List Value)
  | .list items => some items
  | _ => none

def validateRules (value : Value) : Except PolicyError (List (Rule exact)) := do
  let _ ← (checkedJsonSize value limits).mapError fun _ => invalid
  let items ← expect (listItems value) invalid
  let parsed ← expect (items.mapM (parseRule exact)) invalid
  require (parsed.length ≤ 64 && (parsed.map Rule.id).Nodup) invalid
  return parsed

structure PolicyWrite where
  expectedRevision : Int
  enabled : Bool
  rules : List (Rule exact)
  revisionValid : 0 ≤ expectedRevision ∧ expectedRevision ≤ 2147483646
  countValid : rules.length ≤ 64
  supported : ∃ parsed, validateRules exact (modelDumps rules) = .ok parsed

/-! ## The store -/

structure Row where
  toolId : String
  enabled : Int
  revision : Int
  rulesJson : String
  deriving DecidableEq

abbrev Store := Table Row Row.toolId

/-- The revision that a save must name. -/
def revision (store : Store) (toolId : String) : Int :=
  match store.find toolId with
  | none => 0
  | some row => row.revision

variable {exact}

def storedPolicyInvalid (row : Row) : ArgumentPolicyDenied := { policyRevision := row.revision, reason := "stored_policy_invalid" }

/-- `current` -/
def current (exact : FloatRepr → ℚ) (store : Store) (toolId : String) : Except ArgumentPolicyDenied (ArgumentPolicy exact) :=
  match store.find toolId with
  | none => .ok {}
  | some row => do
    require ((row.enabled = 0 || row.enabled = 1) && 1 ≤ row.revision && row.rulesJson.length ≤ maxPolicyBytes) (storedPolicyInvalid row)
    let value ← expect (loads float row.rulesJson) (storedPolicyInvalid row)
    let rules ← (validateRules exact value).mapError fun _ => storedPolicyInvalid row
    return { enabled := row.enabled = 1, revision := row.revision, rules }

/-- `json.dumps(…, ensure_ascii=False, separators=(",", ":"), allow_nan=False)` -/
def dumps (value : Value) : Option String := (json false value).map Json.compact

/-- One request, and whether its authorization and its event raise. -/
structure Save (exact : FloatRepr → ℚ) where
  toolId : String
  body : PolicyWrite exact
  authorized : Bool
  recorded : Bool

inductive SaveError
  | text
  | authorization
  | policy (error : PolicyError)
  | event
  deriving DecidableEq

def revisionConflict : SaveError := .policy ⟨"argument_policy_revision_conflict", 409⟩

/-- `save`: the store after the transaction, and the policy that is returned. -/
def save (store : Store) (s : Save exact) : Except SaveError (Store × ArgumentPolicy exact) := do
  let rules ← expect (dumps (modelDumps s.body.rules)) .text
  require s.authorized .authorization
  require (revision store s.toolId = s.body.expectedRevision) revisionConflict
  let row : Row := ⟨s.toolId, if s.body.enabled then 1 else 0, revision store s.toolId + 1, rules⟩
  let store := store.upsert row (fun old => { row with toolId := old.toolId }) fun _ => rfl
  require s.recorded .event
  return (store, ⟨s.body.enabled, row.revision, s.body.rules⟩)

/-- The store after a request; a failed one is rolled back. -/
def after (store : Store) (s : Save exact) : Store :=
  match save store s with
  | .ok (store, _) => store
  | .error _ => store

def run (store : Store) (saves : List (Save exact)) : Store := saves.foldl after store

/-- The bodies of a tool's saves that succeed, in their order. -/
def successes (toolId : String) : Store → List (Save exact) → List (PolicyWrite exact)
  | _, [] => []
  | store, s :: saves =>
    if s.toolId = toolId && (save store s).toOption.isSome then s.body :: successes toolId (after store s) saves
    else successes toolId (after store s) saves

/-! ## Texts -/

theorem codes_text {s : Text} {t : String} (h : text s = some t) : codes t = s := by
  induction s generalizing t with
  | nil =>
    cases h
    rfl
  | cons code s ih =>
    obtain ⟨ch, t', hch, ht', rfl⟩ := text_cons.mp h
    have hrest := ih ht'
    unfold codes at hrest ⊢
    rw [String.toList_ofList, List.map_cons, hrest]
    exact congrArg (· :: s) (Fin.ext (character_ofNat hch))

theorem codes_injective : Function.Injective codes := by
  intro a b h
  have htext := congrArg text h
  rw [text_codes, text_codes] at htext
  exact Option.some.inj htext

@[simp] theorem codes_inj {a b : String} : codes a = codes b ↔ a = b := codes_injective.eq_iff

@[simp] theorem sameKey_key (a b : String) : sameKey (key a) (key b) = decide (a = b) := by
  rw [Bool.eq_iff_iff, decide_eq_true_eq]
  simp [key, sameKey]

/-! ## What was written is read back -/

mutual

theorem ofJson_json : ∀ {value : Value} {j : Json}, json false value = some j → ofJson j = value
  | .none, _, h => by
    cases h
    rfl
  | .bool _, _, h => by
    cases h
    rfl
  | .int _, _, h => by
    cases h
    rfl
  | .float x, j, h => by
    rw [json] at h
    split at h
    · cases h
      rw [ofJson, dif_pos ⟨x.ascii, x.nonempty⟩]
    · cases h
  | .str s, j, h => by
    obtain ⟨t, ht, rfl⟩ := Option.map_eq_some_iff.mp h
    rw [ofJson, codes_text ht]
  | .list items, j, h => by
    obtain ⟨js, hjs, rfl⟩ := Option.map_eq_some_iff.mp h
    rw [ofJson, ofJson_items hjs]
  | .dict fields, j, h => by
    obtain ⟨kvs, hkvs, rfl⟩ := Option.map_eq_some_iff.mp h
    rw [ofJson, ofJson_fields hkvs]
  | .tuple _, _, h => nomatch h
  | .proxy _, _, h => nomatch h
  | .other, _, h => nomatch h

theorem ofJson_items : ∀ {items : List Value} {js : List Json}, jsonItems false items = some js → ofJsonItems js = items
  | [], _, h => by
    cases h
    rfl
  | child :: items, js, h => by
    obtain ⟨j, js, hj, hjs, rfl⟩ := jsonItems_cons.mp h
    rw [ofJsonItems, ofJson_json hj, ofJson_items hjs]

theorem ofJson_fields : ∀ {fields : List (Value × Value)} {kvs : List (String × Json)}, jsonFields false fields = some kvs →
    ofJsonFields kvs = fields
  | [], _, h => by
    cases h
    rfl
  | (name, child) :: fields, kvs, h => by
    obtain ⟨s, t, j, kvs, rfl, ht, hj, hkvs, rfl⟩ := jsonFields_cons.mp h
    rw [ofJsonFields, codes_text ht, ofJson_json hj, ofJson_fields hkvs]

end

theorem ofJsonFields_keys (kvs : List (String × Json)) :
    (ofJsonFields kvs).map Prod.fst = (kvs.map Prod.fst).map fun name => Value.str (codes name) := by
  induction kvs with
  | nil => rfl
  | cons kv kvs ih => rw [ofJsonFields, List.map_cons, List.map_cons, List.map_cons, ih]

mutual

theorem stable_json : ∀ {value : Value} {j : Json}, json false value = some j → Proper float value →
    JsonRead.Stable ⟨float, JsonRead.uniqueMembers⟩ j
  | .none, _, h, _ => by
    cases h
    trivial
  | .bool _, _, h, _ => by
    cases h
    trivial
  | .int _, _, h, _ => by
    cases h
    trivial
  | .float x, j, h, hproper => by
    rw [json] at h
    split at h
    · cases h
      exact hproper
    · cases h
  | .str s, j, h, _ => by
    obtain ⟨t, -, rfl⟩ := Option.map_eq_some_iff.mp h
    trivial
  | .list items, j, h, hproper => by
    obtain ⟨js, hjs, rfl⟩ := Option.map_eq_some_iff.mp h
    exact stable_items hjs hproper
  | .dict fields, j, h, hproper => by
    obtain ⟨kvs, hkvs, rfl⟩ := Option.map_eq_some_iff.mp h
    refine ⟨?_, stable_fields hkvs hproper.2⟩
    have hkeys := hproper.1
    rw [← ofJson_fields hkvs, ofJsonFields_keys] at hkeys
    exact if_pos hkeys.of_map
  | .tuple _, _, h, _ => nomatch h
  | .proxy _, _, h, _ => nomatch h
  | .other, _, h, _ => nomatch h

theorem stable_items : ∀ {items : List Value} {js : List Json}, jsonItems false items = some js → ProperItems float items →
    JsonRead.StableItems ⟨float, JsonRead.uniqueMembers⟩ js
  | [], _, h, _ => by
    cases h
    trivial
  | child :: items, js, h, hproper => by
    obtain ⟨j, js, hj, hjs, rfl⟩ := jsonItems_cons.mp h
    exact ⟨stable_json hj hproper.1, stable_items hjs hproper.2⟩

theorem stable_fields : ∀ {fields : List (Value × Value)} {kvs : List (String × Json)}, jsonFields false fields = some kvs →
    ProperFields float fields → JsonRead.StableFields ⟨float, JsonRead.uniqueMembers⟩ kvs
  | [], _, h, _ => by
    cases h
    trivial
  | (name, child) :: fields, kvs, h, hproper => by
    obtain ⟨s, t, j, kvs, rfl, ht, hj, hkvs, rfl⟩ := jsonFields_cons.mp h
    exact ⟨stable_json hj hproper.1, stable_fields hkvs hproper.2⟩

end

/-- The text of a value is read back as the value. -/
theorem loads_dumps {float : String → String} {value : Value} {t : String} (h : dumps value = some t) (hproper : Proper float value) :
    loads float t = some value := by
  obtain ⟨j, hj, rfl⟩ := Option.map_eq_some_iff.mp h
  rw [loads, Json.compact, String.toList_ofList, JsonRead.loads_compact (stable_json float hj hproper), Option.map_some, ofJson_json hj]

/-! ## A dumped rule is parsed back -/

theorem text_of_json {fields : List (Value × Value)} (h : (jsonFields false fields).isSome = true) :
    ∀ kv ∈ fields, ∀ s, kv.2 = .str s → (text s).isSome = true := by
  induction fields with
  | nil => simp
  | cons field fields ih =>
    obtain ⟨name, child⟩ := field
    obtain ⟨kvs, hkvs⟩ := Option.isSome_iff_exists.mp h
    obtain ⟨s, t, j, kvs, rfl, -, hj, hrest, rfl⟩ := jsonFields_cons.mp hkvs
    intro kv hkv s' hs'
    rcases List.mem_cons.mp hkv with rfl | hkv
    · obtain rfl : child = .str s' := hs'
      obtain ⟨t', ht', -⟩ := Option.map_eq_some_iff.mp hj
      exact Option.isSome_iff_exists.mpr ⟨t', ht'⟩
    · exact ih (Option.isSome_iff_exists.mpr ⟨kvs, hrest⟩) kv hkv s' hs'

theorem field_cons (name name' : String) (value : Value) (fields : List (Value × Value)) :
    field ((key name, value) :: fields) name' = if name = name' then some value else field fields name' := by
  unfold field
  rw [show key name' = Value.str (codes name') from rfl, get_cons, ← show key name' = Value.str (codes name') from rfl, sameKey_key]
  simp

theorem boundField_bound (b : Option Number) : boundField (some (bound b)) = some b := by
  cases b with
  | none => rfl
  | some n => cases n <;> rfl

theorem parseOperator_modelDump (id pointer : Value) {operator : Operator} (h : ∀ s, operator = .stringPrefix s → (text s).isSome = true) :
    parseOperator ((key "id", id) :: (key "pointer", pointer) :: operator.modelDump) = some operator := by
  cases operator with
  | equals value | allowedValues values => simp [parseOperator, Operator.modelDump, field_cons, onlyNames]
  | numberRange minimum maximum => simp [parseOperator, Operator.modelDump, field_cons, onlyNames, boundField_bound]
  | stringPrefix s => simp [parseOperator, Operator.modelDump, field_cons, onlyNames, strField, h s rfl]

theorem parseRule_modelDump {rule : Rule exact} (h : (json false rule.modelDump).isSome = true) :
    parseRule exact rule.modelDump = some rule := by
  obtain ⟨id, pointer, operator, hid, hpointer, hoperator⟩ := rule
  have htext := text_of_json (Option.isSome_map.symm.trans h)
  have hidText : (text id).isSome = true := htext _ List.mem_cons_self _ rfl
  have hpointerText : (text pointer).isSome = true := htext _ (List.mem_cons_of_mem _ List.mem_cons_self) _ rfl
  have hoperatorText : ∀ s, operator = .stringPrefix s → (text s).isSome = true := by
    rintro s rfl
    exact htext (key "prefix", .str s) (by simp [Operator.modelDump]) s rfl
  have hparse := parseOperator_modelDump (.str id) (.str pointer) hoperatorText
  show parseRule exact (.dict ((key "id", .str id) :: (key "pointer", .str pointer) :: operator.modelDump)) = _
  unfold parseRule
  simp only [hparse]
  simp [field_cons, strField, hidText, hpointerText, hid, hpointer, hoperator]

theorem mapM_parseRule {rules : List (Rule exact)} (h : (jsonItems false (rules.map Rule.modelDump)).isSome = true) :
    (rules.map Rule.modelDump).mapM (parseRule exact) = some rules := by
  induction rules with
  | nil => rfl
  | cons rule rules ih =>
    obtain ⟨js, hjs⟩ := Option.isSome_iff_exists.mp h
    obtain ⟨j, js, hj, hrest, rfl⟩ := jsonItems_cons.mp hjs
    rw [List.map_cons, List.mapM_cons, parseRule_modelDump (Option.isSome_iff_exists.mpr ⟨j, hj⟩),
      ih (Option.isSome_iff_exists.mpr ⟨js, hrest⟩)]
    rfl

/-- The rules of a valid body are what their own dump is parsed to. -/
theorem validate_modelDumps {rules : List (Rule exact)} (h : ∃ parsed, validateRules exact (modelDumps rules) = .ok parsed) :
    validateRules exact (modelDumps rules) = .ok rules ∧ ∃ j, json false (modelDumps rules) = some j ∧ Within limits j := by
  obtain ⟨parsed, hparsed⟩ := h
  have hok := hparsed
  simp only [validateRules, bind_eq_ok, expect_eq_ok, require_eq_ok, pure_eq_ok] at hok
  obtain ⟨n, hsize, items, hitems, parsed', hmap, -, -, rfl⟩ := hok
  obtain ⟨j, hj, hwithin, -⟩ := checkedJsonSize_ok.mp (mapError_eq_ok.mp hsize)
  obtain rfl := Option.some.inj hitems
  have hsome : (jsonItems false (rules.map Rule.modelDump)).isSome = true := by
    have hlist : json false (.list (rules.map Rule.modelDump)) = some j := hj
    obtain ⟨js, hjs, -⟩ := Option.map_eq_some_iff.mp hlist
    exact Option.isSome_iff_exists.mpr ⟨js, hjs⟩
  rw [mapM_parseRule hsome] at hmap
  obtain rfl := Option.some.inj hmap
  exact ⟨hparsed, j, hj, hwithin⟩

/-! ## Saves -/

/-- The row that a save of this body leaves. -/
def rowOf (toolId : String) (body : PolicyWrite exact) (rules : String) : Row :=
  ⟨toolId, if body.enabled then 1 else 0, body.expectedRevision + 1, rules⟩

variable {policy : ArgumentPolicy exact} {s : Save exact}

variable {store store' : Store}

theorem save_eq_ok : save store s = .ok (store', policy) ↔
      ∃ rules, dumps (modelDumps s.body.rules) = some rules ∧ s.authorized = true ∧ revision store s.toolId = s.body.expectedRevision ∧
        s.recorded = true ∧ (store' = store.upsert (rowOf s.toolId s.body rules)
          (fun old => { rowOf s.toolId s.body rules with toolId := old.toolId }) fun _ => rfl) ∧
        policy = ⟨s.body.enabled, s.body.expectedRevision + 1, s.body.rules⟩ := by
  simp only [save, bind_eq_ok, expect_eq_ok, require_eq_ok, pure_eq_ok, decide_eq_true_eq, Prod.mk.injEq]
  constructor
  · rintro ⟨rules, hrules, _, hauthorized, _, hrevision, _, hrecorded, rfl, rfl⟩
    rw [hrevision]
    exact ⟨rules, hrules, hauthorized, rfl, hrecorded, rfl, rfl⟩
  · rintro ⟨rules, hrules, hauthorized, hrevision, hrecorded, rfl, rfl⟩
    rw [hrevision]
    exact ⟨rules, hrules, (), hauthorized, (), rfl, (), hrecorded, rfl, rfl⟩

theorem find_after_save (h : save store s = .ok (store', policy)) :
    (∃ rules, dumps (modelDumps s.body.rules) = some rules ∧ store'.find s.toolId = some (rowOf s.toolId s.body rules)) ∧
      ∀ toolId, toolId ≠ s.toolId → store'.find toolId = store.find toolId := by
  obtain ⟨rules, hrules, -, -, -, rfl, -⟩ := save_eq_ok.mp h
  constructor
  · refine ⟨rules, hrules, ?_⟩
    rw [Table.find_upsert]
    show (if s.toolId = s.toolId then _ else _) = _
    rw [if_pos rfl]
    cases hfind : store.find s.toolId with
    | none => simp [rowOf, hfind]
    | some old =>
      have hkey : old.toolId = s.toolId := (Table.find_eq_some.mp hfind).2
      simp [rowOf, hfind, hkey]
  · intro toolId hne
    rw [Table.find_upsert]
    exact if_neg hne

variable {store : Store}

/-- **What is saved is read back.** -/
theorem current_of_row {float : String → String} {toolId rules : String} {body : PolicyWrite exact}
    (hproper : Proper float (modelDumps body.rules)) (hrules : dumps (modelDumps body.rules) = some rules)
    (hfind : store.find toolId = some (rowOf toolId body rules)) :
    current float exact store toolId = .ok ⟨body.enabled, body.expectedRevision + 1, body.rules⟩ := by
  obtain ⟨hvalid, j, hj, hwithin⟩ := validate_modelDumps body.supported
  have htext : rules = j.compact := by
    rw [dumps, hj] at hrules
    exact (Option.some.inj hrules).symm
  have hlength : rules.length ≤ maxPolicyBytes := by
    have hbytes : (j.weight : Int) ≤ 65536 := hwithin.bytes
    rw [Json.weight_eq] at hbytes
    have hwidth := Json.length_le_width j.compactChars
    rw [htext, Json.compact, String.length_ofList]
    unfold maxPolicyBytes
    omega
  have hrevision := body.revisionValid.1
  unfold current
  rw [hfind]
  simp only [bind_eq_ok, expect_eq_ok, require_eq_ok, pure_eq_ok]
  refine ⟨(), ?_, modelDumps body.rules, loads_dumps hrules hproper, body.rules, ?_, ?_⟩
  · have hbit : ∀ b : Bool, (decide ((if b then 1 else 0 : Int) = 0) || decide ((if b then 1 else 0 : Int) = 1)) = true := by decide
    rw [Bool.and_eq_true, Bool.and_eq_true]
    exact ⟨⟨hbit body.enabled, decide_eq_true (by show 1 ≤ body.expectedRevision + 1; omega)⟩, decide_eq_true hlength⟩
  · rw [hvalid]
    rfl
  · unfold rowOf
    cases body.enabled <;> rfl

/-! ## Any sequence of saves -/

theorem after_ok (h : save store s = .ok (store', policy)) : after store s = store' := by
  rw [after, h]

theorem after_error {error : SaveError} (h : save store s = .error error) : after store s = store := by
  rw [after, h]

theorem run_append (store : Store) (saves : List (Save exact)) (s : Save exact) :
    run store (saves ++ [s]) = after (run store saves) s := by
  rw [run, run, List.foldl_append]
  rfl

theorem successes_append (toolId : String) (store : Store) (saves : List (Save exact)) (s : Save exact) :
    successes toolId store (saves ++ [s]) = successes toolId store saves ++
      if s.toolId = toolId && (save (run store saves) s).toOption.isSome then [s.body] else [] := by
  induction saves generalizing store with
  | nil => rfl
  | cons first saves ih =>
    have hrun : run store (first :: saves) = run (after store first) saves := rfl
    rw [List.cons_append, successes, successes, ih, hrun]
    split <;> rfl

variable {toolId : String}

theorem revision_of_find {row : Row} (h : store.find toolId = some row) : revision store toolId = row.revision := by
  rw [revision, h]

/-- What a run has made of the row of a tool. -/
structure Kept (toolId : String) (before after : Store) (bodies : List (PolicyWrite exact)) : Prop where
  counted : revision after toolId = revision before toolId + bodies.length
  last : ∀ body ∈ bodies.getLast?, ∃ rules, dumps (modelDumps body.rules) = some rules ∧
    after.find toolId = some (rowOf toolId body rules)

theorem kept_save {before store : Store} {bodies : List (PolicyWrite exact)} (h : Kept toolId before store bodies)
    (s : Save exact) : Kept toolId before (after store s)
      (bodies ++ if s.toolId = toolId && (save store s).toOption.isSome then [s.body] else []) := by
  cases hsave : save store s with
  | error error =>
    rw [after_error hsave]
    have hnone : (s.toolId = toolId && (Except.error error : Except SaveError (Store × ArgumentPolicy exact)).toOption.isSome) = false := by
      simp [Except.toOption]
    rw [hnone]
    simpa using h
  | ok result =>
    obtain ⟨store', policy⟩ := result
    rw [after_ok hsave]
    obtain ⟨⟨rules, hrules, hrow⟩, hother⟩ := find_after_save hsave
    by_cases htool : s.toolId = toolId
    · have hsome : (s.toolId = toolId && (Except.ok (store', policy) : Except SaveError _).toOption.isSome) = true := by
        simp [htool, Except.toOption]
      obtain ⟨_, -, -, hrevision, -⟩ := save_eq_ok.mp hsave
      rw [if_pos hsome]
      subst htool
      constructor
      · rw [revision_of_find hrow, List.length_append, List.length_singleton]
        have hcounted := h.counted
        rw [hrevision] at hcounted
        show s.body.expectedRevision + 1 = _
        omega
      · intro body hbody
        obtain rfl : s.body = body := by simpa using hbody
        exact ⟨rules, hrules, hrow⟩
    have hnone : (s.toolId = toolId && (Except.ok (store', policy) : Except SaveError _).toOption.isSome) = false := by
      simp [htool]
    have hfind := hother toolId (Ne.symm htool)
    rw [hnone]
    simp only [Bool.false_eq_true, if_false, List.append_nil]
    exact ⟨by rw [revision, hfind]; exact h.counted, fun body hbody => by rw [hfind]; exact h.last body hbody⟩

theorem kept_run (toolId : String) (store : Store) (saves : List (Save exact)) :
    Kept toolId store (run store saves) (successes toolId store saves) := by
  induction saves using List.reverseRecOn with
  | nil => exact ⟨by simp [run, successes], by simp [successes]⟩
  | append_singleton saves s ih =>
    rw [run_append, successes_append]
    exact kept_save ih s

theorem mem_successes {saves : List (Save exact)} {body : PolicyWrite exact}
    (h : body ∈ successes toolId store saves) : ∃ s ∈ saves, s.body = body := by
  induction saves generalizing store with
  | nil => cases h
  | cons s saves ih =>
    have hrest : body ∈ successes toolId (after store s) saves → ∃ t ∈ s :: saves, t.body = body := by
      intro hmem
      obtain ⟨t, ht, heq⟩ := ih hmem
      exact ⟨t, List.mem_cons_of_mem _ ht, heq⟩
    rw [successes] at h
    split at h
    · rcases List.mem_cons.mp h with rfl | h
      · exact ⟨s, List.mem_cons_self, rfl⟩
      · exact hrest h
    · exact hrest h

/-- **A policy that was saved is the one that is read.** In every run of saves, from any store, the revision of a tool grows by one
with each save that succeeds, the last of them is what `current` returns, a save at any other revision changes nothing, and one
at this revision succeeds unless its authorization or its event raises. -/
theorem policies_never_lock_out {float : String → String} (store : Store) {saves : List (Save exact)}
    (hproper : ∀ s ∈ saves, Proper float (modelDumps s.body.rules)) (toolId : String) :
    revision (run store saves) toolId = revision store toolId + (successes toolId store saves).length ∧
    (∀ body ∈ (successes toolId store saves).getLast?, revision (run store saves) toolId = body.expectedRevision + 1 ∧
      current float exact (run store saves) toolId = .ok ⟨body.enabled, body.expectedRevision + 1, body.rules⟩) ∧
    (∀ s : Save exact, s.body.expectedRevision ≠ revision (run store saves) s.toolId →
      (∃ error, save (run store saves) s = .error error) ∧ after (run store saves) s = run store saves) ∧
    ∀ s : Save exact, s.body.expectedRevision = revision (run store saves) s.toolId → s.authorized = true → s.recorded = true →
      ∃ result, save (run store saves) s = .ok result := by
  have hkept := kept_run toolId store saves
  refine ⟨hkept.counted, ?_, ?_, ?_⟩
  · intro body hbody
    obtain ⟨rules, hrules, hfind⟩ := hkept.last body hbody
    obtain ⟨s, hs, rfl⟩ := mem_successes (List.mem_of_getLast? hbody)
    exact ⟨revision_of_find hfind, current_of_row (hproper s hs) hrules hfind⟩
  · intro s hne
    cases hsave : save (run store saves) s with
    | error error => exact ⟨⟨error, rfl⟩, after_error hsave⟩
    | ok result =>
      obtain ⟨_, -, -, hrevision, -⟩ := save_eq_ok.mp hsave
      exact absurd hrevision.symm hne
  intro s hrevision hauthorized hrecorded
  obtain ⟨-, j, hj, -⟩ := validate_modelDumps s.body.supported
  have hdumps : dumps (modelDumps s.body.rules) = some j.compact := by
    rw [dumps, hj]
    rfl
  exact ⟨_, save_eq_ok.mpr ⟨_, hdumps, hauthorized, hrevision.symm, hrecorded, rfl, rfl⟩⟩

theorem half_ascii : ("0.5".toList.all fun c => decide (c.toNat < 128)) = true := by decide +kernel

def half : FloatRepr := ⟨"0.5", fun c hc => of_decide_eq_true (List.all_eq_true.mp half_ascii c hc), by decide⟩

/-- The member `a` of the arguments is `\x7b"b": 0.5\x7d`. -/
def halfRule : Rule fun _ => (1 : ℚ) / 2 where
  id := [114]
  pointer := [47, 97]
  operator := .equals (.dict [(.str [98], .float half)])
  idValid := r_supported
  pointerValid := by decide
  operatorValid := by decide

def halfBody : PolicyWrite fun _ => (1 : ℚ) / 2 where
  expectedRevision := 0
  enabled := true
  rules := [halfRule]
  revisionValid := by decide
  countValid := by decide
  supported := by
    have hsome : (validateRules (fun _ => (1 : ℚ) / 2) (modelDumps [halfRule])).toOption.isSome = true := by decide +kernel
    cases hresult : validateRules (fun _ => (1 : ℚ) / 2) (modelDumps [halfRule]) with
    | error error =>
      rw [hresult] at hsome
      cases hsome
    | ok parsed => exact ⟨parsed, rfl⟩

def halfSave : Save fun _ => (1 : ℚ) / 2 := ⟨"tool", halfBody, true, true⟩

theorem policies_never_lock_out_half : current id (fun _ => (1 : ℚ) / 2) (run ∅ [halfSave]) "tool" = .ok ⟨true, 1, [halfRule]⟩ := by
  have hproper : ∀ s ∈ [halfSave], Proper id (modelDumps s.body.rules) := by
    intro s hs
    obtain rfl := List.mem_singleton.mp hs
    have hfloat : half.text.toList.all JsonRead.isNumberChar = true ∧
        JsonRead.numberValue ⟨id, JsonRead.uniqueMembers⟩ half.text.toList = some (.float half.text) := ⟨by decide +kernel, rfl⟩
    have hkeys : (((key "id", Value.str [114]) :: (key "pointer", .str [47, 97]) :: halfRule.operator.modelDump).map Prod.fst).Nodup := by
      simp [Operator.modelDump, halfRule, key]
    exact ⟨⟨hkeys, trivial, trivial, trivial, ⟨by simp, hfloat, trivial⟩, trivial⟩, trivial⟩
  have hlast : halfBody ∈ (successes "tool" ∅ [halfSave]).getLast? := by
    have hsave : (save ∅ halfSave).toOption.isSome = true := by decide +kernel
    have hsuccess : successes "tool" ∅ [halfSave] = [halfBody] := by
      show (if "tool" = "tool" && (save ∅ halfSave).toOption.isSome then _ else _) = _
      rw [hsave]
      rfl
    rw [hsuccess]
    rfl
  exact ((policies_never_lock_out ∅ hproper "tool").2.1 halfBody hlast).2

end LingshuGate.Policies

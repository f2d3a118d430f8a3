import LingshuGate.Tools.Measure

/-!
# Frozen tool definitions (`domain/tool_structure.py`)

| here | there |
| --- | --- |
| `ToolDefinition`        | `ToolDefinition` (models.py:39) |
| `checkToolStructure`, `checkOutput` | `check_tool_structure` (tool_structure.py:97), its lines 102-105 |
| `FrozenToolDefinition`, `copyDefinition` | `FrozenToolDefinition`, `copy_definition` (126, 136) |
| `freezeToolDefinition`, `checkFrozenOutput` | `freeze_tool_definition` (141), its lines 153-158 |

`envelope` is the `data` that both build of a definition; with two `None`s it is the `headers`. The size of the envelope is put
together from the headers and the two frozen parts, and the headers have a limit of their own: a definition whose two parts are
empty has headers that are longer than its envelope.
-/

namespace LingshuGate.Structure

open Lib
open Lib.Json (quoteWeight weight)

structure ToolDefinition where
  id : List CodePoint
  name : List CodePoint
  description : List CodePoint
  permission : List CodePoint
  source : List CodePoint
  inputSchema : Value
  metadata : Value

def maxMetadataBytes : Nat := 256 * 1024
def maxToolStructureBytes : Nat := 512 * 1024

def metadataLimits : Limits := ⟨maxMetadataBytes, maxSchemaNodes * 2, maxSchemaDepth + 1⟩
def toolLimits : Limits := ⟨maxToolStructureBytes, maxSchemaNodes * 3, maxSchemaDepth + 2⟩

/-- The code points of a text. -/
def codes (t : String) : List CodePoint := t.toList.map fun ch => ⟨ch.toNat, by
  have hvalid : ch.toNat < 0xD800 ∨ 0xDFFF < ch.toNat ∧ ch.toNat < 0x110000 := ch.valid
  omega⟩

/-- The seven fields, with these values for the two that are nested. -/
def ToolDefinition.fields (d : ToolDefinition) (inputSchema metadata : Value) : Value :=
  .dict [(.str (codes "id"), .str d.id), (.str (codes "name"), .str d.name), (.str (codes "description"), .str d.description),
    (.str (codes "permission"), .str d.permission), (.str (codes "source"), .str d.source),
    (.str (codes "input_schema"), inputSchema), (.str (codes "metadata"), metadata)]

def ToolDefinition.envelope (d : ToolDefinition) : Value := d.fields d.inputSchema d.metadata

def ToolDefinition.headers (d : ToolDefinition) : Value := d.fields .none .none

/-- `isinstance(value, dict)` -/
def isDict : Value → Bool
  | .dict _ => true
  | _ => false

/-- `isinstance(value, Mapping)` -/
def isMapping : Value → Bool
  | .dict _ | .proxy _ => true
  | _ => false

def isKey (key : String) : Value → Bool
  | .str s => s = codes key
  | _ => false

/-- `value[key]` if `key in value`. -/
def item (key : String) : Value → Option Value
  | .dict fields | .proxy fields => (fields.find? fun kv => isKey key kv.1).map (·.2)
  | _ => none

def checkOutput (metadata : Value) : Except String Unit :=
  match item "outputSchema" metadata with
  | none => .ok ()
  | some output => do
    require (isDict output) "tool_output_schema_non_object"
    let _ ← checkedJsonSize output schemaLimits

def checkToolStructure (d : ToolDefinition) : Except String Nat := do
  require (isDict d.inputSchema && isDict d.metadata) "tool_structure_non_object"
  let _ ← checkedJsonSize d.inputSchema schemaLimits
  checkOutput d.metadata
  let _ ← checkedJsonSize d.metadata metadataLimits
  checkedJsonSize d.envelope toolLimits

structure FrozenToolDefinition where
  id : List CodePoint
  name : List CodePoint
  description : List CodePoint
  permission : List CodePoint
  source : List CodePoint
  inputSchema : Value
  metadata : Value
  byteCount : Nat

def FrozenToolDefinition.copyDefinition (f : FrozenToolDefinition) : ToolDefinition where
  id := f.id
  name := f.name
  description := f.description
  permission := f.permission
  source := f.source
  inputSchema := copyJson f.inputSchema
  metadata := copyJson f.metadata

def checkFrozenOutput (metadata : Value) : Except String Unit :=
  match item "outputSchema" metadata with
  | none => .ok ()
  | some output => do
    require (isMapping output) "tool_output_schema_non_object"
    let _ ← walkJson { schemaLimits with freeze := false, immutable := true } output

def freezeToolDefinition (d : ToolDefinition) : Except String FrozenToolDefinition := do
  let _ ← checkToolStructure d
  let (inputBytes, inputSchema) ← freezeJson d.inputSchema schemaLimits
  let (metadataBytes, metadata) ← freezeJson d.metadata metadataLimits
  checkFrozenOutput metadata
  let headerBytes ← checkedJsonSize d.headers { schemaLimits with maxBytes := maxToolStructureBytes }
  let byteCount := headerBytes + inputBytes + metadataBytes - 8
  require (byteCount ≤ maxToolStructureBytes) sizeLimit
  return ⟨d.id, d.name, d.description, d.permission, d.source, inputSchema, metadata, byteCount⟩

/-! ## The frozen parts -/

mutual

/-- What was frozen of a JSON value is the same value, in immutable containers. -/
theorem json_frozen : ∀ {value : Value} {j : Json}, json false value = some j → json true (frozen value) = some j
  | .dict fields, j, h => by
    obtain ⟨kvs, hkvs, rfl⟩ := Option.map_eq_some_iff.mp h
    rw [frozen, json, if_pos rfl, jsonFields_frozen hkvs, Option.map_some]
  | .list items, j, h => by
    obtain ⟨js, hjs, rfl⟩ := Option.map_eq_some_iff.mp h
    rw [frozen, json, if_pos rfl, jsonItems_frozen hjs, Option.map_some]
  | .tuple _, _, h => nomatch h
  | .proxy _, _, h => nomatch h
  | .none, _, h => h
  | .bool _, _, h => h
  | .int _, _, h => h
  | .float _, _, h => h
  | .str _, _, h => h
  | .other, _, h => h

theorem jsonItems_frozen : ∀ {items : List Value} {js : List Json}, jsonItems false items = some js →
    jsonItems true (frozenItems items) = some js
  | [], _, h => h
  | child :: items, js, h => by
    obtain ⟨j, js, hj, hjs, rfl⟩ := jsonItems_cons.mp h
    exact jsonItems_cons.mpr ⟨j, js, json_frozen hj, jsonItems_frozen hjs, rfl⟩

theorem jsonFields_frozen : ∀ {fields : List (Value × Value)} {kvs : List (String × Json)}, jsonFields false fields = some kvs →
    jsonFields true (frozenFields fields) = some kvs
  | [], _, h => h
  | (key, child) :: fields, kvs, h => by
    obtain ⟨s, t, j, kvs, hkey, ht, hj, hkvs, rfl⟩ := jsonFields_cons.mp h
    exact jsonFields_cons.mpr ⟨s, t, j, kvs, hkey, ht, json_frozen hj, jsonFields_frozen hkvs, rfl⟩

end

theorem item_frozen (key : String) (fields : List (Value × Value)) :
    item key (frozen (.dict fields)) = (item key (.dict fields)).map frozen := by
  simp only [frozen, item]
  induction fields with
  | nil => rfl
  | cons field fields ih =>
    obtain ⟨k, child⟩ := field
    rw [frozenFields, List.find?_cons, List.find?_cons]
    cases isKey key k with
    | true => rfl
    | false => exact ih

variable {j : Json}

variable {value : Value}

/-- The output schema is refused in its frozen form where it is refused in the other. -/
theorem isMapping_frozen (h : json false value = some j) : isMapping (frozen value) = isDict value := by
  cases value with
  | dict fields | list items | none | bool b | int n | float x | str s | other => rfl
  | tuple items | proxy fields => cases h

/-! ## The envelope -/

/-- The five fields that are strings. -/
structure Texts where
  id : String
  name : String
  description : String
  permission : String
  source : String

def ToolDefinition.texts (d : ToolDefinition) : Option Texts := do
  let id ← text d.id
  let name ← text d.name
  let description ← text d.description
  let permission ← text d.permission
  let source ← text d.source
  return ⟨id, name, description, permission, source⟩

def Texts.object (t : Texts) (inputSchema metadata : Json) : Json :=
  .obj [("id", .str t.id), ("name", .str t.name), ("description", .str t.description), ("permission", .str t.permission),
    ("source", .str t.source), ("input_schema", inputSchema), ("metadata", metadata)]

variable {d : ToolDefinition} {t : Texts}

theorem text_codes (key : String) : text (codes key) = some key := by
  have hall : ∀ cs : List Char, (cs.map fun ch => (⟨ch.toNat, by
      have hvalid : ch.toNat < 0xD800 ∨ 0xDFFF < ch.toNat ∧ ch.toNat < 0x110000 := ch.valid
      omega⟩ : CodePoint)).mapM character = some cs := by
    intro cs
    induction cs with
    | nil => rfl
    | cons ch cs ih =>
      have hch : ch.toNat.isValidChar := ch.valid
      simp only [List.map_cons, List.mapM_cons, ih, character, if_pos hch, Char.ofNat_toNat]
      rfl
  rw [text, codes, hall, Option.map_some, String.ofList_toList]

theorem fields_json {a b : Value} : json false (d.fields a b) = some j ↔
    ∃ t ja jb, d.texts = some t ∧ json false a = some ja ∧ json false b = some jb ∧ j = t.object ja jb := by
  simp only [ToolDefinition.fields, ToolDefinition.texts, json, Option.map_eq_some_iff, jsonFields, text_codes, Option.bind_eq_bind,
    Option.bind_some, Option.bind_eq_some_iff, Option.pure_def, Option.some.injEq, Texts.object]
  constructor
  · rintro ⟨_, ⟨_, ⟨t₁, h₁, rfl⟩, _, ⟨_, ⟨t₂, h₂, rfl⟩, _, ⟨_, ⟨t₃, h₃, rfl⟩, _, ⟨_, ⟨t₄, h₄, rfl⟩, _, ⟨_, ⟨t₅, h₅, rfl⟩, _,
      ⟨ja, hja, _, ⟨jb, hjb, rfl⟩, rfl⟩, rfl⟩, rfl⟩, rfl⟩, rfl⟩, rfl⟩, rfl⟩
    exact ⟨_, ja, jb, ⟨t₁, h₁, t₂, h₂, t₃, h₃, t₄, h₄, t₅, h₅, rfl⟩, hja, hjb, rfl⟩
  · rintro ⟨_, ja, jb, ⟨t₁, h₁, t₂, h₂, t₃, h₃, t₄, h₄, t₅, h₅, rfl⟩, hja, hjb, rfl⟩
    exact ⟨_, ⟨_, ⟨t₁, h₁, rfl⟩, _, ⟨_, ⟨t₂, h₂, rfl⟩, _, ⟨_, ⟨t₃, h₃, rfl⟩, _, ⟨_, ⟨t₄, h₄, rfl⟩, _, ⟨_, ⟨t₅, h₅, rfl⟩, _,
      ⟨ja, hja, _, ⟨jb, hjb, rfl⟩, rfl⟩, rfl⟩, rfl⟩, rfl⟩, rfl⟩, rfl⟩, rfl⟩

/-- The sizes by parts: two nulls take eight bytes. -/
theorem object_weight (ja jb : Json) : weight (t.object ja jb) + 8 = weight (t.object .null .null) + weight ja + weight jb := by
  simp only [Texts.object, Json.weight_obj, Json.weight_null, List.map_cons, List.map_nil, List.sum_cons, List.sum_nil,
    List.length_cons, List.length_nil]
  omega

theorem headers_within : Within { schemaLimits with maxBytes := maxToolStructureBytes } (t.object .null .null) ↔
    weight (t.object .null .null) ≤ maxToolStructureBytes := by
  have hnodes : (t.object .null .null).nodes = 15 := rfl
  have hdepth : (t.object .null .null).depth = 1 := rfl
  constructor
  · rintro ⟨hbytes, -, -⟩
    exact Int.ofNat_le.mp hbytes
  intro hbytes
  refine ⟨Int.ofNat_le.mpr hbytes, ?_, ?_⟩
  · rw [hnodes]
    decide
  · rw [hdepth]
    decide

theorem weight_json_pos {immutable : Bool} (h : json immutable value = some j) : 1 ≤ weight j := by
  cases value with
  | none =>
    obtain rfl := Option.some.inj h
    decide
  | bool b =>
    obtain rfl := Option.some.inj h
    rw [Json.weight_bool]
    split
    · omega
    · omega
  | int n =>
    obtain rfl := Option.some.inj h
    have hdigits : 0 < (Nat.toDigits 10 n.natAbs).length := Nat.length_toDigits_pos
    rw [Json.weight_int, ← String.length_toList, Json.toString_toList, List.length_append]
    omega
  | float x =>
    simp only [json] at h
    split at h
    · obtain rfl := Option.some.inj h
      have hlength : x.text.toList ≠ [] := by simpa using x.nonempty
      have hpos := List.length_pos_of_ne_nil hlength
      rw [Json.weight_eq, Json.compactChars, Json.width_ascii x.ascii]
      exact hpos
    · cases h
  | str s =>
    obtain ⟨t, -, rfl⟩ := Option.map_eq_some_iff.mp h
    rw [Json.weight_str, Json.quoteWeight_eq]
    omega
  | list items | tuple items =>
    simp only [json] at h
    split at h
    · first
        | cases h
        | obtain ⟨js, -, rfl⟩ := Option.map_eq_some_iff.mp h
          rw [Json.weight_arr]
          omega
    · first
        | cases h
        | obtain ⟨js, -, rfl⟩ := Option.map_eq_some_iff.mp h
          rw [Json.weight_arr]
          omega
  | dict fields =>
    obtain ⟨kvs, -, rfl⟩ := Option.map_eq_some_iff.mp h
    rw [Json.weight_obj]
    omega
  | proxy fields =>
    simp only [json] at h
    split at h
    · obtain ⟨kvs, -, rfl⟩ := Option.map_eq_some_iff.mp h
      rw [Json.weight_obj]
      omega
    · cases h
  | other => cases h

variable {fields : List (Value × Value)}

/-- An object without fields takes two bytes, any other at least six. -/
theorem weight_dict (h : json false (.dict fields) = some j) : weight j = 2 ∧ fields = [] ∨ 6 ≤ weight j ∧ fields ≠ [] := by
  obtain ⟨kvs, hkvs, rfl⟩ := Option.map_eq_some_iff.mp h
  cases fields with
  | nil =>
    obtain rfl := Option.some.inj hkvs
    exact .inl ⟨by rw [Json.weight_obj]; rfl, rfl⟩
  | cons field fields =>
    obtain ⟨s, key, j, kvs, -, -, hj, -, rfl⟩ := jsonFields_cons.mp hkvs
    have hkey : 2 ≤ quoteWeight key := by
      rw [Json.quoteWeight_eq]
      omega
    have hvalue : 1 ≤ weight j := weight_json_pos hj
    refine .inr ⟨?_, by simp⟩
    rw [Json.weight_obj]
    simp only [List.length_cons, List.map_cons, List.sum_cons]
    omega

/-! ## What is accepted -/

/-- The output schema of the metadata, if there is one, is an object within the limits of a schema. -/
def OutputOk (metadata : Value) : Prop := ∀ output, item "outputSchema" metadata = some output →
  isDict output = true ∧ ∃ j, json false output = some j ∧ Within schemaLimits j

theorem checkOutput_ok {metadata : Value} {u : Unit} : checkOutput metadata = .ok u ↔ OutputOk metadata := by
  unfold checkOutput OutputOk
  cases item "outputSchema" metadata with
  | none => simp
  | some output =>
    simp only [bind_eq_ok, require_eq_ok, checkedJsonSize_ok, Option.some.injEq, forall_eq', pure_eq_ok]
    constructor
    · rintro ⟨_, hdict, _, ⟨j, hj, hwithin, -⟩, -⟩
      exact ⟨hdict, j, hj, hwithin⟩
    · rintro ⟨hdict, j, hj, hwithin⟩
      exact ⟨(), hdict, _, ⟨j, hj, hwithin, rfl⟩, trivial⟩

/-- A value found in a JSON object is JSON. -/
theorem json_item {key : String}
    (h : json false (.dict fields) = some j) (hitem : item key (.dict fields) = some value) : ∃ j', json false value = some j' := by
  obtain ⟨kvs, hkvs, -⟩ := Option.map_eq_some_iff.mp h
  obtain ⟨kv, hfind, rfl⟩ := Option.map_eq_some_iff.mp hitem
  have hmem := List.mem_of_find?_eq_some hfind
  clear h hitem hfind
  induction fields generalizing kvs with
  | nil => cases hmem
  | cons field fields ih =>
    obtain ⟨s, t, j, kvs, -, -, hj, hkvs, -⟩ := jsonFields_cons.mp hkvs
    rcases List.mem_cons.mp hmem with rfl | hmem
    · exact ⟨j, hj⟩
    · exact ih kvs hkvs hmem

/-- The frozen output schema is accepted where the other is. -/
theorem checkFrozenOutput_ok {u : Unit} (h : json false (.dict fields) = some j) :
    checkFrozenOutput (frozen (.dict fields)) = .ok u ↔ OutputOk (.dict fields) := by
  unfold checkFrozenOutput OutputOk
  rw [item_frozen]
  cases hitem : item "outputSchema" (.dict fields) with
  | none => simp
  | some output =>
    obtain ⟨jo, hjo⟩ := json_item h hitem
    simp only [Option.map_some, bind_eq_ok, require_eq_ok, Prod.exists, walkJson_ok, Option.some.injEq, forall_eq', pure_eq_ok,
      isMapping_frozen hjo, json_frozen hjo, exists_eq_left']
    constructor
    · rintro ⟨_, hdict, _, _, ⟨hwithin, -, -⟩, -⟩
      exact ⟨hdict, jo, hjo, hwithin⟩
    · rintro ⟨hdict, j, hj, hwithin⟩
      obtain rfl := Option.some.inj (hj.symm.trans hjo)
      exact ⟨(), hdict, _, _, ⟨hwithin, rfl, rfl⟩, trivial⟩

/-- What both traversals ask of a definition with these JSON parts. -/
structure Bounded (d : ToolDefinition) (t : Texts) (ji jm : Json) : Prop where
  input : json false d.inputSchema = some ji
  metadata : json false d.metadata = some jm
  texts : d.texts = some t
  inputDict : isDict d.inputSchema = true
  metadataDict : isDict d.metadata = true
  inputWithin : Within schemaLimits ji
  metadataWithin : Within metadataLimits jm
  output : OutputOk d.metadata
  within : Within toolLimits (t.object ji jm)

theorem checkToolStructure_ok {n : Nat} : checkToolStructure d = .ok n ↔
    ∃ t ji jm, Bounded d t ji jm ∧ n = weight (t.object ji jm) := by
  simp only [checkToolStructure, bind_eq_ok, require_eq_ok, Bool.and_eq_true, checkedJsonSize_ok, checkOutput_ok,
    ToolDefinition.envelope, fields_json]
  constructor
  · rintro ⟨_, ⟨hinput, hmetadata⟩, _, ⟨ji, hji, hjiWithin, -⟩, _, houtput, _, ⟨jm, hjm, hjmWithin, -⟩, j,
      ⟨t, ji', jm', ht, hji', hjm', rfl⟩, hwithin, rfl⟩
    obtain rfl := Option.some.inj (hji'.symm.trans hji)
    obtain rfl := Option.some.inj (hjm'.symm.trans hjm)
    exact ⟨t, ji', jm', ⟨hji, hjm, ht, hinput, hmetadata, hjiWithin, hjmWithin, houtput, hwithin⟩, rfl⟩
  · rintro ⟨t, ji, jm, h, rfl⟩
    exact ⟨(), ⟨h.inputDict, h.metadataDict⟩, _, ⟨ji, h.input, h.inputWithin, rfl⟩, (), h.output, _,
      ⟨jm, h.metadata, h.metadataWithin, rfl⟩, _, ⟨t, ji, jm, h.texts, h.input, h.metadata, rfl⟩, h.within, rfl⟩

theorem freezeToolDefinition_ok {f : FrozenToolDefinition} : freezeToolDefinition d = .ok f ↔
    ∃ t ji jm, Bounded d t ji jm ∧ weight (t.object .null .null) ≤ maxToolStructureBytes ∧
      f = ⟨d.id, d.name, d.description, d.permission, d.source, frozen d.inputSchema, frozen d.metadata, weight (t.object ji jm)⟩ := by
  simp only [freezeToolDefinition, bind_eq_ok, require_eq_ok, Prod.exists, pure_eq_ok, checkToolStructure_ok, freezeJson_ok,
    checkedJsonSize_ok, ToolDefinition.headers, fields_json, decide_eq_true_eq]
  constructor
  · rintro ⟨_, ⟨t, ji, jm, h, -⟩, _, _, ⟨ji', hji, -, rfl, rfl⟩, _, _, ⟨jm', hjm, -, rfl, rfl⟩, _, -, _,
      ⟨jh, ⟨t', _, _, ht, hna, hnb, rfl⟩, hheaders, rfl⟩, _, -, rfl⟩
    obtain rfl := Option.some.inj (hji.symm.trans h.input)
    obtain rfl := Option.some.inj (hjm.symm.trans h.metadata)
    obtain rfl := Option.some.inj (ht.symm.trans h.texts)
    obtain rfl := Option.some.inj hna
    obtain rfl := Option.some.inj hnb
    have hparts := @object_weight t' ji' jm'
    have hcount : weight (t'.object .null .null) + weight ji' + weight jm' - 8 = weight (t'.object ji' jm') := by omega
    exact ⟨t', ji', jm', h, headers_within.mp hheaders, by rw [hcount]⟩
  rintro ⟨t, ji, jm, h, hheaders, rfl⟩
  have hparts := @object_weight t ji jm
  have hcount : weight (t.object .null .null) + weight ji + weight jm - 8 = weight (t.object ji jm) := by omega
  have hmax : weight (t.object ji jm) ≤ maxToolStructureBytes := Int.ofNat_le.mp h.within.bytes
  obtain ⟨fields, hfields⟩ : ∃ fields, d.metadata = .dict fields := by
    have hdict := h.metadataDict
    cases hmetadata : d.metadata with
    | dict fields => exact ⟨fields, rfl⟩
    | none | bool b | int n | float x | str s | list items | tuple items | proxy fields | other =>
      rw [hmetadata] at hdict
      cases hdict
  have houtput : checkFrozenOutput (frozen d.metadata) = .ok () := by
    have hjm := h.metadata
    have hok := h.output
    rw [hfields] at hjm hok ⊢
    exact (checkFrozenOutput_ok hjm).mpr hok
  refine ⟨_, ⟨t, ji, jm, h, rfl⟩, _, _, ⟨ji, h.input, h.inputWithin, rfl, rfl⟩, _, _, ⟨jm, h.metadata, h.metadataWithin, rfl, rfl⟩,
    (), houtput, _, ⟨_, ⟨t, .null, .null, h.texts, rfl, rfl, rfl⟩, headers_within.mpr hheaders, rfl⟩, (), ?_, ?_⟩
  · rw [hcount]
    exact hmax
  · rw [hcount]

theorem copy_frozenDefinition {f : FrozenToolDefinition} (h : freezeToolDefinition d = .ok f) : f.copyDefinition = d := by
  obtain ⟨t, ji, jm, hbounded, -, rfl⟩ := freezeToolDefinition_ok.mp h
  simp only [FrozenToolDefinition.copyDefinition, copy_frozen hbounded.input, copy_frozen hbounded.metadata]

/-- A definition is frozen if it is accepted and its headers have not grown past the limit. -/
theorem freeze_iff : (∃ f, freezeToolDefinition d = .ok f) ↔
    (∃ n, checkToolStructure d = .ok n) ∧ ∀ t, d.texts = some t → weight (t.object .null .null) ≤ maxToolStructureBytes := by
  constructor
  · rintro ⟨f, hf⟩
    obtain ⟨t, ji, jm, h, hheaders, -⟩ := freezeToolDefinition_ok.mp hf
    refine ⟨⟨_, checkToolStructure_ok.mpr ⟨t, ji, jm, h, rfl⟩⟩, ?_⟩
    intro t' ht'
    obtain rfl := Option.some.inj (ht'.symm.trans h.texts)
    exact hheaders
  · rintro ⟨⟨n, hn⟩, hheaders⟩
    obtain ⟨t, ji, jm, h, -⟩ := checkToolStructure_ok.mp hn
    exact ⟨_, freezeToolDefinition_ok.mpr ⟨t, ji, jm, h, hheaders t h.texts, rfl⟩⟩

/-- The headers are longer than the envelope, and the difference takes them over the limit. -/
structure HeadersTooLong (d : ToolDefinition) : Prop where
  input : d.inputSchema = .dict []
  metadata : d.metadata = .dict []
  size : ∃ j, json false d.envelope = some j ∧ maxToolStructureBytes - 4 < (Framing.utf8 j.compact).length ∧
    (Framing.utf8 j.compact).length ≤ maxToolStructureBytes

theorem isDict_eq (h : isDict value = true) : ∃ fields, value = .dict fields := by
  cases value with
  | dict fields => exact ⟨fields, rfl⟩
  | none | bool b | int n | float x | str s | list items | tuple items | proxy fields | other => cases h

/-- An accepted definition has headers past the limit only if both parts are empty. -/
theorem headers_exceed {t : Texts} {ji jm : Json} (h : Bounded d t ji jm) :
    maxToolStructureBytes < weight (t.object .null .null) ↔ HeadersTooLong d := by
  obtain ⟨fields, hfields⟩ := isDict_eq h.inputDict
  obtain ⟨fields', hfields'⟩ := isDict_eq h.metadataDict
  have hinput := weight_dict (hfields ▸ h.input)
  have hmetadata := weight_dict (hfields' ▸ h.metadata)
  have hparts := @object_weight t ji jm
  have hmax : weight (t.object ji jm) ≤ maxToolStructureBytes := Int.ofNat_le.mp h.within.bytes
  have henvelope : json false d.envelope = some (t.object ji jm) := fields_json.mpr ⟨t, ji, jm, h.texts, h.input, h.metadata, rfl⟩
  constructor
  · intro hlong
    rcases hinput with ⟨hi, rfl⟩ | ⟨hi, -⟩
    · rcases hmetadata with ⟨hm, rfl⟩ | ⟨hm, -⟩
      · refine ⟨hfields, hfields', _, henvelope, ?_, hmax⟩
        change 524284 < weight (t.object ji jm)
        change 524288 < weight (t.object .null .null) at hlong
        omega
      · omega
    · rcases hmetadata with ⟨hm, -⟩ | ⟨hm, -⟩
      · omega
      · omega
  rintro ⟨hempty, hempty', j, hj, hlow, -⟩
  obtain rfl := Option.some.inj (hj.symm.trans henvelope)
  change 524284 < weight (t.object ji jm) at hlow
  rcases hinput with ⟨hi, -⟩ | ⟨-, hne⟩
  · rcases hmetadata with ⟨hm, -⟩ | ⟨-, hne⟩
    · change 524288 < weight (t.object .null .null)
      omega
    · rw [hfields'] at hempty'
      exact absurd (Value.dict.inj hempty') hne
  · rw [hfields] at hempty
    exact absurd (Value.dict.inj hempty) hne

/-- Empty parts are accepted with any headers that fit. -/
theorem check_of_headersTooLong (h : HeadersTooLong d) : ∃ t ji jm, Bounded d t ji jm := by
  obtain ⟨hinput, hmetadata, j, hj, -, hmax⟩ := h
  obtain ⟨t, ji, jm, ht, hji, hjm, rfl⟩ := fields_json.mp hj
  refine ⟨t, ji, jm, hji, hjm, ht, by rw [hinput]; rfl, by rw [hmetadata]; rfl, ?_, ?_, ?_, ?_⟩
  · rw [hinput] at hji
    obtain rfl := Option.some.inj hji
    exact ⟨by rw [Json.weight_obj]; decide, by decide, by decide⟩
  · rw [hmetadata] at hjm
    obtain rfl := Option.some.inj hjm
    exact ⟨by rw [Json.weight_obj]; decide, by decide, by decide⟩
  · rw [hmetadata]
    exact nofun
  rw [hinput] at hji
  rw [hmetadata] at hjm
  obtain rfl := Option.some.inj hji
  obtain rfl := Option.some.inj hjm
  have hnodes : (t.object (.obj []) (.obj [])).nodes = 15 := rfl
  have hdepth : (t.object (.obj []) (.obj [])).depth = 1 := rfl
  refine ⟨Int.ofNat_le.mpr hmax, ?_, ?_⟩
  · rw [hnodes]
    decide
  · rw [hdepth]
    decide

/-- What is promised of a definition: a copy of what was frozen is the definition, `byte_count` is the length of its envelope,
freezing the copy gives the same count, and freezing accepts what the check accepts. -/
structure Faithful (d : ToolDefinition) : Prop where
  copy : ∀ f, freezeToolDefinition d = .ok f → f.copyDefinition = d
  count : ∀ f, freezeToolDefinition d = .ok f → ∃ j, json false d.envelope = some j ∧ f.byteCount = (Framing.utf8 j.compact).length
  again : ∀ f, freezeToolDefinition d = .ok f → ∃ f', freezeToolDefinition f.copyDefinition = .ok f' ∧ f'.byteCount = f.byteCount
  accepts : (∃ f, freezeToolDefinition d = .ok f) ↔ ∃ n, checkToolStructure d = .ok n

/-- **Frozen definitions are faithful, but for headers that end within four bytes of the limit.** Only a definition whose schema
and metadata are both empty has headers longer than its envelope; if these four bytes take it over the limit, freezing refuses
what the check has accepted. -/
theorem faithful_iff (d : ToolDefinition) : Faithful d ↔ ¬HeadersTooLong d := by
  constructor
  · rintro ⟨-, -, -, haccepts⟩ hlong
    obtain ⟨t, ji, jm, h⟩ := check_of_headersTooLong hlong
    have hfreeze := freeze_iff.mp (haccepts.mpr ⟨_, checkToolStructure_ok.mpr ⟨t, ji, jm, h, rfl⟩⟩)
    have hexceed := (headers_exceed h).mpr hlong
    have hheaders := hfreeze.2 t h.texts
    omega
  intro hshort
  refine ⟨fun f hf => copy_frozenDefinition hf, ?_, ?_, ?_⟩
  · intro f hf
    obtain ⟨t, ji, jm, h, -, rfl⟩ := freezeToolDefinition_ok.mp hf
    exact ⟨_, fields_json.mpr ⟨t, ji, jm, h.texts, h.input, h.metadata, rfl⟩, rfl⟩
  · intro f hf
    rw [copy_frozenDefinition hf]
    exact ⟨f, hf, rfl⟩
  rw [freeze_iff]
  constructor
  · exact fun h => h.1
  rintro ⟨n, hn⟩
  refine ⟨⟨n, hn⟩, ?_⟩
  intro t ht
  obtain ⟨t', ji, jm, h, -⟩ := checkToolStructure_ok.mp hn
  obtain rfl := Option.some.inj (ht.symm.trans h.texts)
  have hexceed := mt (headers_exceed h).mp hshort
  omega

/-! ## At the limit -/

/-- A definition with nothing but a description. -/
def described (n : Nat) : ToolDefinition where
  id := codes "echo"
  name := codes "echo"
  description := codes (String.ofList (List.replicate n 'x'))
  permission := codes "read"
  source := codes "builtin"
  inputSchema := .dict []
  metadata := .dict []

theorem quoteWeight_replicate (n : Nat) : quoteWeight (String.ofList (List.replicate n 'x')) = 2 + n := by
  have hwidth : Json.width ((List.replicate n 'x').flatMap Json.escape) = n := by
    induction n with
    | zero => rfl
    | succ n ih =>
      have hx : Json.width (Json.escape 'x') = 1 := by decide
      rw [List.replicate_succ, List.flatMap_cons, Json.width_append, ih, hx]
      omega
  rw [Json.quoteWeight_eq, String.toList_ofList, hwidth]

def describedTexts (n : Nat) : Texts := ⟨"echo", "echo", String.ofList (List.replicate n 'x'), "read", "builtin"⟩

theorem described_json (n : Nat) : json false (described n).envelope = some ((describedTexts n).object (.obj []) (.obj [])) := by
  refine fields_json.mpr ⟨describedTexts n, .obj [], .obj [], ?_, rfl, rfl, rfl⟩
  simp only [ToolDefinition.texts, described, text_codes]
  rfl

theorem described_weight (n : Nat) : weight ((describedTexts n).object (.obj []) (.obj [])) = 115 + n := by
  have hsum : ∀ n, weight ((describedTexts n).object (.obj []) (.obj [])) + 2 =
      weight ((describedTexts 0).object (.obj []) (.obj [])) + (2 + n) := by
    intro n
    simp only [Texts.object, describedTexts, Json.weight_obj, Json.weight_str, quoteWeight_replicate, List.map_cons, List.map_nil,
      List.sum_cons, List.sum_nil, List.length_cons, List.length_nil]
    omega
  have hzero : checkedJsonSize (described 0).envelope toolLimits = .ok 115 := by decide +kernel
  obtain ⟨j, hj, -, hweight⟩ := checkedJsonSize_ok.mp hzero
  obtain rfl := Option.some.inj ((described_json 0).symm.trans hj)
  have hn := hsum n
  omega

/-- The check accepts an envelope of 524288 bytes, and freezing refuses it. -/
theorem described_refused : (∃ n, checkToolStructure (described 524173) = .ok n) ∧
    ¬∃ f, freezeToolDefinition (described 524173) = .ok f := by
  have hbytes : (Framing.utf8 ((describedTexts 524173).object (.obj []) (.obj [])).compact).length = 524288 := described_weight 524173
  have hlong : HeadersTooLong (described 524173) := by
    refine ⟨rfl, rfl, _, described_json 524173, ?_, ?_⟩
    · rw [hbytes]
      decide
    · rw [hbytes]
      decide
  obtain ⟨t, ji, jm, h⟩ := check_of_headersTooLong hlong
  refine ⟨⟨_, checkToolStructure_ok.mpr ⟨t, ji, jm, h, rfl⟩⟩, ?_⟩
  intro hfreeze
  have hheaders := (freeze_iff.mp hfreeze).2 t h.texts
  have hexceed := (headers_exceed h).mpr hlong
  omega

end LingshuGate.Structure

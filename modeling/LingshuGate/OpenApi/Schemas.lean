import LingshuGate.Lib.Check
import LingshuGate.Lib.JsonSchema
import LingshuGate.Lib.Percent
import LingshuGate.Lib.Replace
import Mathlib.Logic.Relation

/-!
# Schemas of an OpenAPI document: `SchemaCompiler` (openapi_contract.py:29-92)

`schema` writes out a schema of the document: references are followed, the keywords of OpenAPI 3.0 are rewritten, everything
outside a fixed list of keywords is refused. `Accepts` is what the schema means before that, `JsonSchema.valid` what it means
after.

| here                | there                                                                      |
|---------------------|----------------------------------------------------------------------------|
| `Failure`           | `ServiceConfigError` with its code and location, or any other exception    |
| `schemaIn room`     | `schema` with `33 - room` entries on its stack, past the test of its length |
| `nodes`             | `self.nodes`                                                               |
| `checkSchema`       | `Draft202012Validator.check_schema` does not raise                         |
| `written`           | the value that `schema` finds for a reference (48-53)                      |
| `designates`        | the value that the reference names: a URI fragment is percent-decoded, as  |
|                     | `_expansion` of schema_validation.py:75 does                               |

A compiled schema keeps the meaning of its source except where these two differ (`schema_keeps_iff`).
-/

namespace LingshuGate.OpenApi

open Lib
open Lib.JsonSchema (Fields get pop property member)

inductive Failure
  | refused (code location : String)
  | other
  deriving DecidableEq

abbrev Checked (α : Type) := Except Failure α

/-- openapi_contract.py:13-15 -/
def SCHEMA_KEYS : List String :=
  ["type", "properties", "required", "additionalProperties", "items", "enum", "const", "minimum", "maximum",
    "exclusiveMinimum", "exclusiveMaximum", "minLength", "maxLength", "minItems", "maxItems", "minProperties", "maxProperties",
    "description", "title", "default"]

def TYPES : List String := ["string", "integer", "number", "boolean", "array", "object", "null"]

structure SchemaCompiler where
  document : Json
  legacy : Bool
  checkSchema : Json → Bool

/-- `re.fullmatch(r"3\.[01]\.[0-9]+", version)` -/
def versionSupported (version : String) : Bool :=
  match version.toList with
  | '3' :: '.' :: minor :: '.' :: patch =>
    (minor = '0' || minor = '1') && !patch.isEmpty && patch.all fun c => 48 ≤ c.toNat && c.toNat ≤ 57
  | _ => false

/-- The test of `jsonSchemaDialect`; what has no hash is no member of a set. -/
def dialectSupported (dialect : Option Json) : Checked Unit :=
  match dialect with
  | none => .ok ()
  | some (.str s) =>
    require (s = "https://spec.openapis.org/oas/3.1/dialect/base" || s = "https://json-schema.org/draft/2020-12/schema")
      (.refused "schema_dialect_unsupported" "")
  | some (.arr _) => .error .other
  | some (.obj _) => .error .other
  | some _ => .error (.refused "schema_dialect_unsupported" "")

/-- `SchemaCompiler(document)` -/
def SchemaCompiler.new (checkSchema : Json → Bool) (document : Fields) : Checked SchemaCompiler := do
  let version := match get document "openapi" with
    | some (.str version) => version
    | _ => ""
  require (versionSupported version) (.refused "openapi_version_unsupported" "")
  dialectSupported (get document "jsonSchemaDialect")
  .ok ⟨.obj document, Py.startsWith version "3.0.", checkSchema⟩

/-! ## References -/

/-- `key.replace("~1", "/").replace("~0", "~")` -/
def unescape (token : List Char) : String :=
  String.ofList (Text.replace ['~', '0'] ['~'] (Text.replace ['~', '1'] ['/'] token))

/-- The value at a pointer; nothing but an object is entered. -/
def follow (document : Json) (pointer : List Char) : Option Json :=
  ((Py.splitChars '/' pointer).map unescape).foldlM Json.get? document

/-- Every call of `schema` on a part of a schema. -/
abbrev Visit := Json → String → List String → Nat → Checked (Json × Nat)

def isNumber : Json → Bool
  | .int _ => true
  | .float _ => true
  | _ => false

namespace SchemaCompiler

variable (c : SchemaCompiler)

/-- Where the code looks for a reference. -/
def written (ref : String) : Option Json := follow c.document (ref.toList.drop 2)

/-- openapi_contract.py:45-53 -/
def target (fields : Fields) (ref : Json) (location : String) (stack : List String) : Checked (String × Json) :=
  match ref with
  | .str ref => do
    require (fields.length = 1 && Py.startsWith ref "#/components/schemas/") (.refused "schema_reference_unsupported" location)
    require (ref ∉ stack) (.refused "schema_reference_cycle" location)
    let target ← expect (c.written ref) (.refused "schema_reference_missing" location)
    .ok (ref, target)
  | _ => .error (.refused "schema_reference_unsupported" location)

/-! ## The keywords of OpenAPI 3.0 -/

def nullableRewritten (fields : Fields) (location : String) : Checked Fields :=
  let value := pop fields "nullable"
  match get fields "nullable" with
  | none => .ok value
  | some (.bool false) => .ok value
  | some (.bool true) => match get value "type" with
    | some (.str type) => do
      require (type ≠ "null") (.refused "schema_nullable_requires_type" location)
      .ok (Py.dictSet value "type" (.arr [.str type, .str "null"]))
    | _ => .error (.refused "schema_nullable_requires_type" location)
  | some _ => .error (.refused "schema_nullable_invalid" location)

/-- One turn of the loop over `Minimum` and `Maximum`. -/
def boundRewritten (exclusive bound : String) (value : Fields) (location : String) : Checked Fields :=
  match get value exclusive with
  | none => .ok value
  | some (.bool flag) => match get (pop value exclusive) bound with
    | some limit => do
      require (isNumber limit) (.refused "schema_exclusive_bound_invalid" location)
      .ok (if flag then Py.dictSet (pop (pop value exclusive) bound) exclusive limit else pop value exclusive)
    | none => .error (.refused "schema_exclusive_bound_invalid" location)
  | some _ => .error (.refused "schema_exclusive_bound_invalid" location)

/-- openapi_contract.py:55-68 -/
def rewritten (fields : Fields) (location : String) : Checked Fields :=
  if c.legacy then do
    let value ← nullableRewritten fields location
    let value ← boundRewritten "exclusiveMinimum" "minimum" value location
    boundRewritten "exclusiveMaximum" "maximum" value location
  else .ok fields

/-! ## The other checks -/

def annotated (value : Fields) (location annotation : String) : Checked Unit :=
  match get value annotation with
  | none => .ok ()
  | some (.str text) => require (text.length ≤ 8192) (.refused "schema_annotation_limit" location)
  | some _ => .error (.refused "schema_annotation_limit" location)

/-- The names in a list of types; what is no text is none. -/
def typeNames (kinds : List Json) : List String := kinds.filterMap fun
  | .str name => some name
  | _ => none

def kindsAllowed (kinds : List Json) : Bool :=
  let names := typeNames kinds
  1 ≤ kinds.length && kinds.length ≤ 2 && names.length = kinds.length && names.all (· ∈ TYPES) && decide names.Nodup &&
    (kinds.length = 1 || names.contains "null")

def kindChecked (value : Fields) (location : String) : Checked Unit :=
  match get value "type" with
  | none => .ok ()
  | some .null => .ok ()
  | some (.arr kinds) => require (kindsAllowed kinds) (.refused "schema_type_unsupported" location)
  | some kind => require (kindsAllowed [kind]) (.refused "schema_type_unsupported" location)

/-- openapi_contract.py:69-77 -/
def examined (value : Fields) (location : String) : Checked Unit := do
  require (value.all fun kv => SCHEMA_KEYS.contains kv.1) (.refused "schema_keyword_unsupported" location)
  each (annotated value location) ["description", "title"]
  kindChecked value location

def enumChecked (value : Fields) (location : String) : Checked Unit :=
  match get value "enum" with
  | none => .ok ()
  | some (.arr options) => require (1 ≤ options.length && options.length ≤ 100) (.refused "schema_enum_limit" location)
  | some _ => .error (.refused "schema_enum_limit" location)

/-! ## The parts of a schema -/

/-- The dictionary comprehension over the properties. -/
def eachProperty (visit : Visit) (location : String) (stack : List String) : Fields → Nat → Checked (Fields × Nat)
  | [], nodes => .ok ([], nodes)
  | (key, item) :: rest, nodes => do
    let (schema, nodes) ← visit item (location ++ "/properties/" ++ key) (stack ++ ["property:" ++ key]) nodes
    let (rest, nodes) ← eachProperty visit location stack rest nodes
    .ok ((key, schema) :: rest, nodes)

def properties (visit : Visit) (value : Fields) (location : String) (stack : List String) (nodes : Nat) : Checked (Fields × Nat) :=
  match get value "properties" with
  | none => .ok (value, nodes)
  | some (.obj items) => do
    require (items.length ≤ 256) (.refused "schema_properties_invalid" location)
    let (schemas, nodes) ← eachProperty visit location stack items nodes
    .ok (Py.dictSet value "properties" (.obj schemas), nodes)
  | some _ => .error (.refused "schema_properties_invalid" location)

def items (visit : Visit) (value : Fields) (location : String) (stack : List String) (nodes : Nat) : Checked (Fields × Nat) :=
  match get value "items" with
  | none => .ok (value, nodes)
  | some item => do
    let (schema, nodes) ← visit item (location ++ "/items") (stack ++ ["items"]) nodes
    .ok (Py.dictSet value "items" schema, nodes)

def additional (visit : Visit) (value : Fields) (location : String) (stack : List String) (nodes : Nat) : Checked (Fields × Nat) :=
  match get value "additionalProperties" with
  | none => .ok (value, nodes)
  | some (.bool _) => .ok (value, nodes)
  | some item => do
    let (schema, nodes) ← visit item (location ++ "/additionalProperties") (stack ++ ["additional"]) nodes
    .ok (Py.dictSet value "additionalProperties" schema, nodes)

/-- openapi_contract.py:55-92, a schema that is no reference. -/
def writtenOut (visit : Visit) (fields : Fields) (location : String) (stack : List String) (nodes : Nat) : Checked (Json × Nat) := do
  let value ← c.rewritten fields location
  examined value location
  let (value, nodes) ← properties visit value location stack nodes
  let (value, nodes) ← items visit value location stack nodes
  let (value, nodes) ← additional visit value location stack nodes
  enumChecked value location
  require (c.checkSchema (.obj value)) (.refused "schema_invalid" location)
  .ok (.obj value, nodes)

/-- `schema`, with room for so many entries more on the stack than it has. -/
def schemaIn : Nat → Visit
  | 0, _, location, _, _ => .error (.refused "schema_complexity_limit" location)
  | room + 1, raw, location, stack, nodes => do
    require (nodes + 1 ≤ 10000) (.refused "schema_complexity_limit" location)
    match raw with
    | .obj fields => match get fields "$ref" with
      | some ref => do
        let (ref, target) ← c.target fields ref location stack
        schemaIn room target location (stack ++ [ref]) (nodes + 1)
      | none => c.writtenOut (schemaIn room) fields location stack (nodes + 1)
    | _ => .error (.refused "schema_object_required" location)

/-- `compiler.schema(raw, location)`: the stack is empty, and it may have 32 entries. -/
def schema (raw : Json) (location : String) (nodes : Nat) : Checked (Json × Nat) := c.schemaIn 33 raw location [] nodes

end SchemaCompiler

end LingshuGate.OpenApi

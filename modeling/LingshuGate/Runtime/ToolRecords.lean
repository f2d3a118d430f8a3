import LingshuGate.Groups.Catalog

/-!
# The tools of a server (`mcp_runtime.py`, `registry.py`)

| here | there |
| --- | --- |
| `describe`               | the checks of one entry of `tools/list` (mcp_runtime.py:1337) |
| `mcpToolRecords`         | `_mcp_tool_records` (1325) |
| `Registry`               | `_tools` and `_unavailable_structures` of `ToolRegistry` (registry.py:161) |
| `Registry.unregister`    | `unregister_by_metadata("server_id", …, source="mcp", retire=False)` (253) |
| `Registry.replace`       | `replace_by_metadata("server_id", …, source="mcp")` (308) |
| `Registry.register`      | `register` without `replace` (201) |

`tools/list` is read leniently at a start and strictly where an open connection is read again. `mcpToolRecords_strict`:
what the strict reading accepts, the lenient one reads the same way.

A handler is its server and the name of its tool, both in the metadata of the definition.
-/

namespace LingshuGate.Runtime

open Lib Groups

/-! ## Reading `tools/list` -/

/-- What a definition takes from the manifest of its server. -/
structure Origin where
  serverId : String
  serverName : String
  launchType : String
  transportType : String
  /-- `_permission_from_manifest` (1752). -/
  permission : String

/-- `tool.get(key) or default`, in a field that must be a text. -/
def textOr (value : Option Json) (default : String) : Option String :=
  match value with
  | none => some default
  | some v => if v.truthy then match v with
      | .str s => some s
      | _ => none
    else some default

/-- `tool.get(key, default)` where an object is asked for; strict reading raises for anything else. -/
def objectOr (strict : Bool) (value : Option Json) (default : List (String × Json)) : Option (List (String × Json)) :=
  match value with
  | none => some default
  | some (.obj fields) => some fields
  | some _ => if strict then none else some default

/-- `tool.get("inputSchema")`, where `None` is no schema either. -/
def inputSchema (tool : Json) : Option Json :=
  match tool.get? "inputSchema" with
  | some .null => none
  | value => value

/-- `{"outputSchema": …}` if there is one; it must be an object. -/
def outputMetadata (tool : Json) : Option (List (String × Json)) :=
  match tool.get? "outputSchema" with
  | none => some []
  | some (.obj fields) => some [("outputSchema", .obj fields)]
  | some _ => none

/-- `{key: tool[field]}` if the field is there. -/
def carried (tool : Json) (field key : String) : List (String × Json) :=
  ((tool.get? field).map fun value => (key, value)).toList

/-- `name.strip()` of an object that has a name. -/
def toolName (tool : Json) : Option String :=
  if tool.isObject then
    match tool.get? "name" with
    | some (.str s) => if Py.strip s = "" then none else some (Py.strip s)
    | _ => none
  else none

/-- The definition of one tool; `none` is an exception. `admits` is `check_tool_structure`. -/
def describe (o : Origin) (admits : Tool → Bool) (strict : Bool) (name : String) (tool : Json) : Option Tool := do
  let schema ← objectOr strict (inputSchema tool) [("type", .str "object"), ("properties", .obj [])]
  let annotations ← objectOr strict (tool.get? "annotations") []
  let output ← outputMetadata tool
  let title ← textOr (tool.get? "title") name
  let description ← textOr (tool.get? "description") ("MCP tool " ++ name ++ " from " ++ o.serverId)
  let definition : Tool :=
    { id := "mcp." ++ o.serverId ++ "." ++ name
      name := title
      description := description
      permission := o.permission
      source := "mcp"
      inputSchema := .obj schema
      metadata := [("server_id", .str o.serverId), ("server_name", .str o.serverName), ("launch_type", .str o.launchType),
        ("transport_type", .str o.transportType), ("original_tool_name", .str name), ("annotations", .obj annotations)] ++
          carried tool "_meta" "_meta" ++ carried tool "version" "contract_version" ++ output }
  if admits definition then some definition else none

/-- The records so far, and `seen_names`. -/
structure Reading where
  records : List Tool := []
  seen : List String := []

/-- A name that was there before: the strict reading raises, the lenient one drops what it had. -/
def Reading.forget (strict : Bool) (r : Reading) (name : String) : Option (List Tool) :=
  if r.seen.contains name then
    if strict then none else some (r.records.filter fun t => t.originalToolName ≠ some name)
  else some r.records

/-- One turn of the loop. -/
def readTool (o : Origin) (admits : Tool → Bool) (strict : Bool) (r : Reading) (tool : Json) : Option Reading :=
  match toolName tool with
  | none => if strict then none else some r
  | some name => do
    let records ← r.forget strict name
    let definition ← describe o admits strict name tool
    return ⟨records ++ [definition], name :: r.seen⟩

def mcpToolRecords (o : Origin) (admits : Tool → Bool) (strict : Bool) (tools : List Json) : Option (List Tool) :=
  (tools.foldlM (readTool o admits strict) {}).map Reading.records

variable {o : Origin} {admits : Tool → Bool}

theorem objectOr_strict {value : Option Json} {default fields : List (String × Json)}
    (h : objectOr true value default = some fields) : objectOr false value default = some fields := by
  unfold objectOr at h ⊢
  split at h
  · exact h
  · exact h
  · cases h

theorem describe_strict {name : String} {tool : Json} {t : Tool} (h : describe o admits true name tool = some t) :
    describe o admits false name tool = some t := by
  unfold describe at h ⊢
  obtain ⟨schema, hschema, h⟩ := Option.bind_eq_some_iff.mp h
  obtain ⟨annotations, hannotations, h⟩ := Option.bind_eq_some_iff.mp h
  exact Option.bind_eq_some_iff.mpr ⟨schema, objectOr_strict hschema,
    Option.bind_eq_some_iff.mpr ⟨annotations, objectOr_strict hannotations, h⟩⟩

theorem readTool_strict {r r' : Reading} {tool : Json} (h : readTool o admits true r tool = some r') :
    readTool o admits false r tool = some r' := by
  unfold readTool at h ⊢
  split at h
  · cases h
  rename_i name _
  obtain ⟨records, hforget, h⟩ := Option.bind_eq_some_iff.mp h
  obtain ⟨definition, hdefinition, h⟩ := Option.bind_eq_some_iff.mp h
  have hseen : r.forget false name = some records := by
    unfold Reading.forget at hforget ⊢
    split at hforget
    · cases hforget
    · next hnew => rw [if_neg hnew, hforget]
  exact Option.bind_eq_some_iff.mpr ⟨records, hseen, Option.bind_eq_some_iff.mpr ⟨definition, describe_strict hdefinition, h⟩⟩

/-- Strict reading only refuses more. -/
theorem mcpToolRecords_strict {tools : List Json} {records : List Tool}
    (h : mcpToolRecords o admits true tools = some records) : mcpToolRecords o admits false tools = some records := by
  unfold mcpToolRecords at h ⊢
  obtain ⟨r, hr, rfl⟩ := Option.map_eq_some_iff.mp h
  refine Option.map_eq_some_iff.mpr ⟨r, ?_, rfl⟩
  suffices hall : ∀ (tools : List Json) (r₀ : Reading), tools.foldlM (readTool o admits true) r₀ = some r →
      tools.foldlM (readTool o admits false) r₀ = some r from hall tools {} hr
  intro tools
  induction tools with
  | nil => exact fun _ h => h
  | cons tool tools ih =>
    intro r₀ h
    rw [List.foldlM_cons] at h ⊢
    obtain ⟨r₁, hstep, h⟩ := Option.bind_eq_some_iff.mp h
    exact Option.bind_eq_some_iff.mpr ⟨r₁, readTool_strict hstep, ih r₁ h⟩

/-! ## The registry -/

/-- The tools, and the definitions of those that went offline. -/
structure Registry where
  tools : List Tool := []
  unavailable : List Tool := []

/-- `record.definition.metadata.get("server_id") == server_id` and the source is `mcp`. -/
def ofServer (serverId : String) (t : Tool) : Bool := t.source = "mcp" && t.serverId = some serverId

namespace Registry

/-- The MCP tools of a server. -/
def toolsOf (reg : Registry) (serverId : String) : List Tool := reg.tools.filter (ofServer serverId)

def ids (tools : List Tool) : List String := tools.map Tool.id

/-- The tools go offline; their definitions are kept. -/
def unregister (reg : Registry) (serverId : String) : Registry where
  tools := reg.tools.filter fun t => !ofServer serverId t
  unavailable := reg.unavailable.filter (fun t => !(ids (reg.toolsOf serverId)).contains t.id) ++ reg.toolsOf serverId

/-- The checks on the records themselves. -/
def replaceable (admits : Tool → Bool) (serverId : String) (records : List Tool) : Bool :=
  records.all (fun t => admits t && ofServer serverId t) && decide (ids records).Nodup

/-- An id that is to be published belongs to somebody else. -/
def conflicts (reg : Registry) (serverId : String) (records : List Tool) : Bool :=
  records.any fun t => (reg.tools ++ reg.unavailable).any fun t' => t'.id = t.id && !ofServer serverId t'

/-- The tools of the server are replaced at once; `none` is an exception, and nothing is replaced. -/
def replace (admits : Tool → Bool) (reg : Registry) (serverId : String) (records : List Tool) : Option Registry :=
  if replaceable admits serverId records && !reg.conflicts serverId records then
    some ⟨reg.tools.filter (fun t => !ofServer serverId t) ++ records, reg.unavailable.filter fun t => !ofServer serverId t⟩
  else none

def register (admits : Tool → Bool) (reg : Registry) (t : Tool) : Option Registry :=
  if admits t && !(ids reg.tools).contains t.id then
    some ⟨reg.tools ++ [t], reg.unavailable.filter (·.id ≠ t.id)⟩
  else none

variable {reg reg' : Registry} {serverId other : String} {records : List Tool}

@[simp] theorem toolsOf_unregister : (reg.unregister serverId).toolsOf serverId = [] := by
  simp [toolsOf, unregister]

theorem ofServer_other (h : other ≠ serverId) {t : Tool} (ht : ofServer serverId t = true) : ofServer other t = false := by
  simp only [ofServer, Bool.and_eq_true, decide_eq_true_eq] at ht
  simp [ofServer, ht.2, Ne.symm h]

theorem filter_other (h : other ≠ serverId) (tools : List Tool) :
    (tools.filter fun t => !ofServer other t).filter (ofServer serverId) = tools.filter (ofServer serverId) := by
  rw [List.filter_filter]
  refine List.filter_congr fun t _ => ?_
  cases ht : ofServer serverId t with
  | false => rfl
  | true => simp [ofServer_other h ht]

theorem toolsOf_unregister_other (h : other ≠ serverId) : (reg.unregister other).toolsOf serverId = reg.toolsOf serverId :=
  filter_other h reg.tools

/-- A replacement publishes its records and nothing else of the server. -/
theorem toolsOf_replace (h : reg.replace admits serverId records = some reg') : reg'.toolsOf serverId = records := by
  unfold replace at h
  split at h
  · next hok =>
    obtain rfl := Option.some.inj h
    simp only [Bool.and_eq_true, replaceable] at hok
    have hall : records.filter (ofServer serverId) = records :=
      List.filter_eq_self.mpr fun t ht => (Bool.and_eq_true _ _ ▸ List.all_eq_true.mp hok.1.1 t ht).2
    simp [toolsOf, List.filter_append, hall]
  · cases h

theorem toolsOf_replace_other (h : reg.replace admits other records = some reg') (hne : other ≠ serverId) :
    reg'.toolsOf serverId = reg.toolsOf serverId := by
  unfold replace at h
  split at h
  · next hok =>
    obtain rfl := Option.some.inj h
    simp only [Bool.and_eq_true, replaceable] at hok
    have hnone : records.filter (ofServer serverId) = [] := List.filter_eq_nil_iff.mpr fun t ht => by
      have hother := (Bool.and_eq_true _ _ ▸ List.all_eq_true.mp hok.1.1 t ht).2
      simp [ofServer_other (Ne.symm hne) hother]
    rw [toolsOf, List.filter_append, filter_other hne, hnone, List.append_nil, toolsOf]
  · cases h

theorem toolsOf_register {t : Tool} (h : reg.register admits t = some reg') (ht : ofServer serverId t = false) :
    reg'.toolsOf serverId = reg.toolsOf serverId := by
  unfold register at h
  split at h
  · obtain rfl := Option.some.inj h
    simp [toolsOf, List.filter_append, ht]
  · cases h

end Registry

end LingshuGate.Runtime

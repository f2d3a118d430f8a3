import Mathlib.Data.List.DropRight
import LingshuGate.Lib.Base64
import LingshuGate.Lib.Check
import LingshuGate.Lib.Json
import LingshuGate.Lib.Percent
import LingshuGate.Lib.PyText

/-!
# Framing of MCP requests (`transports/http.py`, `protocol/request.py`, `protocol/version.py`)

| here | there |
| --- | --- |
| `encodeHeaderValue`, `decodeHeaderValue` | `encode_header_value`, `decode_header_value` (http.py:287, 301) |
| `buildRequestParams`      | `build_request_params` (request.py:17) |
| `buildProtocolRequest`    | `build_protocol_request` (http.py:251), of a version that is resolved |
| `validateInboundHttpRequest` | `validate_inbound_http_request` (http.py:177) |
| `requireCurrentProtocolVersion` | `require_current_protocol_version` (version.py:25) |

Texts of headers are lists of characters; `bytes.decode("utf-8")` gives the text that has these bytes. The names of headers are ASCII,
so `lower` is over ASCII.
-/

namespace LingshuGate.Framing

open Lib

/-! ## Header values -/

def isBlank (c : Char) : Bool := c = ' ' || c = '\t'

/-- `value.strip(" \t")` -/
def strip (value : List Char) : List Char := (value.dropWhile isBlank).rdropWhile isBlank

def headerChar (c : Char) : Bool := c = '\t' || (32 ≤ c.toNat && c.toNat ≤ 126)

def start : List Char := "=?base64?".toList

def finish : List Char := "?=".toList

/-- The value looks like an encoded one. -/
def sentinel (value : List Char) : Bool := start.isPrefixOf value && finish.isSuffixOf value

def encodeHeaderValue (value : List Char) : List Char :=
  if !sentinel value && value = strip value && value.all headerChar then value
  else start ++ Base64.encode (Percent.encode value) ++ finish

/-- `data.decode("utf-8")` -/
def decodeUtf8 (data : List UInt8) : Option (List Char) :=
  if Percent.encode (Percent.decode data) = data then some (Percent.decode data) else none

/-- `none` is the `ValueError`. -/
def decodeHeaderValue (value : List Char) : Option (List Char) :=
  if !sentinel value then
    if value ≠ strip value || value.any (!headerChar ·) then none else some value
  else (Base64.decode ((value.drop start.length).rdrop 2)).bind decodeUtf8

theorem headerChar_digit {n : Nat} (h : n < 64) : headerChar (Base64.digit n) = true := by
  interval_cases n <;> rfl

theorem headerChar_encode (data : List UInt8) : ∀ c ∈ Base64.encode data, headerChar c = true := by
  obtain ⟨digits, k, hshape, hsmall, -⟩ := Base64.encode_shape data
  intro c hc
  rw [hshape, List.mem_append] at hc
  rcases hc with hc | hc
  · obtain ⟨d, hd, rfl⟩ := List.mem_map.mp hc
    exact headerChar_digit (hsmall d hd)
  · rw [List.eq_of_mem_replicate hc]
    rfl

theorem sentinel_encoded (middle : List Char) : sentinel (start ++ middle ++ finish) = true := by
  rw [sentinel, Bool.and_eq_true, List.isPrefixOf_iff_prefix, List.isSuffixOf_iff_suffix, List.append_assoc]
  exact ⟨List.prefix_append _ _, List.suffix_append_of_suffix (List.suffix_append _ _)⟩

theorem middle_encoded (middle : List Char) : ((start ++ middle ++ finish).drop start.length).rdrop 2 = middle := by
  rw [List.append_assoc, List.drop_left, List.rdrop_eq_reverse_drop_reverse, List.reverse_append]
  show ((finish.reverse ++ middle.reverse).drop finish.reverse.length).reverse = middle
  rw [List.drop_left, List.reverse_reverse]

theorem strip_ends {value : List Char} (h : value = strip value) : (∀ c ∈ value.head?, isBlank c = false) ∧
    ∀ c ∈ value.getLast?, isBlank c = false := by
  constructor
  · intro c hc
    cases value with
    | nil => cases hc
    | cons d rest =>
      obtain rfl := Option.some.inj hc
      by_contra hblank
      rw [Bool.not_eq_false] at hblank
      have hlength := congrArg List.length h
      rw [strip, List.dropWhile_cons_of_pos hblank] at hlength
      have hle := (List.rdropWhile_prefix isBlank (rest.dropWhile isBlank)).length_le.trans (List.dropWhile_suffix isBlank).length_le
      rw [List.length_cons] at hlength
      omega
  · intro c hc
    rw [h] at hc
    obtain ⟨hne, rfl⟩ := List.mem_getLast?_eq_getLast hc
    exact Bool.eq_false_iff.mpr (List.rdropWhile_last_not isBlank _ hne)

/-- **Header values are read back.** What is encoded holds tabs and printable ASCII only, begins and ends with no blank, and decodes to the
value. -/
theorem header_round_trip (value : List Char) : decodeHeaderValue (encodeHeaderValue value) = some value ∧
    (∀ c ∈ encodeHeaderValue value, headerChar c = true) ∧ (∀ c ∈ (encodeHeaderValue value).head?, isBlank c = false) ∧
    ∀ c ∈ (encodeHeaderValue value).getLast?, isBlank c = false := by
  unfold encodeHeaderValue
  by_cases hsafe : (!sentinel value && value = strip value && value.all headerChar) = true
  · rw [if_pos hsafe]
    simp only [Bool.and_eq_true, Bool.not_eq_true', decide_eq_true_eq, List.all_eq_true] at hsafe
    obtain ⟨⟨hplain, hstrip⟩, hall⟩ := hsafe
    refine ⟨?_, hall, (strip_ends hstrip).1, (strip_ends hstrip).2⟩
    have hok : (value ≠ strip value || value.any (!headerChar ·)) = false := by
      simp only [Bool.or_eq_false_iff, decide_eq_false_iff_not, not_not, List.any_eq_false, Bool.not_eq_true', Bool.not_eq_false]
      exact ⟨hstrip, hall⟩
    rw [decodeHeaderValue, hplain, hok]
    rfl
  rw [if_neg hsafe]
  refine ⟨?_, ?_, ?_, ?_⟩
  · rw [decodeHeaderValue, sentinel_encoded, middle_encoded, Base64.decode_encode]
    simp [decodeUtf8, Percent.decode_encode]
  · intro c hc
    simp only [List.mem_append] at hc
    rcases hc with (hc | hc) | hc
    · exact List.all_eq_true.mp (by decide : start.all headerChar = true) c hc
    · exact headerChar_encode _ c hc
    · exact List.all_eq_true.mp (by decide : finish.all headerChar = true) c hc
  · intro c hc
    obtain rfl := Option.some.inj hc
    rfl
  · intro c hc
    rw [List.getLast?_append] at hc
    obtain rfl := Option.some.inj hc
    rfl

/-! ## Requests of the current protocol version -/

def mcpProtocolVersion : String := "2026-07-28"

def legacyProtocolVersions : List String := ["2025-03-26", "2025-06-18", "2025-11-25"]

/-- `none` is `UnsupportedProtocolVersion`. -/
def requireCurrentProtocolVersion (value : String) : Option String :=
  let requested := if value = "" then mcpProtocolVersion else value
  if requested = mcpProtocolVersion then some requested else none

def resolveDownstreamProtocolVersion (value : String) (allowLegacyStdio : Bool) : Option String :=
  let requested := if value = "auto" then mcpProtocolVersion else value
  let supported := (if allowLegacyStdio then ["2024-11-05"] else []) ++ legacyProtocolVersions ++ [mcpProtocolVersion]
  if requested ∈ supported then some requested else none

def protocolMetaKey : String := "io.modelcontextprotocol/protocolVersion"

def clientInfoMetaKey : String := "io.modelcontextprotocol/clientInfo"

def clientCapabilitiesMetaKey : String := "io.modelcontextprotocol/clientCapabilities"

abbrev Fields := List (String × Json)

/-- `value if isinstance(value, dict) else {}` -/
def fieldsOf : Option Json → Fields
  | some (.obj fields) => fields
  | _ => []

def textOf : Option Json → Option String
  | some (.str text) => some text
  | _ => none

/-- What the client says of itself. -/
structure Client where
  name : String
  version : String
  capabilities : Option Fields := none

def Client.info (client : Client) : Fields := [("name", .str client.name), ("version", .str client.version)]

def stamped (fields : Fields) (client : Client) (version : String) : Fields :=
  Py.dictSet (Py.dictSet (Py.dictSet fields protocolMetaKey (.str version)) clientInfoMetaKey (.obj client.info))
    clientCapabilitiesMetaKey (.obj (client.capabilities.getD []))

def buildRequestParams (params : Option Fields) (client : Client) (protocolVersion : String) : Option Fields := do
  let version ← resolveDownstreamProtocolVersion protocolVersion true
  let requestParams := params.getD []
  if version ≠ mcpProtocolVersion then return requestParams
  return Py.dictSet requestParams "_meta" (.obj (stamped (fieldsOf (Py.dictGet requestParams "_meta")) client version))

/-- The parameter that names what the method is about. -/
def sourceKey (method : String) : Option String :=
  if method = "tools/call" ∨ method = "prompts/get" then some "name"
  else if method = "resources/read" then some "uri"
  else none

def buildProtocolRequest (method : String) (params : Option Fields) (client : Client) (protocolVersion : String := mcpProtocolVersion) :
    Option (Fields × List (String × String)) := do
  let version ← resolveDownstreamProtocolVersion protocolVersion false
  let requestParams ← buildRequestParams params client version
  if version ≠ mcpProtocolVersion then
    return (requestParams, if method = "initialize" then [] else [("MCP-Protocol-Version", version)])
  let name := (sourceKey method).bind fun key => textOf (Py.dictGet requestParams key)
  return (requestParams, [("MCP-Protocol-Version", version), ("Mcp-Method", method)] ++
    (name.map fun name => ("Mcp-Name", String.ofList (encodeHeaderValue name.toList))).toList)

/-! ## The receiver -/

structure HttpProtocolValidationError where
  code : Int
  message : String
  data : Option Json := none

structure HttpProtocolContext where
  protocolVersion : String
  clientCapabilities : Fields
  clientInfo : Option Fields

def headerError (message : String) : HttpProtocolValidationError := ⟨-32020, "Header mismatch: " ++ message, none⟩

def unsupportedVersion (version : String) : HttpProtocolValidationError :=
  ⟨-32022, "Unsupported protocol version", some (.obj [("supported", .arr [.str mcpProtocolVersion]), ("requested", .str version)])⟩

def missingCapabilities : HttpProtocolValidationError :=
  ⟨-32021, "Client capabilities are required for MCP 2026-07-28 requests", some (.obj [("requiredCapabilities", .obj [])])⟩

/-- `key.lower()` -/
def lower (key : String) : String := String.ofList (key.toList.map Char.toLower)

def checkVersion (version : Option String) : Except HttpProtocolValidationError Unit :=
  require (version.all fun version => (requireCurrentProtocolVersion version).isSome) (unsupportedVersion (version.getD ""))

def checkName (method : String) (params : Fields) (rawName : Option String) : Except HttpProtocolValidationError Unit :=
  match sourceKey method with
  | none => .ok ()
  | some key => do
    let missing := headerError ("Mcp-Name header is required for " ++ method)
    let expected ← expect (textOf (Py.dictGet params key)) missing
    let raw ← expect rawName missing
    let decoded ← expect (decodeHeaderValue raw.toList) (headerError "Mcp-Name header is malformed")
    require (decoded = expected.toList) (headerError "Mcp-Name header does not match request parameters")

/-- `value is None` of what a dictionary gives. -/
def present : Option Json → Option Json
  | some .null => none
  | value => value

def clientInfoOf : Option Json → Except HttpProtocolValidationError (Option Fields)
  | none => .ok none
  | some .null => .ok none
  | some (.obj fields) => .ok (some fields)
  | some _ => .error (headerError "Client information metadata must be an object")

def capabilitiesOf : Option Json → Except HttpProtocolValidationError Fields
  | some (.obj fields) => .ok fields
  | _ => .error missingCapabilities

def validateInboundHttpRequest (headers : List (String × String)) (message : Fields) :
    Except HttpProtocolValidationError HttpProtocolContext := do
  let normalized := headers.map fun (key, value) => (lower key, value)
  let params := fieldsOf (Py.dictGet message "params")
  let info := fieldsOf (Py.dictGet params "_meta")
  let headerVersion := Py.dictGet normalized "mcp-protocol-version"
  let metaVersion := Py.dictGet info protocolMetaKey
  checkVersion headerVersion
  checkVersion (textOf metaVersion)
  let version ← expect headerVersion (headerError "MCP-Protocol-Version header is required")
  let _ ← expect (present metaVersion) (headerError ("params._meta." ++ protocolMetaKey ++ " is required"))
  require (textOf metaVersion = some version) (headerError "MCP-Protocol-Version header does not match request metadata")
  checkVersion (some version)
  let method ← expect ((textOf (Py.dictGet message "method")).filter fun method => Py.dictGet normalized "mcp-method" = some method)
    (headerError "Mcp-Method header does not match the JSON-RPC method")
  checkName method params (Py.dictGet normalized "mcp-name")
  let capabilities ← capabilitiesOf (Py.dictGet info clientCapabilitiesMetaKey)
  let clientInfo ← clientInfoOf (Py.dictGet info clientInfoMetaKey)
  return ⟨version, capabilities, clientInfo⟩

/-! ## What is built is accepted -/

section Round

variable {method : String} {params : Option Fields} {client : Client}

theorem stamped_get (fields : Fields) (client : Client) (version : String) :
    Py.dictGet (stamped fields client version) protocolMetaKey = some (.str version) ∧
    Py.dictGet (stamped fields client version) clientInfoMetaKey = some (.obj client.info) ∧
    Py.dictGet (stamped fields client version) clientCapabilitiesMetaKey = some (.obj (client.capabilities.getD [])) := by
  refine ⟨?_, ?_, Py.dictGet_dictSet _ _ _⟩
  · rw [stamped, Py.dictGet_dictSet_of_ne _ _ (by decide), Py.dictGet_dictSet_of_ne _ _ (by decide), Py.dictGet_dictSet]
  · rw [stamped, Py.dictGet_dictSet_of_ne _ _ (by decide), Py.dictGet_dictSet]

theorem sourceKey_ne_meta {key : String} (h : sourceKey method = some key) : key ≠ "_meta" := by
  unfold sourceKey at h
  split_ifs at h <;> obtain rfl := Option.some.inj h <;> decide

/-- The parameters that are built, and their headers. -/
theorem buildProtocolRequest_current : buildProtocolRequest method params client =
    some (Py.dictSet (params.getD []) "_meta" (.obj (stamped (fieldsOf (Py.dictGet (params.getD []) "_meta")) client mcpProtocolVersion)),
      [("MCP-Protocol-Version", mcpProtocolVersion), ("Mcp-Method", method)] ++
        (((sourceKey method).bind fun key => textOf (Py.dictGet (params.getD []) key)).map fun name =>
          ("Mcp-Name", String.ofList (encodeHeaderValue name.toList))).toList) := by
  have hresolve : ∀ legacy, resolveDownstreamProtocolVersion mcpProtocolVersion legacy = some mcpProtocolVersion := by decide
  have hname : ∀ value, ((sourceKey method).bind fun key => textOf (Py.dictGet (Py.dictSet (params.getD []) "_meta" value) key)) =
      (sourceKey method).bind fun key => textOf (Py.dictGet (params.getD []) key) := by
    intro value
    cases hsource : sourceKey method with
    | none => rfl
    | some key =>
      simp only [Option.bind_some]
      rw [Py.dictGet_dictSet_of_ne _ _ (sourceKey_ne_meta hsource)]
  simp only [buildProtocolRequest, buildRequestParams, hresolve, Option.bind_eq_bind, Option.bind_some, ne_eq, not_true_eq_false,
    if_false, Option.pure_def, hname]

/-- The same headers, in any letter case of their names. -/
def SameHeaders : List (String × String) → List (String × String) → Prop :=
  List.Forall₂ fun h h' => lower h.1 = lower h'.1 ∧ h.2 = h'.2

theorem SameHeaders.normalized {headers headers' : List (String × String)} (h : SameHeaders headers headers') :
    (headers.map fun (key, value) => (lower key, value)) = headers'.map fun (key, value) => (lower key, value) := by
  induction h with
  | nil => rfl
  | @cons first first' rest rest' hhead _ ih => exact congrArg₂ List.cons (Prod.ext hhead.1 hhead.2) ih

/-- What the receiver makes of the headers. -/
theorem normalized_get (version method : String) (name : Option String) :
    let normalized := ([("MCP-Protocol-Version", version), ("Mcp-Method", method)] ++ (name.map fun name => ("Mcp-Name", name)).toList).map
      fun (key, value) => (lower key, value)
    Py.dictGet normalized "mcp-protocol-version" = some version ∧ Py.dictGet normalized "mcp-method" = some method ∧
      Py.dictGet normalized "mcp-name" = name := by
  have hversion : lower "MCP-Protocol-Version" = "mcp-protocol-version" := by decide +kernel
  have hmethod : lower "Mcp-Method" = "mcp-method" := by decide +kernel
  have hname : lower "Mcp-Name" = "mcp-name" := by decide +kernel
  cases name with
  | none => simp [Py.dictGet, hversion, hmethod]
  | some name => simp [Py.dictGet, hversion, hmethod, hname]

theorem checkName_built (hname : ∀ key, sourceKey method = some key → ∃ name, Py.dictGet (params.getD []) key = some (.str name))
    (value : Json) : checkName method (Py.dictSet (params.getD []) "_meta" value)
      (((sourceKey method).bind fun key => textOf (Py.dictGet (params.getD []) key)).map fun name =>
        String.ofList (encodeHeaderValue name.toList)) = .ok () := by
  unfold checkName
  cases hsource : sourceKey method with
  | none => rfl
  | some key =>
    obtain ⟨name, hget⟩ := hname key hsource
    have htext : textOf (Py.dictGet (Py.dictSet (params.getD []) "_meta" value) key) = some name := by
      rw [Py.dictGet_dictSet_of_ne _ _ (sourceKey_ne_meta hsource), hget]
      rfl
    have hread : decodeHeaderValue (String.ofList (encodeHeaderValue name.toList)).toList = some name.toList := by
      rw [String.toList_ofList]
      exact (header_round_trip name.toList).1
    simp only [Option.bind_some, hget, textOf, Option.map_some, bind_eq_ok, expect_eq_ok, require_eq_ok]
    exact ⟨name, htext, _, rfl, name.toList, hread, decide_eq_true rfl⟩

/-- **Requests are framed as the receiver reads them.** Every header value is read back; and what is built for the current protocol version
is accepted, whatever the letter case of the header names, with the version, the capabilities and the client information it was built
of. -/
theorem framing_round_trip : (∀ value : List Char, decodeHeaderValue (encodeHeaderValue value) = some value ∧
      (∀ c ∈ encodeHeaderValue value, headerChar c = true) ∧ (∀ c ∈ (encodeHeaderValue value).head?, isBlank c = false) ∧
      ∀ c ∈ (encodeHeaderValue value).getLast?, isBlank c = false) ∧
    ∀ (method : String) (params : Option Fields) (client : Client),
      (∀ key, sourceKey method = some key → ∃ name, Py.dictGet (params.getD []) key = some (.str name)) →
      ∃ built headers, buildProtocolRequest method params client = some (built, headers) ∧
        ∀ headers' message, SameHeaders headers headers' → Py.dictGet message "method" = some (.str method) →
          Py.dictGet message "params" = some (.obj built) →
          validateInboundHttpRequest headers' message =
            .ok ⟨mcpProtocolVersion, client.capabilities.getD [], some client.info⟩ := by
  refine ⟨header_round_trip, fun method params client hname => ⟨_, _, buildProtocolRequest_current, ?_⟩⟩
  intro headers' message hsame hmethod hparams
  obtain ⟨hversion, hinfo, hcapabilities⟩ := stamped_get (fieldsOf (Py.dictGet (params.getD []) "_meta")) client mcpProtocolVersion
  have hmap : ∀ source : Option String, (source.map fun name => ("Mcp-Name", String.ofList (encodeHeaderValue name.toList))) =
      (source.map fun name => String.ofList (encodeHeaderValue name.toList)).map fun name => ("Mcp-Name", name) := by
    intro source
    cases source <;> rfl
  rw [hmap] at hsame
  obtain ⟨hheader, hmethod', hname'⟩ := normalized_get mcpProtocolVersion method
    (((sourceKey method).bind fun key => textOf (Py.dictGet (params.getD []) key)).map fun name =>
      String.ofList (encodeHeaderValue name.toList))
  rw [hsame.normalized] at hheader hmethod' hname'
  have hchecked : checkVersion (some mcpProtocolVersion) = .ok () := rfl
  have hfields : ∀ fields, fieldsOf (some (.obj fields)) = fields := fun _ => rfl
  have htext : ∀ text, textOf (some (.str text)) = some text := fun _ => rfl
  simp only [validateInboundHttpRequest, hparams, hmethod, hheader, hmethod', hname', hfields, Py.dictGet_dictSet, hversion, hinfo,
    hcapabilities, htext, bind_eq_ok, expect_eq_ok, require_eq_ok, pure_eq_ok]
  exact ⟨(), hchecked, (), hchecked, _, rfl, _, rfl, (), decide_eq_true rfl, (), hchecked, method, by simp, (),
    checkName_built hname _, _, rfl, _, rfl, rfl⟩

/-- A tool is called whose name is not ASCII. -/
theorem framing_round_trip_call : ∃ built headers,
    buildProtocolRequest "tools/call" (some [("name", .str "größe")]) ⟨"gate", "1", none⟩ = some (built, headers) ∧
      validateInboundHttpRequest headers [("method", .str "tools/call"), ("params", .obj built)] =
        .ok ⟨mcpProtocolVersion, [], some (Client.info ⟨"gate", "1", none⟩)⟩ := by
  obtain ⟨built, headers, hbuilt, hread⟩ := framing_round_trip.2 "tools/call" (some [("name", .str "größe")]) ⟨"gate", "1", none⟩ (by
    rintro key ⟨⟩
    exact ⟨"größe", rfl⟩)
  exact ⟨built, headers, hbuilt, hread headers _ (List.forall₂_same.mpr fun _ _ => ⟨rfl, rfl⟩) rfl rfl⟩

end Round

end LingshuGate.Framing

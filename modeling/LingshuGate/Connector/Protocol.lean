import Mathlib.Data.String.Basic
import LingshuGate.Lib.Base64
import LingshuGate.Lib.Check
import LingshuGate.Lib.Dict
import LingshuGate.Lib.Json
import LingshuGate.Lib.PyText

/-!
# The wire contracts of the connector (`connector_protocol.py`, `service_io.py`)

| here | there |
| --- | --- |
| `bounded`                  | `bounded` (service_io.py:36) |
| `JsonReader`               | `json.loads` with `unique_pairs` (service_io.py:55), of a text and of bytes |
| `ConnectorIdentity`        | `ConnectorIdentity` (37) |
| `Hello`, `RelayRequest`, `RelayResponse` | the models of the frames (119, 131, 144) |
| `parseFrame`               | `parse_frame` (165) |
| `encodeBody`, `decodeBody` | `encode_body` (178), `decode_body` (182) |
| `filteredHeaders`          | `filtered_headers` (194) |
| `requestRpc`               | `request_rpc` (209) |
| `responseMatches`          | `response_matches` (227) |

Which exception leaves a function matters to its callers only as `Raised` tells it: a `ServiceConfigError` has a code, any other
one is a `ValueError`, a `TypeError`, a `UnicodeError` or a `RecursionError`.
-/

namespace LingshuGate.Connector

open Lib

abbrev Bytes := List UInt8

def requestBytes : Nat := 1024 * 1024
def responseBytes : Nat := 8 * 1024 * 1024
def frameBytes : Nat := 12 * 1024 * 1024
def inFlight : Nat := 16

/-- `SESSION_TTL`, in milliseconds. -/
def sessionTtl : Nat := 3600 * 1000

inductive Raised
  | service (code : String)
  | value
deriving DecidableEq

structure JsonReader where
  text : String → Except Raised Json
  bytes : Bytes → Except Raised Json

/-! ## Documents -/

/-- `math.isfinite`. -/
def finite (literal : String) : Bool := literal ∉ ["inf", "-inf", "nan"]

/-- The loop of `bounded`: `nodes` may still be taken from the stack, whose top comes first. -/
def boundedLoop (maxDepth : Nat) : Nat → List (Json × Nat) → Except Raised Unit
  | _, [] => .ok ()
  | 0, _ :: _ => .error (.service "document_complexity_limit")
  | nodes + 1, (item, depth) :: pending =>
    if maxDepth < depth then .error (.service "document_complexity_limit")
    else match item with
      | .obj fields => boundedLoop maxDepth nodes ((fields.map fun kv => (kv.2, depth + 1)).reverse ++ pending)
      | .arr items => boundedLoop maxDepth nodes ((items.map fun v => (v, depth + 1)).reverse ++ pending)
      | .float literal =>
        if finite literal then boundedLoop maxDepth nodes pending else .error (.service "document_nonfinite_number")
      | _ => boundedLoop maxDepth nodes pending

def bounded (value : Json) (maxNodes : Nat) (maxDepth : Nat := 32) : Except Raised Unit :=
  boundedLoop maxDepth maxNodes [(value, 0)]

/-! ## Frames -/

/-- `^[a-z0-9][a-z0-9_-]{0,63}$` -/
def isIdentifier (s : String) : Bool :=
  match s.toList with
  | [] => false
  | c :: cs => (c.isLower || c.isDigit) && cs.all (fun c => c.isLower || c.isDigit || c = '_' || c = '-') && cs.length ≤ 63

/-- `^[a-f0-9]{n}$` -/
def isHex (n : Nat) (s : String) : Bool :=
  s.toList.all (fun c => c.isDigit || ('a' ≤ c && c ≤ 'f')) && s.length = n

structure ConnectorIdentity where
  id : String
  targets : List String
deriving DecidableEq

structure Hello where
  targets : Dict String String

inductive Method
  | post
  | delete
deriving DecidableEq

structure RelayRequest where
  requestId : String
  targetId : String
  revision : String
  method : Method
  timeoutMs : Nat
  expiresAtMs : Nat
  headers : Dict String String
  body : String

inductive Outcome
  | completed
  | notForwarded
  | unknown
deriving DecidableEq

inductive ErrorCode
  | upstreamHttpError
  | upstreamTimeoutResultUnknown
  | upstreamRedirectRejected
  | responseInvalid
  | requestRejected
  | upstreamUnavailableResultUnknown
deriving DecidableEq

structure RelayResponse where
  requestId : String
  status : Nat
  headers : Dict String String
  body : String
  outcome : Outcome := .completed
  errorCode : Option ErrorCode := none

/-- What `parse_model` raises. -/
def invalidFrame : Raised := .service "connector_configuration_or_frame_invalid"

/-- `extra="forbid"` -/
def onlyFields (names : List String) (value : Json) : Except Raised Unit :=
  match value with
  | .obj fields => require (fields.all fun kv => decide (kv.1 ∈ names)) invalidFrame
  | _ => .error invalidFrame

/-- `version: int = Field(default=1, ge=1, le=1)` -/
def versionField (value : Json) : Except Raised Unit :=
  match value.get? "version" with
  | none => .ok ()
  | some (.int n) => require (n = 1) invalidFrame
  | some _ => .error invalidFrame

/-- `kind: Literal[kind] = kind` -/
def kindField (kind : String) (value : Json) : Except Raised Unit :=
  match value.get? "kind" with
  | none => .ok ()
  | some (.str s) => require (s = kind) invalidFrame
  | some _ => .error invalidFrame

def strField (name : String) (ok : String → Bool) (value : Json) : Except Raised String :=
  match value.get? name with
  | some (.str s) => do
    require (ok s) invalidFrame
    return s
  | _ => .error invalidFrame

/-- `name: int = Field(ge=low, le=high)` -/
def intField (name : String) (low high : Nat) (value : Json) : Except Raised Nat :=
  match value.get? name with
  | some (.int n) => do
    require (low ≤ n && n ≤ high) invalidFrame
    return n.toNat
  | _ => .error invalidFrame

/-- `name: dict[key, value] = Field(min_length=low, max_length=high)`, both texts. -/
def dictField (name : String) (key val : String → Bool) (low high : Nat) (value : Json) : Except Raised (Dict String String) :=
  match value.get? name with
  | some (.obj fields) => do
    let pairs ← fields.mapM fun kv => match kv.2 with
      | .str s => do
        require (key kv.1 && val s) invalidFrame
        return (kv.1, s)
      | _ => .error invalidFrame
    require (low ≤ pairs.length && pairs.length ≤ high) invalidFrame
    return pairs.foldl (fun d kv => d.set kv.1 kv.2) ∅
  | _ => .error invalidFrame

def Hello.validate (value : Json) : Except Raised Hello := do
  onlyFields ["version", "kind", "targets"] value
  versionField value
  kindField "hello" value
  return ⟨← dictField "targets" isIdentifier (isHex 64) 1 64 value⟩

def outcomeField (value : Json) : Except Raised Outcome :=
  match value.get? "outcome" with
  | none => .ok .completed
  | some (.str "completed") => .ok .completed
  | some (.str "not_forwarded") => .ok .notForwarded
  | some (.str "unknown") => .ok .unknown
  | some _ => .error invalidFrame

def ErrorCode.text : ErrorCode → String
  | .upstreamHttpError => "connector_upstream_http_error"
  | .upstreamTimeoutResultUnknown => "connector_upstream_timeout_result_unknown"
  | .upstreamRedirectRejected => "connector_upstream_redirect_rejected"
  | .responseInvalid => "connector_response_invalid"
  | .requestRejected => "connector_request_rejected"
  | .upstreamUnavailableResultUnknown => "connector_upstream_unavailable_result_unknown"

def ErrorCode.all : List ErrorCode :=
  [.upstreamHttpError, .upstreamTimeoutResultUnknown, .upstreamRedirectRejected, .responseInvalid, .requestRejected,
    .upstreamUnavailableResultUnknown]

def errorCodeField (value : Json) : Except Raised (Option ErrorCode) :=
  match value.get? "error_code" with
  | none => .ok none
  | some .null => .ok none
  | some (.str s) => do
    let code ← expect (ErrorCode.all.find? fun code => code.text = s) invalidFrame
    return some code
  | some _ => .error invalidFrame

/-- The length of the text that `limit` bytes give. -/
def bodyText (limit : Nat) : Nat := (limit + 2) / 3 * 4

def RelayResponse.validate (value : Json) : Except Raised RelayResponse := do
  onlyFields ["version", "kind", "request_id", "status", "headers", "body", "outcome", "error_code"] value
  versionField value
  kindField "response" value
  return {
    requestId := ← strField "request_id" (isHex 32) value
    status := ← intField "status" 200 599 value
    headers := ← dictField "headers" (fun _ => true) (fun _ => true) 0 3 value
    body := ← strField "body" (fun s => s.length ≤ bodyText responseBytes) value
    outcome := ← outcomeField value
    errorCode := ← errorCodeField value }

/-- The code survives, any other exception is one of a frame. -/
def frameFault : Raised → Raised
  | .service code => .service code
  | .value => .service "connector_frame_invalid"

def parseFrame {α : Type} (json : JsonReader) (raw : String) (validate : Json → Except Raised α) (limit : Nat := frameBytes) :
    Except Raised α := do
  require (raw.length ≤ limit && raw.utf8ByteSize ≤ limit) (.service "connector_frame_size_limit")
  let value ← (json.text raw).mapError frameFault
  bounded value 512 8
  validate value

/-! ## Bodies and headers -/

def encodeBody (body : Bytes) : String := String.ofList (Base64.encode body)

def decodeBody (value : String) (limit : Nat) : Except Raised Bytes := do
  let error := Raised.service "connector_body_size_or_encoding_invalid"
  require (value.length ≤ bodyText limit) error
  let raw ← expect (Base64.decode value.toList) error
  require (raw.length ≤ limit) error
  return raw

def requestHeaders : List String :=
  ["content-type", "accept", "mcp-protocol-version", "mcp-method", "mcp-name", "mcp-session-id"]

def responseHeaders : List String := ["content-type", "mcp-protocol-version", "mcp-session-id"]

/-- ASCII without control characters, at most 4096. -/
def plainHeader (value : String) : Bool :=
  value.length ≤ 4096 && value.toList.all fun c => 32 ≤ c.toNat && c.toNat < 127

/-- One turn of the loop. -/
def filterHeader (allowed : List String) (result : Dict String String) (pair : String × String) :
    Except Raised (Dict String String) :=
  let name := pair.1.toLower
  if name ∈ allowed then
    if result.has name || !plainHeader pair.2 then .error (.service "connector_header_invalid")
    else .ok (result.set name pair.2)
  else .ok result

def headerBytes (headers : Dict String String) : Nat := (headers.rows.map fun kv => kv.1.length + kv.2.length).sum

def filteredHeaders (allowed : List String) (pairs : List (String × String)) : Except Raised (Dict String String) := do
  let result ← pairs.foldlM (filterHeader allowed) ∅
  require (headerBytes result ≤ 8192) (.service "connector_header_size_limit")
  return result

/-- `headers.get("content-type", "").split(";", 1)[0].strip().lower()` -/
def mediaType (contentType : Option String) : String :=
  (Py.strip (String.ofList ((contentType.getD "").toList.takeWhile (· ≠ ';')))).toLower

/-! ## Requests and their answers -/

def methods : List String :=
  ["server/discover", "initialize", "notifications/initialized", "ping", "tools/list", "tools/call"]

inductive RpcId
  | int (n : Int)
  | str (s : String)
deriving DecidableEq

def RpcId.ofJson : Json → Option RpcId
  | .int n => some (.int n)
  | .str s => some (.str s)
  | _ => none

/-- `len(str(id))` -/
def RpcId.length : RpcId → Nat
  | .int n => (toString n).length
  | .str s => s.length

structure Rpc where
  method : String
  id : Option RpcId

/-- What is read of a JSON-RPC request once it is a value. -/
def Rpc.ofJson (value : Json) : Option Rpc :=
  match value.get? "jsonrpc", value.get? "method" with
  | some (.str "2.0"), some (.str method) =>
    if method ∉ methods then none
    else match value.get? "id" with
      | none => if method = "notifications/initialized" then some ⟨method, none⟩ else none
      | some id =>
        match RpcId.ofJson id with
        | none => none
        | some id => if 256 < id.length || method = "notifications/initialized" then none else some ⟨method, some id⟩
  | _, _ => none

def requestRpc (json : JsonReader) (body : Bytes) : Except Raised Rpc :=
  let read : Except Raised Rpc := do
    require (body.length ≤ requestBytes) .value
    let value ← json.bytes body
    bounded value 50000
    expect (Rpc.ofJson value) .value
  read.mapError fun _ => .service "connector_mcp_request_unsupported"

def responseMatches (value : Json) (id : RpcId) : Bool :=
  match value with
  | .obj _ =>
    (match value.get? "jsonrpc" with
      | some (.str "2.0") => true
      | _ => false) &&
      (value.get? "method").isNone && ((value.get? "id").bind RpcId.ofJson = some id) &&
      ((value.get? "result").isSome != (value.get? "error").isSome)
  | _ => false

end LingshuGate.Connector

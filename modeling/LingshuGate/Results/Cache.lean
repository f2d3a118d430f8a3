import Mathlib.Algebra.GroupWithZero.Nat
import Mathlib.Data.List.Nodup
import LingshuGate.Groups.Catalog
import LingshuGate.Results.Callers

/-!
# Saved results (`result_budget.py`)

| here | there |
| --- | --- |
| `plainTextEnvelope`, `savedText` | `_plain_text_envelope` (30), the checks of the content at the start of `apply` (171) |
| `ResultRead`, `Page`             | `ResultRead` (47), the value of a read (240) |
| `ResultTarget`, `CachedResult`   | (69), (78) |
| `identity`, `setting`            | (100), (117) |
| `validateTarget`                 | `validate_target` (152), `_credential_managed` (144) |
| `prune`, `store`                 | `_prune` (163), the section of `apply` that holds the lock (194) |
| `apply`                          | `apply` (169) |
| `read`                           | `read` (214) |

`Surroundings` is what the cache asks of the registry, the access store, the group router and the stored preferences. A call asks
at several moments, and what it sees at each is an argument here; so is what `refresh_principal` gives, `none` where it raises.
`reference` is the token that `apply` draws, and times are readings of `time.monotonic`.

Texts hold no lone surrogates: `encode` raises there, and nothing is stored.
-/

namespace LingshuGate.Results

open Lib Groups

def serverInfoMetaKey : String := "io.modelcontextprotocol/serverInfo"

def metaKey : String := "lingshu_gate/result_budget"

/-- What is outside of the source: the keyed digest, the JSON text, and `Implementation.model_validate`. -/
structure Primitives where
  hmac : String → String
  dumps : Json → String
  implementation : Json → Bool

/-! ## The result of a call -/

abbrev Fields := List (String × Json)

def Fields.get? (fields : Fields) (key : String) : Option Json := (Json.obj fields).get? key

/-- `{**fields, key: value}`. -/
def Fields.put (fields : Fields) (key : String) (value : Json) : Fields :=
  if fields.any (·.1 = key) then fields.map fun kv => if kv.1 = key then (key, value) else kv else fields ++ [(key, value)]

/-- `set(fields) == set(keys)`. -/
def Fields.hasExactly (fields : Fields) (keys : List String) : Bool :=
  fields.all (fun kv => keys.contains kv.1) && keys.all fun key => fields.any (·.1 = key)

def plainMeta (K : Primitives) : Option Json → Bool
  | none => true
  | some (.obj metadata) => Fields.hasExactly metadata [serverInfoMetaKey] &&
    match Fields.get? metadata serverInfoMetaKey with
    | some (.obj info) => K.implementation (.obj info)
    | _ => false
  | some _ => false

def completeType : Option Json → Bool
  | none => true
  | some (.str s) => s = "complete"
  | some _ => false

def plainTextEnvelope (K : Primitives) (result : Fields) : Bool :=
  result.all (fun kv => ["content", "isError", "resultType", "_meta"].contains kv.1) && (match Fields.get? result "isError" with
      | some (.bool false) => true
      | _ => false) &&
    completeType (Fields.get? result "resultType") && plainMeta K (Fields.get? result "_meta")

/-- The text of a content that is one text. -/
def onlyText : Option Json → Option String
  | some (.arr [.obj block]) =>
    if Fields.hasExactly block ["type", "text"] then
      match Fields.get? block "type", Fields.get? block "text" with
      | some (.str kind), some (.str text) => if kind = "text" then some text else none
      | _, _ => none
    else none
  | _ => none

/-- The text of a result that may be saved. -/
def savedText (K : Primitives) (result : Fields) : Option String :=
  if plainTextEnvelope K result then onlyText (Fields.get? result "content") else none

/-- `result.get("_meta", {})`. -/
def metaOf (result : Fields) : Fields :=
  match Fields.get? result "_meta" with
  | some (.obj metadata) => metadata
  | _ => []

/-! ## What a call asks for -/

structure ResultBudget where
  enabled : Bool := false
  maxCharacters : Nat := 8192
  deriving DecidableEq

structure DiscoverySetting where
  discoveryRevision : Nat := 0
  resultBudget : ResultBudget := {}
  deriving DecidableEq

structure GroupToolCall where
  toolRef : String
  instanceId : String
  sessionId : String

structure Surroundings where
  /-- `discovery_setting` of a kind and an id. -/
  discoverySetting : String × String → DiscoverySetting
  /-- `registry.get_definition`. -/
  definition : String → Option Tool
  /-- `is_managed_server` of `str(server_id or "")`; `False` where there is no service. -/
  managed : Option Json → Bool
  /-- `visible_tool_contracts` holds the definition. -/
  visible : Actor → Tool → Bool
  /-- There is a catalog with a group router. -/
  routing : Bool
  /-- The target that `dispatch_guard` yields, if it does not raise. -/
  routed : Actor → GroupToolCall → Option Target

structure ResultTarget where
  toolId : String
  revision : String
  hasOutputSchema : Bool
  group : Option Target := none
  sessionId : Option String := none
  deriving DecidableEq

inductive Failure
  | unavailable | parametersInvalid | refresh
  deriving DecidableEq

def text? : Option String → Json
  | some s => .str s
  | none => .null

def authTypeText : AuthType → String
  | .session => "session"
  | .token => "token"
  | .oauth => "oauth"
  | .disabled => "disabled"

def proofOf (K : Primitives) (principal : Actor) (bearerProof : String) : Except Failure String :=
  if principal.authType = .oauth ∧ principal.oauthBuiltin = false then
    if bearerProof = "" then .error .unavailable else .ok (K.hmac bearerProof)
  else .ok ""

def identity (K : Primitives) (principal : Actor) (bearerProof : String) : Except Failure String := do
  let authorization ← expect (principalAuthorization principal) .unavailable
  let proof ← proofOf K principal bearerProof
  return K.hmac (K.dumps (.arr [.str principal.id, .str (authTypeText principal.authType),
    .arr [.str authorization.1, .str authorization.2], text? principal.tokenId, text? principal.oauthFamilyId,
    text? principal.oauthIssuer, text? principal.oauthClientId, text? principal.oauthSubject, .str proof]))

def setting (seen : Surroundings) (principal : Actor) : Except Failure DiscoverySetting := do
  let authorization ← expect (principalAuthorization principal) .unavailable
  return seen.discoverySetting authorization

def credentialManaged (seen : Surroundings) (definition : Tool) : Bool :=
  definition.source = "mcp" && seen.managed (definition.meta? "server_id")

/-- The group of a target still leads to it. -/
def routedTo (seen : Surroundings) (principal : Actor) (target : ResultTarget) : Bool :=
  match target.group with
  | none => true
  | some group => seen.routing && match whenSet target.sessionId with
    | none => false
    | some sessionId => seen.routed principal ⟨group.toolRef, group.instanceId, sessionId⟩ = some group

def validateTarget (H : Hashes) (seen : Surroundings) (principal : Actor) (target : ResultTarget) : Bool :=
  match seen.definition target.toolId with
  | none => false
  | some definition => !credentialManaged seen definition && H.definitionRevision definition = target.revision &&
    seen.visible principal definition && routedTo seen principal target

/-! ## The cache -/

structure CacheLimits where
  totalBytes : Nat := 64 * 1024 * 1024
  identityBytes : Nat := 8 * 1024 * 1024
  entryBytes : Nat := 4 * 1024 * 1024
  identityEntries : Nat := 16
  ttl : Nat := 300

structure CachedResult where
  identity : String
  text : String
  byteCount : Nat
  deadline : Nat
  expiresAt : String
  target : ResultTarget
  settingsRevision : Nat
  deriving DecidableEq

structure ResultCache where
  entries : List (String × CachedResult) := []
  total : Nat := 0

namespace ResultCache

def get (c : ResultCache) (reference : String) : Option CachedResult := (c.entries.find? (·.1 = reference)).map (·.2)

/-- The bytes of some entries. -/
def bytes (entries : List (String × CachedResult)) : Nat := (entries.map (·.2.byteCount)).sum

def prune (c : ResultCache) (now : Nat) : ResultCache where
  entries := c.entries.filter (now < ·.2.deadline)
  total := c.total - bytes (c.entries.filter (·.2.deadline ≤ now))

def owned (c : ResultCache) (identity : String) : List (String × CachedResult) := c.entries.filter (·.2.identity = identity)

/-- There is no room for so many bytes of this identity. -/
def lacksRoom (limits : CacheLimits) (c : ResultCache) (identity : String) (byteCount : Nat) : Bool :=
  limits.entryBytes < byteCount || limits.totalBytes < c.total + byteCount ||
    limits.identityBytes < bytes (c.owned identity) + byteCount || limits.identityEntries ≤ (c.owned identity).length

/-- `self._entries[reference] = entry`, and the total. -/
def insert (c : ResultCache) (reference : String) (entry : CachedResult) : ResultCache where
  entries := if c.entries.any (·.1 = reference) then c.entries.map fun kv => if kv.1 = reference then (reference, entry) else kv
    else c.entries ++ [(reference, entry)]
  total := c.total + entry.byteCount

end ResultCache

/-! ## `apply` -/

structure Applying where
  result : Fields
  principal : Actor
  proof : String
  target : Option ResultTarget
  /-- `refresh_principal()`. -/
  refreshed : Option Actor

/-- What `apply` has found to save. -/
structure Saving where
  text : String
  identity : String
  target : ResultTarget
  setting : DiscoverySetting

/-- The moments at which a call asks. -/
structure Seen where
  first : Surroundings
  checked : Surroundings
  last : Surroundings

/-- The checks before the lock is taken: `none` gives the result as it is. -/
def prepare (H : Hashes) (K : Primitives) (call : Applying) (seen : Seen) : Except Failure (Option Saving) :=
  match call.target with
  | none => .ok none
  | some target => if target.hasOutputSchema then .ok none else match savedText K call.result with
    | none => .ok none
    | some text => do
      let found ← setting seen.first call.principal
      if !found.resultBudget.enabled || text.length ≤ found.resultBudget.maxCharacters ||
          !validateTarget H seen.checked call.principal target then .ok none
      else do
        let current ← expect call.refreshed .refresh
        let latest ← setting seen.last current
        if !sameInvocationPrincipal current call.principal || latest.discoveryRevision ≠ found.discoveryRevision ||
            !latest.resultBudget.enabled then .ok none
        else do
          let owner ← identity K call.principal call.proof
          return some ⟨text, owner, target, found⟩

def note (reference : String) : String :=
  s!"\n[Gate text preview. Retrieve the original with gate_result_read, result_ref={reference}. Expires in five minutes.]"

/-- `text[:max(1, max_characters - len(note))]`. -/
def preview (maxCharacters : Nat) (reference text : String) : String :=
  String.ofList (text.toList.take (max 1 (maxCharacters - (note reference).length)))

def capacityReply (result : Fields) : Fields :=
  Fields.put result "_meta" (.obj (Fields.put (metaOf result) metaKey
    (.obj [("schema_version", .int 1), ("applied", .bool false), ("reason", .str "capacity")])))

def truncatedReply (result : Fields) (saving : Saving) (reference expiresAt : String) : Fields :=
  let shown := preview saving.setting.resultBudget.maxCharacters reference saving.text
  Fields.put (Fields.put result "content" (.arr [.obj [("type", .str "text"), ("text", .str (shown ++ note reference))]])) "_meta"
    (.obj (Fields.put (metaOf result) metaKey (.obj [("schema_version", .int 1), ("applied", .bool true), ("truncated", .bool true),
      ("original_characters", .int saving.text.length), ("preview_characters", .int shown.length),
      ("result_ref", .str reference), ("expires_at", .str expiresAt)])))

/-- What the cache holds of a saved text. -/
def Saving.entry (limits : CacheLimits) (saving : Saving) (expiresAt : String) (later : Nat) : CachedResult where
  identity := saving.identity
  text := saving.text
  byteCount := saving.text.utf8ByteSize
  deadline := later + limits.ttl
  expiresAt := expiresAt
  target := saving.target
  settingsRevision := saving.setting.discoveryRevision

/-- The section that holds the lock. -/
def store (limits : CacheLimits) (c : ResultCache) (result : Fields) (saving : Saving) (reference expiresAt : String)
    (now later : Nat) : ResultCache × Fields :=
  let c := c.prune now
  if c.lacksRoom limits saving.identity saving.text.utf8ByteSize then (c, capacityReply result)
  else (c.insert reference (saving.entry limits expiresAt later), truncatedReply result saving reference expiresAt)

def apply (H : Hashes) (K : Primitives) (limits : CacheLimits) (c : ResultCache) (call : Applying) (seen : Seen)
    (reference expiresAt : String) (now later : Nat) : ResultCache × Except Failure Fields :=
  match prepare H K call seen with
  | .error failure => (c, .error failure)
  | .ok none => (c, .ok call.result)
  | .ok (some saving) =>
    let stored := store limits c call.result saving reference expiresAt now later
    (stored.1, .ok stored.2)

/-! ## `read` -/

structure ResultRead where
  resultRef : String
  offset : Nat := 0
  limit : Nat := 8192
  one_le : 1 ≤ limit := by decide
  le_max : limit ≤ 65536 := by decide

structure Page where
  text : String
  offset : Nat
  nextOffset : Nat
  hasMore : Bool
  originalCharacters : Nat
  expiresAt : String
  deriving DecidableEq

/-- The slice that is asked for. -/
def CachedResult.page (entry : CachedResult) (query : ResultRead) : Except Failure Page :=
  if entry.text.length < query.offset then .error .parametersInvalid
  else
    let last := min entry.text.length (query.offset + query.limit)
    .ok ⟨String.ofList ((entry.text.toList.take last).drop query.offset), query.offset, last, last < entry.text.length,
      entry.text.length, entry.expiresAt⟩

structure Reading where
  principal : Actor
  proof : String
  query : ResultRead
  /-- `refresh_principal()`. -/
  refreshed : Option Actor

/-- `found` and `kept` are the entry at the two sections that hold the lock, `later` the time at the end of the second. -/
def read (H : Hashes) (K : Primitives) (call : Reading) (seen : Seen) (found kept : Option CachedResult) (later : Nat) :
    Except Failure Page := do
  let owner ← identity K call.principal call.proof
  let first ← setting seen.first call.principal
  let entry ← expect found .unavailable
  require (entry.identity = owner && first.resultBudget.enabled && entry.settingsRevision = first.discoveryRevision &&
    validateTarget H seen.checked call.principal entry.target) .unavailable
  let current ← expect call.refreshed .refresh
  let latest ← setting seen.last current
  require (sameInvocationPrincipal current call.principal && latest.resultBudget.enabled &&
    entry.settingsRevision = latest.discoveryRevision) .unavailable
  require (kept = some entry && later < entry.deadline) .unavailable
  entry.page call.query

end LingshuGate.Results

import Mathlib.Data.Finset.Basic
import LingshuGate.Access.ServerPolicies
import LingshuGate.Auth.Tokens

/-!
# Tables, tickets and boundary of the OAuth server (`oauth_store.py`, `oauth_server.py`)

| here | there |
| --- | --- |
| `Db`             | the tables of oauth_store.py:20-107 |
| `Scope`, `Kind`  | `SCOPES`, the two resources (domain/oauth_management.py:10) |
| `Payload`        | what the ticket cipher seals, one constructor for each `purpose` |
| `Outside`        | what a transaction reads beside the OAuth tables: clock, users, access control, registry |
| `Params`         | pure functions of the boundary: SHA-256, `urlsplit`, decryption, JWT decoding |
| `scopeSet`, `validCallback`, `validIssuer`, `httpsResource` | oauth_server.py:77, 84, 97, external_connection.py:11 |

Every stored scope list is the sorted list of a set (`sorted(set(...))`), so a scope column is a `Finset`.
A configuration row that is not there reads as the default with revision 0 (oauth_store.py:123). `request_json`
of an interaction is written and never read, so only the grant id of a completed one is kept; display columns
(`server_name`, the public key, creation times) are left out.
-/

namespace LingshuGate.OAuth

open Lib AccessControl AuthStore

inductive Scope where
  | credentialsManageSystem | operationsManage | toolsInvoke | toolsRead
  deriving DecidableEq

def Scope.text : Scope → String
  | .credentialsManageSystem => "credentials.manage.system"
  | .operationsManage => "operations.manage"
  | .toolsInvoke => "tools.invoke"
  | .toolsRead => "tools.read"

/-- The scopes in the order of `sorted`. -/
def Scope.all : List Scope := [.credentialsManageSystem, .operationsManage, .toolsInvoke, .toolsRead]

def Scope.parse (text : String) : Option Scope := Scope.all.find? fun s => s.text = text

/-- `sorted(scopes)`, as texts. -/
def scopeTexts (scopes : Finset Scope) : List String := (Scope.all.filter fun s => s ∈ scopes).map Scope.text

theorem Scope.text_injective : Function.Injective Scope.text := by
  intro a b h
  cases a <;> cases b <;> first | rfl | exact absurd h (by decide)

theorem mem_scopeTexts {scopes : Finset Scope} {scope : Scope} : scope.text ∈ scopeTexts scopes ↔ scope ∈ scopes := by
  constructor
  · intro h
    obtain ⟨scope', hmem, htext⟩ := List.mem_map.mp h
    obtain rfl := Scope.text_injective htext
    simpa using (List.mem_filter.mp hmem).2
  · intro h
    refine List.mem_map.mpr ⟨scope, List.mem_filter.mpr ⟨?_, by simpa using h⟩, rfl⟩
    cases scope <;> decide

/-- The two protected resources. -/
inductive Kind where
  | business | management
  deriving DecidableEq

def businessScopes : Finset Scope := {.toolsRead, .toolsInvoke}

def managementScopes : Finset Scope := {.operationsManage, .toolsInvoke, .credentialsManageSystem}

/-- `allowed_scopes`. -/
def Kind.allowedScopes : Kind → Finset Scope
  | .business => businessScopes
  | .management => managementScopes

inductive Error where
  /-- `OAuthError(code, status)` -/
  | oauth (code : String) (status : Nat)
  /-- an `HTTPException` of the authentication store -/
  | http (error : HttpError)
  /-- `sqlite3.IntegrityError` -/
  | integrity
  /-- an exception that is no protocol error (`KeyError`) -/
  | internal
  deriving DecidableEq

/-- `OAuthError(code)` has status 400. -/
def bad (code : String) : Error := .oauth code 400

/-- `scope_set`. -/
def scopeSet (value : String) : Except Error (Finset Scope) := do
  require (value ≠ "" && value.length ≤ 256) (bad "invalid_scope")
  let values ← expect ((Py.splitSpace value).mapM Scope.parse) (bad "invalid_scope")
  return values.toFinset

/-! ## Rows -/

/-- An entry of `tools_json`; the scope it needs follows from its access. -/
structure Tool where
  id : String
  name : String
  serverId : String
  access : Access
  snapshot : String
  serverBinding : Option String := none
  deriving DecidableEq

/-- `"tools.read" if access == "read" else "tools.invoke"`. -/
def accessScope (access : Access) : Scope := if access = .read then .toolsRead else .toolsInvoke

structure Config where
  enabled : Bool := false
  issuer : String := ""
  resource : String := ""
  revision : Nat := 0
  deriving DecidableEq

structure ManagementConfig where
  enabled : Bool := false
  revision : Nat := 0
  deriving DecidableEq

structure Client where
  id : String
  name : String
  redirectUris : List String
  scopes : Finset Scope
  secretHash : String
  enabled : Bool
  revision : Nat
  resources : List Kind
  deriving DecidableEq

structure Key where
  kid : String
  active : Bool
  retireAt : Option Int
  deriving DecidableEq

/-- `catalog_json` once a user has been shown the tools. -/
structure Offered where
  userId : String
  tools : List Tool
  /-- `(server_id, server_binding)` -/
  serverBindings : List (String × String)
  deriving DecidableEq

structure Interaction where
  idHash : String
  browserHash : String
  csrfHash : String
  offered : Option Offered := none
  expiresAt : Int
  completed : Bool := false
  userId : Option String
  clientId : String
  /-- `request_json` of a completed row -/
  grantId : Option String := none
  deriving DecidableEq

structure Grant where
  id : String
  userId : String
  clientId : String
  resource : String
  scopes : Finset Scope
  tools : List Tool
  expiresAt : Int
  ratePerMinute : Int
  concurrency : Int
  revokedAt : Option Int := none
  revision : Nat := 1
  /-- `(target, actions)` -/
  managementTargets : List (String × List String) := []
  targetRevision : Nat := 0
  serverPolicies : List ServerPolicy := []
  deriving DecidableEq

structure Code where
  codeHash : String
  grantId : String
  clientId : String
  redirectUri : String
  resource : String
  challenge : String
  expiresAt : Int
  consumedAt : Option Int := none
  deriving DecidableEq

structure Family where
  id : String
  grantId : String
  scopes : Finset Scope
  expiresAt : Int
  revokedAt : Option Int := none
  deriving DecidableEq

structure Refresh where
  tokenHash : String
  familyId : String
  consumedAt : Option Int := none
  createdAt : Int
  deriving DecidableEq

/-- A row of `gate_oauth_scope_confirmations`. -/
structure Confirmation where
  grantId : String
  userId : String
  sessionHash : String
  tokenHash : String
  expiresAt : Int
  deriving DecidableEq

structure Db where
  config : Config := {}
  management : ManagementConfig := {}
  clients : Table Client Client.id := ∅
  keys : Table Key Key.kid := ∅
  interactions : Table Interaction Interaction.idHash := ∅
  grants : Table Grant Grant.id := ∅
  codes : Table Code Code.codeHash := ∅
  families : Table Family Family.id := ∅
  refresh : Table Refresh Refresh.tokenHash := ∅
  confirmations : Table Confirmation Confirmation.grantId := ∅

/-! ## Tickets -/

section Tickets

/- `D` is the type of the digests `_target_digest`, `_catalog_digest` and `_candidate_revision` return. -/
variable (D : Type)

/-- The authorization request inside a ticket (oauth_server.py:350). -/
structure AuthorizationRequest where
  clientId : String
  redirectUri : String
  resource : String
  codeChallenge : String
  scopes : Finset Scope
  clientRevision : Nat
  configurationRevision : Nat
  issuer : String
  /-- there only for the management resource -/
  managementRevision : Option Nat
  deriving DecidableEq

/-- `_scope_binding` (oauth_server.py:667). -/
structure ScopeBinding where
  userId : String
  sessionHash : String
  grantId : String
  grantRevision : Nat
  clientId : String
  clientRevision : Nat
  configurationRevision : Nat
  resource : String
  catalogDigest : D
  deriving DecidableEq

/-- The binding of `_management_target_binding` (oauth_server.py:1488). -/
structure TargetBinding where
  userId : String
  sessionHash : String
  grantId : String
  grantRevision : Nat
  targetRevision : Nat
  clientRevision : Nat
  configRevision : Nat
  managementRevision : Option Nat
  targetsDigest : D
  toolsDigest : D
  deriving DecidableEq

/-- The JSON a ticket seals, by its `purpose`. -/
inductive Payload where
  /-- `authorization_v1` -/
  | authorization (browserHash csrf : String) (request : AuthorizationRequest) (expiresAt : Int)
  /-- `grant_scope_options_v1`, `grant_scope_options_v2` (paged) -/
  | scopeOptions (paged : Bool) (binding : ScopeBinding D) (expiresAt : Int)
  /-- `grant_scope_confirmation_v1`, `grant_scope_confirmation_v2` (paged) -/
  | scopeConfirmation (paged : Bool) (binding : ScopeBinding D) (targetDigest : D) (expiresAt : Int)
  /-- `management_target_options_v1` -/
  | targetOptions (binding : TargetBinding D) (expiresAt : Int)
  /-- `management_target_confirmation_v1` -/
  | targetConfirmation (binding : TargetBinding D) (targetDigest : D) (expiresAt : Int)
  deriving DecidableEq

/-- A Fernet token: the payload and its time stamp. -/
structure Sealed where
  payload : Payload D
  sealedAt : Int
  deriving DecidableEq

/-- The dictionary that `_target_digest` hashes for a scope change (oauth_server.py:726). -/
structure Target where
  toolIds : List String
  serverPolicies : List ServerPolicy
  expiresAt : Int
  ratePerMinute : Int
  concurrency : Int
  toolBindingDigest : D
  deriving DecidableEq

/-- What the paged `catalog_digest` hashes (oauth_server.py:841). -/
structure CandidateState where
  /-- catalog generation, policy revision, expired resource grants -/
  marker : Nat × Nat × Nat
  roles : List String
  permissions : List String
  grantScopes : Finset Scope
  clientScopes : Finset Scope
  clientResources : List Kind
  expiresAt : Int
  ratePerMinute : Int
  concurrency : Int
  toolsDigest : D
  serverPolicies : List ServerPolicy
  deriving DecidableEq

end Tickets

/-! ## The boundary -/

/-- What `urlsplit` and `parse_qsl` tell about a URL. -/
structure Url where
  scheme : String
  hostname : Option String
  username : Option String := none
  password : Option String := none
  port : Option Nat := none
  path : String
  query : String := ""
  /-- the keys of `parse_qsl(query)` -/
  queryKeys : List String := []
  fragment : String := ""
  deriving DecidableEq

/-- The claims of an access token, once `jwt.decode` has read them with the types `_claims` asks for. -/
structure Claims where
  iss : String
  sub : String
  aud : String
  clientId : String
  gid : String
  fid : String
  scope : String
  iat : Int
  nbf : Int
  exp : Int
  jti : String
  tokenUse : String
  deriving DecidableEq

structure Jwt where
  alg : String
  typ : String
  kid : String
  /-- the header has one of `jku`, `jwk`, `x5u`, `crit` -/
  foreignKey : Bool := false
  claims : Claims
  deriving DecidableEq

/-- Pure functions of the boundary, the same for the whole life of the server. -/
structure Params (D : Type) where
  /-- `hash_secret` -/
  hash : String → String
  /-- `urlsafe_b64encode(sha256(verifier)).rstrip("=")` -/
  challenge : String → String
  /-- `urlsplit`, its port read; `none` is `ValueError` -/
  urlsplit : String → Option Url
  /-- `management_resource` (oauth_management.py:53) -/
  managementResource : String → String
  /-- `_ticket_cipher().decrypt` without its time check -/
  decrypt : String → Option (Sealed D)
  /-- `jwt.decode` without verification; `none` when it raises or a claim is missing or of another type -/
  jwt : String → Option Jwt
  /-- the signature of the token is that of the key `kid` -/
  signed : String → String → Bool
  /-- `_target_digest` of a scope target, of `{tool_id: server_binding}`, of management targets, of tools -/
  targetDigest : Target D → D
  bindingDigest : Finset (String × Option String) → D
  managementDigest : List (String × List String) → D
  toolsDigest : List Tool → D
  /-- `_catalog_digest` of the `[id, server_id, access, snapshot]` of a catalog -/
  catalogDigest : Finset (String × String × Access × String) → D
  candidateDigest : CandidateState D → D
  /-- `_candidate_revision` -/
  candidateRevision : ScopeBinding D → D

/-- `external.configuration()` of the external authorization server. -/
structure ExternalConfiguration where
  enabled : Bool
  /-- `canonical_resource_url or endpoint` -/
  resource : Option String
  trustedIssuers : List String
  deriving DecidableEq

/-- A row of the shared candidate index joined with its classification (oauth_candidate_catalog.py:14). -/
structure CandidateRow where
  row : CatalogRow
  name : String
  fingerprint : String
  reviewedAt : Option String
  deriving DecidableEq

/-- What a transaction reads beside the OAuth tables. -/
structure Outside where
  now : Int
  authEnabled : Bool := true
  auth : AuthDb
  env : Env
  /-- `registry.list_definitions()`, a dictionary by id -/
  registry : List ToolDefinition := []
  registryIds : (registry.map ToolDefinition.id).Nodup := by decide
  external : Option ExternalConfiguration := none
  /-- the master key and the private half of the active signing key can be read -/
  signer : Bool := true
  /-- `candidate_catalog`, ordered by its key `tool_ref` -/
  candidates : Option (List CandidateRow) := none
  candidateIds : ∀ rows, candidates = some rows → (rows.map fun c => c.row.toolId).Nodup := by simp
  /-- `revision_marker` -/
  marker : Nat × Nat × Nat := (0, 0, 0)

/-- One consistent reading of everything. -/
structure Snapshot where
  db : Db
  out : Outside

/-! ## URLs and PKCE -/

variable {D : Type} (P : Params D)

/-- `port is None or 1 <= port <= 65535`. -/
def portValid : Option Nat → Bool
  | none => true
  | some port => 1 ≤ port && port ≤ 65535

/-- The truth value of an optional text. -/
def present (text : Option String) : Bool := text.getD "" ≠ ""

/-- `_https_resource`. -/
def httpsResource (value : String) : Bool :=
  match P.urlsplit value with
  | none => false
  | some url => url.scheme = "https" && present url.hostname && portValid url.port && value.length ≤ 2048 &&
      !value.toList.any Py.isSpace && !present url.username && !present url.password && url.query = "" &&
      url.fragment = ""

/-- `valid_callback`. -/
def validCallback (value : String) : Bool :=
  match P.urlsplit value with
  | none => false
  | some url => value.length ≤ 2048 && url.scheme = "https" && present url.hostname && !present url.username &&
      !present url.password && url.fragment = "" && portValid url.port &&
      !(value.toList.any fun c => c.toNat < 33 || c.toNat > 126 || ['\\', '"', '<', '>', '*'].contains c) &&
      !(url.queryKeys.any fun key => ["code", "state", "iss", "error"].contains key)

/-- `valid_issuer`. -/
def validIssuer (value : String) : Bool :=
  validCallback P value && httpsResource P value && (P.urlsplit value).any fun url => url.path = ""

/-- `[A-Za-z0-9_-]` -/
def base64Char (c : Char) : Bool := c.isAlphanum || c = '_' || c = '-'

/-- `PKCE_CHALLENGE` -/
def pkceChallenge (text : String) : Bool := text.length = 43 && text.toList.all base64Char

/-- `PKCE_VERIFIER` -/
def pkceVerifier (text : String) : Bool :=
  43 ≤ text.length && text.length ≤ 128 && text.toList.all fun c => base64Char c || c = '.' || c = '~'

end LingshuGate.OAuth

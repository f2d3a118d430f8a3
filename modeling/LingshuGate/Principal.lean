/-!
# The caller of a request (`auth.py`)

| here | there |
| --- | --- |
| `AuthPrincipal` | the frozen dataclass `AuthPrincipal` (auth.py:43) |
| `Stamp`         | an `expires_at` text as `datetime.fromisoformat` reads it |
| `Stamp.isExpired` | `_is_expired` (auth.py:1015, access_control.py:2516) |
| `Access.rank`   | `ACCESS_RANK` (access_control.py:41) |

Fields that no modelled function reads (`display_name`, `oauth_subject`, `oauth_audiences`,
`oauth_jwks_uri`) are left out.
-/

namespace LingshuGate

inductive AuthType where
  | session | token | oauth | disabled
  deriving DecidableEq

/-- `api_token_authorizations.mode` (token_authorizations_migration.py). -/
inductive TokenMode where
  | account | independent
  deriving DecidableEq

inductive Access where
  | none | read | write | unknown
  deriving DecidableEq

/-- `ACCESS_RANK`. -/
def Access.rank : Access → Int
  | .none => 0
  | .read => 1
  | .write => 2
  | .unknown => -1

/-- `effective_access in {"read", "write"}`. -/
def Access.usable : Access → Bool
  | .read | .write => true
  | .none | .unknown => false

/-- An expiry column: `None` or the empty text, a text `fromisoformat` rejects, or an instant. -/
inductive Stamp where
  | absent
  | malformed
  | instant (t : Int)
  deriving DecidableEq

/-- `_is_expired`: no expiry never expires, an unreadable one already has. -/
def Stamp.isExpired (now : Int) : Stamp → Bool
  | .absent => false
  | .malformed => true
  | .instant t => t ≤ now

/-- The truth value of the text itself, `bool(value)`. -/
def Stamp.isSet : Stamp → Bool
  | .absent => false
  | _ => true

structure AuthPrincipal where
  id : String
  username : String := ""
  role : String
  authType : AuthType := .session
  status : String := "active"
  roles : List String := []
  permissions : List String := []
  mustChangePassword : Bool := false
  tokenId : Option String := none
  apiTokenAuthorizationMode : TokenMode := .account
  apiTokenRevision : Nat := 0
  /-- `(server_id, server_binding, access)` -/
  apiTokenServerPolicies : List (String × String × Access) := []
  apiTokenToolSnapshots : List (String × String) := []
  apiTokenToolBindings : List (String × String) := []
  apiTokenRatePerMinute : Int := 0
  apiTokenConcurrency : Int := 0
  scopes : List String := []
  delegatedScopes : Option (List String) := none
  externalGrantId : Option String := none
  externalServerIds : List String := []
  externalToolIds : List String := []
  externalAccess : List Access := []
  externalExpiresAt : Stamp := .absent
  externalRatePerMinute : Int := 0
  externalConcurrency : Int := 0
  sessionId : Option String := none
  oauthBuiltin : Bool := false
  oauthIssuer : Option String := none
  oauthResource : Option String := none
  oauthClientId : Option String := none
  oauthFamilyId : Option String := none
  oauthTokenExpiresAt : Int := 0
  oauthTargetRevision : Nat := 0
  oauthToolSnapshots : List (String × String) := []
  deriving DecidableEq

/-- `set(principal.roles or (principal.role,))`. -/
def AuthPrincipal.roleSet (p : AuthPrincipal) : List String :=
  if p.roles = [] then [p.role] else p.roles

/-- `principal.role == "admin" or "admin" in roles`. -/
def AuthPrincipal.isAdmin (p : AuthPrincipal) : Bool :=
  p.role == "admin" || p.roleSet.contains "admin"

/-- `AccessDeniedError` (access_control.py:166). -/
structure AccessDenied where
  reason : String
  requiredAccess : String
  grantedAccess : String
  deriving DecidableEq

end LingshuGate

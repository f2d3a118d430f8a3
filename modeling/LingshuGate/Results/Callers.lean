import Mathlib.Data.Finset.Prod
import Mathlib.Data.Finset.Option
import LingshuGate.Principal

/-!
# Who calls (`auth.py`, `tool_catalog.py`, `authorization_discovery.py`)

| here | there |
| --- | --- |
| `Actor`                     | `AuthPrincipal` (auth.py:43) with the fields only these functions read |
| `principalAuthorization`    | `principal_authorization` (authorization_discovery.py:49) |
| `normalized`                | `normalized` (tool_catalog.py:43) |
| `sameInvocationPrincipal`   | `_same_invocation_principal` (41) |

`tuple(sorted(set(values)))` is the set of the values: two of these are equal exactly where the sets are. The primary role of a
normalized actor is read off its roles.
-/

namespace LingshuGate

structure Actor extends AuthPrincipal where
  displayName : String := ""
  oauthSubject : Option String := none
  oauthAudiences : List String := []
  oauthJwksUri : Option String := none
  deriving DecidableEq

/-- `value` where it is true: `None` and the empty text are not. -/
def whenSet (value : Option String) : Option String := value.filter (· ≠ "")

def principalAuthorization (p : Actor) : Option (String × String) :=
  match whenSet p.tokenId with
  | some tokenId => some ("api", tokenId)
  | none => match whenSet p.externalGrantId with
    | some grantId => some (if p.oauthBuiltin then "builtin" else "external", grantId)
    | none => none

structure Normalized where
  /-- The actor without its role and its collections. -/
  rest : Actor
  roles : Finset String
  permissions : Finset String
  scopes : Finset String
  delegatedScopes : Option (Finset String)
  externalServerIds : Finset String
  externalToolIds : Finset String
  externalAccess : Finset Access
  oauthAudiences : Finset String
  oauthToolSnapshots : Finset (String × String)
  deriving DecidableEq

/-- A primary role must not introduce authority absent from the roles. -/
def normalized (p : Actor) : Option Normalized :=
  if p.role ∈ p.roleSet then
    some {
      rest := { p with
        role := "", roles := [], permissions := [], scopes := [], delegatedScopes := none, externalServerIds := [],
        externalToolIds := [], externalAccess := [], oauthAudiences := [], oauthToolSnapshots := [] }
      roles := p.roleSet.toFinset
      permissions := p.permissions.toFinset
      scopes := p.scopes.toFinset
      delegatedScopes := p.delegatedScopes.map (·.toFinset)
      externalServerIds := p.externalServerIds.toFinset
      externalToolIds := p.externalToolIds.toFinset
      externalAccess := p.externalAccess.toFinset
      oauthAudiences := p.oauthAudiences.toFinset
      oauthToolSnapshots := p.oauthToolSnapshots.toFinset }
  else none

def sameInvocationPrincipal (left right : Actor) : Bool :=
  match normalized left with
  | some original => normalized right = some original
  | none => false

end LingshuGate

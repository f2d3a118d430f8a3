import Mathlib.Data.List.Sort
import LingshuGate.Access.Schema
import LingshuGate.Lib.Check

/-!
# Policies of whole servers (`mcp_authorization_policy.py`)

`bindServerPolicies` is `bind_server_policies` (:45), with `server_binding` (:31) as a parameter. A policy that names a binding is
held to it. Tokens and OAuth grants both bind through it.
-/

namespace LingshuGate.AccessControl

open Lib

structure ServerPolicy where
  serverId : String
  access : Access
  serverBinding : String
  deriving DecidableEq

/-- A submitted policy; `extraKeys` is `set(policy) - {"server_id", "mode", "access", "server_binding"}`. -/
structure SubmittedPolicy where
  serverId : String
  mode : String := "continuous"
  access : Access
  serverBinding : Option String := none
  extraKeys : Bool := false
  deriving DecidableEq

/-- A saved policy, submitted as it is. -/
def ServerPolicy.submitted (p : ServerPolicy) : SubmittedPolicy :=
  { serverId := p.serverId, access := p.access, serverBinding := some p.serverBinding }

/-- `(server_id, mode, access)` -/
def SubmittedPolicy.intent (p : SubmittedPolicy) : String × String × Access := (p.serverId, p.mode, p.access)

def ServerPolicy.intent (p : ServerPolicy) : String × String × Access := (p.serverId, "continuous", p.access)

/-- The submitted binding is the saved one, or none is submitted. -/
def SubmittedPolicy.keepsBinding (previous : List ServerPolicy) (p : SubmittedPolicy) : Bool :=
  p.serverBinding.all fun b => (previous.find? (·.serverId = p.serverId)).any fun old => b = old.serverBinding

/-- The policy keeps its saved identity. -/
def SubmittedPolicy.unchanged (policy : SubmittedPolicy) (old : ServerPolicy) : Bool :=
  policy.mode = "continuous" && policy.access = old.access && policy.serverBinding.getD old.serverBinding = old.serverBinding

variable (serverBinding : String → Except String String)

/-- One turn of the loop; `seen` are the ids of the policies before. -/
def bindServerPolicy (seen : List String) (policy : SubmittedPolicy) : Except String ServerPolicy := do
  require (!policy.extraKeys && policy.mode = "continuous" && policy.access.usable && Py.idText 512 policy.serverId &&
    !seen.contains policy.serverId) "invalid_server_policy"
  let binding ← serverBinding policy.serverId
  require (policy.serverBinding.all (· = binding)) "server_scope_changed"
  return ⟨policy.serverId, policy.access, binding⟩

def bindEach : List String → List SubmittedPolicy → Except String (List ServerPolicy)
  | _, [] => .ok []
  | seen, policy :: rest => do
    let bound ← bindServerPolicy serverBinding seen policy
    let others ← bindEach (policy.serverId :: seen) rest
    return bound :: others

def bindServerPolicies (policies : List SubmittedPolicy) : Except String (List ServerPolicy) := do
  require (policies.length ≤ 100) "server_scope_limit"
  let bound ← bindEach serverBinding [] policies
  return bound.insertionSort fun a b => a.serverId ≤ b.serverId

variable {serverBinding}

theorem bindServerPolicy_ok {seen : List String} {policy : SubmittedPolicy} {bound : ServerPolicy} :
    bindServerPolicy serverBinding seen policy = .ok bound ↔
      (policy.extraKeys = false ∧ policy.mode = "continuous" ∧ policy.access.usable = true ∧ Py.idText 512 policy.serverId = true ∧
        policy.serverId ∉ seen) ∧ serverBinding policy.serverId = .ok bound.serverBinding ∧
      (∀ b, policy.serverBinding = some b → b = bound.serverBinding) ∧ bound = ⟨policy.serverId, policy.access, bound.serverBinding⟩ := by
  simp only [bindServerPolicy, bind_eq_ok, require_eq_ok, pure_eq_ok, exists_const, Bool.and_eq_true, Bool.not_eq_true',
    decide_eq_true_eq, List.contains_eq_mem, decide_eq_false_iff_not, and_assoc]
  constructor
  · rintro ⟨hkeys, hmode, husable, hid, hseen, binding, hbinding, hnamed, rfl⟩
    refine ⟨hkeys, hmode, husable, hid, hseen, hbinding, ?_, rfl⟩
    intro b hb
    rw [hb] at hnamed
    simpa using hnamed
  · rintro ⟨hkeys, hmode, husable, hid, hseen, hbinding, hnamed, hbound⟩
    refine ⟨hkeys, hmode, husable, hid, hseen, bound.serverBinding, hbinding, ?_, hbound.symm⟩
    cases hb : policy.serverBinding with
    | none => rfl
    | some b => simp [hnamed b hb]

end LingshuGate.AccessControl

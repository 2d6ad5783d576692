import Relay.Context

/-!
# Resolving failures

What becomes of a final failure: `Resolution.decide` looks at the fault, the mode of the policy and a
substitute result, if there is one. Some kinds of fault always fail the call. `Resolution.resolve`
asks a source of substitutes first, but only if its answer could matter.
-/

namespace Relay

/-- a source of substitute results for the tools of services -/
abbrev FallbackSource := Context → (service tool : String) → Option Json

/-- what becomes of a final failure -/
inductive Resolution
  /-- the call fails -/
  | propagate (fault : Fault)
  /-- the answer carries the fault, and what data there is -/
  | partially (fault : Fault) (data : Option Json)
  /-- the answer carries a substitute and the fault -/
  | substitute (fault : Fault) (data : Json)
deriving DecidableEq

namespace Resolution

/-- the same substitutes for the tools of every service -/
def fixedFallback (values : Table Json) : FallbackSource := fun _ _ tool => values.lookup tool

def isPropagate : Resolution → Bool
  | propagate _ => true
  | _ => false

def fault : Resolution → Fault
  | propagate fault => fault
  | partially fault _ => fault
  | substitute fault _ => fault

/-- what becomes of a failure -/
def decide (fault : Fault) (policy : Policy) (fallback : Option Json) : Resolution :=
  if fault.failsFast then .propagate fault
  else match policy.mode with
    | .failFast => .propagate fault
    | .allowPartial => .partially fault none
    | .bestEffort =>
      match fallback with
      | some data => .substitute fault data
      | none => .propagate fault

/-- whether a substitute could matter -/
def asksFallback (fault : Fault) (policy : Policy) : Bool :=
  policy.mode = .bestEffort && !fault.failsFast

/-- what becomes of a failure, with a source of substitutes -/
def resolve (source : Option FallbackSource) (c : Context) (service tool : String) (fault : Fault)
    (policy : Policy) : Resolution :=
  decide fault policy <|
    match source with
    | some source => if asksFallback fault policy then source c service tool else none
    | none => none

end Resolution

end Relay

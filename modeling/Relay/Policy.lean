import Relay.Text.Blank
import Relay.Wire

/-!
# Failure policies

A `Policy` says how one call deals with failure: how often it is tried again, how long an attempt
may take, whether a workflow undoes what it did, and in which `Mode` a final failure reaches the
caller. A mode is read leniently: anything that does not name a mode is the strictest one.
-/

namespace Relay

namespace Policy

/-- how a final failure reaches the caller -/
inductive Mode
  /-- as a failure -/
  | failFast
  /-- as an answer that carries the failure -/
  | allowPartial
  /-- as a substitute result, if there is one -/
  | bestEffort
deriving DecidableEq, Repr

namespace Mode

def name : Mode → String
  | failFast => "fail_fast"
  | allowPartial => "allow_partial"
  | bestEffort => "best_effort"

/-- names are compared without outer blanks and ASCII case, and a hyphen is as good as an underscore -/
def plainName (s : String) : String :=
  String.ofList ((Text.lowerAscii (Text.trim s)).toList.map (fun c => if c = '-' then '_' else c))

/-- the mode of a name; the strictest for any other text -/
def ofText (s : String) : Mode :=
  let plain := plainName s
  if plain = "allow_partial" then .allowPartial
  else if plain = "best_effort" then .bestEffort
  else .failFast

/-- the mode that a value names; the strictest for any other value -/
def ofJson : Json → Mode
  | .str s => ofText s
  | _ => .failFast

instance : Wire Mode := ⟨fun m => .str m.name, fun s => (Readable.payload? s).map ofJson⟩

end Mode

end Policy

/-- the failure policy of a call -/
structure Policy where
  mode : Policy.Mode := .failFast
  /-- attempts after the first -/
  retryCount : UInt32 := 0
  /-- the bound on one attempt in milliseconds; zero for none -/
  timeoutMs : UInt64 := 30000
  /-- whether a failed workflow undoes its completed sequential steps -/
  rollbackOnFailure : Bool := false
deriving DecidableEq, Repr

namespace Policy

def ofMode (mode : Mode) : Policy := { mode }

/-- the policy a request asks for, else the default -/
def resolve (requested : Option Policy) (default : Policy) : Policy := requested.getD default

def form (p : Policy) : Form := .record <|
  Wire.field "mode" p.mode ++ Wire.field "retry_count" p.retryCount ++
    Wire.field "timeout_ms" p.timeoutMs ++ Wire.field "rollback_on_failure" p.rollbackOnFailure

def read {σ : Type} [Readable σ] (s : σ) : Option Policy := do
  let r ← Row.read? ["mode", "retry_count", "timeout_ms", "rollback_on_failure"] s
  let default : Policy := {}
  return {
    mode := ← r.defaulted "mode" Wire.read default.mode
    retryCount := ← r.defaulted "retry_count" Wire.read default.retryCount
    timeoutMs := ← r.defaulted "timeout_ms" Wire.read default.timeoutMs
    rollbackOnFailure := ← r.defaulted "rollback_on_failure" Wire.read default.rollbackOnFailure }

instance : Wire Policy := ⟨form, read⟩

end Policy

end Relay

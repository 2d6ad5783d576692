import Relay.Wire

/-!
# Tool calls

A `Tool.Call` names a tool and its arguments, a `Tool.Answer` carries what the tool returned. An
answer that comes from a fallback and not from the service says so.
-/

namespace Relay.Tool

/-- a request to run a tool -/
structure Call where
  tool : String
  arguments : Json := Json.emptyObject
deriving DecidableEq

namespace Call

def form (c : Call) : Form := .record <|
  Wire.field "tool" c.tool ++ Wire.field "arguments" c.arguments

def read {σ : Type} [Readable σ] (s : σ) : Option Call := do
  let r ← Row.read? ["tool", "arguments"] s
  return {
    tool := ← r.required "tool" Wire.read
    arguments := ← r.defaulted "arguments" Wire.read Json.emptyObject }

instance : Wire Call := ⟨form, read⟩

end Call

/-- the result of a tool -/
structure Answer where
  tool : String
  content : Json
  /-- the content is a substitute -/
  fromFallback : Bool := false
deriving DecidableEq

namespace Answer

def form (a : Answer) : Form := .record <|
  Wire.field "tool" a.tool ++ Wire.field "content" a.content ++
    Wire.fieldIfTrue "from_fallback" a.fromFallback

def read {σ : Type} [Readable σ] (s : σ) : Option Answer := do
  let r ← Row.read? ["tool", "content", "from_fallback"] s
  return {
    tool := ← r.required "tool" Wire.read
    content := ← r.required "content" Wire.read
    fromFallback := ← r.defaulted "from_fallback" Wire.read false }

instance : Wire Answer := ⟨form, read⟩

end Answer

end Relay.Tool

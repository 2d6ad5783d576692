import Relay.Envelope.Header
import Relay.Fault

/-!
# Envelopes

An `Envelope α` is a header with data, a notice of failure, or both. A notice without data is a hard
failure; with data it is a warning that goes with a partial or recovered result.

On the wire data and notice are always there, null when absent. A payload that is itself null is
therefore read back as absent.
-/

namespace Relay

/-- a request or response -/
structure Envelope (α : Type) where
  header : Header
  data : Option α
  error : Option Notice
deriving DecidableEq

namespace Envelope

variable {α β : Type}

def ok (header : Header) (data : α) : Envelope α := ⟨header, some data, none⟩

def failed (header : Header) (fault : Fault) : Envelope α := ⟨header, none, some fault.notice⟩

def partly (header : Header) (data : Option α) (error : Notice) : Envelope α :=
  ⟨header, data, some error⟩

def isHardFailure (e : Envelope α) : Bool := e.error.isSome && e.data.isNone

def isPartial (e : Envelope α) : Bool := e.error.isSome && e.data.isSome

def isSuccess (e : Envelope α) : Bool := e.error.isNone

/-- the data, else the fault of the notice; an envelope with neither is invalid -/
def result (e : Envelope α) : Except Fault α :=
  match e.data, e.error with
  | some data, _ => .ok data
  | none, some notice => .error notice.fault
  | none, none =>
    .error (.validation ("envelope " ++ e.header.requestId ++ " carries neither data nor error"))

def map (f : α → β) (e : Envelope α) : Envelope β := ⟨e.header, e.data.map f, e.error⟩

variable [Wire α]

def form (e : Envelope α) : Form := .record <|
  Wire.field "meta" e.header ++ Wire.fieldOrNull "data" e.data ++ Wire.fieldOrNull "error" e.error

def read {σ : Type} [Readable σ] (s : σ) : Option (Envelope α) := do
  let r ← Row.read? ["meta", "data", "error"] s
  return {
    header := ← r.required "meta" Wire.read
    data := ← r.elective "data" Wire.read
    error := ← r.elective "error" Wire.read }

instance : Wire (Envelope α) := ⟨form, read⟩

end Envelope

end Relay

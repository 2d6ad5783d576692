import Relay.Wire

/-!
# Faults

A `Fault` is why a call failed. Its `kind` alone decides whether the call may be tried again and
whether a lenient policy may soften the failure. A fault that was made from the answer of a
peer carries the peer's code; `withCode` replaces an earlier one.

A `Notice` is the wire form of a fault. `Fault.notice` and `Notice.fault` go from one to the other.
-/

namespace Relay

namespace Fault

/-- the classes of failure -/
inductive Kind
  | transport
  | connection
  | timeout
  | serialization
  | protocolAdapter
  | security
  | tenantExtraction
  | validation
  | notFound
  | toolExecution
  | internal
  | external
  | config
deriving DecidableEq, Repr

namespace Kind

/-- may be tried again -/
def isRetryable : Kind → Bool
  | transport | connection | timeout | external => true
  | _ => false

/-- always fails the call, whatever the policy -/
def failsFast : Kind → Bool
  | validation | security | config => true
  | _ => false

def name : Kind → String
  | transport => "transport"
  | connection => "connection"
  | timeout => "timeout"
  | serialization => "serialization"
  | protocolAdapter => "protocol_adapter"
  | security => "security"
  | tenantExtraction => "tenant_extraction"
  | validation => "validation"
  | notFound => "not_found"
  | toolExecution => "tool_execution"
  | internal => "internal"
  | external => "external"
  | config => "config"

def all : List Kind :=
  [transport, connection, timeout, serialization, protocolAdapter, security, tenantExtraction,
    validation, notFound, toolExecution, internal, external, config]

instance : Named Kind := ⟨all, name⟩

instance : Wire Kind := Named.wire

/-- what messages of this kind begin with -/
def heading : Kind → String
  | transport => "Transport error"
  | connection => "Connection error"
  | timeout => "Timed out"
  | serialization => "Serialization error"
  | protocolAdapter => "Protocol adapter error"
  | security => "Security error"
  | tenantExtraction => "Tenant extraction failed"
  | validation => "Validation error"
  | notFound => "Not found"
  | toolExecution => "Tool execution failed"
  | internal => "Internal error"
  | external => "External service error"
  | config => "Configuration error"

theorem ofName?_name (k : Kind) : Named.ofName? (Named.name k) = some k := by
  cases k <;> rfl

end Kind

end Fault

/-- why a call failed -/
inductive Fault
  /-- a failure of a kind other than the failure of a tool -/
  | plain (kind : Fault.Kind) (message : String) (notTool : kind ≠ .toolExecution)
  /-- a tool ran and reported failure -/
  | tool (name reason : String)
  /-- the running task has no context -/
  | missingContext
  /-- a fault that a peer reported under a code -/
  | coded (code : Int64) (inner : Fault)
deriving DecidableEq, Repr

namespace Fault

/-- the fault of a kind with a message; a failing tool has no name then -/
def ofKind (kind : Kind) (message : String) : Fault :=
  if h : kind = .toolExecution then .tool "" message else .plain kind message h

def validation (message : String) : Fault := .plain .validation message (by decide)

def notFound (message : String) : Fault := .plain .notFound message (by decide)

def config (message : String) : Fault := .plain .config message (by decide)

def timeout (message : String) : Fault := .plain .timeout message (by decide)

def connection (message : String) : Fault := .plain .connection message (by decide)

def serialization (message : String) : Fault := .plain .serialization message (by decide)

def security (message : String) : Fault := .plain .security message (by decide)

def tenantExtraction (message : String) : Fault := .plain .tenantExtraction message (by decide)

def protocolAdapter (message : String) : Fault := .plain .protocolAdapter message (by decide)

def kind : Fault → Kind
  | plain kind _ _ => kind
  | tool _ _ => .toolExecution
  | missingContext => .internal
  | coded _ inner => inner.kind

/-- the code of the peer, if the fault has one -/
def code? : Fault → Option Int64
  | coded code _ => some code
  | _ => none

/-- the fault under a code, in place of any it has -/
def withCode (code : Int64) : Fault → Fault
  | coded _ inner => .coded code inner
  | fault => .coded code fault

def isRetryable (f : Fault) : Bool := f.kind.isRetryable

def failsFast (f : Fault) : Bool := f.kind.failsFast

def missingContextMessage : String := "No request context is bound to the current task"

/-- the full message -/
def message : Fault → String
  | plain kind message _ => kind.heading ++ ": " ++ message
  | tool name reason => Kind.toolExecution.heading ++ ": " ++ name ++ " - " ++ reason
  | missingContext => missingContextMessage
  | coded _ inner => inner.message

/-- the message without its heading -/
def detail : Fault → String
  | plain _ message _ => message
  | tool name reason => if name = "" then reason else name ++ ": " ++ reason
  | missingContext => missingContextMessage
  | coded _ inner => inner.detail

theorem kind_ofKind (kind : Kind) (message : String) : (ofKind kind message).kind = kind := by
  unfold ofKind
  split
  · rename_i h
    exact h.symm
  · rfl

theorem detail_ofKind (kind : Kind) (message : String) : (ofKind kind message).detail = message := by
  unfold ofKind
  split <;> simp [detail]

theorem kind_withCode (code : Int64) (f : Fault) : (f.withCode code).kind = f.kind := by
  cases f <;> rfl

theorem detail_withCode (code : Int64) (f : Fault) : (f.withCode code).detail = f.detail := by
  cases f <;> rfl

theorem code?_withCode (code : Int64) (f : Fault) : (f.withCode code).code? = some code := by
  cases f <;> rfl

end Fault

/-- the wire form of a fault -/
structure Notice where
  kind : Fault.Kind
  message : String
  retryable : Bool
  code : Option Int64
  /-- a report that the sender attached -/
  details : Option Json
deriving DecidableEq

namespace Notice

/-- a notice without code and details -/
def ofKind (kind : Fault.Kind) (message : String) : Notice :=
  ⟨kind, message, kind.isRetryable, none, none⟩

/-- the fault that a notice announces -/
def fault (n : Notice) : Fault :=
  match n.code with
  | some code => (Fault.ofKind n.kind n.message).withCode code
  | none => Fault.ofKind n.kind n.message

def form (n : Notice) : Form := .record <|
  Wire.field "kind" n.kind ++ Wire.field "message" n.message ++
    Wire.field "retryable" n.retryable ++ Wire.fieldIfSome "code" n.code ++
    Wire.fieldIfSome "details" n.details

def read {σ : Type} [Readable σ] (s : σ) : Option Notice := do
  let r ← Row.read? ["kind", "message", "retryable", "code", "details"] s
  return {
    kind := ← r.required "kind" Wire.read
    message := ← r.required "message" Wire.read
    retryable := ← r.defaulted "retryable" Wire.read false
    code := ← r.optional "code" Wire.read
    details := ← r.optional "details" Wire.read }

instance : Wire Notice := ⟨form, read⟩

end Notice

/-- the wire form of a fault, without details -/
def Fault.notice (f : Fault) : Notice := ⟨f.kind, f.detail, f.isRetryable, f.code?, none⟩

end Relay

import Relay.Injection
import Relay.RawPath

/-!
# Built-in injectors

* `standard`    puts everything it knows under `_context`;
* `database`    sets `tenant_id`, and `_trace` if there is a trace;
* `filesystem`  sets `tenant_id`, and `tenant_root` to the directory of the tenant, as text;
* `http`        sets the headers `x-request-id`, `x-tenant-id` and `traceparent`.

The arguments must be an object, or null for no arguments. All else in them stays.
-/

namespace Relay.Injection

/-- the tools that an injector supports -/
inductive ToolSet
  | any
  | only (names : List String)
deriving DecidableEq, Repr

namespace ToolSet

def contains (tool : String) : ToolSet → Bool
  | any => true
  | only names => tool ∈ names

end ToolSet

/-- why context could not be added -/
inductive Flaw
  | argumentsKind (kind : String)
  | headersKind (kind : String)
  | tenantName (tenant : String)
  | unknownInjector (name : String)
deriving DecidableEq, Repr

namespace Flaw

def fault : Flaw → Fault
  | argumentsKind kind => .validation ("tool arguments must be a JSON object, got " ++ kind)
  | headersKind kind => .validation ("'headers' must be an object, got " ++ kind)
  | tenantName tenant => .security ("tenant '" ++ tenant ++ "' is not a valid directory name")
  | unknownInjector name => .config ("unknown injector '" ++ name ++
      "' (expected default, database, filesystem or http)")

end Flaw

/-- the fields of an arguments object; null has none -/
def argumentFields : Json → Except Fault (Table Json)
  | .obj fields => .ok fields
  | .null => .ok []
  | other => .error (Flaw.argumentsKind other.kind).fault

/-- binds a key if there is a value for it -/
def putSome (key : String) (value : Option Json) (t : Table Json) : Table Json :=
  match value with
  | some v => t.put key v
  | none => t

/-- everything that `standard` knows -/
def contextObject (c : Context) : Json := .obj <|
  Table.put "request_id" (.str c.requestId) [] |>
    putSome "parent_request_id" (c.parentRequestId.map .str) |>
    putSome "tenant" (c.tenant.map .str) |>
    putSome "security" (c.security.map Wire.toJson) |>
    putSome "trace" (c.trace.map Wire.toJson)

/-- the header that carries the trace -/
def traceparent (t : Trace) : String := "00-" ++ t.traceId ++ "-" ++ t.spanId ++ "-01"

/-- the headers object of the arguments; null has no headers -/
def headerFields : Option Json → Except Fault (Table Json)
  | some (.obj headers) => .ok headers
  | some .null | none => .ok []
  | some other => .error (Flaw.headersKind other.kind).fault

def putHeaders (c : Context) (headers : Table Json) : Table Json :=
  headers.put "x-request-id" (.str c.requestId) |>
    putSome "x-tenant-id" (c.tenant.map .str) |>
    putSome "traceparent" (c.trace.map (fun t => .str (traceparent t)))

/-- whether a tenant names a directory: one normal step and nothing else -/
def isDirectoryName (tenant : String) : Bool :=
  match Path.components tenant with
  | [.normal _] => true
  | _ => false

/-- the injectors that configuration can name -/
inductive BuiltIn
  | standard
  | database (tools : ToolSet)
  | filesystem (root : RawPath) (tools : ToolSet)
  | http (tools : ToolSet)
deriving DecidableEq, Repr

namespace BuiltIn

/-- the name in configuration -/
def name : BuiltIn → String
  | standard => "default"
  | database _ => "database"
  | filesystem _ _ => "filesystem"
  | http _ => "http"

def supports (tool : String) : BuiltIn → Bool
  | standard => true
  | database tools => tools.contains tool
  | filesystem _ tools => tools.contains tool
  | http tools => tools.contains tool

def inject (c : Context) (arguments : Json) : BuiltIn → Except Fault Json
  | standard => do
    let fields ← argumentFields arguments
    return .obj (fields.put "_context" (contextObject c))
  | database _ => do
    let tenant ← c.requireTenant
    let fields ← argumentFields arguments
    return .obj (putSome "_trace" (c.trace.map Wire.toJson) (fields.put "tenant_id" (.str tenant)))
  | filesystem root _ => do
    let tenant ← c.requireTenant
    if isDirectoryName tenant then
      let fields ← argumentFields arguments
      return .obj ((fields.put "tenant_id" (.str tenant)).put "tenant_root"
        (.str (root.join tenant).lossyText))
    else throw (Flaw.tenantName tenant).fault
  | http _ => do
    let fields ← argumentFields arguments
    let headers ← headerFields (fields.lookup "headers")
    return .obj (fields.put "headers" (.obj (putHeaders c headers)))

/-- where tenants live unless something else is said -/
def defaultRoot : RawPath := .ofText "/tenants"

/-- the injector of a name in configuration, which supports every tool -/
def ofName (name : String) : Except Fault BuiltIn :=
  if name = "default" then .ok .standard
  else if name = "database" then .ok (.database .any)
  else if name = "filesystem" then .ok (.filesystem defaultRoot .any)
  else if name = "http" then .ok (.http .any)
  else .error (Flaw.unknownInjector name).fault

def injector (b : BuiltIn) : Injector where
  name := b.name
  supports tool := b.supports tool
  inject c _ arguments := b.inject c arguments

end BuiltIn

/-- no service has an injector -/
def Board.empty : Board := { default := BuiltIn.standard.injector }

end Relay.Injection

import Relay.Backoff
import Relay.Policy
import Relay.Transport

/-!
# Settings

`Settings` is the configuration of a process: the domain of its subjects, the policy of requests that
bring none, the delays of retries, what is logged, and the services that it knows. Every field has a
default, so that an empty configuration is a valid one.
-/

namespace Relay

open Wire (field fieldIfSome fieldList)

namespace Settings

structure Logging where
  level : String := "info"
  /-- as lines of JSON -/
  json : Bool := false
deriving DecidableEq, Repr

namespace Logging

def form (l : Logging) : Form := .record <| field "level" l.level ++ field "json" l.json

def read {σ : Type} [Readable σ] (s : σ) : Option Logging := do
  let r ← Row.read? ["level", "json"] s
  let default : Logging := {}
  return {
    level := ← r.defaulted "level" Wire.read default.level
    json := ← r.defaulted "json" Wire.read default.json }

instance : Wire Logging := ⟨form, read⟩

end Logging

structure KnownService where
  name : String
  transport : Transport
  /-- the name of a built-in injector -/
  injector : Option String := none
deriving DecidableEq, Repr

namespace KnownService

def form (s : KnownService) : Form := .record <|
  field "name" s.name ++ field "transport" s.transport ++ fieldIfSome "injector" s.injector

def read {σ : Type} [Readable σ] (s : σ) : Option KnownService := do
  let r ← Row.read? ["name", "transport", "injector"] s
  return {
    name := ← r.required "name" Wire.read
    transport := ← r.required "transport" Wire.read
    injector := ← r.optional "injector" Wire.read }

instance : Wire KnownService := ⟨form, read⟩

end KnownService

end Settings

/-- the configuration of a process -/
structure Settings where
  /-- the first segment of every subject -/
  domain : String := "mcp"
  /-- the policy of requests that bring none -/
  defaultPolicy : Policy := {}
  retry : RetrySettings := {}
  logging : Settings.Logging := {}
  services : List Settings.KnownService := []
deriving DecidableEq, Repr

namespace Settings

/-- the first known service of a name -/
def service? (s : Settings) (name : String) : Option KnownService :=
  s.services.find? (·.name == name)

/-- equal settings, where numbers are compared as numbers -/
def agrees (s t : Settings) : Bool :=
  s.domain == t.domain && s.defaultPolicy == t.defaultPolicy && s.retry.agrees t.retry &&
    s.logging == t.logging && s.services == t.services

def form (s : Settings) : Form := .record <|
  field "domain" s.domain ++ field "default_error_policy" s.defaultPolicy ++
    field "retry" s.retry ++ field "logging" s.logging ++ fieldList "services" s.services

def read {σ : Type} [Readable σ] (s : σ) : Option Settings := do
  let r ← Row.read? ["domain", "default_error_policy", "retry", "logging", "services"] s
  let default : Settings := {}
  return {
    domain := ← r.defaulted "domain" Wire.read default.domain
    defaultPolicy := ← r.defaulted "default_error_policy" Wire.read default.defaultPolicy
    retry := ← r.defaulted "retry" Wire.read default.retry
    logging := ← r.defaulted "logging" Wire.read default.logging
    services := ← r.defaulted "services" (readList Wire.read) default.services }

instance : Wire Settings := ⟨form, read⟩

end Settings

end Relay

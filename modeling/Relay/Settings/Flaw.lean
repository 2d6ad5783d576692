import Relay.Fault
import Relay.Number.Layout
import Relay.Settings

/-!
# Flaws of settings

Why settings cannot be used: a file cannot be read, an inclusion is not allowed, or the settings that
come out are no good. `Settings.check` finds the first flaw of the last sort.

Some flaws give a reason in the words of whoever found it; `Flaw.withReason` puts other words in their
place.
-/

namespace Relay.Settings

/-- why settings cannot be used -/
inductive Flaw
  | unreadable (path reason : String)
  | unparsable (path reason : String)
  /-- the values of a file do not make up settings -/
  | unfit (path reason : String)
  | tooDeep (limit : Nat)
  | circular (name : String)
  | absolute (name : String)
  | climbing (name : String)
  | missing (name reason : String)
  | noDirectory (path reason : String)
  | outside (name : String)
  | badDomain (domain : String)
  | crossedDelays (least greatest : UInt64)
  | badJitter (jitter : Binary64)
  | badServiceName (name : String)
  | repeatedService (name : String)
deriving DecidableEq, Repr

namespace Flaw

/-- the flaw with another wording of its reason -/
def withReason (reason : String) : Flaw → Flaw
  | unreadable path _ => .unreadable path reason
  | unparsable path _ => .unparsable path reason
  | unfit path _ => .unfit path reason
  | missing name _ => .missing name reason
  | noDirectory path _ => .noDirectory path reason
  | flaw => flaw

def message : Flaw → String
  | unreadable path reason => "cannot read " ++ path ++ ": " ++ reason
  | unparsable path reason => "cannot parse " ++ path ++ ": " ++ reason
  | unfit path reason => path ++ ": " ++ reason
  | tooDeep limit => "config includes nest deeper than " ++ toString limit
  | circular name => "circular config include: " ++ name
  | absolute name => "config include must be relative: " ++ name
  | climbing name => "config include may not contain '..': " ++ name
  | missing name reason => "config include '" ++ name ++ "': " ++ reason
  | noDirectory path reason => "config dir " ++ path ++ ": " ++ reason
  | outside name => "config include '" ++ name ++ "' escapes the config directory"
  | badDomain domain => "domain '" ++ domain ++ "' must be a single non-empty subject segment"
  | crossedDelays least greatest =>
    "retry.min_delay_ms (" ++ toString least.toNat ++ ") exceeds retry.max_delay_ms (" ++
      toString greatest.toNat ++ ")"
  | badJitter jitter =>
    "retry.jitter must be within 0.0..=1.0, got " ++ Layout.message.number jitter
  | badServiceName name =>
    "service name '" ++ name ++ "' must be a single non-empty subject segment"
  | repeatedService name => "service '" ++ name ++ "' is declared twice"

def fault (f : Flaw) : Fault := .config f.message

theorem kind_fault (f : Flaw) : f.fault.kind = .config := rfl

end Flaw

/-- a name that is not empty and has no dot -/
def isSingle (name : String) : Bool := name ≠ "" && !name.toList.contains '.'

/-- checks the names of services against those seen -/
def checkServices (seen : List String) : List KnownService → Except Flaw Unit
  | [] => .ok ()
  | service :: services =>
    if !isSingle service.name then .error (.badServiceName service.name)
    else if service.name ∈ seen then .error (.repeatedService service.name)
    else checkServices (service.name :: seen) services

/-- the first flaw of settings -/
def check (s : Settings) : Except Flaw Unit :=
  if !isSingle s.domain then .error (.badDomain s.domain)
  else if s.retry.maxDelayMs < s.retry.minDelayMs then
    .error (.crossedDelays s.retry.minDelayMs s.retry.maxDelayMs)
  else if !s.retry.jitter.inUnitInterval then .error (.badJitter s.retry.jitter)
  else checkServices [] s.services

end Relay.Settings

import Relay.Context
import Relay.Table

/-!
# Injection

An `Injector` adds context to the arguments of a tool before they leave for a service. It declares
which tools it supports. An `Injection.Board` assigns injectors to services; the calls of a tool that
the injector of its service does not support, and of services without one, go to the default.
-/

namespace Relay

/-- adds context to the arguments of tools -/
structure Injector where
  name : String
  supports : String → Bool
  inject : Context → (tool : String) → (arguments : Json) → Except Fault Json

namespace Injection

/-- the injectors of services, and the default -/
structure Board where
  byService : Table Injector := []
  default : Injector

namespace Board

/-- assigns an injector to a service, in place of an earlier one -/
def assign (service : String) (injector : Injector) (b : Board) : Board :=
  { b with byService := b.byService.put service injector }

def resolve (b : Board) (service tool : String) : Injector :=
  match b.byService.lookup service with
  | some injector => if injector.supports tool then injector else b.default
  | none => b.default

/-- the number of services that have an injector -/
def size (b : Board) : Nat := b.byService.length

end Board

end Injection

end Relay

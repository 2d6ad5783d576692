import Relay.Settings.Home
import Relay.Settings.Source
import Relay.Subject
import Relay.Workflow.Assembly

/-!
# Hubs

A `Hub` is the assembled whole: settings, the dispatcher of calls, the engine of workflows. It is
assembled from its settings and from `Hub.Parts`, which are not in any configuration.

* `Hub.Addition`  what is added to the parts, one after the other;
* `Hub.board`     the injectors of services: those named in the settings, then those of the parts;
* `Hub.assemble`  a hub with given settings;
* `Hub.start`     a hub with the settings of a file: a file that is asked for must be good, but without
  one the file of the user is read as far as it goes.
-/

namespace Relay

/-- what a hub is assembled from besides its settings, each in the order of registration -/
structure Hub.Parts where
  services : Table Service := []
  injectors : List (String × Injector) := []
  definitions : List Workflow.Definition := []
  handlers : List (String × Workflow.Handler) := []
  fallback : Option FallbackSource := none
  /-- the fractions that jitter draws, by attempt -/
  fractions : Nat → Float := fun _ => 0.5

/-- what is added to the parts of a hub -/
inductive Hub.Addition
  | injector (service : String) (injector : Injector)
  | definition (definition : Workflow.Definition)
  | handler (name : String) (handler : Workflow.Handler)
  | fallback (source : FallbackSource)

/-- takes an addition in after those before it; of fallbacks there is one, the latest -/
def Hub.Parts.add (p : Parts) : Addition → Parts
  | .injector service injector => { p with injectors := p.injectors ++ [(service, injector)] }
  | .definition definition => { p with definitions := p.definitions ++ [definition] }
  | .handler name handler => { p with handlers := p.handlers ++ [(name, handler)] }
  | .fallback source => { p with fallback := some source }

def Hub.Parts.addAll (p : Parts) (additions : List Addition) : Parts := additions.foldl add p

/-- the assembled whole -/
structure Hub where
  settings : Settings
  engine : Workflow.Engine

namespace Hub

/-- why there is no hub -/
inductive Flaw
  /-- the pieces do not fit together -/
  | assembly (fault : Fault)
  /-- the file that was asked for has no settings -/
  | settings (path : String) (flaw : Settings.Flaw)

namespace Flaw

def message : Flaw → String
  | assembly fault => fault.message
  | settings path flaw => "Boot failed: " ++ path ++ ": " ++ flaw.fault.message

end Flaw

/-! ## assembling -/

/-- assigns the injectors that the settings name, in order -/
def assignNamed (board : Injection.Board) :
    List Settings.KnownService → Except Fault Injection.Board
  | [] => .ok board
  | service :: services =>
    match service.injector with
    | none => assignNamed board services
    | some name =>
      match Injection.BuiltIn.ofName name with
      | .error fault => .error fault
      | .ok builtIn => assignNamed (board.assign service.name builtIn.injector) services

/-- the injectors of services; a part counts more than the settings -/
def board (settings : Settings) (injectors : List (String × Injector)) :
    Except Fault Injection.Board :=
  (assignNamed .empty settings.services).map fun named =>
    injectors.foldl (fun board entry => board.assign entry.1 entry.2) named

def dispatcher (settings : Settings) (parts : Parts) (board : Injection.Board) : Dispatcher where
  services := parts.services
  board
  settings := settings.retry
  fallback := parts.fallback
  defaultPolicy := settings.defaultPolicy
  fractions := parts.fractions

def registrations (parts : Parts) : List Workflow.Engine.Registration :=
  parts.definitions.map .definition ++ parts.handlers.map fun entry => .handler entry.1 entry.2

def assemble (settings : Settings) (parts : Parts) : Except Fault Hub := do
  let board ← board settings parts.injectors
  let engine ← (Workflow.Engine.assemble (dispatcher settings parts board)
    (registrations parts)).mapError Workflow.Engine.Flaw.fault
  return { settings, engine }

/-- the settings of a file, or those in the home of the user if none is named -/
def settingsAt (files : Settings.Files) (user : String) :
    Option String → Except Flaw Settings
  | some path => (Settings.load files path).mapError (.settings path)
  | none => .ok (Settings.loadOrDefault files (Settings.Home.file user))

/-- a hub with the settings of a file -/
def start (files : Settings.Files) (user : String) (path : Option String) (parts : Parts) :
    Except Flaw Hub := do
  (assemble (← settingsAt files user path) parts).mapError .assembly

/-! ## use -/

def calls (h : Hub) : Dispatcher := h.engine.dispatcher

/-- the route to or from a service in the domain of the hub -/
def subject (h : Hub) (service : String) (direction : Direction) : Except Subject.Flaw Subject :=
  Subject.make h.settings.domain service direction

/-- the names of the registered workflows, sorted -/
def operations (h : Hub) : List String := Table.keys h.engine.definitions

def definition? (h : Hub) (operation : String) : Option Workflow.Definition :=
  h.engine.definitions.lookup operation

end Hub

end Relay

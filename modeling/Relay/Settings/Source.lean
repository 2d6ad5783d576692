import Relay.Path
import Relay.Settings.Flaw
import Relay.Toml.Document

/-!
# Configuration files

Settings come from a TOML file, which may include others: a `Source` is a file that was read with the
sources that it includes. Included files are laid over each other in order, and the including file over
them all.

An included file is named relative to the directory of the including one, and must lie in that
directory or below it. No file is read twice. `Settings.load` gives the settings of a file, and keeps
a log of the files that were read, also if they come to nothing.
-/

namespace Relay.Settings

/-- what files are read from; the reason of a failure is in words of its own -/
structure Files where
  /-- the text of a file -/
  read : (path : String) → Except String String
  /-- the path of a file or directory from the root, without links and dots -/
  canonical : (path : String) → Except String String

/-- a file that was read, without what it says of includes, and the files that it includes -/
inductive Source
  | mk (path : String) (own : Toml) (includes : List Source)

namespace Source

def path : Source → String
  | mk path _ _ => path

def own : Source → Toml
  | mk _ own _ => own

def includes : Source → List Source
  | mk _ _ includes => includes

/-! ## values -/

mutual

/-- the value of a file: its own, laid over those of the files that it includes -/
def value : Source → Toml
  | mk _ own includes => (valueOver .emptyTable includes).overlay own

/-- the values of files, each laid over those before it -/
def valueOver (base : Toml) : List Source → Toml
  | [] => base
  | source :: rest => valueOver (base.overlay source.value) rest

end

/-! ## loading -/

/-- what is noted while files are loaded, the last first -/
structure Log where
  /-- the files that may not be included any more -/
  seen : List String := []
  /-- the paths of the files that were read -/
  reads : List String := []

namespace Log

def see (path : String) (log : Log) : Log := { log with seen := path :: log.seen }

def read (path : String) (log : Log) : Log := { log with reads := path :: log.reads }

end Log

/-- loads files; the log is kept also if they come to nothing -/
abbrev Loading := ExceptT Flaw (StateM Log)

/-- the key that names the files to include -/
def includeKey : String := "include"

/-- how deep files may be included -/
def depthLimit : Nat := 10

/-- the files that a value names, one or a list of them; what is no text is skipped -/
def namesIn : Toml → List String
  | .string name => [name]
  | .array items => items.filterMap fun item => match item with
    | .string name => some name
    | _ => none
  | _ => []

/-- the files that a configuration includes, and what else it says -/
def split : Toml → List String × Toml
  | .table fields =>
    (((fields.lookup includeKey).map namesIn).getD [], .table (Table.without includeKey fields))
  | other => ([], other)

variable (files : Files)

/-- the value of a file -/
def contents (path : String) : Except Flaw Toml :=
  match files.read path with
  | .error reason => .error (.unreadable path reason)
  | .ok text =>
    match Toml.parse? text with
    | some value => .ok value
    | none => .error (.unparsable path "not a TOML text")

def readValue (path : String) : Loading Toml := do
  modify (·.read path)
  contents files path

/-- the path of an included file -/
def locate (directory name : String) : Except Flaw String :=
  if Path.isAbsolute name then .error (.absolute name)
  else if .parent ∈ Path.components name then .error (.climbing name)
  else match files.canonical (Path.join directory name) with
    | .error reason => .error (.missing name reason)
    | .ok found =>
      match files.canonical directory with
      | .error reason => .error (.noDirectory directory reason)
      | .ok top => if Path.startsWith found top then .ok found else .error (.outside name)

/-- notes that a file is about to be included; it must not have been before -/
def visit (name path : String) : Loading Unit := do
  if path ∈ (← get).seen then throw (.circular name)
  modify (·.see path)

/-- the directory of an included file -/
def directoryOf (path directory : String) : String := (Path.parent? path).getD directory

/-- a file that is named in a directory; `inner` loads the files that it includes -/
def enter (inner : (path directory : String) → Toml → Loading Source) (directory name : String) :
    Loading Source := do
  let found ← locate files directory name
  visit name found
  let whole ← readValue files found
  inner found (directoryOf found directory) whole

/-- a file of a given value, with the files that it includes in its directory; `left` bounds how deep
they may be included -/
def load : (left : Nat) → (path directory : String) → Toml → Loading Source
  | 0, _, _, _ => throw (.tooDeep depthLimit)
  | left + 1, path, directory, whole => do
    let includes ← (split whole).1.mapM (enter files (load left) directory)
    return mk path (split whole).2 includes

/-- the directory in which the files lie that the root includes -/
def rootDirectory (path : String) : String := (Path.parent? path).getD "."

/-- what the root is known as among the files that are included -/
def identity (path : String) : String := (files.canonical path).toOption.getD path

/-- the root of a configuration -/
def loadRoot (path : String) : Loading Source := do
  let whole ← readValue files path
  modify (·.see (identity files path))
  load files (depthLimit + 1) path (rootDirectory path) whole

end Source

/-! ## settings -/

/-- the settings that a value says, without flaws -/
def ofToml (path : String) (value : Toml) : Except Flaw Settings :=
  match (Wire.read value : Option Settings) with
  | none => .error (.unfit path "not a configuration")
  | some settings => do
    settings.check
    return settings

def loading (files : Files) (path : String) : Source.Loading Settings := do
  let source ← Source.loadRoot files path
  ofToml path source.value

/-- the settings of a file -/
def load (files : Files) (path : String) : Except Flaw Settings :=
  (loading files path |>.run {}).1

/-- the files that are read for the settings of a file, in order -/
def filesRead (files : Files) (path : String) : List String :=
  (loading files path |>.run {}).2.reads.reverse

/-- the settings of a file, or the defaults if it has none that can be used -/
def loadOrDefault (files : Files) (path : String) : Settings :=
  match load files path with
  | .ok settings => settings
  | .error _ => {}

end Relay.Settings

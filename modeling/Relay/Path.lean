import Relay.Text.Split

/-!
# Paths

Unix paths as text. `Path.components` reads a path as the steps it takes: repeated and closing
slashes do not count, nor does `.` except at the very start of a relative path. `Path.join` puts a
path under a directory; an absolute path stays as it is. `Path.parent?` is the directory of a path.
-/

namespace Relay.Path

/-- one step of a path -/
inductive Component
  | root
  | current
  | parent
  | normal (name : String)
deriving DecidableEq, Repr

/-- a step that a run between slashes takes, after the start of a path -/
def ofRun? (run : List Char) : Option Component :=
  if run = [] ∨ run = ['.'] then none
  else if run = ['.', '.'] then some .parent
  else some (.normal (String.ofList run))

def isAbsoluteChars : List Char → Bool
  | '/' :: _ => true
  | _ => false

def isAbsolute (path : String) : Bool := isAbsoluteChars path.toList

/-- the steps of the characters of a path -/
def componentsOfChars (cs : List Char) : List Component :=
  let runs := Text.split '/' cs
  if isAbsoluteChars cs then .root :: runs.filterMap ofRun?
  else if runs.head? = some ['.'] then .current :: runs.tail.filterMap ofRun?
  else runs.filterMap ofRun?

/-- the steps of a path -/
def components (path : String) : List Component := componentsOfChars path.toList

def join (directory path : String) : String :=
  if isAbsolute path then path
  else match directory.toList.getLast? with
    | none => path
    | some c => if c = '/' then directory ++ path else directory ++ "/" ++ path

/-- whether the steps of a path begin with those of another -/
def startsWith (path directory : String) : Bool :=
  (components directory).isPrefixOf (components path)

/-- runs without those at the end that take no step -/
def trimRuns (runs : List (List Char)) : List (List Char) :=
  (runs.reverse.dropWhile (fun run => run = [] ∨ run = ['.'])).reverse

/-- relative runs without those at the end that take no step; the first `.` takes one -/
def trimRelative : List (List Char) → List (List Char)
  | ['.'] :: runs => ['.'] :: trimRuns runs
  | runs => trimRuns runs

/-- the directory of a path; the root and the empty path have none -/
def parent? (path : String) : Option String :=
  let cs := path.toList
  if isAbsoluteChars cs then
    match trimRuns (Text.split '/' cs).tail with
    | [] => none
    | runs => some (String.ofList ('/' :: Text.join '/' (trimRuns runs.dropLast)))
  else
    match trimRelative (Text.split '/' cs) with
    | [] => none
    | runs => some (String.ofList (Text.join '/' (trimRelative runs.dropLast)))

end Relay.Path

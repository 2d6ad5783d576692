import Relay.Settings.Source
import Relay.Table
import Relay.Text.Split

/-!
# File trees

A `FileTree` holds files and symbolic links by their place. A directory is there if something lies
below it. `FileTree.resolve` follows a path from place to place: a directory must be there for every
step, links are followed at any step, and only so many of them. The path of a file that is read may not
be too long.
-/

namespace Relay

/-- the names from the root down, in reverse -/
abbrev Place := List String

/-- what lies at a place -/
inductive FileTree.Node
  | file (text : String)
  | link (target : String)
  | directory
deriving DecidableEq, Repr

/-- files and links, and where relative paths start -/
structure FileTree where
  entries : List (Place × FileTree.Node) := []
  workingPlace : Place := []

namespace FileTree

/-- why there is nothing at a path -/
inductive Flaw
  | notFound
  | notDirectory
  | isDirectory
  | tooManyLinks
  | nameTooLong
deriving DecidableEq, Repr

namespace Flaw

def message : Flaw → String
  | notFound => "no such file or directory"
  | notDirectory => "not a directory"
  | isDirectory => "is a directory"
  | tooManyLinks => "too many levels of symbolic links"
  | nameTooLong => "file name too long"

end Flaw

/-- the steps of a path, as they are written -/
def steps (path : String) : List String := (Text.split '/' path.toList).map String.ofList

/-- the steps of a path that name something -/
def names (path : String) : List String := (steps path).filter (fun s => s ≠ "" && s ≠ ".")

/-- enters a file or a link at a path below a place -/
def add (below : Place) (path : String) (node : Node) (t : FileTree) : FileTree :=
  { t with entries := ((names path).reverse ++ below, node) :: t.entries }

/-- what lies at a place -/
def node? (t : FileTree) (place : Place) : Option Node :=
  match t.entries.lookup place with
  | some node => some node
  | none =>
    if place = [] ∨ t.entries.any (fun e => e.1 ≠ place && place.isSuffixOf e.1) then some .directory
    else none

/-- how many links may be followed -/
def linkLimit : Nat := 40

/-- follows steps from a place, with at most `links` links -/
def walk (t : FileTree) (links : Nat) (here : Place) : List String → Except Flaw Place
  | [] => .ok here
  | step :: rest =>
    if t.node? here ≠ some .directory then .error .notDirectory
    else if step = "" ∨ step = "." then walk t links here rest
    else if step = ".." then walk t links here.tail rest
    else match t.node? (step :: here) with
      | none => .error .notFound
      | some (.link target) =>
        match links with
        | 0 => .error .tooManyLinks
        | links + 1 =>
          walk t links (if Path.isAbsolute target then [] else here) (steps target ++ rest)
      | some _ => walk t links (step :: here) rest
termination_by path => (links, path.length)

def resolve (t : FileTree) (path : String) : Except Flaw Place :=
  if path = "" then .error .notFound
  else walk t linkLimit (if Path.isAbsolute path then [] else t.workingPlace) (steps path)

def pathOf (place : Place) : String :=
  "/" ++ "/".intercalate place.reverse

/-- how many bytes the path of a file that is read may have -/
def pathLimit : Nat := 4095

/-- the text of a file -/
def read (t : FileTree) (path : String) : Except Flaw String := do
  if pathLimit < path.utf8ByteSize then throw .nameTooLong
  match t.node? (← t.resolve path) with
  | some (.file text) => return text
  | some .directory => throw .isDirectory
  | _ => throw .notFound

def files (t : FileTree) : Settings.Files where
  read path := (t.read path).mapError Flaw.message
  canonical path := ((t.resolve path).map pathOf).mapError Flaw.message

end FileTree

end Relay

import Relay.Toml.Quoted
import Relay.Toml.Scalar
import Relay.Toml.Draft

/-!
# TOML statements

A TOML text is a list of statements, one to a line: the header of a table, the header of the next
table of a series, or an entry. `Statement.ofText?` reads the statements of a text. What they come to
is not decided here, except inside braces, where entries make up a table.
-/

namespace Relay.Toml

open Text (Reader)

/-- how many arrays and tables may lie inside each other, and how many parts a key may have -/
def nestingLimit : Nat := 79

/-! ## blanks and keys -/

/-- takes the blanks of a line -/
def blanks : Reader Unit := do
  let _ ← Reader.run isBlank

/-- takes a comment if one comes next -/
def comment : Reader Unit := do
  if ← Reader.skipIf '#' then
    let _ ← Reader.run isPlain

/-- takes blanks, a comment and the end of a line, if there is an end; says whether it was the last -/
def skipLine : Reader (List Unit × Bool) := do
  blanks
  comment
  return ([], !(← lineEndIf))

/-- takes blanks, comments and line ends -/
def blankLines : Reader Unit := do
  let _ ← Reader.collect skipLine

def isKeyChar (c : Char) : Bool := c.isAlphanum || c == '_' || c == '-'

def keyPart : Reader String := do
  match ← Reader.peek with
  | some '"' =>
    Reader.skip '"'
    (Delimiter.single '"').body
  | some '\'' =>
    Reader.skip '\''
    (Delimiter.single '\'').body
  | _ =>
    let cs ← Reader.run isKeyChar
    guard (!cs.isEmpty)
    return String.ofList cs

/-- a part of a key with blanks around it, and whether it is the last -/
def keyStep : Reader (List String × Bool) := do
  blanks
  let part ← keyPart
  blanks
  return ([part], !(← Reader.skipIf '.'))

/-- a key with blanks around it -/
def key : Reader (List String) := do
  let parts ← Reader.collect keyStep
  guard (parts.length ≤ nestingLimit)
  return parts

/-! ## values -/

/-- a word; the time after a date and a blank belongs to it -/
def word : Reader Toml := do
  let cs ← Reader.run Word.isWordChar
  match ← Reader.ahead with
  | ' ' :: c :: _ =>
    if Moment.isDate cs && c.isDigit then
      Reader.drop 1
      let time ← Reader.run Word.isWordChar
      Word.value? (cs ++ ' ' :: time)
    else Word.value? cs
  | _ => Word.value? cs

/-- an item of an array, if there is one more, and whether it is the last -/
def arrayStep (value : Reader Draft) : Reader (List Draft × Bool) := do
  blankLines
  if ← Reader.skipIf ']' then return ([], true)
  let item ← value
  blankLines
  if ← Reader.skipIf ',' then return ([item], false)
  Reader.skip ']'
  return ([item], true)

def arrayOf (value : Reader Draft) : Reader Draft := do
  Reader.skip '['
  return .array (← Reader.collect (arrayStep value))

/-- a key and its value -/
def entry (value : Reader Draft) : Reader (List String × Draft) := do
  let path ← key
  Reader.skip '='
  blanks
  return (path, ← value)

/-- an entry of a table in braces, and whether it is the last -/
def tableStep (value : Reader Draft) : Reader (List (List String × Draft) × Bool) := do
  let found ← entry value
  blanks
  if ← Reader.skipIf ',' then return ([found], false)
  Reader.skip '}'
  return ([found], true)

/-- a table in braces -/
def braces (value : Reader Draft) : Reader Draft := do
  Reader.skip '{'
  blanks
  if ← Reader.skipIf '}' then return .closed []
  return .closed (← Draft.ofEntries? (← Reader.collect (tableStep value)))

/-- a value, given the readers of arrays and of tables in braces -/
def valueWith (array table : Reader Draft) : Reader Draft := do
  match ← Reader.peek with
  | some '"' => return .plain (.string (← quoted '"'))
  | some '\'' => return .plain (.string (← quoted '\''))
  | some '[' => array
  | some '{' => table
  | _ => return .plain (← word)

/-- a value with at most so many arrays and tables inside each other -/
def value : Nat → Reader Draft
  | 0 => valueWith failure failure
  | nesting + 1 => valueWith (arrayOf (value nesting)) (braces (value nesting))

/-! ## statements -/

inductive Statement
  | header (path : List String)
  | seriesHeader (path : List String)
  | entry (path : List String) (value : Draft)

namespace Statement

def next : Reader Statement := do
  if ← Reader.skipIf '[' then
    if ← Reader.skipIf '[' then
      let path ← key
      Reader.skip ']'
      Reader.skip ']'
      return .seriesHeader path
    else
      let path ← key
      Reader.skip ']'
      return .header path
  else
    let (path, found) ← Toml.entry (value nestingLimit)
    return .entry path found

/-- a line with the statement on it, and whether it is the last -/
def line : Reader (List Statement × Bool) := do
  blanks
  let found ← match ← Reader.peek with
    | none => pure []
    | some '#' => pure []
    | some '\n' => pure []
    | some '\r' => pure []
    | some _ => pure [← next]
  blanks
  comment
  if ← lineEndIf then return (found, false)
  if (← Reader.peek).isNone then return (found, true) else failure

/-- the statements of the rest of a text -/
def all : Reader (List Statement) := do
  let _ ← Reader.skipIf '\uFEFF'
  Reader.collect line

def ofText? (text : String) : Option (List Statement) := Reader.whole? all text

end Statement

end Relay.Toml

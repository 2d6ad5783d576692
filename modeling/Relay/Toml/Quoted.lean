import Relay.Text.Hex
import Relay.Text.Reader

/-!
# Quoted text of TOML

Text stands between single quotes as it is, and between double quotes with escapes. Three quotes of
either sort stand around text of several lines: a line end right after the opening quotes does not
count, up to two quotes may stand before the closing ones, and in double quotes a backslash at the end
of a line takes away all blanks and line ends that follow.

A `Delimiter` is the sort of quotes; `Delimiter.body` reads what follows the opening ones.
-/

namespace Relay.Toml

open Text (Reader hexValueOf?)

/-- a character that may stand in text, in a comment or in a quoted key -/
def isPlain (c : Char) : Bool := c = '\t' || (0x20 ≤ c.toNat && c.toNat ≠ 0x7F)

/-- a blank inside a line -/
def isBlank (c : Char) : Bool := c = ' ' || c = '\t'

/-- takes the end of a line, if it comes next -/
def lineEndIf : Reader Bool
  | '\n' :: cs => some (true, cs)
  | '\r' :: '\n' :: cs => some (true, cs)
  | cs => some (false, cs)

/-- the sort of quotes around a text -/
structure Delimiter where
  quote : Char
  /-- whether a backslash stands before an escape -/
  escapes : Bool
  /-- whether there are three of them -/
  multiline : Bool
deriving DecidableEq, Repr

namespace Delimiter

def codePoint (digits : Nat) : Reader Char := do
  let ds := (← Reader.ahead).take digits
  guard (ds.length == digits)
  Reader.drop digits
  let n ← hexValueOf? ds
  if n.isValidChar then return Char.ofNat n else failure

/-- whether a line end comes after blanks -/
def endsLine (cs : List Char) : Bool :=
  match cs.dropWhile isBlank with
  | '\n' :: _ => true
  | '\r' :: '\n' :: _ => true
  | _ => false

/-- takes blanks and line ends, up to a `\r` without `\n` -/
def skipLines : Reader (List Char × Bool) := do
  let _ ← Reader.run isBlank
  if ← lineEndIf then return ([], false) else return ([], true)

/-- what a backslash and the characters after it stand for -/
def escape (multiline : Bool) : Reader (List Char) := fun cs =>
  match cs with
  | 'b' :: rest => some (['\x08'], rest)
  | 't' :: rest => some (['\t'], rest)
  | 'n' :: rest => some (['\n'], rest)
  | 'f' :: rest => some (['\x0c'], rest)
  | 'r' :: rest => some (['\r'], rest)
  | '"' :: rest => some (['"'], rest)
  | '\\' :: rest => some (['\\'], rest)
  | 'u' :: rest => ((codePoint 4 rest).map fun (c, rest) => ([c], rest))
  | 'U' :: rest => ((codePoint 8 rest).map fun (c, rest) => ([c], rest))
  | cs =>
    if multiline && endsLine cs then (Reader.collect skipLines cs).map fun (_, rest) => ([], rest)
    else none

/-- the closing quotes, if they come next: the quotes before them, and how many there are in all -/
def closing? (d : Delimiter) (cs : List Char) : Option (List Char × Nat) :=
  let quotes := (cs.takeWhile (· == d.quote)).length
  if d.multiline then
    if quotes < 3 then none else some (List.replicate (min quotes 5 - 3) d.quote, min quotes 5)
  else if quotes < 1 then none else some ([], 1)

/-- the next characters of a text, and whether it ends there -/
def piece (d : Delimiter) : Reader (List Char × Bool) := do
  match d.closing? (← Reader.ahead) with
  | some (quotes, n) =>
    Reader.drop n
    return (quotes, true)
  | none =>
    if d.multiline then
      if ← lineEndIf then return (['\n'], false)
    if d.escapes then
      if ← Reader.skipIf '\\' then return (← escape d.multiline, false)
    let some c ← Reader.peek | failure
    guard (isPlain c)
    Reader.skip c
    return ([c], false)

/-- the text after the opening quotes, up to and with the closing ones -/
def body (d : Delimiter) : Reader String := do
  if d.multiline then
    let _ ← lineEndIf
  return String.ofList (← Reader.collect d.piece)

/-- quotes around text of one line -/
def single (quote : Char) : Delimiter := ⟨quote, quote == '"', false⟩

/-- quotes around text of several lines -/
def triple (quote : Char) : Delimiter := ⟨quote, quote == '"', true⟩

end Delimiter

/-- a text in the given quotes, one or three of them -/
def quoted (quote : Char) : Reader String := do
  Reader.skip quote
  match ← Reader.ahead with
  | a :: b :: _ =>
    if a = quote && b = quote then
      Reader.drop 2
      (Delimiter.triple quote).body
    else (Delimiter.single quote).body
  | _ => (Delimiter.single quote).body

end Relay.Toml

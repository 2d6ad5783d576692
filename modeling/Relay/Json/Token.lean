import Relay.Json.Numeral
import Relay.Json.Quoted

/-!
# JSON tokens

`Token.scan` cuts JSON text into brackets, commas, colons and scalars. A number that is too great
for a double and a text with an unpaired surrogate are tokens without a value: they may be skipped
but not used.
-/

namespace Relay.Json

/-- a token of JSON text -/
inductive Token
  | openArray
  | closeArray
  | openObject
  | closeObject
  | comma
  | colon
  | null
  | bool (b : Bool)
  | num (n : Option Number)
  | str (s : Option String)
deriving DecidableEq, Repr

namespace Token

/-- blanks of JSON text -/
def isBlank (c : Char) : Bool := c == ' ' || c == '\t' || c == '\n' || c == '\r'

def isNumeralChar (c : Char) : Bool :=
  c.isDigit || c == '-' || c == '+' || c == '.' || c == 'e' || c == 'E'

/-- a character that is a token by itself -/
def ofPunctuation? : Char → Option Token
  | '[' => some .openArray
  | ']' => some .closeArray
  | '{' => some .openObject
  | '}' => some .closeObject
  | ',' => some .comma
  | ':' => some .colon
  | _ => none

def ofWord? (cs : List Char) : Option Token :=
  if cs = ['n', 'u', 'l', 'l'] then some .null
  else if cs = ['t', 'r', 'u', 'e'] then some (.bool true)
  else if cs = ['f', 'a', 'l', 's', 'e'] then some (.bool false)
  else none

theorem length_dropWhile_le (p : Char → Bool) (cs : List Char) :
    (cs.dropWhile p).length ≤ cs.length :=
  (List.dropWhile_sublist p).length_le

/-- the tokens of a text, after those already scanned -/
def scan (scanned : List Token) : List Char → Option (List Token)
  | [] => some scanned.reverse
  | c :: cs =>
    if isBlank c then scan scanned cs
    else if c == '"' then
      match h : Quoted.read [] cs with
      | some (pieces, rest) =>
        have := Quoted.length_read_le h
        scan (.str ((Quoted.assemble pieces).map String.ofList) :: scanned) rest
      | none => none
    else if c == '-' || c.isDigit then
      match Numeral.ofChars? (c :: cs.takeWhile isNumeralChar) with
      | some n =>
        have := length_dropWhile_le isNumeralChar cs
        scan (.num n.number? :: scanned) (cs.dropWhile isNumeralChar)
      | none => none
    else if c.isAlpha then
      match ofWord? (c :: cs.takeWhile Char.isAlpha) with
      | some token =>
        have := length_dropWhile_le Char.isAlpha cs
        scan (token :: scanned) (cs.dropWhile Char.isAlpha)
      | none => none
    else
      match ofPunctuation? c with
      | some token => scan (token :: scanned) cs
      | none => none
termination_by cs => cs.length

end Token

end Relay.Json

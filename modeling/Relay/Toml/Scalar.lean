import Relay.Text.Hex
import Relay.Text.Split
import Relay.Toml

/-!
# Plain values of TOML

A value that is neither quoted nor put together is a word: a truth value, an integer, a float or a
moment. `Word.value?` is the value of a word.

Digits may be parted by single underscores. An integer has no zeros in front, unless it is written in
hexadecimal, octal or binary digits, and fits 64 bits. A float has a fraction or an exponent; one above
the finite numbers is no value, but one below them is minus infinity.
-/

namespace Relay.Toml

open Text (hexValue?)

namespace Word

/-- the digits of a run without the underscores between them -/
def ungroup? (isDigit : Char → Bool) (cs : List Char) : Option (List Char) :=
  let groups := Text.split '_' cs
  if groups.all (fun group => !group.isEmpty && group.all isDigit) then some groups.flatten else none

def valueOf (base : Nat) (ds : List Char) : Nat :=
  ds.foldl (fun n d => base * n + (hexValue? d).getD 0) 0

/-- whether there is no more than one digit if the first is a zero -/
def isCanonical (cs : List Char) : Bool := cs.length == 1 || cs.head? != some '0'

/-- the sign in front, and the rest -/
def sign : List Char → Bool × List Char
  | '-' :: cs => (true, cs)
  | '+' :: cs => (false, cs)
  | cs => (false, cs)

/-! ## numbers -/

/-- the digits of the whole part of a decimal number -/
def whole? (cs : List Char) : Option (List Char) :=
  if isCanonical cs then ungroup? Char.isDigit cs else none

def inRange? (i : Int) : Option Toml := if isInteger i then some (.integer i) else none

def based? (base : Nat) (isDigit : Char → Bool) (cs : List Char) : Option Toml :=
  (ungroup? isDigit cs).bind fun ds => inRange? (valueOf base ds)

def integer? : List Char → Option Toml
  | '0' :: 'x' :: cs => based? 16 (fun c => (hexValue? c).isSome) cs
  | '0' :: 'o' :: cs => based? 8 (fun c => '0' ≤ c && c ≤ '7') cs
  | '0' :: 'b' :: cs => based? 2 (fun c => c == '0' || c == '1') cs
  | cs =>
    let (negative, cs) := sign cs
    (whole? cs).bind fun ds =>
      let n : Int := valueOf 10 ds
      inRange? (if negative then -n else n)

/-- a run of characters without the one that parts it from the rest -/
def partAt (p : Char → Bool) (cs : List Char) : List Char × Option (List Char) :=
  match cs.span p with
  | (front, _ :: rest) => (front, some rest)
  | (front, []) => (front, none)

def exponent? (cs : List Char) : Option Int :=
  let (negative, cs) := sign cs
  (ungroup? Char.isDigit cs).map fun ds =>
    let n : Int := valueOf 10 ds
    if negative then -n else n

/-- a word for a number that is not finite -/
def notFinite? (negative : Bool) (cs : List Char) : Option Toml :=
  if cs = ['i', 'n', 'f'] then some (.float (.ofUnsigned negative Binary64.infinityBits))
  else if cs = ['n', 'a', 'n'] then
    some (.float (.ofUnsigned negative (Binary64.infinityBits + twoTo 51)))
  else none

/-- a decimal number with a fraction or an exponent -/
def decimal? (negative : Bool) (cs : List Char) : Option Toml := do
  let (mantissa, power) := partAt (fun c => c != 'e' && c != 'E') cs
  let (front, behind) := partAt (· != '.') mantissa
  guard (power.isSome || behind.isSome)
  let whole ← whole? front
  let fraction ← match behind with
    | some ds => ungroup? Char.isDigit ds
    | none => some []
  let exponent ← match power with
    | some ds => exponent? ds
    | none => some 0
  let x := Binary64.ofDecimal negative (valueOf 10 (whole ++ fraction)) (exponent - fraction.length)
  if x.isInfinite && !negative then none else some (.float x)

def float? (cs : List Char) : Option Toml :=
  let (negative, cs) := sign cs
  notFinite? negative cs <|> decimal? negative cs

/-! ## words -/

def isWordChar (c : Char) : Bool :=
  c.isAlphanum || c == '_' || c == '-' || c == '+' || c == '.' || c == ':'

/-- the value of a word -/
def value? (cs : List Char) : Option Toml :=
  if cs = ['t', 'r', 'u', 'e'] then some (.boolean true)
  else if cs = ['f', 'a', 'l', 's', 'e'] then some (.boolean false)
  else (Moment.ofChars? cs).map .moment <|> integer? cs <|> float? cs

end Word

end Relay.Toml

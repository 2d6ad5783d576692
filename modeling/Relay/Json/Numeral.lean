import Relay.Json
import Relay.Number.Shortest

/-!
# JSON numerals

`Numeral.ofChars?` reads the grammar of JSON numbers, `Numeral.number?` the number that a numeral
denotes. A numeral without point and exponent is an integer when it fits 64 bits, signed or
unsigned; minus zero is a double. Any other numeral denotes a double: its significand, cut off where
it no longer fits 64 bits, is rounded to a double, and that is multiplied or divided by the double
nearest to a power of ten, at most 308 at a time. A numeral above the doubles denotes no number.
-/

namespace Relay.Json

/-- the parts of a numeral -/
structure Numeral where
  negative : Bool
  whole : List Char
  /-- the digits after the point, if there is a point -/
  fraction : Option (List Char)
  /-- the sign and digits of the exponent, if there is one -/
  exponent : Option (Bool × List Char)
deriving DecidableEq, Repr

namespace Numeral

/-- the value of a decimal digit -/
def digit (c : Char) : Nat := c.toNat - '0'.toNat

/-- the value of a run of decimal digits -/
def valueOf (ds : List Char) : Nat := ds.foldl (fun n d => 10 * n + digit d) 0

/-- the longest run of digits in front, and the rest -/
def digits (cs : List Char) : List Char × List Char := cs.span Char.isDigit

/-- the exponent of a numeral, which ends it -/
def exponent? : List Char → Option (Option (Bool × List Char))
  | [] => some none
  | e :: cs =>
    if e = 'e' || e = 'E' then
      let (negative, ds) := match cs with
        | '-' :: ds => (true, ds)
        | '+' :: ds => (false, ds)
        | ds => (false, ds)
      if ds ≠ [] && ds.all Char.isDigit then some (some (negative, ds)) else none
    else none

/-- reads a numeral -/
def ofChars? (cs : List Char) : Option Numeral := do
  let (negative, cs) := match cs with
    | '-' :: cs => (true, cs)
    | cs => (false, cs)
  let (whole, cs) := digits cs
  guard (whole ≠ [] && (whole.length == 1 || whole.head? != some '0'))
  match cs with
  | '.' :: cs =>
    let (fraction, cs) := digits cs
    guard (fraction ≠ [])
    return ⟨negative, whole, some fraction, ← exponent? cs⟩
  | cs => return ⟨negative, whole, none, ← exponent? cs⟩

/-- the greatest significand that is kept in full -/
def significandLimit : Nat := 0xFFFFFFFFFFFFFFFF

/-- appends the digits to a significand while it fits, and counts those that did -/
def append (significand taken : Nat) : List Char → Nat × Nat
  | [] => (significand, taken)
  | d :: ds =>
    if 10 * significand + digit d ≤ significandLimit then
      append (10 * significand + digit d) (taken + 1) ds
    else (significand, taken)

/-- divides by `10^n` in steps of `10^308` -/
def shrink (x : Binary64) (n : Nat) : Binary64 :=
  if n ≤ 308 then x.div (Binary64.ofInt (tenTo n))
  else if x.isZero then x
  else shrink (x.div (Binary64.ofInt (tenTo 308))) (n - 308)
termination_by n

/-- the double for `significand · 10^scale`, unless it is too great -/
def scaled? (significand : Nat) (scale : Int) : Option Binary64 :=
  let x := Binary64.ofInt significand
  if scale < 0 then some (shrink x scale.natAbs)
  else if scale ≤ 308 then
    let y := x.mul (Binary64.ofInt (tenTo scale.toNat))
    if y.isInfinite then none else some y
  else if x.isZero then some x
  else none

/-- the exponents that are told apart; a greater one counts as this one -/
def exponentLimit : Nat := 0x7FFFFFFF

/-- the double that a numeral denotes -/
def float? (n : Numeral) : Option Binary64 :=
  let (head, taken) := append 0 0 n.whole
  let dropped := n.whole.length - taken
  let (significand, places) := append head 0 (n.fraction.getD [])
  let scale : Int := (dropped : Int) - places
  let magnitude? := match n.exponent with
    | none => scaled? significand scale
    | some (negative, ds) =>
      let e := valueOf ds
      if exponentLimit < e then
        if significand ≠ 0 && !negative then none else some .zero
      else scaled? significand (if negative then scale - e else scale + e)
  magnitude?.map (Binary64.withSign n.negative)

def number? (n : Numeral) : Option Number :=
  let whole : Int := valueOf n.whole
  if n.fraction.isNone && n.exponent.isNone then
    if !n.negative && whole ≤ significandLimit then some (.int whole)
    else if n.negative && whole ≠ 0 && whole ≤ 0x8000000000000000 then some (.int (-whole))
    else n.float?.map .float
  else n.float?.map .float

end Numeral

end Relay.Json

import Relay.Number.Shortest

/-!
# Layouts of decimals

How the digits of a decimal are written out. A `Layout` says for which exponents of the leading
digit the point is placed by position, and what follows a whole number; other exponents are written
with one digit before the point and a signed exponent behind.
-/

namespace Relay

/-- the decisions of a number format -/
structure Layout where
  /-- written by position: every exponent, or those from the first to the second -/
  positional : Option (Int × Int)
  /-- what ends a whole number that is written by position -/
  wholeEnd : String
  nan : String
  infinity : String
  /-- of two digits that are as near -/
  tie : Tie
deriving Repr

namespace Layout

/-- numbers of JSON text: by position for exponents -5 to 15, always told from integers, and a half
goes to the even digit -/
def json : Layout := ⟨some (-5, 15), ".0", "null", "null", .even⟩

/-- numbers in messages: always by position, and a half goes up -/
def message : Layout := ⟨none, "", "NaN", "inf", .up⟩

/-- digits without the zeros at the end -/
def significant (ds : List Char) : List Char :=
  (ds.reverse.dropWhile (· == '0')).reverse

/-- the point among the digits, the first of which has the given exponent -/
def byPosition (l : Layout) (ds : List Char) (exponent : Int) : String :=
  if exponent < 0 then
    "0." ++ String.ofList (List.replicate (-exponent - 1).toNat '0' ++ ds)
  else
    let whole := exponent.toNat + 1
    if ds.length ≤ whole then
      String.ofList (ds ++ List.replicate (whole - ds.length) '0') ++ l.wholeEnd
    else String.ofList (ds.take whole ++ '.' :: ds.drop whole)

/-- one digit before the point and the exponent with its sign behind -/
def byExponent (ds : List Char) (exponent : Int) : String :=
  let point := match ds with
    | d :: rest@(_ :: _) => d :: '.' :: rest
    | _ => ds
  let sign := if exponent < 0 then '-' else '+'
  String.ofList (point ++ 'e' :: sign :: Decimal.digitsOf exponent.natAbs)

/-- a positive decimal in this layout -/
def decimal (l : Layout) (d : Decimal) : String :=
  let ds := Decimal.digitsOf d.significand
  let exponent := d.scale + ds.length - 1
  let kept := significant ds
  match l.positional with
  | none => l.byPosition kept exponent
  | some (low, high) =>
    if low ≤ exponent && exponent ≤ high then l.byPosition kept exponent
    else byExponent kept exponent

def number (l : Layout) (x : Binary64) : String :=
  if x.isNaN then l.nan
  else
    let sign := if x.negative then "-" else ""
    if x.isInfinite then sign ++ l.infinity
    else if x.isZero then sign ++ l.byPosition ['0'] 0
    else sign ++ l.decimal (Decimal.shortest l.tie x)

end Layout

end Relay

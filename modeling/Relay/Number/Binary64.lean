import Relay.Number.Power

/-!
# Binary64 numbers

A `Binary64` is the 64 bits of a double-precision number. Equality is equality of bits, so the two
zeros differ and a NaN equals itself; `agrees` is the numeric comparison.

* `magnitude`   a finite number without its sign, as a natural number times a power of two;
* `ofRatio`     the number nearest to a ratio of naturals, of two the one with the even last bit;
* `ofDecimal`   the number nearest to a decimal;
* `mul`, `div`  one rounding of the exact product or quotient of two magnitudes.
-/

namespace Relay

/-- the bits of a double-precision number: sign, 11 bits of exponent, 52 bits of fraction -/
structure Binary64 where
  bits : UInt64
deriving DecidableEq, Repr

namespace Binary64

/-- the sign bit -/
def negative (x : Binary64) : Bool := twoTo 63 ≤ x.bits.toNat

/-- the bits without the sign -/
def unsigned (x : Binary64) : Nat := x.bits.toNat % twoTo 63

/-- the unsigned bits of infinity, above all finite numbers and below the NaNs -/
def infinityBits : Nat := 0x7FF * twoTo 52

def isNaN (x : Binary64) : Bool := infinityBits < x.unsigned

def isInfinite (x : Binary64) : Bool := x.unsigned == infinityBits

def isFinite (x : Binary64) : Bool := x.unsigned < infinityBits

def isZero (x : Binary64) : Bool := x.unsigned == 0

/-- a number from its sign and its unsigned bits -/
def ofUnsigned (negative : Bool) (n : Nat) : Binary64 :=
  ⟨UInt64.ofNat (if negative then n + twoTo 63 else n)⟩

def zero : Binary64 := ofUnsigned false 0

/-- finite `x` is `m · 2^q` without its sign, for `(m, q) = magnitude x` -/
def magnitude (x : Binary64) : Nat × Int :=
  let field : Nat := x.unsigned / twoTo 52
  let fraction : Nat := x.unsigned % twoTo 52
  if field = 0 then (fraction, -1074) else (fraction + twoTo 52, (field : Int) - 1075)

/-- `2^q` as a ratio -/
def powTwo (q : Int) : Nat × Nat := (twoTo q.toNat, twoTo (-q).toNat)

/-- the integer nearest to `num / den`, of two the even one -/
def nearest (num den : Nat) : Nat :=
  let quotient := num / den
  let twice := 2 * (num % den)
  if twice < den then quotient
  else if den < twice then quotient + 1
  else quotient + quotient % 2

/-- the nearest number to `num / den`; beyond the greatest finite number it is an infinity -/
def ofRatio (negative : Bool) (num den : Nat) : Binary64 :=
  if num = 0 then ofUnsigned negative 0
  else
    -- the quotient by the first unit has 52 or 53 bits
    let first : Int := (num.log2 : Int) - (den.log2 : Int) - 52
    let scaled (q : Int) : Nat × Nat := (num * (powTwo q).2, den * (powTwo q).1)
    let whole := (scaled first).1 / (scaled first).2
    let q : Int := max (if whole < twoTo 52 then first - 1 else first) (-1074)
    let n := nearest (scaled q).1 (scaled q).2
    ofUnsigned negative (min ((q + 1074).toNat * twoTo 52 + n) infinityBits)

/-- the nearest number to an integer -/
def ofInt (i : Int) : Binary64 := ofRatio (i < 0) i.natAbs 1

/-- decimals with a leading digit at this exponent are beyond the finite numbers, and with one at its
opposite they round to zero -/
def decimalLimit : Int := 400

/-- the nearest number to `significand · 10^scale` -/
def ofDecimal (negative : Bool) (significand : Nat) (scale : Int) : Binary64 :=
  let leading : Int := (Nat.toDigits 10 significand).length + scale
  if significand = 0 || leading < -decimalLimit then ofUnsigned negative 0
  else if decimalLimit < leading then ofUnsigned negative infinityBits
  else ofRatio negative (significand * tenTo scale.toNat) (tenTo (-scale).toNat)

/-- the magnitude of a finite number as a ratio -/
def ratio (x : Binary64) : Nat × Nat :=
  let (m, q) := x.magnitude
  (m * (powTwo q).1, (powTwo q).2)

/-- the rounded product of two finite magnitudes -/
def mul (x y : Binary64) : Binary64 :=
  ofRatio false (x.ratio.1 * y.ratio.1) (x.ratio.2 * y.ratio.2)

/-- the rounded quotient of two finite magnitudes, the second not zero -/
def div (x y : Binary64) : Binary64 :=
  ofRatio false (x.ratio.1 * y.ratio.2) (x.ratio.2 * y.ratio.1)

/-- the number with the given sign -/
def withSign (negative : Bool) (x : Binary64) : Binary64 := ofUnsigned negative x.unsigned

/-- numeric equality: the zeros agree, a NaN agrees with nothing -/
def agrees (x y : Binary64) : Bool :=
  !x.isNaN && !y.isNaN && (x == y || (x.isZero && y.isZero))

/-- between 0 and 1, both included; either zero is -/
def inUnitInterval (x : Binary64) : Bool :=
  x.isZero || (!x.negative && x.unsigned ≤ 0x3FF * twoTo 52)

/-- greater than zero, or a NaN -/
def exceedsZero (x : Binary64) : Bool := x.isNaN || (!x.negative && !x.isZero)

/-- the machine number -/
def toFloat (x : Binary64) : Float := Float.ofBits x.bits

end Binary64

end Relay

import Relay.Number.Binary64

/-!
# The shortest decimal

`Decimal.shortest tie x` is the decimal with the fewest digits that lies in the interval of reals that
round to the finite number `x`. For each number of digits only the two neighbours of `x` on that
decimal grid are tested, since if any point of a grid lies in the interval then one of them does. Of
two hits the nearer is taken; a `Tie` says which one if both are as near.
-/

namespace Relay

/-- the number `significand · 10^scale` -/
structure Decimal where
  significand : Nat
  scale : Int
deriving DecidableEq, Repr

/-- which of two integers a half goes to -/
inductive Tie
  | even
  | up
deriving DecidableEq, Repr

/-- the integer nearest to `num / den` -/
def Tie.nearest (num den : Nat) : Tie → Nat
  | even => Binary64.nearest num den
  | up => (2 * num + den) / (2 * den)

namespace Decimal

/-- the decimal digits of a natural number, as characters -/
def digitsOf (n : Nat) : List Char := Nat.toDigits 10 n

/-- compares `c · 10^p` with `b · 2^e` -/
def compareBinary (c : Nat) (p : Int) (b : Nat) (e : Int) : Ordering :=
  compare (c * tenTo p.toNat * twoTo (-e).toNat) (b * twoTo e.toNat * tenTo (-p).toNat)

/-- whether `c · 10^p` rounds to the positive finite number `x` -/
def roundsTo (x : Binary64) (c : Nat) (p : Int) : Bool :=
  let (m, q) := x.magnitude
  let below := if m = twoTo 52 && q > -1074 then 1 else 2
  let low := compareBinary c p (4 * m - below) (q - 2)
  let high := compareBinary c p (4 * m + 2) (q - 2)
  if m % 2 = 0 then low != .lt && high != .gt else low == .gt && high == .lt

/-- the exponent of the leading decimal digit of `num / den` -/
def leading (num den : Nat) : Int :=
  if den ≤ num then ((digitsOf (num / den)).length : Int) - 1
  else
    let j := (digitsOf (den / num)).length - 1
    if den = num * tenTo j then -(j : Int) else -(j : Int) - 1

/-- the neighbour of `x` on the grid of multiples of `10^p` that rounds to `x`, if one does -/
def onGrid (tie : Tie) (x : Binary64) (p : Int) : Option Nat :=
  let num := x.ratio.1 * tenTo (-p).toNat
  let den := x.ratio.2 * tenTo p.toNat
  let c := num / den
  match roundsTo x c p, roundsTo x (c + 1) p with
  | false, false => none
  | true, false => some c
  | false, true => some (c + 1)
  | true, true => some (tie.nearest num den)

/-- the first hit on the grids of `n`, `n + 1`, … digits -/
def search (tie : Tie) (x : Binary64) (lead : Int) : (left n : Nat) → Decimal
  | 0, n => ⟨x.ratio.1 * tenTo (n - lead).toNat / (x.ratio.2 * tenTo (lead - n).toNat), lead - n⟩
  | left + 1, n =>
    match onGrid tie x (lead - n) with
    | some c => ⟨c, lead - n⟩
    | none => search tie x lead left (n + 1)

/-- the fewest digits that read back as the finite number `x`, without its sign -/
def shortest (tie : Tie) (x : Binary64) : Decimal :=
  if x.isZero then ⟨0, 0⟩ else search tie x (leading x.ratio.1 x.ratio.2) 17 0

end Decimal

end Relay

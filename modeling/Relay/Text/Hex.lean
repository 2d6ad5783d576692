/-!
# Hexadecimal digits

`hexDigit` writes a digit in lower case, `hexValue?` reads one in either case and `hexValueOf?` a run
of them.
-/

namespace Relay.Text

/-- a lower-case hexadecimal digit -/
def hexDigit (n : Nat) : Char := Nat.digitChar n

/-- the value of a hexadecimal digit -/
def hexValue? (c : Char) : Option Nat :=
  let n := c.toNat
  if c.isDigit then some (n - '0'.toNat)
  else if 'a'.toNat ≤ n && n ≤ 'f'.toNat then some (n - 'a'.toNat + 10)
  else if 'A'.toNat ≤ n && n ≤ 'F'.toNat then some (n - 'A'.toNat + 10)
  else none

/-- the value of a run of hexadecimal digits -/
def hexValueOf? (cs : List Char) : Option Nat :=
  cs.foldlM (fun n c => (hexValue? c).map (16 * n + ·)) 0

end Relay.Text

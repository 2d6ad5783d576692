/-!
# Powers of two and ten

The powers that binary and decimal numbers are scaled by.
-/

namespace Relay

/-- two to the power `n` -/
def twoTo (n : Nat) : Nat := Nat.pow 2 n

/-- ten to the power `n` -/
def tenTo (n : Nat) : Nat := Nat.pow 10 n

end Relay

/-!
# Pauses

A pause takes as many milliseconds as are asked for, but never more than thirty years, so that its end
is a time that a clock can show.
-/

namespace Relay.Pause

/-- thirty years of 365 days, in milliseconds -/
def longestMs : Nat := 946080000000

/-- how long a pause takes that is asked for -/
def lengthMs (asked : Nat) : Nat := min asked longestMs

end Relay.Pause

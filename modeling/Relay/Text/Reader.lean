/-!
# Readers

A `Reader` takes characters from the front of a text, or fails. Readers are chained in `do` blocks.

* `peek`      the next character, which stays;
* `skip`      a given character, which must come next;
* `skipIf`    a given character, if it comes next;
* `run`       the longest run of characters of a class;
* `collect`   what a step yields, again and again until one says that it was the last.

A step of `collect` takes a character at least, so the remaining characters bound the number of steps.
-/

namespace Relay.Text

/-- takes characters from the front of a text, or fails -/
abbrev Reader := StateT (List Char) Option

namespace Reader

variable {α : Type}

/-- the next character, which stays -/
def peek : Reader (Option Char) := fun cs => some (cs.head?, cs)

/-- the characters to come -/
def ahead : Reader (List Char) := get

/-- takes a given character -/
def skip (c : Char) : Reader Unit
  | [] => none
  | d :: cs => if d = c then some ((), cs) else none

/-- takes a given character if it comes next -/
def skipIf (c : Char) : Reader Bool
  | [] => some (false, [])
  | d :: cs => if d = c then some (true, cs) else some (false, d :: cs)

/-- takes a number of characters -/
def drop (n : Nat) : Reader Unit := fun cs => some ((), cs.drop n)

/-- takes the longest run of characters of a class -/
def run (p : Char → Bool) : Reader (List Char) := fun cs => some (cs.span p)

/-- at most `n` steps, until one says that it was the last -/
def collectUpTo (step : Reader (List α × Bool)) : Nat → Reader (List α)
  | 0 => fun _ => none
  | n + 1 => do
    let (found, isLast) ← step
    if isLast then return found else return found ++ (← collectUpTo step n)

/-- what a step yields, again and again until one says that it was the last -/
def collect (step : Reader (List α × Bool)) : Reader (List α) := fun cs =>
  collectUpTo step (cs.length + 1) cs

/-- reads all of the given characters -/
def wholeOf? (reader : Reader α) (cs : List Char) : Option α :=
  match reader cs with
  | some (a, []) => some a
  | _ => none

def whole? (reader : Reader α) (text : String) : Option α := wholeOf? reader text.toList

end Reader

end Relay.Text

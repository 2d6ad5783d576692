import Relay.Text.Reader
import Relay.Timestamp

/-!
# Moments of TOML

A `Moment` is a date, a time of day, or a date with a time of day, which may have an offset from UTC.
`Moment.text` writes it in one way: a `T` before the time, a `Z` or an offset of hours and minutes
behind, and as few decimals of a second as are exact.

A moment is read under a `Rule`. In the values of a TOML text it must be one that a clock shows; a text
that is said to be a moment may also be one past the end of a day.
-/

namespace Relay.Toml

open Text (Reader padded)

/-- a time of day -/
structure Moment.Time where
  hour : Nat
  minute : Nat
  /-- up to 60, a leap second -/
  second : Nat
  nanosecond : Nat
deriving DecidableEq, Repr

/-- an offset from UTC -/
inductive Moment.Offset
  | utc
  | minutes (m : Int)
deriving DecidableEq, Repr

/-- a date, a time of day, or both -/
inductive Moment
  | date (d : Date)
  | time (t : Moment.Time)
  | dateTime (d : Date) (t : Moment.Time) (offset : Option Moment.Offset)
deriving DecidableEq, Repr

namespace Moment

/-! ## writing -/

def dateText (d : Date) : String :=
  padded 4 d.year.toNat ++ "-" ++ padded 2 d.month ++ "-" ++ padded 2 d.day

/-- the decimals of a second without zeros at the end -/
def decimalsText (nanosecond : Nat) : String :=
  if nanosecond = 0 then ""
  else "." ++ String.ofList (((padded 9 nanosecond).toList.reverse.dropWhile (· == '0')).reverse)

def Time.text (t : Time) : String :=
  padded 2 t.hour ++ ":" ++ padded 2 t.minute ++ ":" ++ padded 2 t.second ++
    decimalsText t.nanosecond

def Offset.text : Offset → String
  | utc => "Z"
  | minutes m =>
    (if m < 0 then "-" else "+") ++ padded 2 (m.natAbs / 60) ++ ":" ++ padded 2 (m.natAbs % 60)

/-- the written form -/
def text : Moment → String
  | date d => dateText d
  | time t => t.text
  | dateTime d t offset => dateText d ++ "T" ++ t.text ++ (offset.map Offset.text).getD ""

/-! ## reading -/

/-- what is admitted -/
structure Rule where
  lastHour : Nat
  /-- the hours and minutes of an offset -/
  isOffset : Nat → Nat → Bool

/-- the rule for the values of a text -/
def Rule.value : Rule := ⟨23, fun hours minutes => hours ≤ 23 && minutes ≤ 59⟩

/-- the rule for a text that is said to be a moment: hour 24 and any offset of a day at most -/
def Rule.text : Rule := ⟨24, fun hours minutes => 60 * hours + minutes ≤ 1440⟩

/-- a number of just that many digits -/
def digits (width : Nat) : Reader Nat := do
  let ds := (← Reader.ahead).take width
  guard (ds.length == width && ds.all Char.isDigit)
  Reader.drop width
  return Timestamp.valueOf ds

/-- a day of the calendar -/
def readDate : Reader Date := do
  let year ← digits 4
  Reader.skip '-'
  let month ← digits 2
  Reader.skip '-'
  let day ← digits 2
  let d : Date := ⟨year, month, day⟩
  guard d.isValid
  return d

/-- the decimals of a second, if a point comes next -/
def readDecimals : Reader Nat := Timestamp.decimals?

/-- a time of day -/
def readTime (rule : Rule) : Reader Time := do
  let hour ← digits 2
  Reader.skip ':'
  let minute ← digits 2
  Reader.skip ':'
  let second ← digits 2
  guard (hour ≤ rule.lastHour && minute ≤ 59 && second ≤ 60)
  return ⟨hour, minute, second, ← readDecimals⟩

/-- hours and minutes of an offset -/
def readMinutes (rule : Rule) : Reader Nat := do
  let hours ← digits 2
  Reader.skip ':'
  let minutes ← digits 2
  guard (rule.isOffset hours minutes)
  return 60 * hours + minutes

/-- an offset, if one comes next -/
def readOffset (rule : Rule) : Reader (Option Offset) := do
  if ← Reader.skipIf 'Z' then return some .utc
  if ← Reader.skipIf 'z' then return some .utc
  if ← Reader.skipIf '+' then return some (.minutes (← readMinutes rule))
  if ← Reader.skipIf '-' then return some (.minutes (-(← readMinutes rule)))
  return none

/-- the characters between a date and a time -/
def isMark (c : Char) : Bool := c == 'T' || c == 't' || c == ' '

/-- a moment; a colon after two characters tells a time of day -/
def reader (rule : Rule) : Reader Moment := do
  if (← Reader.ahead)[2]? = some ':' then return .time (← readTime rule)
  let d ← readDate
  if (← Reader.peek).any isMark then
    Reader.drop 1
    return .dateTime d (← readTime rule) (← readOffset rule)
  else return .date d

/-- the moment that characters of a text say -/
def ofChars? (cs : List Char) : Option Moment := Reader.wholeOf? (reader Rule.value) cs

def ofText? (s : String) : Option Moment := Reader.whole? (reader Rule.text) s

/-- whether characters of a text are a date -/
def isDate (cs : List Char) : Bool := (Reader.wholeOf? readDate cs).isSome

end Moment

end Relay.Toml

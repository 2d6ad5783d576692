import Relay.Text.Blank
import Relay.Text.Padded
import Relay.Wire

/-!
# Timestamps

A `Timestamp` is a date and a time of day in UTC, in the calendar of RFC 3339, with nanoseconds. The
second 60 of a leap second is kept.

`Timestamp.text` writes the date, `T`, the time with no, three, six or nine decimals, and `Z`.
`Timestamp.ofText?` reads a lenient form: blanks may stand between the parts, a part may have fewer
digits, a blank may stand for `T`, and the offset may be `UTC`, `Z` or hours and minutes with a sign.
-/

namespace Relay

/-- a day of the proleptic Gregorian calendar -/
structure Date where
  year : Int
  month : Nat
  day : Nat
deriving DecidableEq, Repr

namespace Date

def isLeapYear (year : Int) : Bool := year % 4 == 0 && (year % 100 != 0 || year % 400 == 0)

def daysInMonth (year : Int) (month : Nat) : Nat :=
  if month = 2 then (if isLeapYear year then 29 else 28)
  else if month = 4 || month = 6 || month = 9 || month = 11 then 30
  else 31

/-- the first and the last year that a date may have -/
def firstYear : Int := -262143

def lastYear : Int := 262142

/-- whether the day is in the calendar -/
def isValid (d : Date) : Bool :=
  firstYear ≤ d.year && d.year ≤ lastYear && 1 ≤ d.month && d.month ≤ 12 &&
    1 ≤ d.day && d.day ≤ daysInMonth d.year d.month

/-- the day after -/
def next (d : Date) : Date :=
  if d.day < daysInMonth d.year d.month then { d with day := d.day + 1 }
  else if d.month < 12 then ⟨d.year, d.month + 1, 1⟩
  else ⟨d.year + 1, 1, 1⟩

/-- the day before -/
def previous (d : Date) : Date :=
  if 1 < d.day then { d with day := d.day - 1 }
  else if 1 < d.month then ⟨d.year, d.month - 1, daysInMonth d.year (d.month - 1)⟩
  else ⟨d.year - 1, 12, 31⟩

end Date

/-- a moment in UTC -/
structure Timestamp where
  date : Date
  hour : Nat
  minute : Nat
  /-- up to 60, a leap second -/
  second : Nat
  nanosecond : Nat
deriving DecidableEq, Repr

namespace Timestamp

open Text (padded)

/-! ## writing -/

/-- a year of four digits, or with a sign and at least four digits -/
def yearText (year : Int) : String :=
  if 0 ≤ year && year ≤ 9999 then padded 4 year.toNat
  else (if year < 0 then "-" else "+") ++ padded 4 year.natAbs

/-- the fewest decimals that are exact, in steps of three -/
def decimalsText (nanosecond : Nat) : String :=
  if nanosecond = 0 then ""
  else if nanosecond % 1000000 = 0 then "." ++ padded 3 (nanosecond / 1000000)
  else if nanosecond % 1000 = 0 then "." ++ padded 6 (nanosecond / 1000)
  else "." ++ padded 9 nanosecond

/-- the written form -/
def text (t : Timestamp) : String :=
  yearText t.date.year ++ "-" ++ padded 2 t.date.month ++ "-" ++ padded 2 t.date.day ++ "T" ++
    padded 2 t.hour ++ ":" ++ padded 2 t.minute ++ ":" ++ padded 2 t.second ++
    decimalsText t.nanosecond ++ "Z"

/-! ## reading -/

/-- the value of a run of digits -/
def valueOf (ds : List Char) : Nat := ds.foldl (fun n d => 10 * n + (d.toNat - '0'.toNat)) 0

/-- at least one digit after blanks, at most `width` of them -/
def number? (width : Nat) (cs : List Char) : Option (Nat × List Char) :=
  let cs := Text.trimStart cs
  let ds := (cs.take width).takeWhile Char.isDigit
  if ds.isEmpty then none else some (valueOf ds, cs.drop ds.length)

/-- the given character after blanks -/
def mark? (c : Char) (cs : List Char) : Option (List Char) :=
  match Text.trimStart cs with
  | d :: rest => if d = c then some rest else none
  | [] => none

/-- four digits, or a sign and any number of digits -/
def year? (cs : List Char) : Option (Int × List Char) :=
  match Text.trimStart cs with
  | '-' :: rest => unspaced rest (-1)
  | '+' :: rest => unspaced rest 1
  | cs => (number? 4 cs).map (fun (n, rest) => (n, rest))
where
  /-- any number of digits without blanks before them -/
  unspaced (cs : List Char) (sign : Int) : Option (Int × List Char) :=
    let ds := cs.takeWhile Char.isDigit
    if ds.isEmpty then none else some (sign * valueOf ds, cs.drop ds.length)

/-- the decimals of a second in nanoseconds; digits after the ninth are skipped -/
def decimals? : List Char → Option (Nat × List Char)
  | '.' :: cs =>
    let ds := cs.takeWhile Char.isDigit
    let kept := ds.take 9
    if ds.isEmpty then none
    else some (valueOf kept * tenTo (9 - kept.length), cs.drop ds.length)
  | cs => some (0, cs)

def twoDigits? : List Char → Option (Nat × List Char)
  | a :: b :: rest => if a.isDigit && b.isDigit then some (valueOf [a, b], rest) else none
  | _ => none

/-- the offset from UTC in minutes -/
def offset? (cs : List Char) : Option (Int × List Char) :=
  let cs := Text.trimStart cs
  if (cs.take 3).map Char.toUpper = ['U', 'T', 'C'] then some (0, cs.drop 3)
  else match cs with
    | 'Z' :: rest => some (0, rest)
    | 'z' :: rest => some (0, rest)
    | '+' :: rest => clock rest 1
    | '-' :: rest => clock rest (-1)
    | '\u2212' :: rest => clock rest (-1)
    | _ => none
where
  /-- hours and minutes, with colons or blanks between them -/
  clock (cs : List Char) (sign : Int) : Option (Int × List Char) := do
    let (hours, cs) ← twoDigits? cs
    let (minutes, cs) ← twoDigits? (cs.dropWhile (fun c => c == ':' || Text.isBlank c))
    if minutes < 60 && hours < 24 then some (sign * (60 * hours + minutes), cs) else none

/-- a local moment in UTC; `offset` is in minutes, less than a day -/
def toUtc (t : Timestamp) (offset : Int) : Timestamp :=
  let minutes : Int := 60 * t.hour + t.minute - offset
  let date :=
    if minutes < 0 then t.date.previous
    else if 1440 ≤ minutes then t.date.next
    else t.date
  let ofDay := (minutes % 1440).toNat
  { t with date, hour := ofDay / 60, minute := ofDay % 60 }

/-- whether the parts of a local moment are in range -/
def isValid (t : Timestamp) : Bool :=
  t.date.isValid && t.hour < 24 && t.minute < 60 && t.second ≤ 60 && t.nanosecond < 1000000000

/-- reads a timestamp -/
def ofChars? (cs : List Char) : Option Timestamp := do
  let (year, cs) ← year? cs
  let (month, cs) ← number? 2 (← mark? '-' cs)
  let (day, cs) ← number? 2 (← mark? '-' cs)
  let cs ← match cs with
    | 'T' :: rest => some rest
    | 't' :: rest => some rest
    | ' ' :: rest => some rest
    | _ => none
  let (hour, cs) ← number? 2 cs
  let (minute, cs) ← number? 2 (← mark? ':' cs)
  let (second, cs) ← number? 2 (← mark? ':' cs)
  let (nanosecond, cs) ← decimals? cs
  let (offset, cs) ← offset? cs
  guard (Text.trimStart cs).isEmpty
  let here : Timestamp := ⟨⟨year, month, day⟩, hour, minute, second, nanosecond⟩
  guard here.isValid
  let utc := here.toUtc offset
  guard utc.date.isValid
  return utc

/-- reads a timestamp -/
def ofText? (s : String) : Option Timestamp := ofChars? s.toList

instance : Wire Timestamp where
  form t := .str t.text
  read s := match Readable.shape s with
    | .text t => ofText? t
    | _ => none

end Timestamp

end Relay

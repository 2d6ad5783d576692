import Relay.Text.Hex

/-!
# Quoted text of JSON

`escape` writes the characters of a text between quotes: a quote, a backslash and the control
characters are escaped, all else stands for itself. `read` reads up to the closing quote.

Text may be written as UTF-16 units, so a reader first collects `Piece`s and then pairs the
surrogates. Text with an unpaired surrogate is well formed but denotes no text.
-/

namespace Relay.Json.Quoted

open Text (hexDigit hexValueOf?)

/-- the characters that stand for `c` between quotes -/
def escapeChar (c : Char) : List Char :=
  match c with
  | '"' => ['\\', '"']
  | '\\' => ['\\', '\\']
  | '\x08' => ['\\', 'b']
  | '\x0c' => ['\\', 'f']
  | '\n' => ['\\', 'n']
  | '\r' => ['\\', 'r']
  | '\t' => ['\\', 't']
  | c =>
    if c.toNat < 0x20 then
      ['\\', 'u', '0', '0', hexDigit (c.toNat / 16), hexDigit (c.toNat % 16)]
    else [c]

/-- a text in quotes -/
def write (s : String) : String :=
  String.ofList ('"' :: (s.toList.flatMap escapeChar ++ ['"']))

/-- what stands between quotes: a character, or an escaped UTF-16 unit -/
inductive Piece
  | char (c : Char)
  | unit (n : Nat)
deriving DecidableEq, Repr

/-- the character that a backslash and a letter stand for -/
def escaped? : Char → Option Char
  | '"' => some '"'
  | '\\' => some '\\'
  | '/' => some '/'
  | 'b' => some '\x08'
  | 'f' => some '\x0c'
  | 'n' => some '\n'
  | 'r' => some '\r'
  | 't' => some '\t'
  | _ => none

/-- the pieces up to the closing quote, put before those collected, and the rest -/
def read (collected : List Piece) : List Char → Option (List Piece × List Char)
  | '"' :: rest => some (collected.reverse, rest)
  | '\\' :: 'u' :: a :: b :: c :: d :: rest =>
    match hexValueOf? [a, b, c, d] with
    | some n => read (.unit n :: collected) rest
    | none => none
  | '\\' :: e :: rest =>
    match escaped? e with
    | some c => read (.char c :: collected) rest
    | none => none
  | c :: rest => if c.toNat < 0x20 then none else read (.char c :: collected) rest
  | [] => none

theorem length_read_le {collected pieces : List Piece} {cs rest : List Char}
    (h : read collected cs = some (pieces, rest)) : rest.length ≤ cs.length := by
  fun_induction read collected cs <;> simp_all <;> omega

def isHighSurrogate (n : Nat) : Bool := 0xD800 ≤ n && n < 0xDC00

def isLowSurrogate (n : Nat) : Bool := 0xDC00 ≤ n && n < 0xE000

/-- the characters of the pieces, if every surrogate is one of a pair -/
def assemble : List Piece → Option (List Char)
  | [] => some []
  | .char c :: ps => (assemble ps).map (c :: ·)
  | [.unit n] =>
    if isHighSurrogate n || isLowSurrogate n then none else some [Char.ofNat n]
  | .unit n :: .char c :: ps =>
    if isHighSurrogate n || isLowSurrogate n then none
    else (assemble ps).map (Char.ofNat n :: c :: ·)
  | .unit n :: .unit m :: ps =>
    if isHighSurrogate n then
      if isLowSurrogate m then
        (assemble ps).map (Char.ofNat (0x10000 + (n - 0xD800) * 0x400 + (m - 0xDC00)) :: ·)
      else none
    else if isLowSurrogate n then none
    else (assemble (.unit m :: ps)).map (Char.ofNat n :: ·)

end Relay.Json.Quoted

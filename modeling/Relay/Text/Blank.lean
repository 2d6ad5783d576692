/-!
# Blank characters

The characters with the Unicode property White_Space, and the operations on text that depend on
them: `trim` cuts blanks from both ends, `isBlankText` asks whether nothing else is there.
-/

namespace Relay.Text

/-- the Unicode property White_Space -/
def isBlank (c : Char) : Bool :=
  let n := c.toNat
  (9 ≤ n && n ≤ 13) || n == 0x20 || n == 0x85 || n == 0xA0 || n == 0x1680 ||
    (0x2000 ≤ n && n ≤ 0x200A) || n == 0x2028 || n == 0x2029 || n == 0x202F || n == 0x205F ||
    n == 0x3000

/-- characters without the blanks in front -/
def trimStart (cs : List Char) : List Char := cs.dropWhile isBlank

def trimEnd (cs : List Char) : List Char := (cs.reverse.dropWhile isBlank).reverse

/-- text without the blanks at both ends -/
def trim (s : String) : String := String.ofList (trimEnd (trimStart s.toList))

/-- nothing but blanks -/
def isBlankText (s : String) : Bool := s.toList.all isBlank

/-- ASCII capitals become small; all else stays -/
def lowerAscii (s : String) : String := String.ofList (s.toList.map Char.toLower)

end Relay.Text

import SingAlong.Text.Basic

/-!
# Blank characters

The characters with the Unicode property White_Space, and the four information separators
U+001C to U+001F. The zero-width space and the byte order mark are not blank.
-/

namespace SingAlong

/-- The blank characters: separators, line ends and the characters that move the print position. -/
def isBlank (c : CodePoint) : Bool :=
  let n := c.toNat
  (0x09 ≤ n && n ≤ 0x0D) || (0x1C ≤ n && n ≤ 0x20) || n == 0x85 || n == 0xA0 || n == 0x1680 ||
    (0x2000 ≤ n && n ≤ 0x200A) || n == 0x2028 || n == 0x2029 || n == 0x202F || n == 0x205F ||
    n == 0x3000

namespace Text

/-- Drops the blank characters at the front. -/
def trimStart (t : Text) : Text :=
  t.dropWhile isBlank

/-- Drops the blank characters at the end. -/
def trimEnd (t : Text) : Text :=
  (t.reverse.dropWhile isBlank).reverse

/-- Drops the blank characters at both ends. -/
def trim (t : Text) : Text :=
  trimEnd (trimStart t)

/-- Does the text hold nothing but blanks? -/
def allBlank (t : Text) : Bool :=
  t.all isBlank

end Text

end SingAlong

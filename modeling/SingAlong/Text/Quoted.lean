import SingAlong.Text.Printable

/-!
# Quoted text

Text as it is shown in messages: between quotes, with an escape for every character that would not
show. `quoted` shows all of it, `abridged` leaves out the middle of a long one.
-/

namespace SingAlong.Text

/-- A hexadecimal numeral in lowercase, filled with zeros at the front to the given width. -/
def hexadecimal (width n : Nat) : Text :=
  let digits := (Nat.toDigits 16 n).map CodePoint.char
  replicate (width - digits.length) '0' ++ digits

/-- The quote around a text: an apostrophe, unless the text has apostrophes and no double quote. -/
def quoteMark (t : Text) : CodePoint :=
  if t.contains '\'' && !t.contains '"' then '"' else '\''

/-- A character between quotes: the quote and the backslash get a backslash, line ends and tabs
their letter, and other characters that do not show their code. -/
def escaped (mark c : CodePoint) : Text :=
  if c = mark ∨ c = '\\' then ['\\', c]
  else if c = '\n' then ['\\', 'n']
  else if c = '\r' then ['\\', 'r']
  else if c = '\t' then ['\\', 't']
  else if isPrintable c then [c]
  else if c.toNat < 0x100 then "\\x".text ++ hexadecimal 2 c.toNat
  else if c.toNat < 0x10000 then "\\u".text ++ hexadecimal 4 c.toNat
  else "\\U".text ++ hexadecimal 8 c.toNat

/-- The text between quotes, with escapes. -/
def quoted (t : Text) : Text :=
  let mark := quoteMark t
  mark :: t.flatMap (escaped mark) ++ [mark]

/-- How an abridged text is cut: the greatest length that is shown in full, and what is kept at
the front and at the end of a longer one. -/
structure Abridgement where
  limit : Nat
  front : Nat
  back : Nat

/-- At most thirty characters: thirteen, an ellipsis of three and fourteen. -/
def thirty : Abridgement :=
  ⟨30, 13, 14⟩

/-- The last characters of a text, for an end that begins `back` characters before its end. An end
longer than the text begins before the text, and that offset counts from the end again. -/
def ending (back : Nat) (t : Text) : Text :=
  if back ≤ t.length then t.drop (t.length - back) else t.drop (2 * t.length - back)

/-- The quoted text; when that is too long, the text is cut in the middle before it is quoted, and
the quoted form is cut again. -/
def abridged (cut : Abridgement) (t : Text) : Text :=
  let shown := quoted (t.take cut.limit)
  if shown.length ≤ cut.limit then shown
  else
    let short := quoted (t.take cut.front ++ ending cut.back t)
    short.take cut.front ++ "...".text ++ short.drop (short.length - cut.back)

end SingAlong.Text

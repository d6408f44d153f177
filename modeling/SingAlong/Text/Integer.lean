import SingAlong.Text.Blank
import SingAlong.Text.Digit

/-!
# Integers in text

The integer numerals that a header accepts: an optional sign and decimal digits of any script, with
single underscores allowed between digits and blanks around the whole.
-/

namespace SingAlong.Text

/-- The blanks allowed around an integer: all but the information separators. -/
def isPadding (c : CodePoint) : Bool :=
  isBlank c && !(0x1C ≤ c.toNat && c.toNat ≤ 0x1F)

/-- Reads digits with single underscores between them, continuing from the number read so far; a
digit must come next when `digitDue` holds: at the start and after an underscore. -/
def groupedDigits? (n : Nat) (digitDue : Bool) : Text → Option Nat
  | [] => if digitDue then none else some n
  | c :: rest =>
    match digitValue? c with
    | some d => groupedDigits? (10 * n + d) false rest
    | none => if c = '_' && !digitDue then groupedDigits? n true rest else none

/-- Reads an integer numeral. -/
def toInt? (t : Text) : Option Int :=
  let inner := ((t.dropWhile isPadding).reverse.dropWhile isPadding).reverse
  match inner with
  | '-' :: digits => (groupedDigits? 0 true digits).map fun n => -(n : Int)
  | '+' :: digits => (groupedDigits? 0 true digits).map fun n => (n : Int)
  | digits => (groupedDigits? 0 true digits).map fun n => (n : Int)

end SingAlong.Text

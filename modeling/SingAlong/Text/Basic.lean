/-!
# Text

Text is kept as the list of its code points: a position counts code points, a cut is `take` or
`drop`, and every function on text recurses on the list. Nearly all code points are characters; a
surrogate is one only when a pair is torn apart or when bytes are kept that no character has.
-/

namespace SingAlong

/-- A code point: a character, or one of the 2048 surrogates, which are no characters. -/
inductive CodePoint where
  | char (c : Char)
  | surrogate (n : Fin 0x800)
  deriving DecidableEq, Repr

namespace CodePoint

instance : Coe Char CodePoint :=
  ⟨char⟩

/-- The number of a code point. -/
def toNat : CodePoint → Nat
  | char c => c.toNat
  | surrogate n => 0xD800 + n

/-- The code point with a number. -/
def ofNat (n : Nat) : CodePoint :=
  if 0xD800 ≤ n ∧ n < 0xE000 then surrogate (Fin.ofNat 0x800 (n - 0xD800)) else char (Char.ofNat n)

end CodePoint

/-- A text is the sequence of its code points. -/
abbrev Text := List CodePoint

end SingAlong

/-- The text of a string. -/
def String.text (s : String) : SingAlong.Text :=
  s.toList.map SingAlong.CodePoint.char

namespace SingAlong.Text

/-- The decimal numeral of a natural number. -/
def ofNat (n : Nat) : Text :=
  (Nat.toDigits 10 n).map .char

/-- The decimal numeral of an integer, with a minus sign when it is negative. -/
def ofInt : Int → Text
  | .ofNat n => ofNat n
  | .negSucc n => '-' :: ofNat (n + 1)

/-- A fraction in lowest terms; the denominator is left out when it is one. -/
def ofRat (q : Rat) : Text :=
  if q.den = 1 then ofInt q.num else ofInt q.num ++ "/".text ++ ofNat q.den

/-- A text of equal code points. -/
def replicate (n : Nat) (c : CodePoint) : Text :=
  List.replicate n c

/-- Does the code point belong to a line? All but newlines do. -/
def inLine (c : CodePoint) : Bool :=
  c != '\n'

/-- The lines of a text, separated by newlines; there is always at least one. -/
def lines : Text → List Text
  | [] => [[]]
  | c :: rest =>
    if c = '\n' then [] :: lines rest
    else match lines rest with
      | [] => [[c]]
      | line :: others => (c :: line) :: others

end SingAlong.Text

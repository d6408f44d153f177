import SingAlong.Text.Blank
import SingAlong.Text.Digit
import SingAlong.Text.Quoted

/-!
# Lengths

Lengths are whole numbers and exact fractions of a whole note. A note carries a length suffix that
multiplies the default length; the header gives the default length, the meter and the beat of the
tempo as fractions.
-/

namespace SingAlong

/-- A length in whole notes: a whole number or a fraction. Elements that make no music have the
whole length zero. Lengths count as equal when they have the same value; the two kinds are told
apart only by what their parts are. -/
inductive Length where
  | whole (n : Int)
  | fraction (q : Rat)
  deriving DecidableEq, Repr

namespace Length

/-- The number of whole notes. -/
def value : Length → Rat
  | .whole n => n
  | .fraction q => q

/-- Is the length a fraction? -/
def isFraction : Length → Bool
  | .whole _ => false
  | .fraction _ => true

/-- A sum is a fraction as soon as one of its parts is. -/
def add : Length → Length → Length
  | .whole m, .whole n => .whole (m + n)
  | a, b => .fraction (a.value + b.value)

instance : Add Length :=
  ⟨add⟩

/-- A multiple of a length. -/
def scale (n : Nat) : Length → Length
  | .whole m => .whole (n * m)
  | .fraction q => .fraction (n * q)

/-- The greater of two lengths; the first one when they are equal. -/
def longer (a b : Length) : Length :=
  if a.value < b.value then b else a

end Length

/-- A fraction as it is shown in the description of a value. -/
def describeRat (q : Rat) : Text :=
  "Fraction(".text ++ Text.ofInt q.num ++ ", ".text ++ Text.ofNat q.den ++ ")".text

/-- A length as it is shown in the description of a value. -/
def Length.describe : Length → Text
  | .whole n => Text.ofInt n
  | .fraction q => describeRat q

/-- Why a length or a fraction can not be read. -/
inductive LengthError where
  /-- The text is no length suffix. -/
  | invalidLength (text : Text)
  /-- The length suffix divides by zero. -/
  | zeroDenominator (text : Text)
  /-- The text is no fraction with a denominator other than zero. -/
  | invalidFraction (text : Text)
  deriving DecidableEq, Repr

/-- The wording of the error. -/
def LengthError.message : LengthError → Text
  | .invalidLength t => "invalid length: ".text ++ Text.quoted t
  | .zeroDenominator t => "zero denominator: ".text ++ Text.quoted t
  | .invalidFraction t => "invalid fraction: ".text ++ Text.quoted t

/-- The parts of a length suffix: the digits before and after the slash, either of which may be
missing, and whether there is a slash. Digits after blanks are kept apart from those before them,
also when there is no slash. -/
structure LengthSuffix where
  numerator : Text
  slash : Bool
  denominator : Text
  deriving DecidableEq, Repr

namespace LengthSuffix

/-- Splits a text into the parts of a length suffix, with blanks around each part. -/
def ofText? (t : Text) : Option LengthSuffix :=
  let (numerator, rest) := (Text.trimStart t).span isDigit
  let (slash, rest) := match Text.trimStart rest with
    | '/' :: rest => (true, Text.trimStart rest)
    | rest => (false, rest)
  let (denominator, rest) := rest.span isDigit
  if Text.allBlank rest then some ⟨numerator, slash, denominator⟩ else none

/-- The factor that a suffix stands for: a missing numerator is one, a missing denominator after a
slash is two, and without a slash only the numerator counts. There is none when the denominator is
zero. -/
def factor? (s : LengthSuffix) : Option Rat :=
  let num := if s.numerator.isEmpty then 1 else Text.numeral s.numerator
  if s.slash then
    let den := if s.denominator.isEmpty then 2 else Text.numeral s.denominator
    if den = 0 then none else some (mkRat num den)
  else some num

end LengthSuffix

/-- Reads the length suffix of a note or rest as the factor of the default length. -/
def readSuffix (t : Text) : Except LengthError Rat :=
  match LengthSuffix.ofText? t with
  | none => .error (.invalidLength t)
  | some s =>
    match s.factor? with
    | none => .error (.zeroDenominator t)
    | some q => .ok q

/-- Splits a text into the digits before and after a slash, with blanks around each part; none of
the two may be missing. -/
def splitFraction? (t : Text) : Option (Text × Text) :=
  let (numerator, rest) := (Text.trimStart t).span isDigit
  match Text.trimStart rest with
  | '/' :: rest =>
    let (denominator, rest) := (Text.trimStart rest).span isDigit
    if numerator.isEmpty || denominator.isEmpty || !Text.allBlank rest then none
    else some (numerator, denominator)
  | _ => none

/-- Reads a fraction of the header. -/
def readFraction (t : Text) : Except LengthError Rat :=
  match splitFraction? t with
  | none => .error (.invalidFraction t)
  | some (numerator, denominator) =>
    if Text.numeral denominator = 0 then .error (.invalidFraction t)
    else .ok (mkRat (Text.numeral numerator) (Text.numeral denominator))

end SingAlong

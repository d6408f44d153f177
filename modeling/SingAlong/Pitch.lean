import SingAlong.Text.Case
import SingAlong.Text.Quoted

/-!
# Pitches

A pitch is a note letter and a number of semitones above or below the natural pitch of that
letter. The letter C without offset is middle C. Pitches with different letters can sound the same;
what is heard is the number of semitones above middle C.
-/

namespace SingAlong

/-- The seven note letters. -/
inductive Letter where
  | C | D | E | F | G | A | B
  deriving DecidableEq, Repr

namespace Letter

/-- All letters, in scale order. -/
def all : List Letter :=
  [C, D, E, F, G, A, B]

/-- The uppercase character. -/
def char : Letter → CodePoint
  | C => 'C' | D => 'D' | E => 'E' | F => 'F' | G => 'G' | A => 'A' | B => 'B'

/-- The lowercase character. -/
def lowChar : Letter → CodePoint
  | C => 'c' | D => 'd' | E => 'e' | F => 'f' | G => 'g' | A => 'a' | B => 'b'

/-- The letter as a text. -/
def text (letter : Letter) : Text :=
  [letter.char]

/-- The letter with this text. -/
def ofText? (t : Text) : Option Letter :=
  all.find? fun letter => letter.text == t

/-- The semitones of the natural pitch above middle C. -/
def semitones : Letter → Int
  | C => 0 | D => 2 | E => 4 | F => 5 | G => 7 | A => 9 | B => 11

end Letter

/-- The semitones of an octave. -/
def octave : Int :=
  12

/-- The key number of middle C. -/
def middleC : Int :=
  60

/-- A pitch: a letter, and the semitones above (or below, if negative) its natural pitch. -/
structure Pitch where
  letter : Letter
  offset : Int
  deriving DecidableEq, Repr

/-- A text that is not a note letter, in uppercase. -/
structure InvalidLetter where
  text : Text
  deriving DecidableEq, Repr

/-- The wording of the error. -/
def InvalidLetter.message (e : InvalidLetter) : Text :=
  "invalid note letter: ".text ++ Text.quoted e.text

namespace Pitch

/-- The pitch of a note letter, which may be written in lowercase. -/
def read (letter : Text) (offset : Int) : Except InvalidLetter Pitch :=
  match Letter.ofText? (Text.upper letter) with
  | some l => .ok ⟨l, offset⟩
  | none => .error ⟨Text.upper letter⟩

/-- The semitones above middle C. -/
def value (p : Pitch) : Int :=
  p.letter.semitones + p.offset

/-- Do two pitches sound the same? -/
def enharmonic (p q : Pitch) : Bool :=
  p.value == q.value

/-- The pitch some semitones higher, or lower if the number is negative. -/
def transpose (p : Pitch) (n : Int) : Pitch :=
  ⟨p.letter, p.offset + n⟩

/-- The key number on a keyboard where middle C has number 60. -/
def keyNumber (p : Pitch) : Int :=
  p.value + middleC

/-- The name of the pitch that many semitones above a C; sharps stand for the black keys. -/
def className : Nat → Text
  | 0 => ['C'] | 1 => ['^', 'C'] | 2 => ['D'] | 3 => ['^', 'D'] | 4 => ['E'] | 5 => ['F']
  | 6 => ['^', 'F'] | 7 => ['G'] | 8 => ['^', 'G'] | 9 => ['A'] | 10 => ['^', 'A'] | _ => ['B']

/-- The octave of the pitch, zero for the one that begins with middle C. -/
def octaveNumber (p : Pitch) : Int :=
  p.value / octave

/-- The pitch as it is written in a tune: the name within the octave, and a mark for each octave
above or below. -/
def text (p : Pitch) : Text :=
  className (p.value % octave).toNat ++
    Text.replicate p.octaveNumber.toNat '\'' ++ Text.replicate (-p.octaveNumber).toNat ','

/-- The pitch as it is shown in the description of a value. -/
def describe (p : Pitch) : Text :=
  "<Pitch ".text ++ p.text ++ ">".text

end Pitch

end SingAlong

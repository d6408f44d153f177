import SingAlong.Key

/-!
# The symbols of a tune

The closed sets of symbols that the music and the lyrics of a tune are written with, each with its
spelling.
-/

namespace SingAlong

/-- A note letter in a tune; a lowercase letter stands for the note an octave higher. -/
structure NoteName where
  letter : Letter
  high : Bool
  deriving DecidableEq, Repr

namespace NoteName

/-- The character of the note. -/
def char (n : NoteName) : CodePoint :=
  if n.high then n.letter.lowChar else n.letter.char

/-- The spelling of the note. -/
def text (n : NoteName) : Text :=
  [n.char]

/-- All notes, the lower ones first. -/
def all : List NoteName :=
  Letter.all.map (NoteName.mk · false) ++ Letter.all.map (NoteName.mk · true)

/-- The note with this character. -/
def ofChar? (c : CodePoint) : Option NoteName :=
  all.find? fun n => n.char == c

end NoteName

/-- The marks that move a note by an octave. -/
inductive OctaveMark where
  | up
  | down
  deriving DecidableEq, Repr

namespace OctaveMark

/-- The character of the mark. -/
def char : OctaveMark → CodePoint
  | up => '\''
  | down => ','

/-- The mark with this character. -/
def ofChar? (c : CodePoint) : Option OctaveMark :=
  if c = '\'' then some up else if c = ',' then some down else none

/-- The marks at the front of a text. -/
def front : Text → List OctaveMark
  | [] => []
  | c :: rest =>
    match ofChar? c with
    | some mark => mark :: front rest
    | none => []

/-- The octaves that a sequence of marks moves a note up, negative for down. -/
def shift (marks : List OctaveMark) : Int :=
  marks.count up - marks.count down

end OctaveMark

/-- The number of notes in a tuplet. -/
inductive TupletSize where
  | two
  | three
  | four
  deriving DecidableEq, Repr

namespace TupletSize

/-- The number. -/
def count : TupletSize → Nat
  | two => 2
  | three => 3
  | four => 4

/-- The mark in front of the notes of a tuplet. -/
def text : TupletSize → Text
  | two => ['(', '2']
  | three => ['(', '3']
  | four => ['(', '4']

/-- All sizes. -/
def all : List TupletSize :=
  [two, three, four]

end TupletSize

/-- Barlines, repeat marks and the marks of alternate endings. -/
inductive Bar where
  | single
  | double
  | thickThin
  | thinThick
  | startRepeat
  | finishRepeat
  | firstEnding
  | secondEnding
  deriving DecidableEq, Repr

namespace Bar

/-- The spelling. -/
def text : Bar → Text
  | single => ['|']
  | double => ['|', '|']
  | thickThin => ['[', '|']
  | thinThick => ['|', ']']
  | startRepeat => ['|', ':']
  | finishRepeat => [':', '|']
  | firstEnding => ['[', '1']
  | secondEnding => ['[', '2']

/-- All of them, the longer spellings before the shorter one that begins them. -/
def all : List Bar :=
  [thickThin, thinThick, double, startRepeat, finishRepeat, single, firstEnding, secondEnding]

/-- The three barlines that separate sections. -/
def isMajor : Bar → Bool
  | double | thickThin | thinThick => true
  | _ => false

end Bar

/-- The kinds of tokens in a line of lyrics. -/
inductive LyricKind where
  /-- A token of no particular kind. -/
  | plain
  /-- A syllable or a word. -/
  | syllable
  /-- Blanks between syllables. -/
  | space
  /-- The separator of the syllables of a word. -/
  | hyphen
  /-- A hyphen that is part of a syllable. -/
  | escapedHyphen
  /-- Holds the syllable over another note. -/
  | extender
  /-- Leaves out a note. -/
  | skip
  /-- Joins two words on one note. -/
  | tie
  /-- Goes on to the next measure. -/
  | bar
  /-- The end of the line. -/
  | newline
  deriving DecidableEq, Repr

end SingAlong

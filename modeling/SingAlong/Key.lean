import SingAlong.Pitch
import SingAlong.Text.Blank

/-!
# Keys and accidentals

A key is a mode and a place on the circle of fifths, from seven flats to seven sharps. The
accidental table holds the alterations in effect: it starts with those of the key, an accidental in
front of a note changes it for the notes of that letter, and a barline sets it back.
-/

namespace SingAlong

/-- The two modes. -/
inductive Mode where
  | major
  | minor
  deriving DecidableEq, Repr

/-- A key: its mode, and its place on the circle of fifths, counted from the key with seven
flats. -/
structure Key where
  mode : Mode
  place : Fin 15
  deriving DecidableEq, Repr

namespace Key

/-- The names of the keys of a mode along the circle of fifths. -/
def names : Mode → Vector String 15
  | .major => #v["Cb", "Gb", "Db", "Ab", "Eb", "Bb", "F", "C", "G", "D", "A", "E", "B", "F#", "C#"]
  | .minor => #v["Abm", "Ebm", "Bbm", "Fm", "Cm", "Gm", "Dm", "Am", "Em", "Bm", "F#m", "C#m",
      "G#m", "D#m", "A#m"]

/-- The name of the key. -/
def name (k : Key) : Text :=
  (names k.mode)[k.place].text

/-- All keys. -/
def all : List Key :=
  (List.finRange 15).map (Key.mk .major) ++ (List.finRange 15).map (Key.mk .minor)

/-- The key with this name. -/
def ofName? (t : Text) : Option Key :=
  all.find? fun k => k.name == t

/-- The number of sharps of the key, negative for flats. -/
def fifths (k : Key) : Int :=
  k.place - 7

/-- The letters in the order in which sharps come into the keys. -/
def sharps : List Letter :=
  [.F, .C, .G, .D, .A, .E, .B]

/-- The letters in the order in which flats come into the keys. -/
def flats : List Letter :=
  [.B, .E, .A, .D, .G, .C, .F]

/-- The altered letters of the key, with the semitones of their alteration. -/
def accidentals (k : Key) : List (Letter × Int) :=
  (sharps.take k.fifths.toNat).map (·, 1) ++ (flats.take (-k.fifths).toNat).map (·, -1)

/-- The key as it is shown in the description of a value. -/
def describe (k : Key) : Text :=
  "<KeySignature ".text ++ k.name ++ ">".text

end Key

/-- A name that is not the name of a key, without the blanks around it. -/
structure UnsupportedKey where
  name : Text
  deriving DecidableEq, Repr

/-- The wording of the error. -/
def UnsupportedKey.message (e : UnsupportedKey) : Text :=
  "unsupported key: ".text ++ Text.quoted e.name

/-- Reads the name of a key, with blanks around it. -/
def Key.read (t : Text) : Except UnsupportedKey Key :=
  match Key.ofName? (Text.trim t) with
  | some k => .ok k
  | none => .error ⟨Text.trim t⟩

/-- The accidentals that can stand in front of a note. -/
inductive Accidental where
  | doubleSharp
  | sharp
  | natural
  | flat
  | doubleFlat
  deriving DecidableEq, Repr

namespace Accidental

/-- All accidentals, the longer spellings before the shorter ones that begin them. -/
def all : List Accidental :=
  [doubleSharp, sharp, doubleFlat, flat, natural]

/-- The spelling of an accidental. -/
def text : Accidental → Text
  | doubleSharp => ['^', '^']
  | sharp => ['^']
  | natural => ['=']
  | flat => ['_']
  | doubleFlat => ['_', '_']

/-- The accidental with this spelling. -/
def ofText? (t : Text) : Option Accidental :=
  all.find? fun a => a.text == t

/-- The alteration of the letter after the accidental: sharps and flats add to the alteration
before it, a natural takes it away. -/
def alter (before : Int) : Accidental → Int
  | doubleSharp => before + 2
  | sharp => before + 1
  | natural => 0
  | flat => before - 1
  | doubleFlat => before - 2

end Accidental

/-- The alterations in effect within a measure, per letter in uppercase. A letter without entry is
not altered. -/
structure AccidentalTable where
  key : Key
  entries : List (Text × Int)
  deriving DecidableEq, Repr

/-- A spelling that is not the spelling of an accidental. -/
structure UnknownAccidental where
  text : Text
  deriving DecidableEq, Repr

namespace AccidentalTable

/-- The table with the alterations of the key. -/
def ofKey (k : Key) : AccidentalTable :=
  ⟨k, k.accidentals.map fun (letter, n) => (letter.text, n)⟩

/-- Goes back to the alterations of the key. -/
def reset (table : AccidentalTable) : AccidentalTable :=
  ofKey table.key

/-- The alteration of a letter in either case. -/
def get (table : AccidentalTable) (letter : Text) : Int :=
  (table.entries.lookup (Text.upper letter)).getD 0

/-- Replaces the entry of a letter, or adds one. -/
def put (letter : Text) (n : Int) : List (Text × Int) → List (Text × Int)
  | [] => [(letter, n)]
  | entry :: rest => if entry.1 = letter then (letter, n) :: rest else entry :: put letter n rest

/-- Applies an accidental to a letter in either case. -/
def apply (table : AccidentalTable) (letter : Text) (a : Accidental) : AccidentalTable :=
  { table with entries := put (Text.upper letter) (a.alter (table.get letter)) table.entries }

/-- Applies the accidental with this spelling. -/
def applySpelled (table : AccidentalTable) (letter spelling : Text) :
    Except UnknownAccidental AccidentalTable :=
  match Accidental.ofText? spelling with
  | some a => .ok (table.apply letter a)
  | none => .error ⟨spelling⟩

/-- The altered letters, with the semitones of their alteration. -/
def altered (table : AccidentalTable) : List (Text × Int) :=
  table.entries.filter fun entry => entry.2 != 0

end AccidentalTable

end SingAlong

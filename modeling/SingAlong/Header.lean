import SingAlong.Decimal.Shortest
import SingAlong.Key
import SingAlong.Length
import SingAlong.Text.Integer

/-!
# The header of a tune

The header fields are texts by field letter. `Header.ofFields` resolves them: index, title and key
must be there, the others have a default.
-/

namespace SingAlong

/-- The field texts by field letter; no letter occurs twice. -/
abbrev Fields := List (Text × Text)

/-- The text of the field with a letter. -/
def Fields.get? (fields : Fields) (letter : Char) : Option Text :=
  fields.lookup [.char letter]

/-- The beats per minute: those of a tune without tempo mark, or those that its mark gives. -/
inductive Tempo where
  | standard
  | marked (beats : Rat)
  deriving DecidableEq, Repr

namespace Tempo

/-- The beats per minute; one hundred without a mark. -/
def value : Tempo → Rat
  | .standard => 100
  | .marked q => q

/-- The tempo as it is shown in the description of a value. -/
def describe : Tempo → Text
  | .standard => "100".text
  | .marked q => describeRat q

end Tempo

/-- A resolved header. The meter and the default length of a note are fractions of a whole note. -/
structure Header where
  index : Int
  title : Text
  composer : Text
  key : Key
  meter : Rat
  length : Rat
  tempo : Tempo
  voices : List Text
  deriving DecidableEq, Repr

/-- Why a header can not be resolved. -/
inductive HeaderError where
  /-- The index, the title or the key is missing. -/
  | missingField (letter : Char)
  /-- The index is not an integer. -/
  | invalidIndex (text : Text)
  /-- The title is empty. -/
  | emptyTitle
  /-- The key is not a supported one. -/
  | key (e : UnsupportedKey)
  /-- The meter, the length or the beat of the tempo is not a fraction. -/
  | fraction (e : LengthError)
  /-- The tempo mark is not a beat and a number. -/
  | invalidTempo (text : Text)
  /-- The tempo counts default lengths of zero. -/
  | zeroLength
  deriving DecidableEq, Repr

/-- The wording of the error. -/
def HeaderError.message : HeaderError → Text
  | .missingField letter => "missing header field ".text ++ [CodePoint.char letter] ++ ":".text
  | .invalidIndex t => "invalid index: ".text ++ Text.quoted t
  | .emptyTitle => "empty title".text
  | .key e => e.message
  | .fraction e => e.message
  | .invalidTempo t => "invalid tempo: ".text ++ Text.quoted t
  | .zeroLength => "zero length".text

namespace Header

/-- The voice of the music before any voice field. -/
def defaultVoice : Text :=
  "default".text

/-- The composer of a tune that names none. -/
def defaultComposer : Text :=
  "Unknown".text

/-- The meters that are written as a letter; both have the length of a whole note. -/
def commonTime : List Text :=
  [['C'], ['C', '|']]

/-- The text of a field that must be there. -/
def required (fields : Fields) (letter : Char) : Except HeaderError Text :=
  match fields.get? letter with
  | some t => .ok t
  | none => .error (.missingField letter)

/-- Reads a fraction field. -/
def readRat (t : Text) : Except HeaderError Rat :=
  (readFraction t).mapError .fraction

/-- The meter; a whole note for common time and when there is no meter field. -/
def readMeter : Option Text → Except HeaderError Rat
  | none => .ok 1
  | some t => if commonTime.contains t then .ok 1 else readRat t

/-- The default length of a note; without a length field it depends on the meter. -/
def readLength (meter : Rat) : Option Text → Except HeaderError Rat
  | none => .ok (if meter < 3 / 4 then 1 / 16 else 1 / 8)
  | some t => readRat t

/-- Splits a tempo mark at the last equals sign of its first line, and reads what follows as a
number with blanks around it. -/
def splitTempo? (t : Text) : Option (Text × Nat) :=
  let line := t.takeWhile Text.inLine
  let count := (line.reverse.takeWhile fun c : CodePoint => c != '=').reverse
  if count.length = line.length then none
  else
    let beat := line.take (line.length - count.length - 1)
    let (digits, rest) := (Text.trimStart (count ++ t.drop line.length)).span isDigit
    if digits.isEmpty || !Text.allBlank rest then none else some (beat, Text.numeral digits)

/-- The tempo: a mark gives a beat and the number of these beats in a minute, which are counted in
default lengths. -/
def readTempo (length : Rat) : Option Text → Except HeaderError Tempo
  | none => .ok .standard
  | some t =>
    match splitTempo? t with
    | none => .error (.invalidTempo t)
    | some (beat, count) => do
      let beat ← readRat beat
      if length = 0 then .error .zeroLength
      else .ok (.marked (beat / length * count))

/-- Resolves the header fields. The index, the title and the key are looked at first, then the
meter, the length and the tempo. -/
def ofFields (fields : Fields) : Except HeaderError Header := do
  let index ← required fields 'X'
  let title ← required fields 'T'
  let key ← required fields 'K'
  let index ← match Text.toInt? index with
    | some n => .ok n
    | none => .error (.invalidIndex index)
  if title.isEmpty then .error .emptyTitle
  let key ← (Key.read key).mapError .key
  let meter ← readMeter (fields.get? 'M')
  let length ← readLength meter (fields.get? 'L')
  let tempo ← readTempo length (fields.get? 'Q')
  let composer := (fields.get? 'C').getD []
  return {
    index, title, key, meter, length, tempo
    composer := if composer.isEmpty then defaultComposer else composer
    voices := (Text.lines ((fields.get? 'V').getD defaultVoice)).map Text.trim }

/-- The tempo as a decimal; there is none when it is too large. -/
def beatsPerMinute? (h : Header) : Option Text :=
  decimal? h.tempo.value

/-- The voice names in brackets. -/
def voiceList (h : Header) : Text :=
  "[".text ++ ", ".text.intercalate h.voices ++ "]".text

/-- The header on one line; there is none when a number is too large for a decimal. -/
def text? (h : Header) : Option Text := do
  let meter ← decimal? h.meter
  let length ← decimal? h.length
  let tempo ← h.beatsPerMinute?
  return "X:".text ++ Text.ofInt h.index ++ "T:".text ++ h.title ++ "C:".text ++ h.composer ++
    "V:".text ++ h.voiceList ++ "M:".text ++ meter ++ "L:".text ++ length ++ "Q:".text ++
    tempo ++ "K:".text ++ h.key.name

end Header

/-- Items in parentheses; a single item is followed by a comma. -/
def describeTuple : List Text → Text
  | [item] => "(".text ++ item ++ ",)".text
  | items => "(".text ++ ", ".text.intercalate items ++ ")".text

/-- The header as it is shown in the description of a value. -/
def Header.describe (h : Header) : Text :=
  "Header(index=".text ++ Text.ofInt h.index ++ ", title=".text ++ Text.quoted h.title ++
    ", composer=".text ++ Text.quoted h.composer ++ ", key=".text ++ Text.quoted h.key.name ++
    ", meter=".text ++ describeRat h.meter ++ ", length=".text ++ describeRat h.length ++
    ", tempo=".text ++ h.tempo.describe ++ ", voices=".text ++
    describeTuple (h.voices.map Text.quoted) ++ ")".text

end SingAlong

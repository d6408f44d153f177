import SingAlong.Lyrics.Slot

/-!
# Aligning lyrics with music

`align` gives every element of a voice a slot. The tokens are taken as steps: a tie or an escaped
hyphen makes one step with the word after it. The steps fill the slots in order; before each step an
element that takes no time gets a blank slot. Syllables that find no slot are dropped and counted,
but a join still reaches the last syllable when all slots are filled.
-/

namespace SingAlong

/-- How a join connects a word to the syllable before it. -/
inductive Joint where
  | blank
  | hyphen
  deriving DecidableEq, Repr

/-- The character that connects. -/
def Joint.char : Joint → CodePoint
  | blank => ' '
  | hyphen => '-'

/-- A step of the lyrics. -/
inductive LyricStep where
  | space
  | hyphen
  | extend
  | skip
  | bar
  | newline
  /-- A syllable, or another text that gets a slot of its own. -/
  | text (t : Text) (isSyllable : Bool)
  /-- Joins the word after it, if there is one, to the last syllable. Its own text is used when
  there is neither. -/
  | join (joint : Joint) (own : Text) (word : Option Text)
  deriving DecidableEq, Repr

namespace LyricStep

/-- The word at the front of the steps, after spaces, with the steps after it. -/
def takeWord? : List LyricStep → Option (Text × List LyricStep)
  | space :: rest => takeWord? rest
  | text t true :: rest => some (t, rest)
  | _ => none

/-- A join in front of the steps, which takes their first word. -/
def joinFirst (joint : Joint) (own : Text) (steps : List LyricStep) : List LyricStep :=
  match takeWord? steps with
  | some (word, rest) => join joint own (some word) :: rest
  | none => join joint own none :: steps

/-- The steps of the tokens. -/
def ofTokens : List LyricToken → List LyricStep
  | [] => []
  | t :: rest =>
    let steps := ofTokens rest
    match t.kind with
    | .space => space :: steps
    | .hyphen => hyphen :: steps
    | .extender => extend :: steps
    | .skip => skip :: steps
    | .bar => bar :: steps
    | .newline => newline :: steps
    | .syllable => text t.text true :: steps
    | .plain => text t.text false :: steps
    | .tie => joinFirst .blank t.text steps
    | .escapedHyphen => joinFirst .hyphen t.text steps

/-- Is a join next, after spaces? -/
def joinIsNext : List LyricStep → Bool
  | space :: rest => joinIsNext rest
  | join _ _ _ :: _ => true
  | _ => false

/-- Can it end the lyrics after a hyphen? -/
def isTrailing : LyricStep → Bool
  | space | hyphen | newline => true
  | _ => false

/-- Does the step hold a syllable that is lost when the step is not taken? -/
def holdsSyllable : LyricStep → Bool
  | text _ isSyllable => isSyllable
  | join _ _ word => word.isSome
  | _ => false

end LyricStep

/-- Changes the text of the last syllable, if there is one. -/
def changeLastSyllable? (f : Text → Text) : List Slot → Option (List Slot)
  | [] => none
  | s :: rest =>
    match changeLastSyllable? f rest with
    | some rest => some (s :: rest)
    | none =>
      match s with
      | .syllable t => some (.ofText (f t) :: rest)
      | _ => none

/-- A blank slot for the next element if that takes no time. -/
def fillSilent (seats : List Seat) (slots : List Slot) : List Slot :=
  match seats[slots.length]? with
  | some seat => if seat.length.value = 0 then slots ++ [.blank] else slots
  | none => slots

/-- Blank slots up to the next measure: as long as the last slot belongs to a note or chord and
there is another element. -/
def fillMeasure (seats : List Seat) (slots : List Slot) : List Slot :=
  if slots.isEmpty then slots
  else
    let sung := (seats.drop (slots.length - 1)).takeWhile fun seat => seat.label.isSung
    slots ++ List.replicate (min sung.length (seats.length - slots.length)) .blank

/-- Joins a word to the last syllable, or lets it be a syllable when it is the first. -/
def joinWord (joint : Joint) (own : Text) (word : Option Text) (slots : List Slot) : List Slot :=
  let word := word.getD []
  match changeLastSyllable? (fun t => t ++ joint.char :: word) slots with
  | some slots => slots
  | none => slots ++ [.ofText (if word.isEmpty then own else word)]

/-- The slots after a step, when the other steps follow it. A hyphen gets a slot only at the end of
the lyrics. -/
def takeStep (seats : List Seat) (slots : List Slot) (step : LyricStep) (rest : List LyricStep) :
    List Slot :=
  match step with
  | .space => slots
  | .hyphen => if rest.all LyricStep.isTrailing then slots ++ [.blank] else slots
  | .extend => slots ++ [.extend]
  | .skip => slots ++ [.blank]
  | .bar => fillMeasure seats slots
  | .newline => slots ++ [.newline]
  | .text t _ => slots ++ [.ofText t]
  | .join joint own word => joinWord joint own word slots

/-- Fills slots with steps until no slot is left, apart from joins; the slots, of which there can be
too many, and the steps that are not taken. -/
def fillSlots (seats : List Seat) (slots : List Slot) : List LyricStep → List Slot × List LyricStep
  | [] => (slots, [])
  | step :: rest =>
    if seats.length ≤ slots.length && !LyricStep.joinIsNext (step :: rest) then
      (slots, step :: rest)
    else fillSlots seats (takeStep seats (fillSilent seats slots) step rest) rest

/-- The slots of the elements of a voice, and the number of syllables that are dropped. -/
structure Alignment where
  slots : List Slot
  dropped : Nat
  deriving DecidableEq, Repr

/-- Aligns the lyrics of a voice with its elements: exactly one slot for each of them. -/
def align (tokens : List LyricToken) (seats : List Seat) : Alignment :=
  let (slots, left) := fillSlots seats [] (LyricStep.ofTokens tokens)
  let n := seats.length
  { slots := slots.take n ++ List.replicate (n - slots.length) .blank
    dropped := (slots.drop n).countP Slot.isSyllable + left.countP LyricStep.holdsSyllable }

/-- The warning about syllables that are dropped. -/
def droppedWarning (n : Nat) : Text :=
  Text.ofNat n ++ " lyric syllables do not fit the music and are dropped".text

end SingAlong

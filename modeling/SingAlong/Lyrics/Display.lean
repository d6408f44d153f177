import SingAlong.Lyrics.Slot
import SingAlong.Music.Build

/-!
# Displaying lyrics

The slots of a voice, in performance order, become lyrics. A syllable lasts for its own element and
for those with an extending slot after it; its lyric shows the whole line of lyrics, with the
syllable marked. Blank slots keep their time, and the other markers take none.
-/

namespace SingAlong

/-- Why lyrics can not be displayed. -/
inductive DisplayError where
  /-- There are more slots than lengths. -/
  | missingLength
  | music (e : MusicError)

namespace Slot

/-- The text of a slot on the line: an extending slot shows as a blank. -/
def shown : Slot → Text
  | extend => [' ']
  | s => s.text

/-- The line of lyrics before a syllable. -/
def lineBefore (slots : List Slot) : Text :=
  slots.flatMap fun s => s.shown ++ " ".text

/-- The line of lyrics after a syllable. -/
def lineAfter (slots : List Slot) : Text :=
  (slots.takeWhile (· != newline)).flatMap fun s => ' ' :: s.shown

/-- The line of lyrics with a syllable marked. -/
def marked (before : List Slot) (t : Text) (after : List Slot) : Text :=
  lineBefore before ++ " <mark>".text ++ t ++ "</mark> ".text ++ lineAfter after

/-- A length together with those of the extending slots that follow. -/
def extended? (l : Length) : List Slot → List Length → Option Length
  | extend :: slots, d :: lengths => extended? (l + d) slots lengths
  | extend :: _, [] => none
  | _, _ => some l

/-- The lyric of a slot with its extended length, between the slots of its line before it and all
slots after it. -/
def lyric (before : List Slot) (s : Slot) (l : Length) (after : List Slot) :
    Except MusicError Music :=
  match s with
  | blank => Music.mkLyric blank.text l
  | extend | newline => Music.mkLyric blank.text (.whole 0)
  | syllable t => Music.mkLyric (marked before t after) l

/-- Is a last slot left out? One that takes no time is. -/
def isIdle (s : Slot) (l : Length) : Bool :=
  match s with
  | extend | newline => true
  | blank => l.value == 0
  | syllable _ => false

/-- The lyrics of slots with their lengths, after the slots of the same line before them. -/
def displayFrom (before : List Slot) : List Slot → List Length → Except DisplayError (List Music)
  | [], _ => .ok []
  | _ :: _, [] => .error .missingLength
  | s :: slots, d :: lengths =>
    match extended? d slots lengths with
    | none => .error .missingLength
    | some l =>
      if slots.isEmpty && s.isIdle l then .ok []
      else do
        let m ← (s.lyric before l slots).mapError .music
        let before := if s = newline then [] else before ++ [s]
        return m :: (← displayFrom before slots lengths)

end Slot

/-- The lyrics of slots and their lengths, in performance order. -/
def display (slots : List Slot) (lengths : List Length) : Except DisplayError (List Music) :=
  Slot.displayFrom [] slots lengths

end SingAlong

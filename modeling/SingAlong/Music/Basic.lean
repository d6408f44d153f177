import SingAlong.Header
import SingAlong.Instrument
import SingAlong.Pitch

/-!
# Music

Music is an expression: notes, rests and lyrics, sounding together in chords and components, one
after the other, or squeezed into tuplets; and a whole piece with its voices. Every expression has a
duration and can be transposed.
-/

namespace SingAlong

/-- A music expression. -/
inductive Music where
  | note (length : Length) (pitch : Pitch) (instrument : Instrument)
  | rest (length : Length)
  /-- A text that is shown for some time. -/
  | lyric (text : Text) (length : Length)
  /-- Notes that sound together. -/
  | chord (notes : List Music)
  /-- Notes or chords, evenly spread over the time of another number of notes. -/
  | tuplet (notes : List Music)
  /-- The second expression starts when the first one ends. -/
  | concat (first second : Music)
  /-- Expressions that start together. -/
  | component (parts : List Music)
  /-- The music of each voice of a tune, with its header. -/
  | piece (voices : List (Text × Music)) (header : Header)

/-- The name of a voice that a piece does not have. -/
structure UnknownVoice where
  name : Text
  deriving DecidableEq, Repr

namespace Music

/-- The rest that takes no time. -/
def silence : Music :=
  rest (.whole 0)

/-- The number of notes whose time a tuplet takes. -/
def tupletTime (count : Nat) : Nat :=
  if count = 3 then 2 else 3

mutual
/-- The duration. That of a chord or component is the duration of its first part, that of a piece
the duration of its longest voice. -/
def duration : Music → Length
  | note l _ _ => l
  | rest l => l
  | lyric _ l => l
  | chord ns => firstDuration ns
  | tuplet ns => (firstDuration ns).scale (tupletTime ns.length)
  | concat a b => duration a + duration b
  | component ps => firstDuration ps
  | piece vs _ => longestDuration vs
/-- The duration of the first expression. -/
def firstDuration : List Music → Length
  | [] => .whole 0
  | m :: _ => duration m
/-- The duration of the longest voice. -/
def longestDuration : List (Text × Music) → Length
  | [] => .whole 0
  | (_, m) :: vs => (longestDuration vs).longer (duration m)
end

mutual
/-- The expression some semitones higher, or lower if the number is negative. -/
def transpose (n : Int) : Music → Music
  | note l p i => note l (p.transpose n) i
  | rest l => rest l
  | lyric t l => lyric t l
  | chord ns => chord (transposeAll n ns)
  | tuplet ns => tuplet (transposeAll n ns)
  | concat a b => concat (transpose n a) (transpose n b)
  | component ps => component (transposeAll n ps)
  | piece vs h => piece (transposeVoices n vs) h
/-- The expressions of a list some semitones higher. -/
def transposeAll (n : Int) : List Music → List Music
  | [] => []
  | m :: ms => transpose n m :: transposeAll n ms
/-- The voices of a piece some semitones higher. -/
def transposeVoices (n : Int) : List (Text × Music) → List (Text × Music)
  | [] => []
  | (v, m) :: vs => (v, transpose n m) :: transposeVoices n vs
end

/-! ## Voices -/

/-- The names with the new ones of another list added. -/
def addNames (names : List Text) : List Text → List Text
  | [] => names
  | v :: vs => addNames (if names.contains v then names else names ++ [v]) vs

mutual
/-- The names of the voices: those that the header of a piece declares, and for other expressions
those of the expressions in it, each once. -/
def voices : Music → List Text
  | note _ _ _ => []
  | rest _ => []
  | lyric _ _ => []
  | chord ns => voicesOf [] ns
  | tuplet ns => voicesOf [] ns
  | concat a b => addNames (addNames [] (voices a)) (voices b)
  | component ps => voicesOf [] ps
  | piece _ h => h.voices
/-- The names of the voices of all expressions of a list, after the names of others. -/
def voicesOf (names : List Text) : List Music → List Text
  | [] => names
  | m :: ms => voicesOf (addNames names (voices m)) ms
end

/-- The music of a voice of a piece. A voice that only the header declares is silent. -/
def voice (vs : List (Text × Music)) (h : Header) (name : Text) : Except UnknownVoice Music :=
  match vs.lookup name with
  | some m => .ok m
  | none => if h.voices.contains name then .ok silence else .error ⟨name⟩

mutual
/-- The text of all lyrics of a voice. Only a piece tells voices apart. -/
def lyrics (name : Text) : Music → Except UnknownVoice Text
  | note _ _ _ => .ok []
  | rest _ => .ok []
  | lyric t _ => .ok t
  | chord ns => lyricsOf name ns
  | tuplet ns => lyricsOf name ns
  | concat a b => do return (← lyrics name a) ++ (← lyrics name b)
  | component ps => lyricsOf name ps
  | piece vs h => lyricsIn name h vs
/-- The text of all lyrics in the expressions of a list. -/
def lyricsOf (name : Text) : List Music → Except UnknownVoice Text
  | [] => .ok []
  | m :: ms => do return (← lyrics name m) ++ (← lyricsOf name ms)
/-- The text of all lyrics of the named voice of a piece. -/
def lyricsIn (name : Text) (h : Header) : List (Text × Music) → Except UnknownVoice Text
  | [] => if h.voices.contains name then .ok [] else .error ⟨name⟩
  | (v, m) :: vs => if v = name then lyrics name m else lyricsIn name h vs
end

/-- The name of the way in which the expression is built. -/
def formName : Music → Text
  | note _ _ _ => "Note".text
  | rest _ => "Rest".text
  | lyric _ _ => "Lyric".text
  | chord _ => "Chord".text
  | tuplet _ => "Tuplet".text
  | concat _ _ => "Concat".text
  | component _ => "Component".text
  | piece _ _ => "Piece".text

/-- Is it a component with more than one part, so that the first part holds lyrics? -/
def hasLyrics : Music → Option Bool
  | component ps => some (1 < ps.length)
  | _ => none

end Music

end SingAlong

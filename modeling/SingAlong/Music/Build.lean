import SingAlong.Music.Text

/-!
# Building music

The ways to build music. Lengths must not be negative, chords and components must not be empty, a
chord holds no rests and no tuplets, and a tuplet holds two, three or four notes or chords.
-/

namespace SingAlong

/-- Why music can not be built. -/
inductive MusicError where
  | negativeLength (q : Rat)
  | emptyChord
  | notInChord (m : Music)
  | tupletCount (n : Nat)
  | notInTuplet (m : Music)
  | emptyLyric
  | emptyComponent
  /-- Only notes, and chords of what can be stretched, can be given another length. -/
  | notStretchable

/-- The wording of the error. -/
def MusicError.message : MusicError → Text
  | .negativeLength q => "negative length: ".text ++ Text.ofRat q
  | .emptyChord => "a Chord needs at least one note".text
  | .notInChord m => "a Chord can't contain ".text ++ m.describe
  | .tupletCount n => "a Tuplet needs 2, 3 or 4 notes, not ".text ++ Text.ofNat n
  | .notInTuplet m => "a Tuplet can't contain ".text ++ m.describe
  | .emptyLyric => "a Lyric needs text".text
  | .emptyComponent => "a Component needs at least one part".text
  | .notStretchable => "not stretchable".text

namespace Music

/-- Can it be part of a chord? -/
def fitsChord : Music → Bool
  | rest _ | tuplet _ => false
  | _ => true

/-- Can it be part of a tuplet? -/
def fitsTuplet : Music → Bool
  | note _ _ _ | chord _ => true
  | _ => false

/-- A length that is not negative. -/
def checkLength (l : Length) : Except MusicError Unit :=
  if l.value < 0 then .error (.negativeLength l.value) else .ok ()

/-- A note. -/
def mkNote (l : Length) (p : Pitch) (i : Instrument) : Except MusicError Music := do
  checkLength l
  return note l p i

/-- A rest. -/
def mkRest (l : Length) : Except MusicError Music := do
  checkLength l
  return rest l

/-- A lyric, whose text is looked at before its length. -/
def mkLyric (t : Text) (l : Length) : Except MusicError Music := do
  if t.isEmpty then .error .emptyLyric
  checkLength l
  return lyric t l

/-- A chord. -/
def mkChord (ns : List Music) : Except MusicError Music :=
  if ns.isEmpty then .error .emptyChord
  else match ns.find? fun m => !m.fitsChord with
    | some m => .error (.notInChord m)
    | none => .ok (chord ns)

/-- A tuplet. -/
def mkTuplet (ns : List Music) : Except MusicError Music :=
  if ns.length < 2 ∨ 4 < ns.length then .error (.tupletCount ns.length)
  else match ns.find? fun m => !m.fitsTuplet with
    | some m => .error (.notInTuplet m)
    | none => .ok (tuplet ns)

/-- A component. -/
def mkComponent (ps : List Music) : Except MusicError Music :=
  if ps.isEmpty then .error .emptyComponent else .ok (component ps)

/-- Replaces the music of a voice, or adds a voice. -/
def putVoice (name : Text) (m : Music) : List (Text × Music) → List (Text × Music)
  | [] => [(name, m)]
  | entry :: others =>
    if entry.1 = name then (name, m) :: others else entry :: putVoice name m others

/-- A piece. Of two entries for a voice the later one counts, at the place of the earlier. -/
def mkPiece (entries : List (Text × Music)) (h : Header) : Music :=
  piece (entries.foldl (fun vs entry => putVoice entry.1 entry.2 vs) []) h

mutual
/-- The notes with another length. -/
def stretch (l : Length) : Music → Except MusicError Music
  | note _ p i => mkNote l p i
  | chord ns => do mkChord (← stretchAll l ns)
  | _ => .error .notStretchable
/-- The notes of a list with another length. -/
def stretchAll (l : Length) : List Music → Except MusicError (List Music)
  | [] => .ok []
  | m :: ms => do return (← stretch l m) :: (← stretchAll l ms)
end

/-- The expressions one after the other, after a rest that takes no time. -/
def sequence (ms : List Music) : Music :=
  ms.foldl concat silence

end Music

end SingAlong

import SingAlong.Beats
import SingAlong.Music.Build

/-!
# Playing music

Playing an expression schedules its notes and lyrics, at beats that count from a start beat. The
members of a tuplet get equal shares of its duration, which are exact unless the duration is whole.
A cancel flag is looked at before each expression; what is scheduled before it is found set stays
scheduled.
-/

namespace SingAlong

/-- A note that is scheduled. -/
structure ScheduledNote where
  instrument : Instrument
  pitch : Pitch
  start : Beats
  length : Beats
  deriving DecidableEq, Repr

/-- A lyric that is scheduled. -/
structure ScheduledLyric where
  beat : Rat
  text : Text
  deriving DecidableEq, Repr

/-- The notes and the lyrics that are scheduled, each in the order of scheduling. -/
structure Schedule where
  notes : List ScheduledNote
  lyrics : List ScheduledLyric
  deriving DecidableEq, Repr

/-- The empty schedule. -/
def Schedule.empty : Schedule :=
  ⟨[], []⟩

/-- A flag that cancels playing: the number of times that it is still found unset, or `none` while
nothing will set it. -/
structure CancelFlag where
  checks : Option Nat
  deriving DecidableEq, Repr

namespace CancelFlag

/-- A flag that is not set. -/
def unset : CancelFlag :=
  ⟨none⟩

/-- A flag that is set. -/
def set : CancelFlag :=
  ⟨some 0⟩

/-- A flag that is set after it has been found unset `n` times. -/
def setAfter (n : Nat) : CancelFlag :=
  ⟨some n⟩

/-- Looks at the flag: the flag from then on, if it is not set. -/
def check? (flag : CancelFlag) : Option CancelFlag :=
  match flag.checks with
  | none => some unset
  | some 0 => none
  | some (n + 1) => some (setAfter n)

end CancelFlag

/-- Why music can not be played to its end. -/
inductive PlayError where
  | cancelled
  | unknownVoice (e : UnknownVoice)
  /-- A part of a tuplet can not be given another length. -/
  | notStretchable
  /-- The share of a whole length, or the beat that it is added to, is too large to be rounded. -/
  | tooLarge
  deriving DecidableEq, Repr

/-- Playing in progress: the cancel flag and the schedule so far. -/
structure Playing where
  flag : CancelFlag
  schedule : Schedule

/-- A step of playing. When it fails, what it has scheduled before stays scheduled. -/
abbrev Player := EStateM PlayError Playing

namespace Player

/-- Goes on unless the cancel flag is set. -/
def check : Player Unit := do
  let s ← get
  match s.flag.check? with
  | some flag => set { s with flag }
  | none => throw .cancelled

/-- Schedules a note. -/
def addNote (n : ScheduledNote) : Player Unit :=
  modify fun s => { s with schedule := { s.schedule with notes := s.schedule.notes ++ [n] } }

/-- Schedules a lyric. -/
def addLyric (l : ScheduledLyric) : Player Unit :=
  modify fun s => { s with schedule := { s.schedule with lyrics := s.schedule.lyrics ++ [l] } }

end Player

namespace Music

mutual
/-- Can all its notes be given another length? -/
def isStretchable : Music → Bool
  | note _ _ _ => true
  | chord ns => areStretchable ns
  | _ => false
/-- Can all expressions of a list be given another length? -/
def areStretchable : List Music → Bool
  | [] => true
  | m :: ms => isStretchable m && areStretchable ms
end

mutual
/-- Plays the notes with another length. -/
def playStretched (length beat : Beats) : Music → Player Unit
  | note _ p i => do
    Player.check
    Player.addNote ⟨i, p, beat, length⟩
  | chord ns => do
    Player.check
    playAllStretched length beat ns
  | _ => throw .notStretchable
/-- Plays the notes of a list together, with another length. -/
def playAllStretched (length beat : Beats) : List Music → Player Unit
  | [] => pure ()
  | m :: ms => do
    playStretched length beat m
    playAllStretched length beat ms
end

/-- Plays the members of a tuplet one after the other, all with the same length. -/
def playEvenly (length beat : Beats) : List Music → Player Unit
  | [] => pure ()
  | m :: ms => do
    if m.isStretchable then playStretched length beat m else throw .notStretchable
    match beat.add? length with
    | some next => playEvenly length next ms
    | none => throw .tooLarge

mutual
/-- Plays the expression from a beat on. Lyrics are scheduled only when a voice is named, and then
a piece plays only that voice. -/
def play (name : Text) (beat : Rat) : Music → Player Unit
  | note l p i => do
    Player.check
    Player.addNote ⟨i, p, .exact beat, .exact l.value⟩
  | rest _ => Player.check
  | lyric t _ => do
    Player.check
    if name.isEmpty then pure () else Player.addLyric ⟨beat, t⟩
  | chord ns => do
    Player.check
    playAll name beat ns
  | tuplet ns => do
    Player.check
    match ((firstDuration ns).scale (tupletTime ns.length)).part? ns.length with
    | some length => playEvenly length (.exact beat) ns
    | none => throw .tooLarge
  | concat a b => do
    Player.check
    play name beat a
    play name (beat + a.duration.value) b
  | component ps => do
    Player.check
    playAll name beat ps
  | piece vs h => do
    Player.check
    if name.isEmpty then playVoices name beat vs else playVoice name beat h vs
/-- Plays the expressions of a list together. -/
def playAll (name : Text) (beat : Rat) : List Music → Player Unit
  | [] => pure ()
  | m :: ms => do
    play name beat m
    playAll name beat ms
/-- Plays all voices of a piece together. -/
def playVoices (name : Text) (beat : Rat) : List (Text × Music) → Player Unit
  | [] => pure ()
  | (_, m) :: vs => do
    play name beat m
    playVoices name beat vs
/-- Plays the named voice of a piece; one that only the header declares is a rest. -/
def playVoice (name : Text) (beat : Rat) (h : Header) : List (Text × Music) → Player Unit
  | [] => if h.voices.contains name then Player.check else throw (.unknownVoice ⟨name⟩)
  | (v, m) :: vs => if v = name then play name beat m else playVoice name beat h vs
end

/-- The schedule of an expression that is played from a beat on, and the error if it is not played
to its end. -/
def scheduled (m : Music) (name : Text) (beat : Rat) (flag : CancelFlag) :
    Schedule × Option PlayError :=
  match (m.play name beat).run ⟨flag, .empty⟩ with
  | .ok _ s => (s.schedule, none)
  | .error e s => (s.schedule, some e)

end Music

end SingAlong

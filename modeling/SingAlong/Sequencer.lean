import SingAlong.Music.Play

/-!
# The sequencer

A sequencer records notes and runs events in the order of their beats; events with the same beat run
in the order in which they were added. A run looks at the cancel flag before each event, and may end
early; what is scheduled stays, so that the next run starts again with all events.
-/

namespace SingAlong

/-- What the callback of an event does besides being noted in the log. -/
inductive Reaction where
  | nothing
  /-- Sets the cancel flag. -/
  | cancel
  | fail
  /-- Adds an event, which the next run is the first to run. -/
  | schedule (beat : Rat) (label : Text) (reaction : Reaction)
  deriving DecidableEq, Repr

/-- What happens at an event. -/
inductive Action where
  /-- Shows a lyric. -/
  | show (text : Text)
  /-- Ends the music of a promise. -/
  | finish (promise : Nat)
  /-- Calls back, which is noted in the log. -/
  | call (label : Text) (reaction : Reaction)
  deriving DecidableEq, Repr

/-- An event of the sequencer. -/
structure Event where
  beat : Rat
  action : Action
  deriving DecidableEq, Repr

/-- What becomes of a run: it runs the events, it does nothing, or it fails at once. -/
inductive Output where
  | working
  | silent
  | broken
  deriving DecidableEq, Repr

/-- Why a run ends early. -/
inductive RunError where
  | cancelled
  /-- The output is broken. -/
  | noSound
  /-- A callback has failed. -/
  | callbackFailed
  /-- There are no beats in a minute. -/
  | zeroTempo
  /-- A beat or the tempo is too large for a double-precision number. -/
  | tooLarge
  deriving DecidableEq, Repr

/-- The wording of the error. -/
def RunError.message : RunError → Text
  | .cancelled => []
  | .noSound => "no sound".text
  | .callbackFailed => "callback failed".text
  | .zeroTempo => "zero tempo".text
  | .tooLarge => "too large".text

/-- What becomes of a promise: its music has ended at a beat, or the run has ended before that, with
an error or without. -/
inductive Outcome where
  | ended (beat : Rat)
  | failed (e : RunError)
  | stopped
  deriving DecidableEq, Repr

/-- A sequencer: its settings, what is scheduled, and what its runs have done. It may have no cancel
flag. The sink that lyrics are written to may have room for some more lyrics only. A promise notes
each outcome that it is given. What is written to the sink ends up in `written`, with an empty text
for each flush. -/
structure Sequencer where
  beatsPerMinute : Rat
  realtime : Bool
  output : Output
  flag : Option CancelFlag
  room : Option Nat
  notes : List ScheduledNote
  events : List Event
  promises : List (List Outcome)
  written : List Text
  log : List (Text × Rat)

/-- What is written to show a lyric: the text with a line break, and a flush. A blank is not
shown. -/
def shownLyric (t : Text) : List Text :=
  if t = " ".text then [] else [t ++ "<br>".text, []]

/-- A step of a run. When it fails, what has been done before stays done. -/
abbrev Running := EStateM RunError Sequencer

namespace Sequencer

/-- A sequencer with nothing scheduled. -/
def new (beatsPerMinute : Rat) (realtime : Bool) (flag : Option CancelFlag) : Sequencer :=
  ⟨beatsPerMinute, realtime, .working, flag, none, [], [], [], [], []⟩

/-- Sets or clears the cancel flag, if there is one. -/
def putFlag (s : Sequencer) (flag : CancelFlag) : Sequencer :=
  { s with flag := s.flag.map fun _ => flag }

/-- Adds a note. -/
def addNote (s : Sequencer) (n : ScheduledNote) : Sequencer :=
  { s with notes := s.notes ++ [n] }

/-- Adds an event. -/
def addEvent (s : Sequencer) (e : Event) : Sequencer :=
  { s with events := s.events ++ [e] }

/-- Adds a schedule: its notes, and an event for each of its lyrics. -/
def addSchedule (s : Sequencer) (schedule : Schedule) : Sequencer :=
  { s with
    notes := s.notes ++ schedule.notes
    events := s.events ++ schedule.lyrics.map fun l => ⟨l.beat, .show l.text⟩ }

/-- The time of a beat in seconds, in double precision: the beat times sixty, divided by the beats
per minute. -/
def seconds (s : Sequencer) (beat : Beats) : Except RunError Binary64 := do
  match beat.nearest?, Binary64.nearest? s.beatsPerMinute with
  | some beat, some tempo =>
    match (beat.mul (.ofRat 60)).div? tempo with
    | some time => return time
    | none => .error .zeroTempo
  | _, _ => .error .tooLarge

/-- The events in the order in which they run. -/
def ordered (s : Sequencer) : List Event :=
  s.events.mergeSort fun d e => d.beat ≤ e.beat

/-- The outcomes that a promise has been given. -/
def outcomes (s : Sequencer) (promise : Nat) : List Outcome :=
  s.promises[promise]?.getD []

/-- Gives a promise an outcome. -/
def give (s : Sequencer) (promise : Nat) (o : Outcome) : Sequencer :=
  { s with promises := s.promises.modify promise fun given => given ++ [o] }

/-- Gives a promise an outcome unless it has one; the first that it then has. -/
def settle (s : Sequencer) (promise : Nat) (o : Outcome) : Sequencer × Outcome :=
  match s.outcomes promise with
  | [] => (s.give promise o, o)
  | first :: _ => (s, first)

/-- Goes on unless the cancel flag is set. -/
def check : Running Unit := do
  let s ← get
  match s.flag with
  | none => pure ()
  | some flag =>
    match flag.check? with
    | some flag => set (s.putFlag flag)
    | none => throw .cancelled

/-- Does what a callback does. -/
def react : Reaction → Running Unit
  | .nothing => pure ()
  | .cancel => modify fun s => s.putFlag .set
  | .fail => throw .callbackFailed
  | .schedule beat label reaction => modify fun s => s.addEvent ⟨beat, .call label reaction⟩

/-- Writes to the sink, if it has room. Nothing needs no room. -/
def write? (s : Sequencer) (texts : List Text) : Option Sequencer :=
  if texts.isEmpty then some s
  else
    match s.room with
    | none => some { s with written := s.written ++ texts }
    | some 0 => none
    | some (n + 1) => some { s with room := some n, written := s.written ++ texts }

/-- Shows a lyric. -/
def showLyric (t : Text) : Running Unit := do
  let s ← get
  match s.write? (shownLyric t) with
  | some s => set s
  | none => throw .callbackFailed

/-- Does what happens at an event. -/
def perform (e : Event) : Running Unit :=
  match e.action with
  | .show t => showLyric t
  | .finish promise => modify fun s => (s.settle promise (.ended e.beat)).1
  | .call label reaction => do
    modify fun s => { s with log := s.log ++ [(label, e.beat)] }
    react reaction

/-- In real time the time of an event must be known before it comes. -/
def await (e : Event) : Running Unit := do
  let s ← get
  if s.realtime then
    match s.seconds (.exact e.beat) with
    | .ok _ => pure ()
    | .error err => throw err

/-- Runs events one after the other. -/
def runEvents : List Event → Running Unit
  | [] => pure ()
  | e :: rest => do
    check
    await e
    perform e
    runEvents rest

/-- Runs all events that are scheduled when the run begins; the log is that of this run. -/
def run : Running Unit := do
  modify fun s => { s with log := [] }
  let s ← get
  match s.output with
  | .working => runEvents s.ordered
  | .silent => pure ()
  | .broken => throw .noSound

end Sequencer

end SingAlong

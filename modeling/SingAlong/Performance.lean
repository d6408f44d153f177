import SingAlong.Sequencer

/-!
# Performances

A piece is put on a sequencer together with an event at its end, which settles a promise.
`performPiece` does that, runs the sequencer, and gives the beat at which the piece has ended. The
first outcome of a promise is the one that counts.
-/

namespace SingAlong

/-- Why a performance has no end. -/
inductive PerformanceError where
  /-- The piece could not be scheduled. -/
  | schedule (e : PlayError)
  /-- The run ended early. -/
  | run (e : RunError)
  /-- The run ended without an error, but before the end of the piece. -/
  | stopped
  deriving DecidableEq, Repr

/-- The wording of the last error. -/
def stoppedMessage : Text :=
  "the player stopped before the end".text

/-- What a performance gives when its promise has an outcome. -/
def Outcome.result : Outcome → Except PerformanceError Rat
  | .ended beat => .ok beat
  | .failed e => .error (.run e)
  | .stopped => .error .stopped

namespace Sequencer

/-- Puts music on the sequencer, and an event at its end; the number of the promise that this event
settles. When scheduling fails, what is scheduled before stays scheduled. -/
def playPiece (s : Sequencer) (m : Music) (voice : Text) (flag : CancelFlag) :
    Sequencer × Except PlayError Nat :=
  match m.scheduled voice 0 flag with
  | (schedule, some e) => (s.addSchedule schedule, .error e)
  | (schedule, none) =>
    let promise := s.promises.length
    let s := (s.addSchedule schedule).addEvent ⟨m.duration.value, .finish promise⟩
    ({ s with promises := s.promises ++ [[]] }, .ok promise)

/-- The beat at which the music of a promise has ended, if it has. -/
def resolved? (s : Sequencer) (promise : Nat) : Option Rat :=
  match s.outcomes promise with
  | .ended beat :: _ => some beat
  | _ => none

/-- Runs the sequencer: the state after the run, and the error if it ends early. -/
def runAll (s : Sequencer) : Sequencer × Option RunError :=
  match run.run s with
  | .ok _ s => (s, none)
  | .error e s => (s, some e)

/-- Puts music on the sequencer and runs it: the beat at which the music has ended. An error after
that does not count. -/
def performPiece (s : Sequencer) (m : Music) (voice : Text) (flag : CancelFlag) :
    Sequencer × Except PerformanceError Rat :=
  match s.playPiece m voice flag with
  | (s, .error e) => (s, .error (.schedule e))
  | (s, .ok promise) =>
    let (s, error) := s.runAll
    let (s, outcome) := s.settle promise (error.elim .stopped .failed)
    (s, outcome.result)

end Sequencer

end SingAlong

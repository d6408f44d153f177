import SingAlong.Tune.Node

/-!
# Repeats

`expand` gives the order in which the elements of a voice are performed, as a list of their
indices. A section up to a finishing repeat mark is performed again; it begins after the starting
repeat mark, or at a major barline that follows a completed repeat, or with the voice. When the
section has a first ending, it is performed again up to there only.
-/

namespace SingAlong

/-- What the elements so far say about the next repeat: the index of the element that the section
begins after, the index of the first ending, and whether a repeat has been completed since the last
starting mark. -/
structure RepeatState where
  start : Option Nat
  firstEnding : Option Nat
  completed : Bool
  deriving DecidableEq, Repr

namespace RepeatState

/-- The state at the beginning of a voice. -/
def initial : RepeatState :=
  ⟨none, none, false⟩

/-- The indices that a finishing mark at index `i` has performed again. With a first ending the
element that the section begins at is performed again too. -/
def replay (s : RepeatState) (i : Nat) : List Nat :=
  match s.firstEnding with
  | none =>
    let first := s.start.elim 0 (· + 1)
    List.range' first (i - first)
  | some ending =>
    let first := s.start.getD 0
    List.range' first (ending - first)

/-- The indices that are performed again after the element at index `i`, and the state after it. -/
def step (s : RepeatState) (i : Nat) (label : Label) : List Nat × RepeatState :=
  match label with
  | .bar .startRepeat => ([], { s with start := some i, completed := false })
  | .bar .finishRepeat => (s.replay i, { s with firstEnding := none, completed := true })
  | .bar .firstEnding => ([], { s with firstEnding := some i })
  | .bar b => ([], if b.isMajor && s.completed then { s with start := some i } else s)
  | _ => ([], s)

end RepeatState

/-- The performance order of the elements from index `i` on. -/
def expandFrom (s : RepeatState) (i : Nat) : List Node → List Nat
  | [] => []
  | n :: rest =>
    let (again, s) := s.step i n.label
    i :: again ++ expandFrom s (i + 1) rest

/-- The indices of the elements of a voice in performance order. -/
def expand (elements : List Node) : List Nat :=
  expandFrom .initial 0 elements

end SingAlong

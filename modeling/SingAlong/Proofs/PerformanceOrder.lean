import SingAlong.Repeat
import Mathlib.Data.List.Intervals
import Mathlib.Order.Basic

/-!
# The performance order

`expand` goes through the elements of a voice once and keeps a state of three parts. Here the order
is told without a state: each index is followed, at a finishing mark, by the indices that the mark
has performed again (`performedAt`). That range begins after the last place before the mark where a
section begins (`sectionStart`), and ends at the mark, or at a first ending that stands after the
previous finishing mark (`openEnding?`), and then the place where the section begins is performed
again too.

The state that is reached at an index is what the elements before it say (`RepeatState.of`). One
step keeps that (`RepeatState.step_of`), so the whole run does (`expandFrom_of`). With the range
told by the elements, it follows that every index stands for an element and that each is performed
a first time in its turn (`expand_eq_performedAt`).
-/

namespace SingAlong

/-! ## The last index before another -/

/-- The last index before another at which a condition holds. -/
def lastBefore (p : Nat → Prop) [DecidablePred p] : Nat → Option Nat
  | 0 => none
  | i + 1 => if p i then some i else lastBefore p i

section LastBefore

variable {p : Nat → Prop} [DecidablePred p] {i j : Nat}

/-- It is before the other, the condition holds there, and nowhere between the two. -/
theorem lastBefore_eq_some :
    lastBefore p i = some j ↔ j < i ∧ p j ∧ ∀ k, j < k → k < i → ¬p k := by
  induction i with
  | zero => simp [lastBefore]
  | succ i ih =>
    rw [lastBefore]
    split_ifs with h
    · constructor
      · rintro ⟨⟩
        exact ⟨by omega, h, fun k hk hki => by omega⟩
      · rintro ⟨hj, -, hlast⟩
        rcases Nat.lt_or_ge j i with hlt | hge
        · exact absurd h (hlast i hlt (by omega))
        · rw [show i = j by omega]
    · rw [ih]
      constructor
      · rintro ⟨hj, hp, hlast⟩
        refine ⟨by omega, hp, fun k hk hki => ?_⟩
        rcases Nat.lt_or_ge k i with hlt | hge
        · exact hlast k hk hlt
        · rwa [show k = i by omega]
      · rintro ⟨hj, hp, hlast⟩
        refine ⟨?_, hp, fun k hk hki => hlast k hk (by omega)⟩
        by_contra hge
        exact h (by rwa [show i = j by omega])

/-- There is none if the condition holds nowhere before the other. -/
theorem lastBefore_eq_none : lastBefore p i = none ↔ ∀ k < i, ¬p k := by
  induction i with
  | zero => simp [lastBefore]
  | succ i ih =>
    rw [lastBefore]
    split_ifs with h
    · simp only [false_iff, not_forall, not_not]
      exact ⟨i, by omega, h⟩
    · rw [ih]
      refine ⟨fun hall k hk => ?_, fun hall k hk => hall k (by omega)⟩
      rcases Nat.lt_or_ge k i with hlt | hge
      · exact hall k hlt
      · rwa [show k = i by omega]

/-- It is before the other. -/
theorem lt_of_mem_lastBefore (h : j ∈ lastBefore p i) : j < i :=
  (lastBefore_eq_some.1 h).1

end LastBefore

/-! ## What the elements say -/

/-- The bar that an element is. -/
def Label.bar? : Label → Option Bar
  | bar b => some b
  | _ => none

/-- The bar at an index, if the element there is one. -/
def barAt? (elements : List Node) (i : Nat) : Option Bar :=
  elements[i]?.bind fun n => n.label.bar?

/-- The last bar of a kind before an index. -/
def lastBar? (elements : List Node) (b : Bar) (i : Nat) : Option Nat :=
  lastBefore (fun j => barAt? elements j = some b) i

/-- Has a repeat been completed before an index, without a starting mark after it? -/
def RepeatCompleted (elements : List Node) (i : Nat) : Prop :=
  ∃ k < i, barAt? elements k = some .finishRepeat ∧
    ∀ l < i, k < l → barAt? elements l ≠ some .startRepeat

instance (elements : List Node) : DecidablePred (RepeatCompleted elements) := fun i =>
  inferInstanceAs (Decidable (∃ k < i, barAt? elements k = some .finishRepeat ∧
    ∀ l < i, k < l → barAt? elements l ≠ some .startRepeat))

/-- Does a section begin here: at a starting mark, or at a major barline after a completed
repeat? -/
def BeginsSection (elements : List Node) (j : Nat) : Prop :=
  barAt? elements j = some .startRepeat ∨
    (∃ b ∈ barAt? elements j, b.isMajor) ∧ RepeatCompleted elements j

instance (elements : List Node) : DecidablePred (BeginsSection elements) := fun j =>
  inferInstanceAs (Decidable (barAt? elements j = some .startRepeat ∨
    (∃ b ∈ barAt? elements j, b.isMajor) ∧ RepeatCompleted elements j))

/-- The index at which the section before an index begins, or -1 if it begins with the voice. -/
def sectionStart (elements : List Node) (i : Nat) : Int :=
  (lastBefore (BeginsSection elements) i).elim (-1) Nat.cast

/-- The last first ending before an index, if it stands after the previous finishing mark. -/
def openEnding? (elements : List Node) (i : Nat) : Option Nat :=
  (lastBar? elements .firstEnding i).filter fun f =>
    ∀ k ∈ lastBar? elements .finishRepeat i, k < f

/-- The indices that a finishing mark at an index has performed again. -/
def replayRange (elements : List Node) (i : Nat) : List Nat :=
  match openEnding? elements i with
  | none => List.Ico (sectionStart elements i + 1).toNat i
  | some f => List.Ico (max (sectionStart elements i) 0).toNat f

/-- What is performed again after an index. -/
def replayedAt (elements : List Node) (i : Nat) : List Nat :=
  if barAt? elements i = some .finishRepeat then replayRange elements i else []

/-- The indices that are performed when the run comes to an index. -/
def performedAt (elements : List Node) (i : Nat) : List Nat :=
  i :: replayedAt elements i

section Marks

variable {elements : List Node} {i : Nat}

/-- A repeat is completed after a finishing mark, and until a starting mark. -/
theorem repeatCompleted_succ :
    RepeatCompleted elements (i + 1) ↔ barAt? elements i = some .finishRepeat ∨
      RepeatCompleted elements i ∧ barAt? elements i ≠ some .startRepeat := by
  constructor
  · rintro ⟨k, hk, hfinish, hstart⟩
    rcases Nat.lt_or_ge k i with hlt | hge
    · exact .inr ⟨⟨k, hlt, hfinish, fun l hl => hstart l (by omega)⟩, hstart i (by omega) hlt⟩
    · exact .inl (by rwa [show i = k by omega])
  · rintro (hfinish | ⟨⟨k, hk, hfinish, hstart⟩, hnone⟩)
    · exact ⟨i, by omega, hfinish, fun l hl hil => by omega⟩
    · refine ⟨k, by omega, hfinish, fun l hl hkl => ?_⟩
      rcases Nat.lt_or_ge l i with hlt | hge
      · exact hstart l hlt hkl
      · rwa [show l = i by omega]

/-- A first ending is open until a finishing mark, or until the next first ending. -/
theorem openEnding?_succ :
    openEnding? elements (i + 1) =
      if barAt? elements i = some .finishRepeat then none
      else if barAt? elements i = some .firstEnding then some i else openEnding? elements i := by
  unfold openEnding? lastBar?
  rw [lastBefore, lastBefore]
  by_cases hfinish : barAt? elements i = some .finishRepeat
  · -- Every first ending is before this mark.
    have hending : barAt? elements i ≠ some .firstEnding := by simp [hfinish]
    rw [if_neg hending, if_pos hfinish, if_pos hfinish, Option.filter_eq_none_iff]
    intro f hf
    have hlt : f < i := lt_of_mem_lastBefore hf
    simpa using hlt.le
  · rw [if_neg hfinish, if_neg hfinish]
    by_cases hending : barAt? elements i = some .firstEnding
    · -- The previous finishing mark is before this ending.
      rw [if_pos hending, if_pos hending, Option.filter_some, if_pos]
      exact decide_eq_true fun k hk => lt_of_mem_lastBefore hk
    · rw [if_neg hending, if_neg hending]

end Marks

/-! ## The run -/

/-- The element that the rest begins with stands at its index. -/
theorem getElem?_of_drop_eq_cons {elements rest : List Node} {n : Node} {i : Nat}
    (h : elements.drop i = n :: rest) :
    elements[i]? = some n ∧ elements.drop (i + 1) = rest := by
  rw [← List.head?_drop, ← List.tail_drop, h]
  exact ⟨rfl, rfl⟩

namespace RepeatState

/-- The state that the elements before an index say. -/
def of (elements : List Node) (i : Nat) : RepeatState where
  start := lastBefore (BeginsSection elements) i
  firstEnding := openEnding? elements i
  completed := decide (RepeatCompleted elements i)

variable {elements : List Node} {i : Nat} {n : Node}

/-- Before the first element the state is the initial one. -/
theorem of_zero : of elements 0 = initial := by
  simp [of, initial, lastBefore, openEnding?, lastBar?, RepeatCompleted]

/-- The range that the state gives is the one that the elements say. -/
theorem replay_of : (of elements i).replay i = replayRange elements i := by
  unfold replay replayRange sectionStart of List.Ico
  dsimp only
  cases openEnding? elements i with
  | none =>
    cases lastBefore (BeginsSection elements) i with
    | none => rfl
    | some s => simp only [Option.elim_some]; congr 1
  | some f =>
    cases lastBefore (BeginsSection elements) i with
    | none => rfl
    | some s => simp

/-- A step performs again what the elements say, and its state is what they say at the next
index. -/
theorem step_of (h : elements[i]? = some n) :
    (of elements i).step i n.label = (replayedAt elements i, of elements (i + 1)) := by
  have hbar : barAt? elements i = n.label.bar? := by simp [barAt?, h]
  unfold step replayedAt of
  rw [lastBefore, openEnding?_succ]
  simp only [repeatCompleted_succ, BeginsSection, hbar]
  split
  case h_1 hl => simp [hl, Label.bar?]
  case h_2 hl => simp [hl, Label.bar?, Bar.isMajor, ← replay_of, of]
  case h_3 hl => simp [hl, Label.bar?, Bar.isMajor]
  case h_4 b hstart hfinish hending hl =>
    -- Another bar begins a section if it is a major one and a repeat has been completed.
    have hstart : b ≠ .startRepeat := hstart
    have hfinish : b ≠ .finishRepeat := hfinish
    have hending : b ≠ .firstEnding := hending
    by_cases hbegins : b.isMajor ∧ RepeatCompleted elements i
    · simp [hl, Label.bar?, hstart, hfinish, hending, hbegins]
    · simp only [hl, Label.bar?]
      simp [hstart, hfinish, hending, hbegins]
  case h_5 hnone =>
    have hbar : n.label.bar? = none := by
      cases hl : n.label with
      | bar b => exact absurd hl (hnone b)
      | _ => rfl
    simp [hbar]

/-- The state after elements. -/
def after (s : RepeatState) (i : Nat) : List Node → RepeatState
  | [] => s
  | n :: rest => after (s.step i n.label).2 (i + 1) rest

/-- After the rest of the elements the state is what all of them say. -/
theorem after_of {rest : List Node} (h : elements.drop i = rest) :
    (of elements i).after i rest = of elements (i + rest.length) := by
  induction rest generalizing i with
  | nil => rfl
  | cons n rest ih =>
    obtain ⟨hn, hrest⟩ := getElem?_of_drop_eq_cons h
    rw [after, step_of hn, ih hrest, List.length_cons, Nat.add_right_comm, Nat.add_assoc]

end RepeatState

/-- The run performs the element at its index and what the step there performs again, and goes
on. -/
theorem expandFrom_cons (s : RepeatState) (i : Nat) (n : Node) (rest : List Node) :
    expandFrom s i (n :: rest) =
      i :: (s.step i n.label).1 ++ expandFrom (s.step i n.label).2 (i + 1) rest :=
  rfl

/-- The run over the rest of the elements performs what they say at each index. -/
theorem expandFrom_of {elements rest : List Node} {i : Nat} (h : elements.drop i = rest) :
    expandFrom (.of elements i) i rest =
      (List.range' i rest.length).flatMap (performedAt elements) := by
  induction rest generalizing i with
  | nil => rfl
  | cons n rest ih =>
    obtain ⟨hn, hrest⟩ := getElem?_of_drop_eq_cons h
    rw [expandFrom_cons, RepeatState.step_of hn, ih hrest, List.length_cons, List.range'_succ,
      List.flatMap_cons]
    rfl

/-- The performance order is that of the indices, each followed by what is performed again. -/
theorem expand_eq_flatMap (elements : List Node) :
    expand elements = (List.range elements.length).flatMap (performedAt elements) := by
  have hrun := expandFrom_of (List.drop_zero : elements.drop 0 = elements)
  rwa [RepeatState.of_zero, ← List.range_eq_range'] at hrun

/-! ## First occurrences -/

section First

variable {elements : List Node} {i j : Nat}

/-- What is performed again after an index are elements before it. -/
theorem lt_of_mem_replayedAt (h : j ∈ replayedAt elements i) : j < i := by
  unfold replayedAt replayRange at h
  split_ifs at h
  · split at h
    next => exact (List.Ico.mem.1 h).2
    next f hf =>
      have hlt : f < i := lt_of_mem_lastBefore (Option.filter_eq_some_iff.1 hf).1
      exact (List.Ico.mem.1 h).2.trans hlt
  · cases h

/-- Up to an index, exactly the elements before it are performed. -/
theorem mem_performed : j ∈ (List.range i).flatMap (performedAt elements) ↔ j < i := by
  rw [List.mem_flatMap]
  constructor
  · rintro ⟨k, hk, hj⟩
    have hk := List.mem_range.1 hk
    rcases List.mem_cons.1 hj with rfl | hj
    · exact hk
    · exact (lt_of_mem_replayedAt hj).trans hk
  · exact fun h => ⟨j, List.mem_range.2 h, List.mem_cons_self⟩

/-- Up to an index, each element before it is performed a first time in its turn. -/
theorem eraseDups_performed :
    ((List.range i).flatMap (performedAt elements)).eraseDups = List.range i := by
  induction i with
  | zero => rfl
  | succ i ih =>
    -- At the index itself, it is the only one that has not been performed before.
    have hnew : (performedAt elements i).removeAll
        ((List.range i).flatMap (performedAt elements)) = [i] := by
      have hself : i ∉ (List.range i).flatMap (performedAt elements) :=
        fun hi => (mem_performed.1 hi).ne rfl
      have hagain : ∀ j ∈ replayedAt elements i,
          j ∈ (List.range i).flatMap (performedAt elements) :=
        fun j hj => mem_performed.2 (lt_of_mem_replayedAt hj)
      rw [List.removeAll, performedAt, List.filter_cons_of_pos (by simpa using hself),
        List.filter_eq_nil_iff.2 fun j hj => by simpa using hagain j hj]
    rw [List.range_succ, List.flatMap_append, List.flatMap_singleton, List.eraseDups_append, ih,
      hnew]
    rfl

end First

/-- The performance order is the elements' own one, with a range performed again after each
finishing mark; the range is told by the marks before it. All indices are those of elements, and
each element is performed a first time in its turn. -/
theorem expand_eq_performedAt (elements : List Node) :
    expand elements = (List.range elements.length).flatMap (performedAt elements) ∧
      (∀ j ∈ expand elements, j < elements.length) ∧
      (expand elements).eraseDups = List.range elements.length := by
  rw [expand_eq_flatMap]
  exact ⟨rfl, fun j => mem_performed.1, eraseDups_performed⟩

/-- A voice with a section that has a first ending, a stale ending mark and a major barline after
a completed repeat. -/
example :
    let marks := [none, some Bar.firstEnding, none, some .finishRepeat, some .double, none,
      some .firstEnding, some .startRepeat, none, some .finishRepeat]
    expand (marks.map fun b => .unread (b.elim (.note ⟨.C, false⟩) .bar) []) =
      [0, 1, 2, 3, 0, 4, 5, 6, 7, 8, 9] := by
  decide

end SingAlong

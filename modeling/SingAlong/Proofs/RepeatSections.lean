import SingAlong.Proofs.PerformanceOrder

/-!
# Sections of a voice

A starting mark makes a new beginning: what comes after it is performed as if the voice began with
it, with all indices raised (`expandFrom_raise`), unless a first ending before it is still open
(`expand_append_iff`). Within a section, elements that mark no repeat are performed in their order
(`expandFrom_unmarked`), and while no repeat has been completed even a major barline leaves the
state as it is (`RepeatState.after_unmarked`). So a section is performed twice as it is written, or
the second time up to its first ending (`expand_repeated`, `expand_endings`).
-/

namespace SingAlong

/-- The run over two lists, one after the other: the second run starts in the state that the first
one leaves. -/
theorem expandFrom_append (s : RepeatState) (i : Nat) (ns ms : List Node) :
    expandFrom s i (ns ++ ms) =
      expandFrom s i ns ++ expandFrom (s.after i ns) (i + ns.length) ms := by
  induction ns generalizing s i with
  | nil => rfl
  | cons n ns ih =>
    have hindex : i + 1 + ns.length = i + (n :: ns).length := by simp; omega
    rw [List.cons_append, expandFrom_cons, expandFrom_cons, RepeatState.after, ih, hindex,
      List.append_assoc]

/-! ## A new beginning -/

namespace RepeatState

/-- The state with all indices raised. -/
def raise (k : Nat) (s : RepeatState) : RepeatState where
  start := s.start.map (· + k)
  firstEnding := s.firstEnding.map (· + k)
  completed := s.completed

variable {s : RepeatState} {i : Nat} {label : Label}

/-- What is performed again some indices later is raised as well, in a section that begins with an
element. -/
theorem replay_raise (h : s.start.isSome) (k : Nat) :
    (s.raise k).replay (i + k) = (s.replay i).map (· + k) := by
  obtain ⟨a, ha⟩ := Option.isSome_iff_exists.1 h
  have hraised (first n : Nat) :
      List.range' (first + k) n = (List.range' first n).map (· + k) := by
    simp [Nat.add_comm, List.map_add_range']
  unfold replay raise
  rw [ha]
  cases s.firstEnding with
  | none =>
    rw [← hraised]
    simp only [Option.map_some, Option.map_none, Option.elim_some]
    congr 1 <;> omega
  | some f =>
    rw [← hraised]
    simp only [Option.map_some, Option.getD_some]
    congr 1
    omega

/-- The step at an index that is raised. -/
theorem step_raise (h : s.start.isSome) (k : Nat) :
    (s.raise k).step (i + k) label =
      ((s.step i label).1.map (· + k), (s.step i label).2.raise k) := by
  unfold step
  split
  · rfl
  · rw [replay_raise h]
    rfl
  · rfl
  next b _ _ _ =>
    by_cases hbegins : b.isMajor && s.completed
    · simp [raise, hbegins]
    · simp [raise, hbegins]
  · rfl

/-- A section that begins with an element stays one that does. -/
theorem isSome_start_step (i : Nat) (label : Label) (h : s.start.isSome) :
    (s.step i label).2.start.isSome := by
  unfold step
  split
  · rfl
  · exact h
  · exact h
  · dsimp only
    split_ifs
    · rfl
    · exact h
  · exact h

end RepeatState

/-- The run that starts some indices later performs the same elements, with their indices raised. -/
theorem expandFrom_raise {s : RepeatState} (h : s.start.isSome) (k i : Nat) (ns : List Node) :
    expandFrom (s.raise k) (i + k) ns = (expandFrom s i ns).map (· + k) := by
  induction ns generalizing s i with
  | nil => rfl
  | cons n ns ih =>
    have hrest := ih (RepeatState.isSome_start_step i n.label h) (i + 1)
    have hindex : i + k + 1 = i + 1 + k := by omega
    rw [expandFrom_cons, expandFrom_cons, RepeatState.step_raise h, hindex, hrest]
    simp

/-- The state in a section that begins with a starting mark at an index. -/
def RepeatState.begun (ending : Option Nat) (i : Nat) : RepeatState :=
  ⟨some i, ending, false⟩

/-- Every first ending is followed by a finishing mark. -/
def EndingsClosed (elements : List Node) : Prop :=
  ∀ f, barAt? elements f = some .firstEnding →
    ∃ k, f < k ∧ barAt? elements k = some .finishRepeat

/-- A bar stands at an index of the list. -/
theorem lt_of_barAt {elements : List Node} {i : Nat} {b : Bar} (h : barAt? elements i = some b) :
    i < elements.length := by
  by_contra hge
  rw [barAt?, List.getElem?_eq_none (by omega)] at h
  cases h

/-- No first ending is open after the elements if every one is followed by a finishing mark. -/
theorem openEnding?_length {elements : List Node} :
    openEnding? elements elements.length = none ↔ EndingsClosed elements := by
  unfold openEnding? lastBar?
  rw [Option.filter_eq_none_iff]
  simp only [decide_eq_true_eq]
  constructor
  · intro hopen f hf
    -- The last first ending is not before this one, and it is followed by a finishing mark.
    cases hlast : lastBefore (fun j => barAt? elements j = some .firstEnding) elements.length with
    | none => exact absurd hf (lastBefore_eq_none.1 hlast f (lt_of_barAt hf))
    | some e =>
      have hfollowed := hopen e hlast
      push Not at hfollowed
      obtain ⟨k, hk, hek⟩ := hfollowed
      obtain ⟨-, hfinish, -⟩ := lastBefore_eq_some.1 hk
      obtain ⟨-, hending, hafter⟩ := lastBefore_eq_some.1 hlast
      have hne : e ≠ k := by
        rintro rfl
        simp [hending] at hfinish
      have hfe : f ≤ e := by
        by_contra hlt
        exact hafter f (by omega) (lt_of_barAt hf) hf
      exact ⟨k, by omega, hfinish⟩
  · intro hclosed f hf hbefore
    obtain ⟨k, hfk, hk⟩ := hclosed f (lastBefore_eq_some.1 hf).2.1
    cases hlast : lastBefore (fun j => barAt? elements j = some .finishRepeat) elements.length with
    | none => exact lastBefore_eq_none.1 hlast k (lt_of_barAt hk) hk
    | some l =>
      have hlf := hbefore l hlast
      exact (lastBefore_eq_some.1 hlast).2.2 k (by omega) (lt_of_barAt hk) hk

section Begin

variable {start : Node} (hstart : start.label = .bar .startRepeat)

include hstart

/-- After a starting mark the run goes on in a new section. -/
theorem expand_append_start (P Q : List Node) :
    expand (P ++ start :: Q) = expand P ++ P.length ::
      expandFrom (.begun (openEnding? P P.length) P.length) (P.length + 1) Q := by
  have hafter : RepeatState.initial.after 0 P = .of P P.length := by
    have hof := RepeatState.after_of (List.drop_zero : P.drop 0 = P)
    rwa [RepeatState.of_zero, Nat.zero_add] at hof
  rw [expand, expandFrom_append, hafter, Nat.zero_add, expandFrom_cons, hstart]
  rfl

/-- The run over elements that begin with a starting mark. -/
theorem expand_start (Q : List Node) :
    expand (start :: Q) = 0 :: expandFrom (.begun none 0) 1 Q :=
  expand_append_start hstart [] Q

/-- What stands before a starting mark and what comes from it on are performed apart from one
another, whatever comes, exactly if every first ending before it is followed by a finishing mark. -/
theorem expand_append_iff (P : List Node) :
    (∀ Q, expand (P ++ start :: Q) = expand P ++ (expand (start :: Q)).map (· + P.length)) ↔
      EndingsClosed P := by
  rw [← openEnding?_length]
  constructor
  · intro hall
    -- An open ending would keep the next finishing mark from performing its section again.
    rw [Option.eq_none_iff_forall_ne_some]
    intro f hf
    have hlt : f < P.length := (lastBefore_eq_some.1 (Option.filter_eq_some_iff.1 hf).1).1
    have hboth := hall [.unread .bare [], .unread (.bar .finishRepeat) []]
    rw [expand_append_start hstart, expand_start hstart, hf] at hboth
    have hempty : f - P.length = 0 := by omega
    simp [RepeatState.begun, expandFrom, RepeatState.step, RepeatState.replay, Node.unread,
      Node.label, hempty] at hboth
  · intro hnone Q
    have hbegun : RepeatState.begun none P.length = (RepeatState.begun none 0).raise P.length := by
      simp [RepeatState.begun, RepeatState.raise]
    rw [expand_append_start hstart, expand_start hstart, hnone, hbegun, Nat.add_comm P.length 1,
      expandFrom_raise rfl, List.map_cons, Nat.zero_add]

end Begin

/-! ## A section as it is written -/

/-- Does an element mark a repeat or a first ending? -/
def Label.marksRepeat (l : Label) : Bool :=
  l.isBar .startRepeat || l.isBar .finishRepeat || l.isBar .firstEnding

/-- No element of a list marks a repeat or a first ending. -/
def Unmarked (ns : List Node) : Prop :=
  ∀ n ∈ ns, n.label.marksRepeat = false

/-- At an element without such a mark nothing is performed again, and as long as no repeat has been
completed the state stays. -/
theorem RepeatState.step_unmarked {label : Label} (h : label.marksRepeat = false)
    (s : RepeatState) (i : Nat) :
    (s.step i label).1 = [] ∧ (s.completed = false → (s.step i label).2 = s) := by
  unfold step
  split
  · cases h
  · cases h
  · cases h
  · exact ⟨rfl, fun hs => by simp [hs]⟩
  · exact ⟨rfl, fun _ => rfl⟩

section Unmarked

variable {ns : List Node} (h : Unmarked ns)

include h

/-- Elements without such marks are performed in their order. -/
theorem expandFrom_unmarked (s : RepeatState) (i : Nat) :
    expandFrom s i ns = List.range' i ns.length := by
  induction ns generalizing s i with
  | nil => rfl
  | cons n ns ih =>
    obtain ⟨hn, hns⟩ := List.forall_mem_cons.1 h
    rw [expandFrom_cons, (s.step_unmarked hn i).1, ih hns, List.length_cons, List.range'_succ]
    rfl

/-- As long as no repeat has been completed they leave the state. -/
theorem RepeatState.after_unmarked {s : RepeatState} (hs : s.completed = false) (i : Nat) :
    s.after i ns = s := by
  induction ns generalizing i with
  | nil => rfl
  | cons n ns ih =>
    obtain ⟨hn, hns⟩ := List.forall_mem_cons.1 h
    rw [after, (s.step_unmarked hn i).2 hs]
    exact ih hns (i + 1)

end Unmarked

section Sections

variable {start ending finish second : Node} {A X Y : List Node}
  (hstart : start.label = .bar .startRepeat) (hending : ending.label = .bar .firstEnding)
  (hfinish : finish.label = .bar .finishRepeat) (hsecond : second.label = .bar .secondEnding)
  (hA : Unmarked A) (hX : Unmarked X) (hY : Unmarked Y)

include hstart hfinish hA hY

/-- A section between repeat marks is performed twice. -/
theorem expand_repeated :
    expand (start :: A ++ finish :: Y) =
      0 :: List.range' 1 A.length ++ (A.length + 1) :: List.range' 1 A.length ++
        List.range' (A.length + 2) Y.length := by
  have hafter := RepeatState.after_unmarked hA (s := .begun none 0) rfl 1
  have hindex : 1 + A.length = A.length + 1 := by omega
  rw [List.cons_append, expand_start hstart, expandFrom_append, hafter, expandFrom_unmarked hA,
    expandFrom_cons, expandFrom_unmarked hY, hfinish, hindex]
  simp [RepeatState.step, RepeatState.replay, RepeatState.begun]

include hending hX hsecond

/-- A section with two endings is performed twice, the second time up to its first ending, from its
starting mark on. -/
theorem expand_endings :
    expand (start :: A ++ ending :: X ++ finish :: second :: Y) =
      0 :: List.range' 1 A.length ++ (A.length + 1) :: List.range' (A.length + 2) X.length ++
        (A.length + X.length + 2) :: 0 :: List.range' 1 A.length ++
        (A.length + X.length + 3) :: List.range' (A.length + X.length + 4) Y.length := by
  have hafterA := RepeatState.after_unmarked hA (s := .begun none 0) rfl 1
  have hafterX := RepeatState.after_unmarked hX (s := .begun (some (A.length + 1)) 0) rfl
    (A.length + 2)
  have hsecondY : Unmarked (second :: Y) :=
    List.forall_mem_cons.2 ⟨by rw [hsecond]; rfl, hY⟩
  have hindexA : 1 + A.length = A.length + 1 := by omega
  have hindexX : A.length + 2 + X.length = A.length + X.length + 2 := by omega
  have hbegun : ((RepeatState.begun none 0).step (A.length + 1) (.bar .firstEnding)).2 =
      .begun (some (A.length + 1)) 0 := rfl
  rw [List.append_assoc, List.cons_append, expand_start hstart, expandFrom_append, hafterA,
    expandFrom_unmarked hA, hindexA, List.cons_append, expandFrom_cons, hending, hbegun,
    expandFrom_append, hafterX, expandFrom_unmarked hX, hindexX, expandFrom_cons,
    expandFrom_unmarked hsecondY, hfinish]
  simp [RepeatState.step, RepeatState.replay, RepeatState.begun, List.range'_succ]

end Sections

/-! ## Without the bars -/

/-- The indices of an order that are not those of bars. -/
def withoutBars (elements : List Node) (order : List Nat) : List Nat :=
  order.filter fun i => (barAt? elements i).isNone

/-- The bar at the index of an element between others. -/
theorem barAt?_append (before : List Node) (n : Node) (after : List Node) :
    barAt? (before ++ n :: after) before.length = n.label.bar? := by
  simp [barAt?]

section WithoutBars

variable {elements : List Node} {i : Nat} {order order' : List Nat}

/-- Two orders, one after the other. -/
theorem withoutBars_append :
    withoutBars elements (order ++ order') =
      withoutBars elements order ++ withoutBars elements order' :=
  List.filter_append ..

/-- The index of a bar is left out. -/
theorem withoutBars_cons {b : Bar} (h : barAt? elements i = some b) :
    withoutBars elements (i :: order) = withoutBars elements order :=
  List.filter_cons_of_neg (by simp [h])

end WithoutBars

/-- A starting mark separates what is performed before it from what is performed from it on, if and
only if every first ending before it is followed by a finishing mark. A section between repeat
marks is performed twice, and one with two endings up to its first ending the second time, whatever
barlines stand in it: the indices that are not those of bars are those of the section, of the
section again, and of what follows. -/
theorem expand_sections {start ending finish second : Node}
    (hstart : start.label = .bar .startRepeat) (hending : ending.label = .bar .firstEnding)
    (hfinish : finish.label = .bar .finishRepeat) (hsecond : second.label = .bar .secondEnding) :
    (∀ P, (∀ Q, expand (P ++ start :: Q) =
        expand P ++ (expand (start :: Q)).map (· + P.length)) ↔ EndingsClosed P) ∧
      ∀ A X Y, Unmarked A → Unmarked X → Unmarked Y →
        (let elements := start :: A ++ finish :: Y
         withoutBars elements (expand elements) = withoutBars elements
           (List.range' 1 A.length ++ List.range' 1 A.length ++
             List.range' (A.length + 2) Y.length)) ∧
        (let elements := start :: A ++ ending :: X ++ finish :: second :: Y
         withoutBars elements (expand elements) = withoutBars elements
           (List.range' 1 A.length ++ List.range' (A.length + 2) X.length ++
             List.range' 1 A.length ++ List.range' (A.length + X.length + 4) Y.length)) := by
  refine ⟨expand_append_iff hstart, fun A X Y hA hX hY => ⟨?repeated, ?endings⟩⟩
  case repeated =>
    intro elements
    -- The bars of the section are at its start and after its elements.
    have hzero : barAt? elements 0 = some .startRepeat := by
      simp [elements, barAt?, hstart, Label.bar?]
    have hlast : barAt? elements (A.length + 1) = some .finishRepeat := by
      have hbar := barAt?_append (start :: A) finish Y
      rwa [hfinish, List.length_cons] at hbar
    rw [expand_repeated hstart hfinish hA hY, List.cons_append, List.cons_append,
      withoutBars_cons hzero, withoutBars_append, withoutBars_append, withoutBars_append,
      withoutBars_append, withoutBars_cons hlast]
  case endings =>
    intro elements
    -- Here they are at the start, and before and after the elements of the first ending.
    have hzero : barAt? elements 0 = some .startRepeat := by
      simp [elements, barAt?, hstart, Label.bar?]
    have hfirst : barAt? elements (A.length + 1) = some .firstEnding := by
      have hbar := barAt?_append (start :: A) ending (X ++ finish :: second :: Y)
      rw [hending, List.length_cons] at hbar
      simpa [elements, Label.bar?] using hbar
    have hlast : barAt? elements (A.length + X.length + 2) = some .finishRepeat := by
      have hbar := barAt?_append (start :: A ++ ending :: X) finish (second :: Y)
      have hindex : (start :: A ++ ending :: X).length = A.length + X.length + 2 := by
        simp; omega
      rwa [hfinish, hindex] at hbar
    have hnext : barAt? elements (A.length + X.length + 3) = some .secondEnding := by
      have hbar := barAt?_append (start :: A ++ ending :: X ++ [finish]) second Y
      have hindex : (start :: A ++ ending :: X ++ [finish]).length = A.length + X.length + 3 := by
        simp; omega
      rw [hsecond, hindex] at hbar
      simpa [elements, Label.bar?] using hbar
    rw [expand_endings hstart hending hfinish hsecond hA hX hY]
    simp only [List.cons_append, List.append_assoc, withoutBars_append, withoutBars_cons hzero,
      withoutBars_cons hfirst, withoutBars_cons hlast, withoutBars_cons hnext]

/-- A section with major barlines in it and two endings, after a repeat with a first ending. -/
theorem expand_sections_barred :
    let note := Node.unread (.note ⟨.C, false⟩) []
    let bar (b : Bar) := Node.unread (.bar b) []
    let before := [note, bar .firstEnding, note, bar .finishRepeat, bar .double]
    let elements := bar .startRepeat :: [note, bar .double, note] ++ bar .firstEnding ::
      [note, bar .thinThick] ++ bar .finishRepeat :: bar .secondEnding :: [bar .double, note]
    withoutBars elements (expand elements) = [1, 3, 5, 1, 3, 10] ∧
      expand (before ++ elements) = expand before ++ (expand elements).map (· + 5) := by
  intro note bar before elements
  have hclosed : EndingsClosed before := by
    rw [← openEnding?_length]
    decide
  have hunmarked {ns : List Node} (h : ns.all fun n => !n.label.marksRepeat) : Unmarked ns :=
    fun n hn => by simpa using List.all_eq_true.1 h n hn
  have hlabel (b : Bar) : (bar b).label = .bar b := rfl
  obtain ⟨happend, hsections⟩ := expand_sections (hlabel .startRepeat) (hlabel .firstEnding)
    (hlabel .finishRepeat) (hlabel .secondEnding)
  obtain ⟨-, hendings⟩ := hsections [note, bar .double, note] [note, bar .thinThick]
    [bar .double, note] (hunmarked rfl) (hunmarked rfl) (hunmarked rfl)
  exact ⟨hendings, (happend before).2 hclosed _⟩

end SingAlong

import SingAlong.Performance
import SingAlong.Proofs.Schedule

/-!
# Promises

A promise is given an outcome once. That of a piece is given one by the first run that performs the
event at the end of the piece, whatever is scheduled, run or stopped before and after it
(`Sequencer.promise_settled_once`).

`Sequencer.performed` are the events that a run performs before it ends or is stopped. What a run or
any other command does to promises and events is said once, by `Sequencer.Progress`: a promise that
is there gets no outcome but from the events that are performed (`Sequencer.settled`), and events
that are new end no promise that is there. Progress can be put together (`Progress.trans`), so it
holds of lists of commands too.
-/

namespace SingAlong

namespace Sequencer

/-! ## Runs -/

/-- The state in which a step of a run ends, and the error if it fails. -/
def endOf (x : Running Unit) (s : Sequencer) : Sequencer × Option RunError :=
  match x.run s with
  | .ok _ s' => (s', none)
  | .error e s' => (s', some e)

/-- What comes before an event is performed. -/
def approach (e : Event) : Running Unit := do
  check
  await e

/-- The events that are performed when events run. One that fails is the last. -/
def performedFrom (s : Sequencer) : List Event → List Event
  | [] => []
  | e :: rest =>
    match endOf (approach e) s with
    | (_, some _) => []
    | (ready, none) =>
      match endOf (perform e) ready with
      | (_, some _) => [e]
      | (next, none) => e :: performedFrom next rest

/-- The sequencer at the beginning of a run. -/
def cleared (s : Sequencer) : Sequencer :=
  { s with log := [] }

/-- The events that a run performs. -/
def performed (s : Sequencer) : List Event :=
  match s.output with
  | .working => performedFrom s.cleared s.ordered
  | .silent | .broken => []

/-- A step after another one. -/
theorem endOf_bind (x y : Running Unit) (s : Sequencer) :
    endOf (x >>= fun _ => y) s =
      match endOf x s with
      | (s', none) => endOf y s'
      | (s', some e) => (s', some e) := by
  unfold endOf
  change (match EStateM.bind x (fun _ => y) s with
    | .ok _ s' => (s', none)
    | .error e s' => (s', some e)) = _
  unfold EStateM.bind EStateM.run
  cases x s <;> rfl

/-- The first of the events that run is performed, unless the run stops before it, and then the
others run, unless it fails. -/
theorem runEvents_cons (e : Event) (rest : List Event) (s : Sequencer) :
    endOf (runEvents (e :: rest)) s =
      match endOf (approach e) s with
      | (s', some err) => (s', some err)
      | (ready, none) =>
        match endOf (perform e) ready with
        | (s', some err) => (s', some err)
        | (next, none) => endOf (runEvents rest) next := by
  have hrun : runEvents (e :: rest) =
      approach e >>= fun _ => perform e >>= fun _ => runEvents rest := by
    unfold approach
    rw [bind_assoc]
    rfl
  rw [hrun, endOf_bind]
  cases endOf (approach e) s with
  | mk ready err =>
    cases err with
    | some err => rfl
    | none =>
      dsimp only
      rw [endOf_bind]
      cases endOf (perform e) ready with
      | mk next err => cases err <;> rfl

/-- What holds of the steps of a run, and of one after the other, holds of the run. -/
theorem runEvents_relates {R : Sequencer → Sequencer → List Event → Prop} {es : List Event}
    (hrefl : ∀ s, R s s [])
    (htrans : ∀ {s s' s'' ran more}, R s s' ran → R s' s'' more → R s s'' (ran ++ more))
    (happroach : ∀ e s, R s (endOf (approach e) s).1 [])
    (hperform : ∀ e ∈ es, ∀ s, R s (endOf (perform e) s).1 [e]) (s : Sequencer) :
    R s (endOf (runEvents es) s).1 (performedFrom s es) := by
  induction es generalizing s with
  | nil => exact hrefl s
  | cons e rest ih =>
    obtain ⟨hfirst, hrest⟩ := List.forall_mem_cons.1 hperform
    have hbefore := happroach e s
    rw [runEvents_cons]
    unfold performedFrom
    cases hready : endOf (approach e) s with
    | mk ready err =>
      rw [hready] at hbefore
      cases err with
      | some err => exact hbefore
      | none =>
        have hboth := htrans hbefore (hfirst ready)
        dsimp only
        cases hnext : endOf (perform e) ready with
        | mk next err =>
          rw [hnext] at hboth
          cases err with
          | some err => exact hboth
          | none => exact htrans hboth (ih hrest next)

/-- A run of a working sequencer runs the events that are scheduled. -/
theorem runAll_eq (s : Sequencer) : s.runAll =
    match s.output with
    | .working => endOf (runEvents s.ordered) s.cleared
    | .silent => (s.cleared, none)
    | .broken => (s.cleared, some .noSound) := by
  change endOf (match s.output with
    | .working => runEvents s.ordered
    | .silent => pure ()
    | .broken => throw .noSound) s.cleared = _
  cases s.output <;> rfl

/-- Events that are scheduled in the order of their beats run in the order of scheduling. -/
theorem run_of_sorted {s : Sequencer} (hworking : s.output = .working)
    (hsorted : s.events.Pairwise fun d e => d.beat ≤ e.beat) :
    s.runAll = endOf (runEvents s.events) s.cleared ∧
      s.performed = performedFrom s.cleared s.events := by
  have hordered : s.ordered = s.events :=
    List.mergeSort_of_pairwise (hsorted.imp fun hle => decide_eq_true hle)
  rw [runAll_eq, performed, hworking, hordered]
  exact ⟨rfl, rfl⟩

/-- Events that run without an error are all performed. -/
theorem performedFrom_of_ok {s : Sequencer} {es : List Event}
    (h : (endOf (runEvents es) s).2 = none) : performedFrom s es = es := by
  induction es generalizing s with
  | nil => rfl
  | cons e rest ih =>
    rw [runEvents_cons] at h
    unfold performedFrom
    cases happroach : endOf (approach e) s with
    | mk ready err =>
      rw [happroach] at h
      cases err with
      | some err => cases h
      | none =>
        dsimp only at h ⊢
        cases hperform : endOf (perform e) ready with
        | mk next err =>
          rw [hperform] at h
          cases err with
          | some err => cases h
          | none => exact congrArg (e :: ·) (ih h)

/-- A run that ends without an error performs all events. -/
theorem performed_of_ok {s : Sequencer} (hworking : s.output = .working)
    (h : s.runAll.2 = none) : s.performed = s.ordered := by
  rw [runAll_eq, hworking] at h
  unfold performed
  rw [hworking]
  exact performedFrom_of_ok h

/-! ## The outcomes of a promise -/

section Outcomes

variable {s : Sequencer} {p q : Nat} {o : Outcome}

/-- Only a promise that is there has outcomes. -/
theorem lt_of_outcomes (h : s.outcomes p ≠ []) : p < s.promises.length := by
  by_contra hp
  unfold outcomes at h
  rw [List.getElem?_eq_none (not_lt.1 hp)] at h
  exact h rfl

/-- A promise notes the outcome that it is given. -/
theorem outcomes_give (hp : p < s.promises.length) :
    (s.give p o).outcomes p = s.outcomes p ++ [o] := by
  unfold outcomes give
  dsimp only
  rw [List.getElem?_modify_eq, List.getElem?_eq_getElem hp]
  rfl

/-- Giving one promise an outcome leaves the others as they are. -/
theorem outcomes_give_of_ne (h : p ≠ q) : (s.give p o).outcomes q = s.outcomes q := by
  unfold outcomes give
  dsimp only
  rw [List.getElem?_modify_ne _ _ h]

/-- A promise without an outcome gets one when it is settled. -/
theorem outcomes_settle (hp : p < s.promises.length) :
    (s.settle p o).1.outcomes p = if s.outcomes p = [] then [o] else s.outcomes p := by
  unfold settle
  cases houtcomes : s.outcomes p with
  | nil =>
    dsimp only
    rw [outcomes_give hp, houtcomes, if_pos rfl]
    rfl
  | cons first rest =>
    dsimp only
    rw [houtcomes, if_neg nofun]

/-- The outcome that counts is the first. -/
theorem settle_snd : (s.settle p o).2 = (s.outcomes p).headD o := by
  unfold settle
  cases s.outcomes p <;> rfl

/-- Settling one promise leaves the others as they are. -/
theorem outcomes_settle_of_ne (h : p ≠ q) : (s.settle p o).1.outcomes q = s.outcomes q := by
  unfold settle
  cases s.outcomes p with
  | nil => exact outcomes_give_of_ne h
  | cons first rest => rfl

/-- Settling a promise does nothing else. -/
theorem settle_fst (s : Sequencer) (p : Nat) (o : Outcome) :
    ∃ promises, (s.settle p o).1 = { s with promises } ∧
      promises.length = s.promises.length := by
  unfold settle
  cases s.outcomes p with
  | nil => exact ⟨_, rfl, List.length_modify _ _ _⟩
  | cons first rest => exact ⟨_, rfl, rfl⟩

end Outcomes

/-- The outcomes of a promise after events have been performed. The first event that ends its music
gives it one, unless it had one before. -/
def settled (p : Nat) (given : List Outcome) : List Event → List Outcome
  | [] => given
  | e :: rest =>
    settled p (if e.action = .finish p ∧ given = [] then [.ended e.beat] else given) rest

section Settled

variable {p : Nat} {given : List Outcome} {ran : List Event}

/-- Events are performed one after the other. -/
theorem settled_append (more : List Event) :
    settled p given (ran ++ more) = settled p (settled p given ran) more := by
  induction ran generalizing given with
  | nil => rfl
  | cons e rest ih => exact ih

/-- A promise with an outcome gets no other. -/
theorem settled_of_ne_nil (h : given ≠ []) : settled p given ran = given := by
  induction ran with
  | nil => rfl
  | cons e rest ih =>
    unfold settled
    rwa [if_neg fun hboth => h hboth.2]

/-- A promise whose music ends with one event only gets its outcome from it. -/
theorem settled_eq_ite {beat : Rat} (h : ∀ e ∈ ran, e.action = .finish p → e.beat = beat) :
    settled p [] ran = if ⟨beat, .finish p⟩ ∈ ran then [.ended beat] else [] := by
  induction ran with
  | nil => rfl
  | cons e rest ih =>
    obtain ⟨he, hrest⟩ := List.forall_mem_cons.1 h
    unfold settled
    by_cases hfinish : e.action = .finish p
    · obtain rfl : e = ⟨beat, .finish p⟩ := by
        rw [← he hfinish, ← hfinish]
      rw [if_pos ⟨rfl, rfl⟩, settled_of_ne_nil (List.cons_ne_nil _ _), if_pos List.mem_cons_self]
    · have hne : (⟨beat, .finish p⟩ : Event) ≠ e := by
        rintro rfl
        exact hfinish rfl
      rw [if_neg fun hboth => hfinish hboth.1, ih hrest]
      exact if_congr ((List.mem_cons.trans (or_iff_right hne)).symm) rfl rfl

end Settled

/-! ## Progress -/

/-- What a sequencer has become after it has performed some events: all that is scheduled stays
scheduled, new events end the music of new promises only, and the promises that were there have no
outcomes but from the events that were performed. -/
structure Progress (s s' : Sequencer) (ran : List Event) : Prop where
  output : s'.output = s.output
  promises : s.promises.length ≤ s'.promises.length
  kept : s.events ⊆ s'.events
  events : ∀ e ∈ s'.events, e ∈ s.events ∨
    ∀ p, e.action = .finish p → s.promises.length ≤ p ∧ p < s'.promises.length
  performed : ∀ e ∈ ran, e ∈ s.events ∨ ∀ p, e.action = .finish p → s.promises.length ≤ p
  outcomes : ∀ p < s.promises.length, s'.outcomes p = settled p (s.outcomes p) ran

namespace Progress

variable {s s' s'' : Sequencer} {ran more : List Event}

/-- Events that are scheduled, and new promises without an outcome, are progress. -/
theorem of_added {added : List Event} {n : Nat} (houtput : s'.output = s.output)
    (hpromises : s'.promises = s.promises ++ List.replicate n [])
    (hevents : s'.events = s.events ++ added)
    (hadded : ∀ e ∈ added, ∀ p, e.action = .finish p →
      s.promises.length ≤ p ∧ p < s.promises.length + n) : Progress s s' [] where
  output := houtput
  promises := by
    rw [hpromises, List.length_append]
    exact Nat.le_add_right _ _
  kept := hevents ▸ List.subset_append_left _ _
  events := by
    rw [hpromises, hevents, List.length_append, List.length_replicate]
    intro e he
    exact (List.mem_append.1 he).imp_right (hadded e)
  performed := nofun
  outcomes p hp := by
    unfold Sequencer.outcomes
    rw [hpromises, List.getElem?_append_left hp]
    rfl

/-- A sequencer with the same events and promises is progress. -/
theorem of_same (houtput : s'.output = s.output) (hpromises : s'.promises = s.promises)
    (hevents : s'.events = s.events) : Progress s s' [] := by
  refine of_added (n := 0) houtput ?_ ?_ (List.forall_mem_nil _)
  · rw [hpromises, List.replicate_zero, List.append_nil]
  · rw [hevents, List.append_nil]

/-- Doing nothing is progress. -/
theorem refl (s : Sequencer) : Progress s s [] :=
  of_same rfl rfl rfl

/-- Progress after progress. -/
theorem trans (h : Progress s s' ran) (h' : Progress s' s'' more) :
    Progress s s'' (ran ++ more) where
  output := h'.output.trans h.output
  promises := h.promises.trans h'.promises
  kept := List.Subset.trans h.kept h'.kept
  events e he := by
    rcases h'.events e he with he | hnew
    · refine (h.events e he).imp_right fun hnew p hp => ?_
      obtain ⟨hle, hlt⟩ := hnew p hp
      exact ⟨hle, hlt.trans_le h'.promises⟩
    · refine .inr fun p hp => ?_
      obtain ⟨hle, hlt⟩ := hnew p hp
      exact ⟨h.promises.trans hle, hlt⟩
  performed e he := by
    rcases List.mem_append.1 he with he | he
    · exact h.performed e he
    · rcases h'.performed e he with he | hnew
      · exact (h.events e he).imp_right fun hnew p hp => (hnew p hp).1
      · exact .inr fun p hp => h.promises.trans (hnew p hp)
  outcomes p hp := by
    rw [h'.outcomes p (hp.trans_le h.promises), h.outcomes p hp, settled_append]

/-- An event that ends no music may be performed on the way. -/
theorem noted {e : Event} (h : Progress s s' []) (he : e ∈ s.events)
    (hnone : ∀ p, e.action ≠ .finish p) : Progress s s' [e] where
  output := h.output
  promises := h.promises
  kept := h.kept
  events := h.events
  performed := List.forall_mem_singleton.2 (.inl he)
  outcomes p hp := by
    rw [h.outcomes p hp, settled, settled, settled, if_neg fun hboth => hnone p hboth.1]

/-- A new promise may be settled after it. -/
theorem settle {p : Nat} (o : Outcome) (h : Progress s s' ran) (hp : s.promises.length ≤ p) :
    Progress s (s'.settle p o).1 ran := by
  have houtcomes (q : Nat) (hq : q < s.promises.length) :
      (s'.settle p o).1.outcomes q = settled q (s.outcomes q) ran := by
    rw [outcomes_settle_of_ne (hq.trans_le hp).ne', h.outcomes q hq]
  obtain ⟨promises, hsettled, hlength⟩ := settle_fst s' p o
  rw [hsettled] at houtcomes ⊢
  exact {
    output := h.output
    promises := h.promises.trans_eq hlength.symm
    kept := h.kept
    events := by
      rw [hlength]
      exact h.events
    performed := h.performed
    outcomes := houtcomes }

end Progress

/-! ## What a run does -/

/-- The flag after a look that does not find it set. -/
def look? : Option CancelFlag → Option (Option CancelFlag)
  | none => some none
  | some flag => flag.check?.map some

/-- A step goes on without a flag, or with one that is not set. -/
theorem endOf_check (s : Sequencer) : endOf check s =
    match look? s.flag with
    | some flag => ({ s with flag }, none)
    | none => (s, some .cancelled) := by
  obtain ⟨tempo, realtime, output, flag, room, notes, events, promises, written, log⟩ := s
  cases flag with
  | none => rfl
  | some flag =>
    obtain ⟨_ | _ | n⟩ := flag
    all_goals rfl

/-- Waiting changes nothing, and fails only in real time. -/
theorem endOf_await (e : Event) (s : Sequencer) : endOf (await e) s =
    if s.realtime then
      match s.seconds (.exact e.beat) with
      | .ok _ => (s, none)
      | .error err => (s, some err)
    else (s, none) := by
  change endOf (if s.realtime then
      match s.seconds (.exact e.beat) with
      | .ok _ => pure ()
      | .error err => throw err
    else pure ()) s = _
  split_ifs
  · cases s.seconds (.exact e.beat) <;> rfl
  · rfl

/-- A run that does not wait only looks at the flag before an event. -/
theorem endOf_approach {s : Sequencer} (hreal : s.realtime = false) (e : Event) :
    endOf (approach e) s =
    match look? s.flag with
    | some flag => ({ s with flag }, none)
    | none => (s, some .cancelled) := by
  have hawait {s' : Sequencer} (hreal : s'.realtime = false) : endOf (await e) s' = (s', none) := by
    rw [endOf_await, if_neg]
    exact ne_true_of_eq_false hreal
  unfold approach
  rw [endOf_bind, endOf_check]
  cases look? s.flag with
  | none => rfl
  | some flag => exact hawait hreal

/-- Before an event is performed only the flag changes. -/
theorem endOf_approach_fst (e : Event) (s : Sequencer) :
    ∃ flag, (endOf (approach e) s).1 = { s with flag } := by
  have hcheck : ∃ flag, (endOf check s).1 = { s with flag } := by
    rw [endOf_check]
    cases look? s.flag <;> exact ⟨_, rfl⟩
  have hawait (s' : Sequencer) : (endOf (await e) s').1 = s' := by
    rw [endOf_await]
    split_ifs
    · cases s'.seconds (.exact e.beat) <;> rfl
    · rfl
  unfold approach
  rw [endOf_bind]
  cases h : endOf check s with
  | mk s' err =>
    rw [h] at hcheck
    cases err with
    | some err => exact hcheck
    | none =>
      dsimp only
      rwa [hawait]

/-- What comes before an event is performed is progress. -/
theorem approach_progress (e : Event) (s : Sequencer) :
    Progress s (endOf (approach e) s).1 [] := by
  obtain ⟨flag, hready⟩ := endOf_approach_fst e s
  rw [hready]
  exact .of_same rfl rfl rfl

/-- A lyric is shown when the sink has room for it. -/
theorem endOf_showLyric (t : Text) (s : Sequencer) : endOf (showLyric t) s =
    match s.write? (shownLyric t) with
    | some s' => (s', none)
    | none => (s, some .callbackFailed) := by
  change endOf (match s.write? (shownLyric t) with
    | some s => set s
    | none => throw .callbackFailed) s = _
  cases s.write? (shownLyric t) <;> rfl

/-- Showing a lyric changes what is written, and the room for more. -/
theorem endOf_showLyric_fst (t : Text) (s : Sequencer) :
    ∃ room written, (endOf (showLyric t) s).1 = { s with room, written } := by
  rw [endOf_showLyric]
  cases hwrite : s.write? (shownLyric t) with
  | none => exact ⟨_, _, rfl⟩
  | some s' =>
    unfold write? at hwrite
    split_ifs at hwrite
    · cases hwrite
      exact ⟨_, _, rfl⟩
    · split at hwrite
      all_goals cases hwrite
      all_goals exact ⟨_, _, rfl⟩

/-- Showing a lyric is progress. -/
theorem showLyric_progress (t : Text) (s : Sequencer) :
    Progress s (endOf (showLyric t) s).1 [] := by
  obtain ⟨room, written, hshown⟩ := endOf_showLyric_fst t s
  rw [hshown]
  exact .of_same rfl rfl rfl

/-- A callback may schedule another one. -/
theorem react_progress (r : Reaction) (s : Sequencer) : Progress s (endOf (react r) s).1 [] := by
  cases r with
  | nothing => exact .refl s
  | cancel => exact .of_same rfl rfl rfl
  | fail => exact .refl s
  | schedule beat label reaction =>
    exact .of_added (n := 0) rfl (List.append_nil _).symm rfl (List.forall_mem_singleton.2 nofun)

/-- An event that is performed settles the promise whose music it ends. -/
theorem perform_progress {e : Event} {s : Sequencer} (he : e ∈ s.events) :
    Progress s (endOf (perform e) s).1 [e] := by
  obtain ⟨beat, action⟩ := e
  cases action with
  | «show» t => exact (showLyric_progress t s).noted he nofun
  | call label reaction =>
    have hlogged : Progress s { s with log := s.log ++ [(label, beat)] } [] :=
      .of_same rfl rfl rfl
    exact (hlogged.trans (react_progress reaction _)).noted he nofun
  | finish p =>
    have houtcomes (q : Nat) (hq : q < s.promises.length) :
        (s.settle p (.ended beat)).1.outcomes q =
          settled q (s.outcomes q) [⟨beat, .finish p⟩] := by
      unfold settled settled
      by_cases hpq : p = q
      · obtain rfl := hpq
        rw [outcomes_settle hq]
        exact if_congr (and_iff_right rfl).symm rfl rfl
      · rw [outcomes_settle_of_ne hpq, if_neg]
        rintro ⟨hfinish, -⟩
        exact hpq (Action.finish.inj hfinish)
    change Progress s (s.settle p (.ended beat)).1 [⟨beat, .finish p⟩]
    obtain ⟨promises, hsettled, hlength⟩ := settle_fst s p (.ended beat)
    rw [hsettled] at houtcomes ⊢
    exact {
      output := rfl
      promises := hlength.ge
      kept := List.Subset.refl _
      events := fun e he => .inl he
      performed := List.forall_mem_singleton.2 (.inl he)
      outcomes := houtcomes }

/-- Events that run make the progress of those that are performed. -/
theorem runEvents_progress {es : List Event} {s : Sequencer} (hes : es ⊆ s.events) :
    Progress s (endOf (runEvents es) s).1 (performedFrom s es) := by
  let R (s s' : Sequencer) (ran : List Event) : Prop := es ⊆ s.events → Progress s s' ran
  have htrans {s s' s'' : Sequencer} {ran more : List Event} (h : R s s' ran)
      (h' : R s' s'' more) : R s s'' (ran ++ more) := fun hes =>
    (h hes).trans (h' (List.Subset.trans hes (h hes).kept))
  have hperform (e : Event) (he : e ∈ es) (s : Sequencer) : R s (endOf (perform e) s).1 [e] :=
    fun hes => perform_progress (hes he)
  exact runEvents_relates (fun s _ => .refl s) htrans (fun e s _ => approach_progress e s)
    hperform s hes

/-- A run of the sequencer makes the progress of the events that it performs. -/
theorem runAll_progress (s : Sequencer) : Progress s s.runAll.1 s.performed := by
  have hcleared : Progress s s.cleared [] := .of_same rfl rfl rfl
  rw [runAll_eq]
  unfold performed
  cases s.output with
  | working =>
    have hrun : Progress s.cleared (endOf (runEvents s.ordered) s.cleared).1
        (performedFrom s.cleared s.ordered) :=
      runEvents_progress fun e he => List.mem_mergeSort.1 he
    exact hcleared.trans hrun
  | silent => exact hcleared
  | broken => exact hcleared

/-! ## Commands -/

/-- What a sequencer can be told: to schedule something, to run, or to perform a piece. Its flag and
the room in the sink change between runs. -/
inductive Command where
  | addNote (n : ScheduledNote)
  | addCallback (beat : Rat) (label : Text) (reaction : Reaction)
  | putFlag (flag : CancelFlag)
  | putRoom (room : Option Nat)
  | playPiece (m : Music) (voice : Text) (flag : CancelFlag)
  | performPiece (m : Music) (voice : Text) (flag : CancelFlag)
  | run

/-- The sequencer after a command. -/
def obey (s : Sequencer) : Command → Sequencer
  | .addNote n => s.addNote n
  | .addCallback beat label reaction => s.addEvent ⟨beat, .call label reaction⟩
  | .putFlag flag => s.putFlag flag
  | .putRoom room => { s with room }
  | .playPiece m voice flag => (s.playPiece m voice flag).1
  | .performPiece m voice flag => (s.performPiece m voice flag).1
  | .run => s.runAll.1

/-- The events that the run of a command performs, if it has one. -/
def performedBy (s : Sequencer) : Command → List Event
  | .performPiece m voice flag =>
    match s.playPiece m voice flag with
    | (_, .error _) => []
    | (s', .ok _) => s'.performed
  | .run => s.performed
  | _ => []

/-- The sequencer after some commands. -/
def obeyAll (s : Sequencer) (commands : List Command) : Sequencer :=
  commands.foldl obey s

/-- The events that the runs of some commands perform. -/
def performedIn (s : Sequencer) : List Command → List Event
  | [] => []
  | c :: rest => s.performedBy c ++ (s.obey c).performedIn rest

/-- A piece is put on the sequencer: its schedule, an event at its end, and a new promise. -/
def addPiece (s : Sequencer) (schedule : Schedule) (beat : Rat) : Sequencer :=
  { (s.addSchedule schedule).addEvent ⟨beat, .finish s.promises.length⟩ with
    promises := s.promises ++ [[]] }

section Commands

variable {s : Sequencer} {m : Music} {voice : Text} {cancel : CancelFlag}

/-- A piece is put on the sequencer when it can be scheduled. -/
theorem playPiece_eq : s.playPiece m voice cancel =
    match m.scheduled voice 0 cancel with
    | (schedule, some e) => (s.addSchedule schedule, .error e)
    | (schedule, none) => (s.addPiece schedule m.duration.value, .ok s.promises.length) := by
  unfold playPiece
  obtain ⟨schedule, err⟩ := m.scheduled voice 0 cancel
  cases err <;> rfl

/-- A piece that can be scheduled is performed, and its promise is settled after the run. -/
theorem performPiece_eq : s.performPiece m voice cancel =
    match m.scheduled voice 0 cancel with
    | (schedule, some e) => (s.addSchedule schedule, .error (.schedule e))
    | (schedule, none) =>
      let done := (s.addPiece schedule m.duration.value).runAll
      let settled := done.1.settle s.promises.length (done.2.elim .stopped .failed)
      (settled.1, settled.2.result) := by
  unfold performPiece
  rw [playPiece_eq]
  obtain ⟨schedule, err⟩ := m.scheduled voice 0 cancel
  cases err <;> rfl

/-- Music that is scheduled ends no promise. -/
theorem addSchedule_progress (schedule : Schedule) : Progress s (s.addSchedule schedule) [] := by
  refine .of_added (n := 0) rfl (List.append_nil _).symm rfl fun e he => ?_
  obtain ⟨l, -, rfl⟩ := List.mem_map.1 he
  exact nofun

/-- The new event ends the new promise. -/
theorem addPiece_progress (schedule : Schedule) (beat : Rat) :
    Progress s (s.addPiece schedule beat) [] := by
  refine .of_added (n := 1) rfl rfl (List.append_assoc _ _ _) fun e he p hp => ?_
  rcases List.mem_append.1 he with he | he
  · obtain ⟨l, -, rfl⟩ := List.mem_map.1 he
    cases hp
  · cases List.mem_singleton.1 he
    cases hp
    exact ⟨le_rfl, Nat.lt_succ_self _⟩

/-- A run after that makes the progress of the events that it performs. -/
theorem addPiece_runAll_progress (schedule : Schedule) (beat : Rat) :
    Progress s (s.addPiece schedule beat).runAll.1 (s.addPiece schedule beat).performed :=
  (addPiece_progress schedule beat).trans (runAll_progress _)

/-- A piece that is put on the sequencer, as far as it can be scheduled, runs nothing. -/
theorem playPiece_progress : Progress s (s.playPiece m voice cancel).1 [] := by
  rw [playPiece_eq]
  obtain ⟨schedule, err⟩ := m.scheduled voice 0 cancel
  cases err with
  | some e => exact addSchedule_progress schedule
  | none => exact addPiece_progress schedule _

/-- A performance makes the progress of its run. Only its own promise is settled after it. -/
theorem performPiece_progress : Progress s (s.performPiece m voice cancel).1
    (s.performedBy (.performPiece m voice cancel)) := by
  change Progress s _ (match s.playPiece m voice cancel with
    | (_, .error _) => []
    | (s', .ok _) => s'.performed)
  rw [performPiece_eq, playPiece_eq]
  obtain ⟨schedule, err⟩ := m.scheduled voice 0 cancel
  cases err with
  | some e => exact addSchedule_progress schedule
  | none =>
    exact (addPiece_runAll_progress schedule _).settle _ le_rfl

/-- A command makes the progress of the events that its run performs. -/
theorem obey_progress (c : Command) : Progress s (s.obey c) (s.performedBy c) := by
  cases c with
  | addNote n => exact .of_same rfl rfl rfl
  | addCallback beat label reaction =>
    exact .of_added (n := 0) rfl (List.append_nil _).symm rfl (List.forall_mem_singleton.2 nofun)
  | putFlag flag => exact .of_same rfl rfl rfl
  | putRoom room => exact .of_same rfl rfl rfl
  | playPiece m voice cancel => exact playPiece_progress
  | performPiece m voice cancel => exact performPiece_progress
  | run => exact runAll_progress s

/-- Commands make the progress of the events that their runs perform. -/
theorem obeyAll_progress (commands : List Command) :
    Progress s (s.obeyAll commands) (s.performedIn commands) := by
  induction commands generalizing s with
  | nil => exact .refl s
  | cons c rest ih => exact (obey_progress c).trans ih

end Commands

/-! ## Promises are settled once -/

/-- The events of a sequencer end the music of its promises. -/
def Owned (s : Sequencer) : Prop :=
  ∀ e ∈ s.events, ∀ p, e.action = .finish p → p < s.promises.length

/-- A new sequencer has no events. -/
theorem owned_new (tempo : Rat) (realtime : Bool) (flag : Option CancelFlag) :
    (new tempo realtime flag).Owned :=
  fun _ he => absurd he List.not_mem_nil

/-- After progress the events still end the music of promises that are there. -/
theorem Owned.progress {s s' : Sequencer} {ran : List Event} (hs : s.Owned)
    (h : Progress s s' ran) : s'.Owned := by
  intro e he p hp
  rcases h.events e he with he | hnew
  · exact (hs e he p hp).trans_le h.promises
  · exact (hnew p hp).2

section Settled

variable {s s' : Sequencer} {schedule : Schedule} {beat : Rat} {ran : List Event}

/-- A new promise has no outcome. -/
theorem outcomes_addPiece : (s.addPiece schedule beat).outcomes s.promises.length = [] := by
  unfold addPiece outcomes
  rw [List.getElem?_concat_length]
  rfl

/-- A new promise has the next number. -/
theorem promises_addPiece : s.promises.length < (s.addPiece schedule beat).promises.length := by
  unfold addPiece
  rw [List.length_append]
  exact Nat.lt_succ_self _

/-- A new promise is settled by its own event, when it is performed. -/
theorem outcomes_of_progress (hs : s.Owned)
    (h : Progress (s.addPiece schedule beat) s' ran) :
    s'.outcomes s.promises.length =
      if ⟨beat, .finish s.promises.length⟩ ∈ ran then [.ended beat] else [] := by
  rw [h.outcomes _ promises_addPiece, outcomes_addPiece]
  refine settled_eq_ite fun e he hfinish => ?_
  rcases h.performed e he with he | hlater
  · rcases List.mem_append.1 he with he | he
    · rcases List.mem_append.1 he with he | he
      · -- The events that were there end older promises.
        exact absurd (hs e he _ hfinish) (lt_irrefl _)
      · obtain ⟨l, -, rfl⟩ := List.mem_map.1 he
        cases hfinish
    · cases List.mem_singleton.1 he
      rfl
  · exact absurd (hlater _ hfinish) (not_le.2 promises_addPiece)

/-- The promise of a performance is settled after its run: by its event, when it has been performed,
and otherwise by the error that the run has ended with. -/
theorem performPiece_spec {m : Music} {voice : Text} {cancel : CancelFlag} (hs : s.Owned)
    (hworking : s.output = .working) (h : m.scheduled voice 0 cancel = (schedule, none)) :
    let scheduled := s.addPiece schedule m.duration.value
    let done := s.performPiece m voice cancel
    let promise := s.promises.length
    ∃ outcome, done.1.outcomes promise = [outcome] ∧ done.2 = outcome.result ∧
      if ⟨m.duration.value, .finish promise⟩ ∈ scheduled.performed
      then outcome = .ended m.duration.value
      else ∃ e, scheduled.runAll.2 = some e ∧ outcome = .failed e := by
  intro scheduled done promise
  have hrun := runAll_progress scheduled
  have houtcomes := outcomes_of_progress hs hrun
  have hlt : promise < scheduled.runAll.1.promises.length :=
    promises_addPiece.trans_le hrun.promises
  have hdone : done = _ := performPiece_eq
  rw [h] at hdone
  rw [hdone]
  dsimp only
  rw [settle_snd, outcomes_settle hlt]
  by_cases hmem : ⟨m.duration.value, .finish promise⟩ ∈ scheduled.performed
  · rw [if_pos hmem] at houtcomes
    rw [houtcomes, if_neg (List.cons_ne_nil _ _)]
    exact ⟨_, rfl, rfl, (if_pos hmem).mpr rfl⟩
  · rw [if_neg hmem] at houtcomes
    rw [houtcomes, if_pos rfl]
    refine ⟨_, rfl, rfl, ?_⟩
    rw [if_neg hmem]
    -- Without an error the run would have performed the event.
    cases herror : scheduled.runAll.2 with
    | some e => exact ⟨e, rfl, rfl⟩
    | none =>
      refine absurd ?_ hmem
      have hall : scheduled.performed = scheduled.ordered := performed_of_ok hworking herror
      rw [hall]
      exact List.mem_mergeSort.2 (List.mem_append_right _ (List.mem_singleton.2 rfl))

/-- A promise is settled once, and only by the end of its own music. However a sequencer has been
used before, it promises the end of music that can be scheduled; however it is used after that, the
promise has no outcome until a run performs its event, and then for good the one that its music has
ended, at the beat of its duration. When the music is performed, the performance ends at this beat
if its run has performed the event, and otherwise with the error that has stopped the run; that
outcome is for good, too. -/
theorem promise_settled_once (tempo : Rat) (realtime : Bool) (flag : Option CancelFlag)
    (before after : List Command) {m : Music} {voice : Text} {cancel : CancelFlag}
    (h : (m.scheduled voice 0 cancel).2 = none) :
    let s := (new tempo realtime flag).obeyAll before
    ∃ scheduled promise, s.playPiece m voice cancel = (scheduled, .ok promise) ∧
      let ending : Event := ⟨m.duration.value, .finish promise⟩
      (scheduled.obeyAll after).outcomes promise =
        (if ending ∈ scheduled.performedIn after then [.ended m.duration.value] else []) ∧
      ∃ final outcome, s.performPiece m voice cancel = (final, outcome.result) ∧
        (if ending ∈ scheduled.performed then outcome = .ended m.duration.value
          else ∃ e, scheduled.runAll.2 = some e ∧ outcome = .failed e) ∧
        (final.obeyAll after).outcomes promise = [outcome] := by
  intro s
  have hprogress := obeyAll_progress (s := new tempo realtime flag) before
  have howned : s.Owned := (owned_new tempo realtime flag).progress hprogress
  have hworking : s.output = .working := hprogress.output
  obtain ⟨schedule, hschedule⟩ : ∃ schedule, m.scheduled voice 0 cancel = (schedule, none) :=
    ⟨_, Prod.ext rfl h⟩
  obtain ⟨outcome, hgiven, hresult, houtcome⟩ := performPiece_spec howned hworking hschedule
  have hplayed : s.playPiece m voice cancel = _ := playPiece_eq
  rw [hschedule] at hplayed
  refine ⟨_, _, hplayed, outcomes_of_progress howned (obeyAll_progress after), _, outcome,
    Prod.ext rfl hresult, houtcome, ?_⟩
  -- The outcome is there, so commands after the performance give no other.
  have hlt : s.promises.length < (s.performPiece m voice cancel).1.promises.length :=
    lt_of_outcomes (hgiven ▸ List.cons_ne_nil _ _)
  rw [(obeyAll_progress after).outcomes _ hlt, hgiven, settled_of_ne_nil (List.cons_ne_nil _ _)]

/-- A syllable that is sung. -/
def syllable : Music :=
  .component [.lyric "la".text (.fraction (1 / 2)), .rest (.fraction (1 / 2))]

/-- A run that is cancelled at the end of the syllable, and two that are not cancelled. -/
def haltedRuns : List Command :=
  [.putFlag (.setAfter 1), .run, .putFlag .unset, .run, .run]

/-- The promise of a syllable has no outcome after the run that is cancelled, and one after two runs
that perform the event at its end. -/
theorem promise_settled_once_halted :
    (syllable.scheduled "a".text 0 .unset).2 = none ∧
      ∃ scheduled promise,
        (new 100 false (some .unset)).playPiece syllable "a".text .unset =
          (scheduled, .ok promise) ∧
        (scheduled.obeyAll (haltedRuns.take 2)).outcomes promise = [] ∧
        (scheduled.performedIn haltedRuns).count ⟨1 / 2, .finish promise⟩ = 2 ∧
        (scheduled.obeyAll haltedRuns).outcomes promise = [.ended (1 / 2)] := by
  have h : (syllable.scheduled "a".text 0 .unset).2 = none := by decide +kernel
  obtain ⟨scheduled, promise, hplay, hall, -⟩ :=
    promise_settled_once 100 false (some .unset) [] haltedRuns h
  obtain ⟨halted, promise', hplay', htwo, -⟩ :=
    promise_settled_once 100 false (some .unset) [] (haltedRuns.take 2) h
  cases hplay'.symm.trans hplay
  obtain rfl : promise = 0 := (Except.ok.inj (congrArg Prod.snd hplay)).symm
  have hduration : syllable.duration.value = 1 / 2 := rfl
  -- The events stay as they are, in the order of their beats, so that is the order of each run.
  let events : List Event := [⟨0, .show "la".text⟩, ⟨1 / 2, .finish 0⟩]
  have hrun (s : Sequencer) (hworking : s.output = .working) (hevents : s.events = events) :
      s.runAll = endOf (runEvents events) s.cleared ∧
        s.performed = performedFrom s.cleared events :=
    hevents ▸ run_of_sorted hworking (by rw [hevents]; decide +kernel)
  let first := scheduled.putFlag (.setAfter 1)
  let second := (endOf (runEvents events) first.cleared).1.putFlag .unset
  let third := (endOf (runEvents events) second.cleared).1
  have hran : scheduled.performedIn (haltedRuns.take 2) = performedFrom first.cleared events ∧
      scheduled.performedIn haltedRuns = performedFrom first.cleared events ++
        (performedFrom second.cleared events ++ performedFrom third.cleared events) := by
    have hfirst := hrun first (by cases hplay; rfl) (by cases hplay; rfl)
    have hsecond := hrun second (by cases hplay; decide +kernel) (by cases hplay; decide +kernel)
    have hthird := hrun third (by cases hplay; decide +kernel) (by cases hplay; decide +kernel)
    have htaken : scheduled.performedIn (haltedRuns.take 2) = first.performed ++ [] := rfl
    have hall : scheduled.performedIn haltedRuns =
        first.performed ++ ((first.runAll.1.putFlag .unset).performed ++
          ((first.runAll.1.putFlag .unset).runAll.1.performed ++ [])) := rfl
    have hagain : first.runAll.1.putFlag .unset = second := by rw [hfirst.1]
    have hlast : second.runAll.1 = third := by rw [hsecond.1]
    rw [htaken, hall, hagain, hlast, hfirst.2, hsecond.2, hthird.2, List.append_nil,
      List.append_nil]
    exact ⟨rfl, rfl⟩
  obtain ⟨hbefore, hran⟩ := hran
  have hcount : (scheduled.performedIn haltedRuns).count ⟨1 / 2, .finish 0⟩ = 2 := by
    rw [hran]
    cases hplay
    decide +kernel
  refine ⟨h, scheduled, 0, hplay, ?_, hcount, ?_⟩
  · rw [htwo, hbefore, hduration, if_neg]
    cases hplay
    decide +kernel
  · rw [hall, hduration, if_pos (List.count_pos_iff.1 (hcount ▸ Nat.two_pos))]

end Settled

end Sequencer

end SingAlong

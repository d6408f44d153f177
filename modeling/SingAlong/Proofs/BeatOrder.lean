import SingAlong.Proofs.Promises

/-!
# Events run in the order of their beats

A run calls the events that are scheduled in a stable order of their beats, one after the other, up
to the first look at the cancel flag that finds it set. Then it has done what their callbacks do,
and nothing else: what was scheduled stays, and the next run starts again with all events, among
them those that have been added since (`Sequencer.run_in_beat_order`).

There is one stable order of some events (`IsStableSort.unique`). What a run stores is said by
`Sequencer.Stores`, in terms of the events that it performs. Whether the flag is found set is told
by the flag and by the events that have been performed before (`Sequencer.FoundSet`). So each run
stops after some number of events, or after all of them (`Sequencer.exists_stopsAfter`), and the
result about runs holds with this number. Performing an event does not depend on the flag
(`Sequencer.endOf_perform_unflagged`), so up to the look that finds it set the run is that of a
sequencer without a flag (`Sequencer.runEvents_stops`).
-/

namespace SingAlong

/-! ## Callbacks -/

namespace Event

/-- Does the callback set the cancel flag? -/
def cancels (e : Event) : Bool :=
  match e.action with
  | .call _ .cancel => true
  | _ => false

/-- Does the callback fail? -/
def fails (e : Event) : Bool :=
  match e.action with
  | .call _ .fail => true
  | _ => false

/-- What is noted in the log of the callback. -/
def noted? (e : Event) : Option (Text × Rat) :=
  match e.action with
  | .call label _ => some (label, e.beat)
  | _ => none

/-- The event that the callback adds. -/
def added? (e : Event) : Option Event :=
  match e.action with
  | .call _ (.schedule beat label reaction) => some ⟨beat, .call label reaction⟩
  | _ => none

end Event

/-! ## Stable order -/

/-- The events in the order of their beats. Events with the same beat are in the order in which they
were. -/
structure IsStableSort (events sorted : List Event) : Prop where
  perm : sorted.Perm events
  beats : sorted.Pairwise fun d e => d.beat ≤ e.beat
  ties : ∀ beat, (sorted.filter fun e => e.beat = beat) = events.filter fun e => e.beat = beat

section Ties

variable {l l' : List Event}

/-- Lists that have the same events at each beat have the same events. -/
theorem mem_of_filter_beat
    (hties : ∀ beat, (l.filter fun e => e.beat = beat) = l'.filter fun e => e.beat = beat)
    {e : Event} (he : e ∈ l) : e ∈ l' := by
  have hfilter : e ∈ l.filter fun d => d.beat = e.beat :=
    List.mem_filter.2 ⟨he, decide_eq_true rfl⟩
  rw [hties] at hfilter
  exact (List.mem_filter.1 hfilter).1

/-- Lists in the order of beats that have the same events at each beat are the same. -/
theorem eq_of_filter_beat (h : l.Pairwise fun d e => d.beat ≤ e.beat)
    (h' : l'.Pairwise fun d e => d.beat ≤ e.beat)
    (hties : ∀ beat, (l.filter fun e => e.beat = beat) = l'.filter fun e => e.beat = beat) :
    l = l' := by
  have hfirst {d : Event} {l : List Event} (h : (d :: l).Pairwise fun d e => d.beat ≤ e.beat) :
      ∀ e ∈ d :: l, d.beat ≤ e.beat :=
    List.forall_mem_cons.2 ⟨le_rfl, (List.pairwise_cons.1 h).1⟩
  induction l generalizing l' with
  | nil =>
    refine (List.eq_nil_iff_forall_not_mem.2 fun e he => ?_).symm
    exact List.not_mem_nil (mem_of_filter_beat (fun beat => (hties beat).symm) he)
  | cons d l ih =>
    have hd : d ∈ l' := mem_of_filter_beat hties List.mem_cons_self
    cases l' with
    | nil => exact absurd hd List.not_mem_nil
    | cons e l' =>
      have he : e ∈ d :: l :=
        mem_of_filter_beat (fun beat => (hties beat).symm) List.mem_cons_self
      -- Each of the two first events is at the first of all beats.
      have hbeat : d.beat = e.beat := le_antisymm (hfirst h e he) (hfirst h' d hd)
      have hsame := hties e.beat
      rw [List.filter_cons_of_pos (by simpa using hbeat),
        List.filter_cons_of_pos (by simp)] at hsame
      obtain ⟨rfl, hrest⟩ := List.cons.inj hsame
      have hlater (beat : Rat) :
          (l.filter fun e => e.beat = beat) = l'.filter fun e => e.beat = beat := by
        by_cases hat : d.beat = beat
        · rwa [← hat]
        · have hother := hties beat
          rwa [List.filter_cons_of_neg (by simpa using hat),
            List.filter_cons_of_neg (by simpa using hat)] at hother
      exact congrArg (d :: ·) (ih h.of_cons h'.of_cons hlater)

end Ties

/-- There is only one such order. -/
theorem IsStableSort.unique {events l l' : List Event} (h : IsStableSort events l)
    (h' : IsStableSort events l') : l = l' :=
  eq_of_filter_beat h.beats h'.beats fun beat => (h.ties beat).trans (h'.ties beat).symm

namespace Sequencer

/-- The order in which events run is stable. -/
theorem isStableSort_ordered (s : Sequencer) : IsStableSort s.events s.ordered := by
  have htrans (a b c : Event) (hab : decide (a.beat ≤ b.beat) = true)
      (hbc : decide (b.beat ≤ c.beat) = true) : decide (a.beat ≤ c.beat) = true :=
    decide_eq_true (le_trans (of_decide_eq_true hab) (of_decide_eq_true hbc))
  have htotal (a b : Event) : (decide (a.beat ≤ b.beat) || decide (b.beat ≤ a.beat)) = true := by
    rw [Bool.or_eq_true, decide_eq_true_eq, decide_eq_true_eq]
    exact le_total a.beat b.beat
  have hperm : s.ordered.Perm s.events := List.mergeSort_perm s.events _
  refine ⟨hperm, (List.pairwise_mergeSort htrans htotal s.events).imp of_decide_eq_true,
    fun beat => ?_⟩
  -- The events of one beat are a sublist that is in order, so they stay one, and they are all.
  have hsame : (s.events.filter fun e => e.beat = beat).Pairwise
      fun d e => decide (d.beat ≤ e.beat) = true := by
    refine List.pairwise_of_forall_mem_list fun d hd e he => decide_eq_true ?_
    rw [of_decide_eq_true (List.mem_filter.1 hd).2, of_decide_eq_true (List.mem_filter.1 he).2]
  have hsub : (s.events.filter fun e => e.beat = beat).Sublist s.ordered :=
    List.sublist_mergeSort htrans htotal hsame List.filter_sublist
  have hfilter := hsub.filter fun e => decide (e.beat = beat)
  rw [List.filter_filter] at hfilter
  simp only [Bool.and_self] at hfilter
  exact (hfilter.eq_of_length (hperm.filter _).length_eq.symm).symm

/-! ## What a run stores -/

/-- What a sequencer stores after it has performed events: nothing is taken from what was there, the
callbacks are noted in the log, and the events that they add come at the end. -/
structure Stores (s s' : Sequencer) (ran : List Event) : Prop where
  realtime : s'.realtime = s.realtime
  notes : s'.notes = s.notes
  events : s'.events = s.events ++ ran.filterMap Event.added?
  log : s'.log = s.log ++ ran.filterMap Event.noted?

namespace Stores

variable {s s' s'' : Sequencer} {ran more : List Event}

/-- Where the lists are the same, nothing has been performed. -/
theorem of_same (hrealtime : s'.realtime = s.realtime) (hnotes : s'.notes = s.notes)
    (hevents : s'.events = s.events) (hlog : s'.log = s.log) : Stores s s' [] :=
  ⟨hrealtime, hnotes, hevents.trans (List.append_nil _).symm, hlog.trans (List.append_nil _).symm⟩

/-- Doing nothing stores nothing. -/
theorem refl (s : Sequencer) : Stores s s [] :=
  of_same rfl rfl rfl rfl

/-- Events are performed after other events. -/
theorem trans (h : Stores s s' ran) (h' : Stores s' s'' more) : Stores s s'' (ran ++ more) where
  realtime := h'.realtime.trans h.realtime
  notes := h'.notes.trans h.notes
  events := by rw [h'.events, h.events, List.filterMap_append, List.append_assoc]
  log := by rw [h'.log, h.log, List.filterMap_append, List.append_assoc]

end Stores

/-- Before an event is performed nothing is stored. -/
theorem approach_stores (e : Event) (s : Sequencer) : Stores s (endOf (approach e) s).1 [] := by
  obtain ⟨flag, hready⟩ := endOf_approach_fst e s
  rw [hready]
  exact .of_same rfl rfl rfl rfl

/-- A promise that is settled stores nothing. -/
theorem settle_stores (p : Nat) (o : Outcome) (s : Sequencer) : Stores s (s.settle p o).1 [] := by
  obtain ⟨promises, hsettled, -⟩ := s.settle_fst p o
  rw [hsettled]
  exact .of_same rfl rfl rfl rfl

/-- An event stores what its callback notes and adds. -/
theorem perform_stores (e : Event) (s : Sequencer) : Stores s (endOf (perform e) s).1 [e] := by
  obtain ⟨beat, action⟩ := e
  cases action with
  | «show» t =>
    obtain ⟨room, written, hshown⟩ := endOf_showLyric_fst t s
    have hsame : Stores s (endOf (showLyric t) s).1 [] := hshown ▸ .of_same rfl rfl rfl rfl
    exact ⟨hsame.realtime, hsame.notes, hsame.events, hsame.log⟩
  | finish p =>
    have hsame := settle_stores p (.ended beat) s
    exact ⟨hsame.realtime, hsame.notes, hsame.events, hsame.log⟩
  | call label reaction =>
    cases reaction with
    | nothing | cancel | fail => exact ⟨rfl, rfl, (List.append_nil _).symm, rfl⟩
    | schedule later label' reaction' => exact ⟨rfl, rfl, rfl, rfl⟩

/-- A run stores what the callbacks that it calls note and add. -/
theorem runAll_stores (s : Sequencer) : Stores s.cleared s.runAll.1 s.performed := by
  rw [runAll_eq]
  unfold performed
  cases s.output with
  | working =>
    have hrun : Stores s.cleared (endOf (runEvents s.ordered) s.cleared).1
        (performedFrom s.cleared s.ordered) :=
      runEvents_relates Stores.refl Stores.trans approach_stores (fun e _ => perform_stores e) _
    exact hrun
  | silent => exact .refl s.cleared
  | broken => exact .refl s.cleared

/-! ## What commands schedule -/

/-- What a sequencer schedules after events have been added to it. -/
structure Adds (s s' : Sequencer) (added : List Event) : Prop where
  realtime : s'.realtime = s.realtime
  events : s'.events = s.events ++ added

namespace Adds

variable {s s' s'' : Sequencer} {added more : List Event}

/-- Where the events are the same, nothing has been added. -/
theorem of_same (hrealtime : s'.realtime = s.realtime) (hevents : s'.events = s.events) :
    Adds s s' [] :=
  ⟨hrealtime, hevents.trans (List.append_nil _).symm⟩

/-- Events are added after other events. -/
theorem trans (h : Adds s s' added) (h' : Adds s' s'' more) : Adds s s'' (added ++ more) where
  realtime := h'.realtime.trans h.realtime
  events := by rw [h'.events, h.events, List.append_assoc]

end Adds

/-- Only callbacks add events to what is stored. -/
theorem Stores.adds {s s' : Sequencer} {ran : List Event} (h : Stores s s' ran) :
    Adds s s' (ran.filterMap Event.added?) :=
  ⟨h.realtime, h.events⟩

/-- A run adds what the callbacks that it calls add. -/
theorem runAll_adds (s : Sequencer) : Adds s s.runAll.1 (s.performed.filterMap Event.added?) := by
  have hcleared : Adds s s.cleared [] := .of_same rfl rfl
  exact hcleared.trans (runAll_stores s).adds

section Commands

variable {s : Sequencer}

/-- The events that a piece is put on the sequencer with, as far as it can be scheduled. -/
def pieceEvents (s : Sequencer) (m : Music) (voice : Text) (flag : CancelFlag) : List Event :=
  let (schedule, err) := m.scheduled voice 0 flag
  (schedule.lyrics.map fun l => ⟨l.beat, .show l.text⟩) ++
    if err = none then [⟨m.duration.value, .finish s.promises.length⟩] else []

/-- The events that a command adds itself, without those that callbacks add. -/
def scheduledBy (s : Sequencer) : Command → List Event
  | .addCallback beat label reaction => [⟨beat, .call label reaction⟩]
  | .playPiece m voice flag | .performPiece m voice flag => s.pieceEvents m voice flag
  | _ => []

/-- The events that some commands add, in order: first those of a command itself, and then those of
the callbacks that its run calls. -/
def addedIn (s : Sequencer) : List Command → List Event
  | [] => []
  | c :: rest =>
    s.scheduledBy c ++ (s.performedBy c).filterMap Event.added? ++ (s.obey c).addedIn rest

/-- A piece adds its events as far as it can be scheduled. -/
theorem playPiece_adds (m : Music) (voice : Text) (flag : CancelFlag) :
    Adds s (s.playPiece m voice flag).1 (s.pieceEvents m voice flag) := by
  rw [playPiece_eq]
  unfold pieceEvents
  obtain ⟨schedule, err⟩ := m.scheduled voice 0 flag
  cases err with
  | some e => exact ⟨rfl, congrArg (s.events ++ ·) (List.append_nil _).symm⟩
  | none => exact ⟨rfl, List.append_assoc _ _ _⟩

/-- A performance adds the events of its piece, and what its run adds. -/
theorem performPiece_adds (m : Music) (voice : Text) (flag : CancelFlag) :
    Adds s (s.performPiece m voice flag).1 (s.pieceEvents m voice flag ++
      (s.performedBy (.performPiece m voice flag)).filterMap Event.added?) := by
  have hpiece := playPiece_adds (s := s) m voice flag
  unfold performPiece performedBy
  dsimp only
  rcases hplayed : s.playPiece m voice flag with ⟨s', err | promise⟩
  all_goals rw [hplayed] at hpiece
  · exact hpiece.trans (.of_same rfl rfl)
  · have hsettled := settle_stores promise (s'.runAll.2.elim .stopped .failed) s'.runAll.1
    have hrun := (runAll_adds s').trans hsettled.adds
    rw [List.filterMap_nil, List.append_nil] at hrun
    exact hpiece.trans hrun

/-- A command adds its events after those that are there. -/
theorem obey_adds (c : Command) :
    Adds s (s.obey c) (s.scheduledBy c ++ (s.performedBy c).filterMap Event.added?) := by
  cases c with
  | addNote | putFlag | putRoom => exact .of_same rfl rfl
  | addCallback => exact ⟨rfl, rfl⟩
  | playPiece m voice flag => exact (playPiece_adds m voice flag).trans (.of_same rfl rfl)
  | performPiece m voice flag => exact performPiece_adds m voice flag
  | run => exact runAll_adds s

/-- Commands add their events one after the other. -/
theorem obeyAll_adds (commands : List Command) :
    Adds s (s.obeyAll commands) (s.addedIn commands) := by
  induction commands generalizing s with
  | nil => exact .of_same rfl rfl
  | cons c rest ih => exact (obey_adds c).trans ih

end Commands

/-! ## The cancel flag -/

/-- The sequencer apart from its flag. -/
def unflagged (s : Sequencer) : Sequencer :=
  { s with flag := none }

/-- After events have been performed, with a look at the flag before each of them, the next look
finds it set: there have been as many looks as find it unset, or a callback has set it. -/
def FoundSet (flag : Option CancelFlag) (ran : List Event) : Prop :=
  ∃ f ∈ flag, (∃ n ∈ f.checks, n ≤ ran.length) ∨ ∃ e ∈ ran, e.cancels

/-- When the events run, the flag is first found set after `n` of them, if there are more. -/
def StopsAfter (flag : Option CancelFlag) (es : List Event) (n : Nat) : Prop :=
  (∀ k < n, k < es.length → ¬FoundSet flag (es.take k)) ∧
    (n < es.length → FoundSet flag (es.take n))

section Flag

variable {flag flag' : Option CancelFlag} {e : Event} {es ran : List Event} {n : Nat}

/-- Without a flag nothing is found set. -/
theorem foundSet_none : ¬FoundSet none ran := by
  rintro ⟨f, ⟨⟩, -⟩

/-- A flag is found set when it is time, or once a callback has set it. -/
theorem foundSet_some {checks : Option Nat} : FoundSet (some ⟨checks⟩) ran ↔
    (∃ n ∈ checks, n ≤ ran.length) ∨ ∃ e ∈ ran, e.cancels := by
  simp [FoundSet]

/-- A look fails when it finds the flag set. -/
theorem look?_eq_none : look? flag = none ↔ FoundSet flag [] := by
  rcases flag with _ | _ | _ | m
  · exact iff_of_false nofun foundSet_none
  all_goals simp [look?, CancelFlag.check?, foundSet_some]

/-- What is found after a look and an event is what was to be found after the event. -/
theorem foundSet_look? (h : look? flag = some flag') (e : Event) (ran : List Event) :
    FoundSet (if e.cancels then flag'.map fun _ => .set else flag') ran ↔
      FoundSet flag (e :: ran) := by
  rcases flag with _ | _ | _ | m
  · cases h
    rw [Option.map_none, ite_self]
    exact iff_of_false foundSet_none foundSet_none
  · cases h
    cases hcancels : e.cancels <;>
      simp [CancelFlag.unset, CancelFlag.set, foundSet_some, hcancels]
  · cases h
  · cases h
    cases hcancels : e.cancels <;>
      simp [CancelFlag.setAfter, CancelFlag.set, foundSet_some, hcancels]

/-- A run that performs no event finds the flag set before the first one. -/
theorem StopsAfter.zero (h : StopsAfter flag (e :: es) 0) : look? flag = none :=
  look?_eq_none.2 (h.2 (Nat.succ_pos _))

/-- A run that performs events does not find it set there, and goes on with the others. -/
theorem StopsAfter.succ (h : StopsAfter flag (e :: es) (n + 1)) :
    ∃ flag', look? flag = some flag' ∧
      StopsAfter (if e.cancels then flag'.map fun _ => .set else flag') es n := by
  obtain ⟨hbefore, hstop⟩ := h
  have hfirst : look? flag ≠ none := fun hnone =>
    hbefore 0 (Nat.succ_pos n) (Nat.succ_pos _) (look?_eq_none.1 hnone)
  obtain ⟨flag', hlook⟩ := Option.ne_none_iff_exists'.1 hfirst
  have hlater (k : Nat) := foundSet_look? hlook e (es.take k)
  refine ⟨flag', hlook, fun k hk hlt => ?_, fun hlt => ?_⟩
  · rw [hlater]
    exact hbefore (k + 1) (Nat.succ_lt_succ hk) (Nat.succ_lt_succ hlt)
  · rw [hlater]
    exact hstop (Nat.succ_lt_succ hlt)

/-- Every run finds the flag set after some number of events, if at all, so that what
`run_in_beat_order` says of it applies to every flag. -/
theorem exists_stopsAfter (flag : Option CancelFlag) (es : List Event) :
    ∃ n ≤ es.length, StopsAfter flag es n := by
  classical
  by_cases h : ∃ k, k < es.length ∧ FoundSet flag (es.take k)
  · obtain ⟨hlt, hfound⟩ := Nat.find_spec h
    exact ⟨Nat.find h, hlt.le, fun k hk hk' hset => Nat.find_min h hk ⟨hk', hset⟩, fun _ => hfound⟩
  · refine ⟨es.length, le_rfl, fun k _ hk hset => h ⟨k, hk, hset⟩, fun hlt => ?_⟩
    exact absurd hlt (lt_irrefl _)

/-- A flag that no callback sets is found set when it is time. -/
theorem stopsAfter_setAfter (h : ∀ e ∈ es, e.cancels = false) (n : Nat) :
    StopsAfter (some (.setAfter n)) es n := by
  have hfound {k : Nat} (hlt : k < es.length) :
      FoundSet (some (.setAfter n)) (es.take k) ↔ n ≤ k := by
    have hnone : ¬∃ e ∈ es.take k, e.cancels := by
      rintro ⟨e, he, hcancels⟩
      rw [h e (List.mem_of_mem_take he)] at hcancels
      cases hcancels
    rw [CancelFlag.setAfter, foundSet_some, or_iff_left hnone, List.length_take_of_le hlt.le]
    simp
  refine ⟨fun k hk hlt => ?_, fun hlt => ?_⟩
  · rw [hfound hlt]
    exact not_le.2 hk
  · rw [hfound hlt]

end Flag

section Run

variable {s : Sequencer} {e : Event} {es : List Event} {n : Nat}

/-- The room in the sink does not depend on the flag. -/
theorem write?_unflagged (s : Sequencer) (texts : List Text) :
    s.unflagged.write? texts = (s.write? texts).map unflagged := by
  obtain ⟨tempo, realtime, output, flag, room, notes, events, promises, written, log⟩ := s
  unfold write? unflagged
  split_ifs
  · rfl
  · rcases room with _ | _ | room <;> rfl

/-- The outcomes of promises do not depend on the flag. -/
theorem settle_unflagged (s : Sequencer) (p : Nat) (o : Outcome) :
    (s.unflagged.settle p o).1 = (s.settle p o).1.unflagged := by
  have hsame : s.unflagged.outcomes p = s.outcomes p := rfl
  unfold settle
  rw [hsame]
  cases s.outcomes p <;> rfl

/-- An event does not depend on the flag. -/
theorem endOf_perform_unflagged (e : Event) (s : Sequencer) :
    endOf (perform e) s.unflagged =
      ((endOf (perform e) s).1.unflagged, (endOf (perform e) s).2) := by
  obtain ⟨beat, action⟩ := e
  cases action with
  | «show» t =>
    change endOf (showLyric t) s.unflagged =
      ((endOf (showLyric t) s).1.unflagged, (endOf (showLyric t) s).2)
    rw [endOf_showLyric, endOf_showLyric, write?_unflagged]
    cases s.write? (shownLyric t) <;> rfl
  | finish p => exact congrArg (·, none) (settle_unflagged s p (.ended beat))
  | call label reaction => cases reaction <;> rfl

/-- Only a callback that sets the flag changes it. -/
theorem endOf_perform_flag (e : Event) (s : Sequencer) : (endOf (perform e) s).1.flag =
    if e.cancels then s.flag.map fun _ => .set else s.flag := by
  obtain ⟨beat, action⟩ := e
  cases action with
  | «show» t =>
    obtain ⟨room, written, hshown⟩ := endOf_showLyric_fst t s
    have hflag := congrArg Sequencer.flag hshown
    exact hflag
  | finish p =>
    obtain ⟨promises, hsettled, -⟩ := s.settle_fst p (.ended beat)
    have hflag := congrArg Sequencer.flag hsettled
    exact hflag
  | call label reaction => cases reaction <;> rfl

/-- The run of the events before the look that finds the flag set is that of a sequencer without a
flag: it performs them one after the other, unless one of them fails. -/
theorem runEvents_stops (hreal : s.realtime = false) (h : StopsAfter s.flag es n) :
    let done := endOf ((es.take n).forM perform) s.unflagged
    (endOf (runEvents es) s).1.unflagged = done.1 ∧
    (endOf (runEvents es) s).2 = done.2.or (if n < es.length then some .cancelled else none) ∧
    performedFrom s es <+: es.take n ∧ (done.2 = none → performedFrom s es = es.take n) := by
  induction es generalizing s n with
  | nil =>
    rw [List.take_nil]
    exact ⟨rfl, rfl, List.prefix_rfl, fun _ => rfl⟩
  | cons e rest ih =>
    rw [runEvents_cons]
    unfold performedFrom
    rw [endOf_approach hreal e]
    cases n with
    | zero =>
      rw [h.zero]
      exact ⟨rfl, rfl, List.prefix_rfl, fun _ => rfl⟩
    | succ n =>
      obtain ⟨flag, hlook, hrest⟩ := h.succ
      let ready : Sequencer := { s with flag }
      have hreal' := (perform_stores e ready).realtime
      have hflag := endOf_perform_flag e ready
      have hperform : endOf (perform e) s.unflagged = _ := endOf_perform_unflagged e ready
      have hforM : endOf ((e :: rest.take n).forM perform) s.unflagged = _ := endOf_bind _ _ _
      rw [hlook, List.take_succ_cons, hforM, hperform, List.length_cons]
      dsimp only
      cases hnext : endOf (perform e) ready with
      | mk next err =>
        rw [hnext] at hreal' hflag
        cases err with
        | some err =>
          refine ⟨rfl, rfl, List.prefix_append [e] _, fun hnone => ?_⟩
          cases hnone
        | none =>
          have hstops : StopsAfter next.flag rest n := hflag ▸ hrest
          obtain ⟨hstate, herror, hprefix, hall⟩ := ih (hreal'.trans hreal) hstops
          simp only [Nat.add_lt_add_iff_right]
          exact ⟨hstate, herror, (List.prefix_cons_inj e).2 hprefix,
            fun hnone => congrArg (e :: ·) (hall hnone)⟩

/-- An event can only fail as a callback does. -/
theorem endOf_perform_error (e : Event) (s : Sequencer) :
    (endOf (perform e) s).2 = none ∨ (endOf (perform e) s).2 = some .callbackFailed := by
  obtain ⟨beat, action⟩ := e
  cases action with
  | «show» t =>
    have hshow : endOf (perform ⟨beat, .show t⟩) s = _ := endOf_showLyric t s
    rw [hshow]
    cases s.write? (shownLyric t) with
    | some s' => exact .inl rfl
    | none => exact .inr rfl
  | finish p => exact .inl rfl
  | call label reaction =>
    cases reaction with
    | fail => exact .inr rfl
    | nothing | cancel | schedule => exact .inl rfl

/-- When the sink has room for all lyrics, an event does not fail unless its callback does so
itself, and leaves the room. -/
theorem endOf_perform_ok (hroom : s.room = none) (he : e.fails = false) :
    (endOf (perform e) s).2 = none ∧ (endOf (perform e) s).1.room = none := by
  obtain ⟨beat, action⟩ := e
  cases action with
  | «show» t =>
    have hshow : endOf (perform ⟨beat, .show t⟩) s = _ := endOf_showLyric t s
    rw [hshow]
    unfold write?
    rw [hroom]
    split_ifs
    · exact ⟨rfl, hroom⟩
    · exact ⟨rfl, rfl⟩
  | finish p =>
    obtain ⟨promises, hsettled, -⟩ := s.settle_fst p (.ended beat)
    exact ⟨rfl, (congrArg room hsettled).trans hroom⟩
  | call label reaction =>
    cases reaction with
    | fail => cases he
    | nothing | cancel | schedule => exact ⟨rfl, hroom⟩

/-- Events that are performed one after the other can only fail as a callback does, and do not fail
when the sink has room for all lyrics and no callback fails itself. -/
theorem endOf_forM_error (es : List Event) (s : Sequencer) :
    ((endOf (es.forM perform) s).2 = none ∨
      (endOf (es.forM perform) s).2 = some .callbackFailed) ∧
    (s.room = none → (∀ e ∈ es, e.fails = false) → (endOf (es.forM perform) s).2 = none) := by
  induction es generalizing s with
  | nil => exact ⟨.inl rfl, fun _ _ => rfl⟩
  | cons e rest ih =>
    have herror := endOf_perform_error e s
    have hok := endOf_perform_ok (s := s) (e := e)
    have hforM : endOf ((e :: rest).forM perform) s = _ := endOf_bind _ _ _
    rw [hforM]
    cases hnext : endOf (perform e) s with
    | mk next err =>
      rw [hnext] at herror hok
      cases err with
      | none =>
        obtain ⟨hrest, hnone⟩ := ih next
        refine ⟨hrest, fun hroom hes => ?_⟩
        obtain ⟨he, hes⟩ := List.forall_mem_cons.1 hes
        exact hnone (hok hroom he).2 hes
      | some err =>
        refine ⟨herror, fun hroom hes => ?_⟩
        exact (hok hroom (hes e List.mem_cons_self)).1

end Run

/-! ## Runs in the order of beats -/

/-- A run that does not wait calls the first `n` events in a stable order of their beats when it
first finds the cancel flag set after `n` events, and all of them when there are no more. However
the sequencer has been used before, these are the events that have been added to it, in this order
but for their beats. Apart from the flag it becomes what these events make of it one after the
other, and the run is cancelled exactly when there are more. Otherwise one of them fails, which ends
the run; where the sink has room for all lyrics, none fails but by its own reaction. The log has
each call with its beat, and nothing is taken from what is scheduled, to which only callbacks
add. -/
theorem run_in_beat_order (tempo : Rat) (flag : Option CancelFlag) (before : List Command)
    {n : Nat} (h : StopsAfter ((new tempo false flag).obeyAll before).flag
      ((new tempo false flag).obeyAll before).ordered n) :
    let s := (new tempo false flag).obeyAll before
    let called := s.ordered.take n
    let done := endOf (called.forM perform) s.cleared.unflagged
    s.events = (new tempo false flag).addedIn before ∧
    IsStableSort s.events s.ordered ∧
    s.runAll.1.unflagged = done.1 ∧
    (done.2 = none ∧ s.performed = called ∧
        s.runAll.2 = (if n < s.events.length then some .cancelled else none) ∨
      done.2 = some .callbackFailed ∧ s.performed <+: called ∧
        s.runAll.2 = some .callbackFailed) ∧
    (s.room = none → (∀ e ∈ called, e.fails = false) → done.2 = none) ∧
    s.runAll.1.log = s.performed.filterMap Event.noted? ∧
    s.runAll.1.notes = s.notes ∧
    s.runAll.1.events = s.events ++ s.performed.filterMap Event.added? := by
  intro s called done
  have hadds : Adds (new tempo false flag) s _ := obeyAll_adds before
  have hworking : s.output = .working :=
    (obeyAll_progress (s := new tempo false flag) before).output
  have hsort := s.isStableSort_ordered
  have hstores := s.runAll_stores
  have hrun : s.runAll = endOf (runEvents s.ordered) s.cleared ∧
      s.performed = performedFrom s.cleared s.ordered := by
    rw [runAll_eq, performed, hworking]
    exact ⟨rfl, rfl⟩
  have hstops := runEvents_stops (s := s.cleared) hadds.realtime h
  rw [← hrun.1, ← hrun.2, hsort.perm.length_eq] at hstops
  obtain ⟨hstate, herror, hprefix, hall⟩ := hstops
  obtain ⟨hfailed, hok⟩ := endOf_forM_error called s.cleared.unflagged
  refine ⟨hadds.events, hsort, hstate, ?_, hok, hstores.log, hstores.notes, hstores.events⟩
  refine hfailed.imp (fun hnone => ?_) fun hfails => ?_
  · exact ⟨hnone, hall hnone, by rw [herror, hnone, Option.none_or]⟩
  · exact ⟨hfails, hprefix, by rw [herror, hfails, Option.some_or]⟩

/-- An event whose callback only notes that it has been called. -/
def callback (beat : Rat) (label : String) : Event :=
  ⟨beat, .call label.text .nothing⟩

/-- A run that is cancelled after the first of three events. Then an event is added that comes
before the other two, and the flag is put so that it is set after three more looks. -/
def lateAddition : List Command :=
  [.addCallback 0 "a".text .nothing, .addCallback 1 "b".text .nothing,
    .addCallback 1 "c".text .nothing, .putFlag (.setAfter 1), .run,
    .addCallback (1 / 2) "d".text .nothing, .putFlag (.setAfter 3)]

/-- The next run starts again from the first event and takes the new one in its turn. It is
cancelled before the last event, which is one of two at the same beat. -/
theorem run_in_beat_order_lateAddition :
    let s := (new 100 false (some .unset)).obeyAll lateAddition
    StopsAfter s.flag s.ordered 3 ∧
      s.performed = [callback 0 "a", callback (1 / 2) "d", callback 1 "b"] ∧
      s.runAll.1.log = [("a".text, 0), ("d".text, 1 / 2), ("b".text, 1)] ∧
      s.runAll.2 = some .cancelled ∧
      s.runAll.1.events =
        [callback 0 "a", callback 1 "b", callback 1 "c", callback (1 / 2) "d"] := by
  intro s
  -- The first three events are added in the order of their beats, so they run in that order.
  let first := (new 100 false (some .unset)).obeyAll (lateAddition.take 4)
  have hfirst : first.runAll = endOf (runEvents first.events) first.cleared :=
    (run_of_sorted rfl (by decide +kernel)).1
  have hs : s = ⟨100, false, .working, some (.setAfter 3), none, [],
      [callback 0 "a", callback 1 "b", callback 1 "c", callback (1 / 2) "d"], [], [],
      [("a".text, 0)]⟩ := by
    change (first.runAll.1.addEvent (callback (1 / 2) "d")).putFlag (.setAfter 3) = _
    rw [hfirst]
    rfl
  have hordered : s.ordered =
      [callback 0 "a", callback (1 / 2) "d", callback 1 "b", callback 1 "c"] := by
    refine s.isStableSort_ordered.unique ?_
    rw [hs]
    refine ⟨by decide +kernel, by decide +kernel, fun beat => ?_⟩
    by_cases hd : (1 / 2 : Rat) = beat
    · subst hd
      decide +kernel
    · simp only [callback, List.filter_cons, decide_eq_true_eq, if_neg hd]
  have hstops : StopsAfter s.flag s.ordered 3 := by
    rw [hordered, hs]
    exact stopsAfter_setAfter (by decide +kernel) 3
  obtain ⟨-, -, -, hcalled, hok, hlog, -, hevents⟩ :=
    run_in_beat_order 100 (some .unset) lateAddition hstops
  have hnone := hok (congrArg room hs) (hordered ▸ by decide +kernel)
  obtain ⟨-, hperformed, herror⟩ | ⟨hfails, -, -⟩ := hcalled
  · have hlist : s.performed = [callback 0 "a", callback (1 / 2) "d", callback 1 "b"] :=
      hperformed.trans (congrArg (List.take 3) hordered)
    have hstored : s.events = _ := congrArg events hs
    refine ⟨hstops, hlist, hlog.trans (congrArg _ hlist), herror.trans ?_, hevents.trans ?_⟩
    · exact if_pos (congrArg List.length hstored ▸ by decide)
    · exact (congrArg₂ (· ++ ·) hstored (congrArg _ hlist)).trans (List.append_nil _)
  · rw [hnone] at hfails
    cases hfails

end Sequencer

end SingAlong

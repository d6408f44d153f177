import SingAlong.Proofs.RepeatSections
import SingAlong.Proofs.Timeline
import SingAlong.Proofs.TreeShape
import SingAlong.Proofs.Voices

/-!
# A line compiled by itself

A line of music can be compiled as an element, to the sequence of what its own elements are compiled
to. It can also be compiled as a voice of these elements, which performs them in the order of the
repeats and leaves out what takes no time. Both read the elements one by one with the same table.

Without a finishing mark every element is performed once and in its place (`expandFrom_unfinished`).
If no note takes zero time, then what takes no time has no notes (`Music.Timely`), so leaving it out
changes nothing (`inTurn_timely`). So both schedule the same notes at the same beats
(`Compiler.compile_line_eq_voice`).
-/

namespace SingAlong

open Player (Adds)
open Music (IsMember IsCompiled)

/-- Elements without a finishing mark are performed in their order. -/
theorem expandFrom_unfinished {ns : List Node} (h : ∀ n ∈ ns, n.label ≠ .bar .finishRepeat)
    (s : RepeatState) (i : Nat) : expandFrom s i ns = List.range' i ns.length := by
  induction ns generalizing s i with
  | nil => rfl
  | cons n ns ih =>
    obtain ⟨hn, hns⟩ := List.forall_mem_cons.1 h
    have hstep : (s.step i n.label).1 = [] := by
      unfold RepeatState.step
      split
      next => rfl
      next hl => exact absurd hl hn
      next => rfl
      next => rfl
      next => rfl
    rw [expandFrom_cons, hstep, ih hns, List.length_cons, List.range'_succ]
    rfl

/-! ## Elements that take time -/

namespace Music

/-- A note or chord that takes time. -/
structure Lasts (m : Music) : Prop where
  isMember : m.IsMember
  time : 0 < m.duration.value

/-- A compiled element that takes time or has no notes. -/
structure Timely (m : Music) : Prop where
  isCompiled : m.IsCompiled
  time : 0 < m.duration.value ∨ ∀ beat, m.notesAt beat = []

/-- A note or chord that takes time is an element that does. -/
theorem Lasts.timely {m : Music} (h : m.Lasts) : m.Timely :=
  ⟨h.isMember.isCompiled, .inl h.time⟩

/-- The first one of some notes and chords that take time takes time. -/
theorem Lasts.firstDuration {ms : List Music} (hne : ms ≠ []) (h : ∀ m ∈ ms, m.Lasts) :
    0 < (firstDuration ms).value := by
  cases ms with
  | nil => exact absurd rfl hne
  | cons m ms => exact (h m List.mem_cons_self).time

/-- Leaving out the elements that take no time leaves the notes of the others where they are. -/
theorem inTurn_timely {ms : List Music} (h : ∀ m ∈ ms, m.Timely) (beat : Rat) :
    inTurn notesAt beat (ms.filter fun m => 0 < m.duration.value) = inTurn notesAt beat ms := by
  rw [inTurn_filter _ _ _ fun m hm => (h m hm).isCompiled.2]
  induction ms generalizing beat with
  | nil => rfl
  | cons m ms ih =>
    obtain ⟨hm, hms⟩ := List.forall_mem_cons.1 h
    rw [inTurn, inTurn, ih hms]
    split_ifs with htime
    · rfl
    · rw [hm.time.resolve_left htime]

end Music

open Music (Lasts Timely)

namespace Compiler

variable {c : Compiler} {table table' : AccidentalTable} {n : Node} {m : Music}

/-- No note of an element has a length of zero. -/
def NotesTakeTime (c : Compiler) (n : Node) : Prop :=
  ∀ k ∈ n :: n.descendants, k.kind = .note →
    ∀ factor ∈ (readSuffix k.lengthText).toOption, factor * c.header.length ≠ 0

instance (c : Compiler) (n : Node) : Decidable (c.NotesTakeTime n) :=
  inferInstanceAs (Decidable (∀ k ∈ n :: n.descendants, k.kind = .note →
    ∀ factor ∈ (readSuffix k.lengthText).toOption, factor * c.header.length ≠ 0))

/-- So it is for what stands in the element. -/
theorem NotesTakeTime.child (h : c.NotesTakeTime n) {k : Node} (hk : k ∈ n.children) :
    c.NotesTakeTime k := by
  refine List.forall_mem_cons.2 ⟨h k (List.mem_cons_of_mem n (Node.mem_descendants_of_mem hk)),
    fun j hj => h j (List.mem_cons_of_mem n ?_)⟩
  exact Node.descendants_trans hj n (Node.mem_descendants_of_mem hk)

/-- A note that has no length of zero is compiled to one that takes time. -/
theorem note_lasts {name : NoteName} (htime : c.NotesTakeTime n) (hl : n.label = .note name)
    (h : c.note name n table = .ok m table') : m.Lasts := by
  obtain ⟨factor, p, hfactor, hm⟩ := note_made h
  obtain ⟨hpositive, rfl⟩ := Music.mkNote_eq_ok.1 hm
  refine ⟨note_isMember h, lt_of_le_of_ne hpositive (Ne.symm ?_)⟩
  refine htime n List.mem_cons_self ?_ factor (toOption_eq_some.2 hfactor)
  rw [Node.kind, hl]
  rfl

/-- A note or chord without lengths of zero is compiled to one that takes time. -/
theorem compile_lasts (hshape : n.AllShaped) (htime : c.NotesTakeTime n)
    (hl : n.label = .chord ∨ ∃ name, n.label = .note name) (h : c.compile n table = .ok m table') :
    m.Lasts := by
  obtain ⟨l, s, t, ns⟩ := n
  rcases hl with hl | ⟨name, hl⟩
  · obtain rfl : l = .chord := hl
    obtain ⟨-, hlabels⟩ :
        ns.map Node.label ≠ [] ∧ ∀ l ∈ ns.map Node.label, ∃ name, l = .note name :=
      hshape _ List.mem_cons_self
    unfold compile at h
    obtain ⟨ms, t', hms, h⟩ := bind_ok h
    obtain ⟨hm, -⟩ := lift_ok h
    obtain ⟨hne, -, rfl⟩ := Music.mkChord_eq_ok.1 hm
    have hnotes : ∀ m ∈ ms, m.Lasts := by
      refine (compileAll_forall (fun k hk t m t' hm => ?_) hms).2
      obtain ⟨name, hname⟩ := hlabels k.label (List.mem_map_of_mem hk)
      obtain ⟨l, s, t₁, ks⟩ := k
      obtain rfl : l = .note name := hname
      unfold compile at hm
      exact note_lasts (htime.child hk) rfl hm
    exact ⟨Music.isMember_chord hne fun m hm => (hnotes m hm).isMember,
      Lasts.firstDuration hne hnotes⟩
  · obtain rfl : l = .note name := hl
    unfold compile at h
    exact note_lasts htime rfl h

/-- An element of a line without lengths of zero is compiled to one that takes time or has no
notes. -/
theorem compile_timely (hshape : n.AllShaped) (htime : c.NotesTakeTime n)
    (hl : n.label.IsElement ∨ ∃ t, n.label = .endOfLine t) (h : c.compile n table = .ok m table') :
    m.Timely := by
  have hsilence : Music.silence.Timely := ⟨Music.isCompiled_silence, .inr fun _ => rfl⟩
  cases hlabel : n.label with
  | note name => exact (compile_lasts hshape htime (.inr ⟨name, hlabel⟩) h).timely
  | chord => exact (compile_lasts hshape htime (.inl hlabel) h).timely
  | rest text =>
    obtain ⟨l, s, t, ns⟩ := n
    obtain rfl : l = .rest text := hlabel
    unfold compile at h
    obtain ⟨l, hm⟩ := rest_made h
    obtain ⟨hlength, rfl⟩ := Music.mkRest_eq_ok.1 hm
    exact ⟨⟨rfl, hlength⟩, .inr fun _ => rfl⟩
  | tuplet size =>
    obtain ⟨l, s, t, ns⟩ := n
    obtain rfl : l = .tuplet size := hlabel
    obtain ⟨-, hlabels⟩ : (ns.map Node.label).length = size.count ∧
        ∀ l ∈ ns.map Node.label, l = .chord ∨ ∃ name, l = .note name :=
      hshape _ List.mem_cons_self
    unfold compile at h
    obtain ⟨ms, t', hms, h⟩ := bind_ok h
    obtain ⟨hm, -⟩ := lift_ok h
    obtain ⟨hcount, -, rfl⟩ := Music.mkTuplet_eq_ok.1 hm
    -- A tuplet takes a multiple of the time of its first member, which takes some.
    have hmembers : ∀ m ∈ ms, m.Lasts := by
      refine (compileAll_forall (fun k hk t m t' hm => ?_) hms).2
      exact compile_lasts (hshape.of_mem (Node.mem_descendants_of_mem hk)) (htime.child hk)
        (hlabels k.label (List.mem_map_of_mem hk)) hm
    have hne : ms ≠ [] := List.ne_nil_of_length_pos (Nat.zero_lt_of_lt hcount.1)
    refine ⟨Music.isCompiled_tuplet hne fun m hm => (hmembers m hm).isMember, .inl ?_⟩
    have hpositive : 0 < Music.tupletTime ms.length := by
      unfold Music.tupletTime
      split_ifs <;> decide
    rw [Music.duration, Music.value_scale]
    exact mul_pos (Nat.cast_pos.2 hpositive) (Lasts.firstDuration hne hmembers)
  | bar b =>
    obtain ⟨l, s, t, ns⟩ := n
    obtain rfl : l = .bar b := hlabel
    unfold compile at h
    obtain ⟨_, t', -, h⟩ := bind_ok h
    cases h
    exact hsilence
  | endOfLine text =>
    obtain ⟨l, s, t, ns⟩ := n
    obtain rfl : l = .endOfLine text := hlabel
    unfold compile at h
    cases h
    exact hsilence
  | _ =>
    rw [hlabel] at hl
    rcases hl with hl | ⟨t, hl⟩
    · exact hl.elim
    · cases hl

/-! ## The two ways to compile a line -/

/-- The elements of a line are compiled one by one. -/
theorem compileLine_eq (c : Compiler) (ns : List Node) :
    c.compileLine ns = c.compileAll (ns.filter fun n => !n.label.isComment) := by
  induction ns with
  | nil =>
    unfold compileLine compileAll
    rfl
  | cons n ns ih =>
    unfold compileLine
    by_cases h : n.label.isComment
    · rw [if_pos h, ih, List.filter_cons_of_neg (by simpa using h)]
    · rw [if_neg h, ih, List.filter_cons_of_pos (by simpa using h), compileAll]

/-- A line is compiled to the sequence of its elements. -/
theorem compile_line (hl : n.label = .line) :
    c.compile n = c.compileAll n.lineElements >>= fun ms => pure (Music.sequence ms) := by
  unfold Node.lineElements
  rw [if_pos hl, ← compileLine_eq]
  obtain ⟨l, s, t, ns⟩ := n
  obtain rfl : l = .line := hl
  rw [compile]
  rfl

/-- The elements of a line, played one after the other: all of them, or those that take time as a
voice. -/
theorem adds_timely {ms : List Music} (h : ∀ m ∈ ms, m.Timely) (name : Text) (beat : Rat) :
    Adds ((Music.sequence ms).play name beat) ⟨Music.inTurn Music.notesAt beat ms, []⟩ ∧
      Adds ((Music.sequence (ms.filter fun m => 0 < m.duration.value)).play name beat)
        ⟨Music.inTurn Music.notesAt beat ms, []⟩ := by
  have hplay (ms : List Music) (h : ∀ m ∈ ms, m.Timely) :
      Adds ((Music.sequence ms).play name beat) ⟨Music.inTurn Music.notesAt beat ms, []⟩ := by
    have hsequence := Music.adds_sequence name Music.notesAt (fun _ _ => []) beat ms
      fun m hm b => Music.adds_element name b m (h m hm).isCompiled.1
    rwa [Music.inTurn_none] at hsequence
  refine ⟨hplay ms h, ?_⟩
  have hkept := hplay (ms.filter fun m => 0 < m.duration.value)
    fun m hm => h m (List.mem_of_mem_filter hm)
  rwa [Music.inTurn_timely h] at hkept

/-- The elements of a line are elements of music, and its end. -/
theorem lineElements_cases {line : Node} (hshape : line.AllShaped) (hn : n ∈ line.lineElements) :
    n ∈ line.children ∧ (n.label.IsElement ∨ ∃ t, n.label = .endOfLine t) := by
  unfold Node.lineElements at hn
  split_ifs at hn with hl
  · obtain ⟨hmem, hcomment⟩ := List.mem_filter.1 hn
    have hholds : line.label.Holds (line.children.map Node.label) := hshape line List.mem_cons_self
    rw [hl] at hholds
    obtain ⟨elements, ending, newline, hlabels, -, helements⟩ := hholds
    have hlabel := List.mem_map_of_mem (f := Node.label) hmem
    rw [hlabels, List.mem_append, List.mem_append, List.mem_singleton] at hlabel
    refine ⟨hmem, ?_⟩
    rcases hlabel with (hlabel | hlabel) | hlabel
    · exact .inl (helements _ hlabel)
    · obtain ⟨t, -, ht⟩ := Option.map_eq_some_iff.1 (Option.mem_toList.1 hlabel)
      rw [← ht] at hcomment
      cases hcomment
    · exact .inr ⟨newline, hlabel⟩
  · cases hn

/-- A voice of elements that can not be compiled has no music either. -/
theorem voice_of_error {ns : List Node} {e : CompileError} {after : AccidentalTable}
    (h : (c.compileAll ns).run (AccidentalTable.ofKey c.header.key) = .error e after) :
    c.voice ns [] = .error e := by
  unfold voice compileVoice
  rw [h]
  rfl

/-- A voice of elements without repeats is the sequence of those that take time. -/
theorem voice_of_ok {ns : List Node} {ms : List Music} {after : AccidentalTable}
    (h : (c.compileAll ns).run (AccidentalTable.ofKey c.header.key) = .ok ms after)
    (horder : expand ns = List.range' 0 ms.length) :
    c.voice ns [] =
      .ok (.component [Music.sequence (ms.filter fun m => 0 < m.duration.value)], 0) := by
  unfold voice compileVoice
  rw [h, horder]
  change Except.ok (Music.component [timeline ms _], 0) = _
  rw [timeline, pick_range]

/-- A line of a tune that is read, without a finishing mark and without lengths of zero, compiled by
itself or as a voice of its elements. Both succeed or both fail with the same error, and the table
is left as by compiling the elements one by one. Played from any beat on, both schedule the same
notes at the same beats, and they take the same time. -/
theorem compile_line_eq_voice {source : Text} {document line : Node}
    (h : readTune source = .ok document) (hline : line ∈ document.descendants)
    (hlabel : line.label = .line) (hrepeat : ∀ n ∈ line.children, n.label ≠ .bar .finishRepeat)
    (c : Compiler) (htime : c.NotesTakeTime line) :
    let table := AccidentalTable.ofKey c.header.key
    match (c.compile line).run table with
    | .error e after =>
      (c.compileAll line.lineElements).run table = .error e after ∧
        c.voice line.lineElements [] = .error e
    | .ok music after =>
      ∃ expressions voice, (c.compileAll line.lineElements).run table = .ok expressions after ∧
        c.voice line.lineElements [] = .ok (voice, 0) ∧
        music.duration.value = voice.duration.value ∧
        ∀ name beat, (music.scheduled name beat .unset).2 = none ∧
          music.scheduled name beat .unset = voice.scheduled name beat .unset := by
  intro table
  have hshape : line.AllShaped := (allShaped_of_readTune h).of_mem hline
  have horder : expand line.lineElements = List.range' 0 line.lineElements.length :=
    expandFrom_unfinished (fun n hn => hrepeat n (lineElements_cases hshape hn).1) _ _
  have hrun : (c.compile line).run table =
      (c.compileAll line.lineElements >>= fun ms => pure (Music.sequence ms)) table := by
    rw [compile_line hlabel]
    rfl
  rw [hrun]
  cases hall : c.compileAll line.lineElements table with
  | error e after =>
    rw [bind_of_error hall]
    exact ⟨hall, voice_of_error hall⟩
  | ok expressions after =>
    obtain ⟨hlength, htimely⟩ := compileAll_forall (fun n hn t m t' hm => by
      obtain ⟨hmem, hcases⟩ := lineElements_cases hshape hn
      exact compile_timely (hshape.of_mem (Node.mem_descendants_of_mem hmem)) (htime.child hmem)
        hcases hm) hall
    rw [← hlength] at horder
    rw [bind_of_ok hall]
    -- The voice leaves out what takes no time; that adds nothing to the duration or the schedule.
    refine ⟨expressions, _, hall, voice_of_ok hall horder, ?_, fun name beat => ?_⟩
    · calc (Music.sequence expressions).duration.value
          = Music.totalTime expressions := Music.duration_sequence expressions
        _ = Music.totalTime (expressions.filter fun m => 0 < m.duration.value) :=
          (Music.totalTime_filter expressions fun m hm => (htimely m hm).isCompiled.2).symm
        _ = (Music.sequence (expressions.filter fun m => 0 < m.duration.value)).duration.value :=
          (Music.duration_sequence _).symm
    · obtain ⟨hplain, hkept⟩ := adds_timely htimely name beat
      rw [Music.scheduled_of_adds hplain,
        Music.scheduled_of_adds (Music.adds_component_single hkept)]
      exact ⟨rfl, rfl⟩

/-- A line with an accidental that a bar ends, a rest that takes no time, endings without a repeat,
a chord and a tuplet. -/
def barredLine : Text :=
  "X:1\nT:t\nK:G\n^C [CE2] | z0 [1 (3C[ce]F |: C3 [2 z/2 || %end\n".text

/-- The line is compiled by itself to music that sounds like the voice of its elements. -/
theorem compile_line_eq_voice_barred :
    let c : Compiler := ⟨⟨1, "t".text, Header.defaultComposer, ⟨.major, 8⟩, 1, 1 / 8, .standard,
      [Header.defaultVoice]⟩, .piano⟩
    ∃ document line music after voice, readTune barredLine = .ok document ∧
      line ∈ document.descendants ∧ line.label = .line ∧
      (c.compile line).run (AccidentalTable.ofKey c.header.key) = .ok music after ∧
      c.voice line.lineElements [] = .ok (voice, 0) ∧
      music.scheduled [] 1 .unset = voice.scheduled [] 1 .unset := by
  intro c
  have hfound : (readTune barredLine).toOption.any fun document =>
      document.descendants.any fun line => line.label = .line ∧
        (∀ n ∈ line.children, n.label ≠ .bar .finishRepeat) ∧ c.NotesTakeTime line ∧
        (c.voice line.lineElements []).toOption.isSome := by
    decide +kernel
  obtain ⟨document, hdocument, hfound⟩ := (Option.any_eq_true _ _).1 hfound
  obtain ⟨line, hline, hfound⟩ := List.any_eq_true.1 hfound
  obtain ⟨hlabel, hrepeat, htime, hcompiled⟩ := of_decide_eq_true hfound
  rw [toOption_eq_some] at hdocument
  have hagree := compile_line_eq_voice hdocument hline hlabel hrepeat c htime
  dsimp only at hagree
  cases hrun : (c.compile line).run (AccidentalTable.ofKey c.header.key) with
  | error e after =>
    rw [hrun] at hagree
    rw [hagree.2] at hcompiled
    cases hcompiled
  | ok music after =>
    rw [hrun] at hagree
    obtain ⟨expressions, voice, -, hvoice, -, hplayed⟩ := hagree
    exact ⟨document, line, music, after, voice, hdocument, hline, hlabel, hrun, hvoice,
      (hplayed [] 1).2⟩

end Compiler

end SingAlong

import SingAlong.Proofs.Elements

/-!
# The notes of a voice

Playing a voice of a song schedules exactly the notes of its elements, in performance order and each
element at the beat at which those before it have ended (`Song.read_notes`). The timeline leaves out
the elements that take no time, so it has the same duration as all of them, and the lyrics of a
voice add no notes.
-/

namespace SingAlong

open Player (Adds)

namespace Music

/-- The notes of elements that are performed from a beat on: those of each element that takes time,
at its onset. -/
def performedNotes (beat : Rat) (performed : List Music) : List ScheduledNote :=
  performed.zipIdx.flatMap fun (m, k) =>
    if 0 < m.duration.value then m.notesAt (beat + onset performed k) else []

/-- Compiled elements that are performed one after the other add their notes. -/
theorem adds_performed (name : Text) (beat : Rat) {performed : List Music}
    (h : ∀ m ∈ performed, m.IsCompiled) :
    Adds ((sequence (performed.filter fun m => 0 < m.duration.value)).play name beat)
      ⟨performedNotes beat performed, []⟩ := by
  -- The elements that take no time are not in the sequence, and add nothing where they are.
  have hsequence := adds_sequence name notesAt (fun _ _ => []) beat
    (performed.filter fun m => 0 < m.duration.value)
    fun m hm b => adds_element name b m (h m (List.mem_of_mem_filter hm)).1
  rw [inTurn_none, inTurn_filter _ _ _ fun m hm => (h m hm).2, inTurn_eq_flatMap] at hsequence
  exact hsequence

end Music

open Music (performedNotes)

namespace Compiler

/-- What is picked are entries of the list. -/
theorem mem_of_mem_pick {α : Type} {xs : List α} {order : List Nat} :
    ∀ x ∈ pick xs order, x ∈ xs := by
  intro x hx
  obtain ⟨i, -, hi⟩ := List.mem_filterMap.1 hx
  rw [List.getElem?_toArray] at hi
  exact List.mem_of_getElem? hi

/-- Each index of a list picks its entry. -/
theorem map_some_pick {α : Type} {xs : List α} {order : List Nat}
    (h : ∀ i ∈ order, i < xs.length) : (pick xs order).map some = order.map (xs[·]?) := by
  unfold pick
  induction order with
  | nil => rfl
  | cons i order ih =>
    have hi := h i List.mem_cons_self
    have hrest := ih fun j hj => h j (List.mem_cons_of_mem i hj)
    have hentry : xs.toArray[i]? = some xs[i] := by
      rw [List.getElem?_toArray, List.getElem?_eq_getElem hi]
    rw [List.filterMap_cons_some hentry, List.map_cons, hrest, List.map_cons,
      List.getElem?_eq_getElem hi]

/-- A list is picked from itself in its order. -/
theorem pick_range {α : Type} (xs : List α) : pick xs (List.range' 0 xs.length) = xs := by
  refine List.map_injective_iff.2 (Option.some_injective α) ?_
  rw [map_some_pick fun i hi => by simpa using hi]
  exact List.ext_getElem? fun i => by
    by_cases hi : i < xs.length <;> simp [hi]

end Compiler

namespace Slot

/-- The text that a slot is displayed with, between the slots before and after it. -/
def shownText (before : List Slot) (s : Slot) (after : List Slot) : Text :=
  match s with
  | syllable t => marked before t after
  | _ => blank.text

/-- The length that a slot is displayed with, when its own length is extended to this one. -/
def shownLength (s : Slot) (l : Length) : Length :=
  match s with
  | extend | newline => .whole 0
  | _ => l

/-- A lyric is made for a slot, with its text and its length. -/
theorem lyric_made {before after : List Slot} {s : Slot} {l : Length} {m : Music}
    (h : s.lyric before l after = .ok m) :
    Music.mkLyric (s.shownText before after) (s.shownLength l) = .ok m := by
  cases s <;> exact h

/-- A slot is displayed as a lyric. -/
theorem lyric_ok {before after : List Slot} {s : Slot} {l : Length} {m : Music}
    (h : s.lyric before l after = .ok m) :
    m = .lyric (s.shownText before after) (s.shownLength l) :=
  (Music.mkLyric_eq_ok.1 (lyric_made h)).2.2

/-- A lyric is made for the first slot, unless it is a last one that takes no time, and then the
others are displayed, on the same line unless the slot ends it. -/
theorem displayFrom_made {before slots : List Slot} {s : Slot} {d : Length} {lengths : List Length}
    {ms : List Music} (h : displayFrom before (s :: slots) (d :: lengths) = .ok ms) :
    ∃ l, extended? d slots lengths = some l ∧
      ((slots = [] ∧ s.isIdle l ∧ ms = []) ∨
        ¬(slots = [] ∧ s.isIdle l) ∧ ∃ m rest, s.lyric before l slots = .ok m ∧
          displayFrom (if s = newline then [] else before ++ [s]) slots lengths = .ok rest ∧
          ms = m :: rest) := by
  unfold displayFrom at h
  split at h
  next => cases h
  next l hl =>
    refine ⟨l, hl, ?_⟩
    by_cases hlast : slots.isEmpty && s.isIdle l
    · rw [if_pos hlast] at h
      cases h
      obtain ⟨hempty, hidle⟩ := Bool.and_eq_true_iff.1 hlast
      exact .inl ⟨List.isEmpty_iff.1 hempty, hidle, rfl⟩
    · rw [if_neg hlast] at h
      obtain ⟨m, hm, h⟩ := bind_eq_ok.1 h
      obtain ⟨rest, hrest, h⟩ := bind_eq_ok.1 h
      cases h
      refine .inr ⟨?_, m, rest, mapError_eq_ok.1 hm, hrest, rfl⟩
      rintro ⟨rfl, hidle⟩
      exact hlast hidle

/-- The first slot is displayed with its text and length, unless it is a last one that takes no
time, and then the others are. -/
theorem displayFrom_cons {before slots : List Slot} {s : Slot} {d : Length} {lengths : List Length}
    {ms : List Music} (h : displayFrom before (s :: slots) (d :: lengths) = .ok ms) :
    ∃ l, extended? d slots lengths = some l ∧
      ((slots = [] ∧ s.isIdle l ∧ ms = []) ∨
        ∃ before' rest, displayFrom before' slots lengths = .ok rest ∧
          ms = .lyric (s.shownText before slots) (s.shownLength l) :: rest) := by
  obtain ⟨l, hl, hidle | ⟨-, m, rest, hm, hrest, rfl⟩⟩ := displayFrom_made h
  · exact ⟨l, hl, .inl hidle⟩
  · exact ⟨l, hl, .inr ⟨_, rest, hrest, by rw [lyric_ok hm]⟩⟩

/-- What each slot is displayed as, all that is displayed is. -/
theorem displayFrom_forall {P : Music → Prop} {slots : List Slot}
    (hlyric : ∀ {before after : List Slot} {s : Slot} {l : Length} {m : Music},
      s.lyric before l after = .ok m → P m)
    {before : List Slot} {lengths : List Length} {ms : List Music}
    (h : displayFrom before slots lengths = .ok ms) : ∀ m ∈ ms, P m := by
  induction slots generalizing before lengths ms with
  | nil =>
    unfold displayFrom at h
    cases h
    exact List.forall_mem_nil P
  | cons s slots ih =>
    cases lengths with
    | nil => cases h
    | cons d lengths =>
      obtain ⟨l, -, ⟨-, -, rfl⟩ | ⟨-, m, rest, hm, hrest, rfl⟩⟩ := displayFrom_made h
      · exact List.forall_mem_nil P
      · exact List.forall_mem_cons.2 ⟨hlyric hm, ih hrest⟩

/-- Slots are displayed as lyrics. -/
theorem displayFrom_lyrics {before slots : List Slot} {lengths : List Length} {ms : List Music}
    (h : displayFrom before slots lengths = .ok ms) : ∀ m ∈ ms, ∃ t l, m = .lyric t l :=
  displayFrom_forall (fun h => ⟨_, _, lyric_ok h⟩) h

end Slot

namespace Music

/-- A sequence of lyrics adds them, and no notes. -/
theorem adds_lyrics (name : Text) (beat : Rat) {ms : List Music}
    (h : ∀ m ∈ ms, ∃ t l, m = .lyric t l) :
    Adds ((sequence ms).play name beat) ⟨[], inTurn (shownLyrics name) beat ms⟩ := by
  have hsequence := adds_sequence name (fun _ _ => []) (shownLyrics name) beat ms fun m hm b => by
    obtain ⟨t, l, rfl⟩ := h m hm
    exact adds_lyric_text name b t l
  rw [inTurn_none] at hsequence
  exact hsequence

end Music

/-- Playing a voice of a song that is read schedules the notes of its elements, in performance order
and each element at the beat at which those before it have ended, and no other notes. The elements
that are performed are those that the performance order names. The notes are a part of the voice of
their own, which takes the time of all elements, and lyrics stand before them if there are any. -/
theorem Song.read_notes {source : Text} {instrument : Instrument} {song : Song} {name : Text}
    {music : Music} (h : Song.read source instrument = .ok song)
    (hv : (name, music) ∈ song.voices) :
    ∃ document body parts expressions performed notes,
      readTune source = .ok document ∧ document.first? .body = some body ∧
      (name, parts) ∈ body.voiceParts ∧
      Compiler.compileVoice ⟨song.header, instrument⟩ parts.elements = .ok expressions ∧
      performed.map some = (expand parts.elements).map (expressions[·]?) ∧
      (∀ voice beat, (music.scheduled voice beat .unset).1.notes = performedNotes beat performed ∧
        (music.scheduled voice beat .unset).2 = none) ∧
      (if parts.lyrics = [] then music = .component [notes]
        else ∃ text, music = .component [text, notes]) ∧
      (∀ voice beat, notes.scheduled voice beat .unset =
        (⟨performedNotes beat performed, []⟩, none)) ∧
      notes.duration.value = Music.totalTime performed := by
  obtain ⟨document, body, parts, expressions, hread, hbody, hparts, hexpressions, hlength,
    hcompiled, horder, hmusic⟩ := Song.read_music h hv
  rw [← hlength] at horder
  have hperformed : ∀ m ∈ Compiler.pick expressions (expand parts.elements), m.IsCompiled :=
    fun m hm => hcompiled m (Compiler.mem_of_mem_pick m hm)
  have hmap := Compiler.map_some_pick horder
  have hadds := fun name beat => Music.adds_performed name beat hperformed
  have hduration := Music.totalTime_filter _ fun m hm => (hperformed m hm).2
  rw [← Music.duration_sequence] at hduration
  -- The notes are the last part; lyrics before them add no notes.
  obtain ⟨hparted, hparts'⟩ : (∀ voice beat, ∃ lyrics, Adds (music.play voice beat)
        ⟨performedNotes beat (Compiler.pick expressions (expand parts.elements)), lyrics⟩) ∧
      (if parts.lyrics = [] then music = .component
          [Compiler.timeline expressions (expand parts.elements)]
        else ∃ text, music = .component
          [text, Compiler.timeline expressions (expand parts.elements)]) := by
    rcases hmusic with ⟨hnone, rfl⟩ | ⟨hsome, shown, hshown, rfl⟩
    · rw [if_pos hnone]
      exact ⟨fun voice beat => ⟨[], Music.adds_component_single (hadds voice beat)⟩, rfl⟩
    · rw [if_neg hsome]
      refine ⟨fun voice beat => ?_, _, rfl⟩
      have hadded := Music.adds_lyrics voice beat (Slot.displayFrom_lyrics hshown)
      have hboth := Music.adds_component hadded (hadds voice beat)
      rw [Schedule.append_eq, List.nil_append, List.append_nil] at hboth
      exact ⟨_, hboth⟩
  refine ⟨document, body, parts, expressions, _, _, hread, hbody, hparts, hexpressions, hmap,
    fun voice beat => ?_, hparts', fun voice beat => Music.scheduled_of_adds (hadds voice beat),
    hduration⟩
  obtain ⟨lyrics, hadded⟩ := hparted voice beat
  rw [Music.scheduled_of_adds hadded]
  exact ⟨rfl, rfl⟩

/-- A repeat with two endings, a chord, a tuplet and lyrics. -/
def repeated : Text :=
  "X:1\nT:t\nL:1/4\nK:C\n|: C [EG2] [1 D/2 :| [2 (3ab[ce] z2 |\nw: la la -".text

/-- The notes of a voice with repeats, chords and tuplets are scheduled in performance order. -/
theorem Song.read_notes_repeated :
    ∃ song name music, Song.read repeated .piano = .ok song ∧ (name, music) ∈ song.voices ∧
      ∃ performed, ∀ voice beat,
        (music.scheduled voice beat .unset).1.notes = performedNotes beat performed ∧
          (music.scheduled voice beat .unset).2 = none := by
  obtain ⟨song, name, music, h, hv, -⟩ := Song.exists_voice repeated .piano (fun _ _ => true)
    (by decide +kernel)
  obtain ⟨-, -, -, -, performed, -, -, -, -, -, -, hnotes, -⟩ := Song.read_notes h hv
  exact ⟨song, name, music, h, hv, performed, hnotes⟩

end SingAlong

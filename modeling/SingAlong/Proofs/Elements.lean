import SingAlong.Proofs.Alteration
import SingAlong.Proofs.Body
import SingAlong.Proofs.Schedule
import SingAlong.Song

/-!
# The elements of a voice

What the voices of a song are compiled from, when the song is read from a source. The elements of a
voice are those of a score and ends of lines (`voiceParts_elements`), and each is compiled to a
rest, a note or chord, or a tuplet of such, with a duration that is not negative
(`Compiler.compileVoice_elements`). The performance order has no index without an element
(`expand_lt`). `Song.read_voice` says which elements and lyrics a voice of a song is compiled from.
-/

namespace SingAlong

open Score (Note Suffix Chord Member Element Part)

/-! ## Compiling elements -/

namespace Music

/-- A list can be stretched when each of its expressions can. -/
theorem areStretchable_iff (ms : List Music) : areStretchable ms ↔ ∀ m ∈ ms, m.isStretchable := by
  induction ms with
  | nil => exact ⟨fun _ => nofun, fun _ => rfl⟩
  | cons m ms ih => rw [areStretchable, Bool.and_eq_true, ih, List.forall_mem_cons]

/-- A note or chord whose duration is a fraction that is not negative. -/
def IsMember (m : Music) : Prop :=
  m.isStretchable ∧ 0 ≤ m.duration.value ∧ m.duration.isFraction

/-- A compiled element, whose duration is not negative. -/
def IsCompiled (m : Music) : Prop :=
  m.isElement ∧ 0 ≤ m.duration.value

/-- A note or chord is an element. -/
theorem IsMember.isCompiled {m : Music} (h : m.IsMember) : m.IsCompiled := by
  obtain ⟨hstretchable, hduration, -⟩ := h
  refine ⟨?_, hduration⟩
  cases m <;> first | exact hstretchable | cases hstretchable

/-- The first duration of members is a fraction that is not negative. -/
theorem firstDuration_members {ms : List Music} (hne : ms ≠ []) (h : ∀ m ∈ ms, m.IsMember) :
    0 ≤ (firstDuration ms).value ∧ (firstDuration ms).isFraction := by
  cases ms with
  | nil => exact absurd rfl hne
  | cons m ms => exact (h m List.mem_cons_self).2

/-- A multiple of a length that is not negative is not negative. -/
theorem scale_nonneg (n : Nat) {l : Length} (h : 0 ≤ l.value) : 0 ≤ (l.scale n).value := by
  rw [value_scale]
  exact mul_nonneg n.cast_nonneg h

/-- The notes of a chord make it one. -/
theorem isMember_chord {ms : List Music} (hne : ms ≠ []) (h : ∀ m ∈ ms, m.IsMember) :
    (chord ms).IsMember :=
  ⟨(areStretchable_iff ms).2 fun m hm => (h m hm).1, firstDuration_members hne h⟩

/-- The members of a tuplet make it an element. -/
theorem isCompiled_tuplet {ms : List Music} (hne : ms ≠ []) (h : ∀ m ∈ ms, m.IsMember) :
    (tuplet ms).IsCompiled := by
  obtain ⟨hduration, hfraction⟩ := firstDuration_members hne h
  have hstretchable := (areStretchable_iff ms).2 fun m hm => (h m hm).1
  exact ⟨Bool.and_eq_true_iff.2 ⟨hfraction, hstretchable⟩, scale_nonneg _ hduration⟩

/-- The rest that takes no time is an element. -/
theorem isCompiled_silence : silence.IsCompiled :=
  ⟨rfl, le_refl 0⟩

end Music

open Music (IsMember IsCompiled)

/-- An element of a voice: one of a score, or the end of a line. -/
def Node.IsVoiceElement (n : Node) : Prop :=
  (∃ e : Element, n.unplaced = e.node) ∨ ∃ t, n.label = .endOfLine t

namespace Compiler

variable {c : Compiler} {table table' : AccidentalTable} {n : Node} {m : Music}

/-- The length of a note or rest is its suffix times the default length. -/
theorem length_factor {l : Length} (h : c.length n table = .ok l table') :
    ∃ factor, readSuffix n.lengthText = .ok factor ∧ l = .fraction (factor * c.header.length) := by
  obtain ⟨factor, t, hfactor, h⟩ := bind_ok h
  cases h
  exact ⟨factor, (lift_ok hfactor).1, rfl⟩

/-- A note is made when one is compiled, with its suffix times the default length. -/
theorem note_made {name : NoteName} (h : c.note name n table = .ok m table') :
    ∃ factor p, readSuffix n.lengthText = .ok factor ∧
      Music.mkNote (.fraction (factor * c.header.length)) p c.instrument = .ok m := by
  obtain ⟨t, h⟩ : ∃ t, c.sound name n t = .ok m table' := by
    cases ha : n.accidental? with
    | none => exact ⟨_, note_plain ha ▸ h⟩
    | some a => exact ⟨_, note_accidental ha ▸ h⟩
  obtain ⟨t₁, t₂, -, h⟩ := bind_ok h
  obtain ⟨l, t₃, hl, h⟩ := bind_ok h
  obtain ⟨factor, hfactor, rfl⟩ := length_factor hl
  exact ⟨factor, _, hfactor, (lift_ok h).1⟩

/-- A note is compiled to one. -/
theorem note_isMember {name : NoteName} (h : c.note name n table = .ok m table') : m.IsMember := by
  obtain ⟨factor, p, -, hm⟩ := note_made h
  obtain ⟨hl, rfl⟩ := Music.mkNote_eq_ok.1 hm
  exact ⟨rfl, hl, rfl⟩

/-- A rest is made when one is compiled. -/
theorem rest_made (h : c.rest n table = .ok m table') : ∃ l, Music.mkRest l = .ok m := by
  obtain ⟨l, t, -, h⟩ := bind_ok h
  exact ⟨l, (lift_ok h).1⟩

/-- A rest is compiled to one. -/
theorem rest_isCompiled (h : c.rest n table = .ok m table') : m.IsCompiled := by
  obtain ⟨l, hm⟩ := rest_made h
  obtain ⟨hl, rfl⟩ := Music.mkRest_eq_ok.1 hm
  exact ⟨rfl, hl⟩

/-- What each element of a list is compiled to, all of them are. -/
theorem compileAll_forall {P : Music → Prop} {ns : List Node} {ms : List Music}
    (hn : ∀ n ∈ ns, ∀ t m t', c.compile n t = .ok m t' → P m)
    (h : c.compileAll ns table = .ok ms table') : ms.length = ns.length ∧ ∀ m ∈ ms, P m := by
  induction ns generalizing table ms with
  | nil =>
    unfold compileAll at h
    cases h
    exact ⟨rfl, List.forall_mem_nil P⟩
  | cons n ns ih =>
    unfold compileAll at h
    obtain ⟨m, t, hm, h⟩ := bind_ok h
    obtain ⟨rest, t', hrest, h⟩ := bind_ok h
    cases h
    obtain ⟨hlength, hall⟩ := ih (fun n' hn' => hn n' (List.mem_cons_of_mem n hn')) hrest
    refine ⟨congrArg Nat.succ hlength, List.forall_mem_cons.2 ⟨?_, hall⟩⟩
    exact hn n List.mem_cons_self _ _ _ hm

/-- A note of a score is compiled to a note. -/
theorem compile_note {note : Note} (hn : n.unplaced = note.node)
    (h : c.compile n table = .ok m table') : m.IsMember := by
  obtain ⟨l, s, t, ns⟩ := n
  obtain rfl : l = .note note.name := (Node.mk.inj hn).1
  unfold compile at h
  exact note_isMember h

/-- A chord of a score is compiled to a chord. -/
theorem compile_chord {chord : Chord} (hn : n.unplaced = chord.node)
    (h : c.compile n table = .ok m table') : m.IsMember := by
  obtain ⟨l, s, t, ns⟩ := n
  obtain rfl : l = .chord := (Node.mk.inj hn).1
  rw [Node.unplaced_mk] at hn
  have hnotes : ns.map Node.unplaced = chord.notes.map Note.node := (Node.mk.inj hn).2.2.2
  unfold compile at h
  obtain ⟨ms, t', hms, h⟩ := bind_ok h
  obtain ⟨hm, -⟩ := lift_ok h
  obtain ⟨hne, -, rfl⟩ := Music.mkChord_eq_ok.1 hm
  -- The children of the node are those of the chord, which are notes.
  refine Music.isMember_chord hne (compileAll_forall (fun n' hn' t m t' hm => ?_) hms).2
  have hmem := List.mem_map_of_mem (f := Node.unplaced) hn'
  rw [hnotes] at hmem
  obtain ⟨note, -, hnote⟩ := List.mem_map.1 hmem
  exact compile_note hnote.symm hm

/-- A note or chord of a score is compiled to one. -/
theorem compile_member {member : Member} (hn : n.unplaced = member.node)
    (h : c.compile n table = .ok m table') : m.IsMember := by
  cases member with
  | note note => exact compile_note hn h
  | chord chord => exact compile_chord hn h

/-- An element of a score is compiled to an element. -/
theorem compile_element {e : Element} (hn : n.unplaced = e.node)
    (h : c.compile n table = .ok m table') : m.IsCompiled := by
  cases e with
  | member member => exact (compile_member hn h).isCompiled
  | rest suffix =>
    obtain ⟨l, s, t, ns⟩ := n
    obtain rfl : l = .rest ['z'] := (Node.mk.inj hn).1
    unfold compile at h
    exact rest_isCompiled h
  | tuplet tuplet =>
    obtain ⟨l, s, t, ns⟩ := n
    obtain rfl : l = .tuplet tuplet.size := (Node.mk.inj hn).1
    rw [Element.node, Node.unplaced_mk] at hn
    have hmembers : ns.map Node.unplaced = tuplet.members.map Member.node :=
      (Node.mk.inj hn).2.2.2
    unfold compile at h
    obtain ⟨ms, t', hms, h⟩ := bind_ok h
    obtain ⟨hm, -⟩ := lift_ok h
    obtain ⟨hcount, -, rfl⟩ := Music.mkTuplet_eq_ok.1 hm
    have hne := List.ne_nil_of_length_pos (Nat.zero_lt_of_lt hcount.1)
    refine Music.isCompiled_tuplet hne (compileAll_forall (fun n' hn' t m t' hm => ?_) hms).2
    have hmem := List.mem_map_of_mem (f := Node.unplaced) hn'
    rw [hmembers] at hmem
    obtain ⟨member, -, hmember⟩ := List.mem_map.1 hmem
    exact compile_member hmember.symm hm
  | bar b =>
    obtain ⟨l, s, t, ns⟩ := n
    obtain rfl : l = .bar b := (Node.mk.inj hn).1
    unfold compile at h
    obtain ⟨_, t', -, h⟩ := bind_ok h
    cases h
    exact Music.isCompiled_silence

/-- The elements of a voice are compiled one by one. -/
theorem length_compileVoice {elements : List Node} {ms : List Music}
    (h : c.compileVoice elements = .ok ms) : ms.length = elements.length := by
  unfold compileVoice at h
  split at h
  next ms' table' hrun =>
    cases h
    exact (compileAll_forall (P := fun _ => True) (fun _ _ _ _ _ _ => trivial) hrun).1
  next => cases h

/-- The elements of a voice are compiled one by one, each to an element. -/
theorem compileVoice_elements {elements : List Node} {ms : List Music}
    (hn : ∀ n ∈ elements, n.IsVoiceElement) (h : c.compileVoice elements = .ok ms) :
    ms.length = elements.length ∧ ∀ m ∈ ms, m.IsCompiled := by
  unfold compileVoice at h
  split at h
  next ms' table' hrun =>
    cases h
    refine compileAll_forall (fun n hmem t m t' hm => ?_) hrun
    -- The end of a line is compiled to silence, as a bar is.
    rcases hn n hmem with ⟨e, he⟩ | ⟨text, hl⟩
    · exact compile_element he hm
    · obtain ⟨l, s, t₁, ns⟩ := n
      obtain rfl : l = .endOfLine text := hl
      unfold compile at hm
      cases hm
      exact Music.isCompiled_silence
  next => cases h

end Compiler

/-! ## The performance order -/

namespace RepeatState

variable {s : RepeatState} {i : Nat}

/-- What is performed again after an element are elements before it. -/
theorem lt_of_mem_replay (h : ∀ e ∈ s.firstEnding, e ≤ i) : ∀ j ∈ s.replay i, j < i := by
  intro j hj
  unfold replay at hj
  split at hj
  next =>
    rw [List.mem_range'_1] at hj
    omega
  next ending hending =>
    have hle := h ending hending
    rw [List.mem_range'_1] at hj
    omega

/-- After an element only elements before it are performed again, and a first ending does not stand
after it. -/
theorem step_le (h : ∀ e ∈ s.firstEnding, e ≤ i) (label : Label) :
    (∀ j ∈ (s.step i label).1, j < i) ∧ ∀ e ∈ (s.step i label).2.firstEnding, e ≤ i := by
  unfold step
  split
  · exact ⟨nofun, h⟩
  · exact ⟨lt_of_mem_replay h, nofun⟩
  · refine ⟨nofun, ?_⟩
    rintro _ ⟨⟩
    exact le_refl i
  · refine ⟨nofun, ?_⟩
    split_ifs
    · exact h
    · exact h
  · exact ⟨nofun, h⟩

end RepeatState

/-- The performance order from an index on has no index behind the elements. -/
theorem expandFrom_lt {s : RepeatState} {i : Nat} (ns : List Node)
    (h : ∀ e ∈ s.firstEnding, e ≤ i) : ∀ j ∈ expandFrom s i ns, j < i + ns.length := by
  induction ns generalizing s i with
  | nil => exact nofun
  | cons n rest ih =>
    intro j hj
    obtain ⟨hagain, hending⟩ := RepeatState.step_le h n.label
    have hrest := ih (i := i + 1) fun e he => Nat.le_succ_of_le (hending e he)
    rw [List.length_cons]
    -- An index is that of the element itself, one that is performed again, or a later one.
    rcases List.mem_append.1 hj with hj | hj
    · rcases List.mem_cons.1 hj with rfl | hj
      · omega
      · have hlt := hagain j hj
        omega
    · have hlt := hrest j hj
      omega

/-- The performance order has only indices of elements. -/
theorem expand_lt (elements : List Node) : ∀ j ∈ expand elements, j < elements.length := by
  have hlt := expandFrom_lt (s := .initial) (i := 0) elements nofun
  rwa [Nat.zero_add] at hlt

/-! ## The voices of a song -/

/-- The elements of a voice to which some are added are those that it had, and the new ones. -/
theorem VoiceParts.add_elements {P : Node → Prop} {name : Text} {elements lyrics : List Node}
    {vs : List (Text × VoiceParts)} (hvs : ∀ v ∈ vs, ∀ n ∈ v.2.elements, P n)
    (helements : ∀ n ∈ elements, P n) :
    ∀ v ∈ VoiceParts.add name elements lyrics vs, ∀ n ∈ v.2.elements, P n := by
  induction vs with
  | nil => exact List.forall_mem_singleton.2 helements
  | cons v vs ih =>
    obtain ⟨hv, hvs⟩ := List.forall_mem_cons.1 hvs
    unfold VoiceParts.add
    split_ifs
    · exact List.forall_mem_cons.2 ⟨List.forall_mem_append.2 ⟨hv, helements⟩, hvs⟩
    · exact List.forall_mem_cons.2 ⟨hv, ih hvs⟩

/-- The elements of the voices of a body are those of its lines, without comments. -/
theorem splitVoices_elements {P : Node → Prop} {current : Text} {vs : List (Text × VoiceParts)}
    {ns : List Node} (hvs : ∀ v ∈ vs, ∀ n ∈ v.2.elements, P n)
    (hns : ∀ line ∈ ns, line.label = .line →
      ∀ n ∈ line.children, n.label.isComment = false → P n) :
    ∀ v ∈ splitVoices current vs ns, ∀ n ∈ v.2.elements, P n := by
  induction ns generalizing current vs with
  | nil => exact hvs
  | cons line rest ih =>
    obtain ⟨hline, hrest⟩ := List.forall_mem_cons.1 hns
    unfold splitVoices
    split
    · exact ih hvs hrest
    next hl =>
      refine ih (VoiceParts.add_elements hvs fun n hn => ?_) hrest
      obtain ⟨hmem, hcomment⟩ := List.mem_filter.1 hn
      exact hline hl n hmem (by rwa [Bool.not_eq_true'] at hcomment)
    · exact ih (VoiceParts.add_elements hvs nofun) hrest
    · exact ih hvs hrest

/-- A child of a line of a score is an element, the comment, or the end of the line. -/
theorem Score.Line.child_cases {l : Score.Line} {line n : Node} (hl : line.unplaced = l.node)
    (hn : n ∈ line.children) :
    (∃ e : Element, n.unplaced = e.node) ∨ (∃ c : Score.Comment, n.unplaced = c.node) ∨
      n.unplaced = Node.leaf (.endOfLine Text.lineEnd) := by
  have hnode := List.mem_map_of_mem (f := Node.unplaced) hn
  rw [← line.children_unplaced, hl] at hnode
  rcases List.mem_append.1 hnode with hnode | hnode
  · rcases List.mem_append.1 hnode with hnode | hnode
    · obtain ⟨e, -, he⟩ := List.mem_map.1 hnode
      exact .inl ⟨e, he.symm⟩
    · obtain ⟨c, -, hc⟩ := Option.map_eq_some_iff.1 (Option.mem_toList.1 hnode)
      exact .inr (.inl ⟨c, hc.symm⟩)
  · exact .inr (.inr (List.mem_singleton.1 hnode))

/-- An element of a line of a score, or the end of a line. -/
def Node.IsLineElement (n : Node) : Prop :=
  (∃ e : Element, n.unplaced = e.node) ∨ n.unplaced = leaf (.endOfLine Text.lineEnd)

/-- What is in a line is in a voice. -/
theorem Node.IsLineElement.isVoiceElement {n : Node} (h : n.IsLineElement) :
    n.IsVoiceElement := by
  refine h.imp_right fun hn => ⟨Text.lineEnd, ?_⟩
  rw [← n.label_unplaced, hn]
  rfl

/-- The parts of a body of a score. -/
theorem exists_part {body : Node} {parts : List Part}
    (hbody : body.unplaced = .unread .body (parts.map Part.node)) {n : Node}
    (hn : n ∈ body.children) : ∃ p : Part, n.unplaced = p.node := by
  have hmem := List.mem_map_of_mem (f := Node.unplaced) hn
  rw [← body.children_unplaced, hbody] at hmem
  obtain ⟨p, -, hp⟩ := List.mem_map.1 hmem
  exact ⟨p, hp.symm⟩

/-- The elements of a voice of a body of a score are those of its lines. -/
theorem voiceParts_lineElements {body : Node} {parts : List Part}
    (hbody : body.unplaced = .unread .body (parts.map Part.node)) :
    ∀ v ∈ body.voiceParts, ∀ n ∈ v.2.elements, n.IsLineElement := by
  refine splitVoices_elements nofun fun line hmem hlabel n hn hcomment => ?_
  obtain ⟨p, hp⟩ := exists_part hbody hmem
  have hpartLabel : p.node.label = .line := by rw [← hp, line.label_unplaced, hlabel]
  obtain ⟨l, rfl⟩ : ∃ l, p = .line l := by
    cases p with
    | line l => exact ⟨l, rfl⟩
    | _ => cases hpartLabel
  rcases Score.Line.child_cases hp hn with he | ⟨c, hc⟩ | hend
  · exact .inl he
  · rw [← n.label_unplaced, hc] at hcomment
    cases hcomment
  · exact .inr hend

/-- The elements of a voice of a body of a score. -/
theorem voiceParts_elements {body : Node} {parts : List Part}
    (hbody : body.unplaced = .unread .body (parts.map Part.node)) :
    ∀ v ∈ body.voiceParts, ∀ n ∈ v.2.elements, n.IsVoiceElement :=
  fun v hv n hn => (voiceParts_lineElements hbody v hv n hn).isVoiceElement

/-- The body of a document that is read is that of a score. -/
theorem readTune_body {source : Text} {document body : Node} (h : readTune source = .ok document)
    (hb : document.first? .body = some body) :
    ∃ parts : List Part, body.unplaced = .unread .body (parts.map Part.node) := by
  obtain ⟨s, hs, -⟩ := readTune_score (L := fun _ => True) h fun _ _ _ => trivial
  have hmem := List.mem_map_of_mem (f := Node.unplaced) (List.mem_of_find?_eq_some hb)
  rw [← document.children_unplaced, hs] at hmem
  have hkind := List.find?_some hb
  unfold Node.kind at hkind
  rcases List.mem_cons.1 hmem with hheader | hbody
  · rw [← body.label_unplaced, hheader] at hkind
    cases hkind
  · obtain ⟨parts, -, hparts⟩ := Option.map_eq_some_iff.1 (Option.mem_toList.1 hbody)
    exact ⟨parts, hparts.symm⟩

/-- The slots of the elements of a voice that lyrics are aligned with. -/
def Compiler.slots (elements lyrics : List Node) (expressions : List Music) : List Slot :=
  (align (lyrics.map LyricToken.ofNode)
    ((elements.zip (expressions.map Music.duration)).map fun (n, l) => Seat.mk n.label l)).slots

/-- The voices of a song are compiled from the voices of its body, one from each. -/
theorem Song.ofBody_voices {c : Compiler} {body : Option Node} {song : Song}
    (h : Song.ofBody c body = .ok song) :
    song.header = c.header ∧ ∀ v ∈ song.voices, ∃ b parts dropped, body = some b ∧
      (v.1, parts) ∈ b.voiceParts ∧ c.voice parts.elements parts.lyrics = .ok (v.2, dropped) := by
  obtain ⟨voices, hvoices, h⟩ := bind_eq_ok.1 h
  cases h
  refine ⟨rfl, fun v hv => ?_⟩
  obtain ⟨entry, hentry, rfl⟩ := List.mem_map.1 hv
  obtain ⟨part, hpart, hcompiled⟩ := exists_of_mem_mapM hvoices entry hentry
  obtain ⟨⟨music, dropped⟩, hmusic, hcompiled⟩ := bind_eq_ok.1 hcompiled
  cases hcompiled
  cases body with
  | none => cases hpart
  | some b => exact ⟨b, part.2, dropped, rfl, hpart, hmusic⟩

/-- A voice has a note timeline, and lyrics before it if it has any. The slots that its lyrics are
aligned to are displayed in performance order. -/
theorem Compiler.voice_ok {c : Compiler} {elements lyrics : List Node} {music : Music}
    {dropped : Nat} (h : c.voice elements lyrics = .ok (music, dropped)) :
    ∃ expressions, c.compileVoice elements = .ok expressions ∧
      ((lyrics = [] ∧ music = .component [timeline expressions (expand elements)]) ∨
        (lyrics ≠ [] ∧ ∃ shown,
          display (pick (slots elements lyrics expressions) (expand elements))
            (pick (expressions.map Music.duration) (expand elements)) = .ok shown ∧
          music =
            .component [Music.sequence shown, timeline expressions (expand elements)])) := by
  obtain ⟨expressions, hexpressions, h⟩ := bind_eq_ok.1 h
  refine ⟨expressions, hexpressions, ?_⟩
  dsimp only at h
  -- Without lyrics the timeline of the notes is the only part.
  by_cases hlyrics : lyrics = []
  · rw [hlyrics, List.isEmpty_nil, if_pos rfl] at h
    cases h
    exact .inl ⟨hlyrics, rfl⟩
  · rw [if_neg (by rwa [List.isEmpty_iff])] at h
    obtain ⟨⟨text, n⟩, htext, h⟩ := bind_eq_ok.1 h
    cases h
    obtain ⟨shown, hshown, htext⟩ := bind_eq_ok.1 htext
    cases htext
    exact .inr ⟨hlyrics, shown, mapError_eq_ok.1 hshown, rfl⟩

/-- A voice of a song that is read is compiled from a voice of the body of the document, whose
elements are those of a score and ends of lines. -/
theorem Song.read_voice {source : Text} {instrument : Instrument} {song : Song} {name : Text}
    {music : Music} (h : Song.read source instrument = .ok song)
    (hv : (name, music) ∈ song.voices) :
    ∃ document body parts dropped, readTune source = .ok document ∧
      document.first? .body = some body ∧ (name, parts) ∈ body.voiceParts ∧
      (∀ n ∈ parts.elements, n.IsVoiceElement) ∧
      Compiler.voice ⟨song.header, instrument⟩ parts.elements parts.lyrics =
        .ok (music, dropped) := by
  obtain ⟨document, hdocument, h⟩ := bind_eq_ok.1 h
  have hread := mapError_eq_ok.1 hdocument
  have hof := mapError_eq_ok.1 h
  -- The header of the song is the one that the voices are compiled with.
  unfold Song.ofDocument at hof
  split at hof
  next => cases hof
  next header hheader =>
    obtain ⟨fields, -, hof⟩ := bind_eq_ok.1 hof
    obtain ⟨resolved, -, hof⟩ := bind_eq_ok.1 hof
    obtain ⟨hsame, hvoices⟩ := Song.ofBody_voices hof
    obtain ⟨body, parts, dropped, hbody, hparts, hvoice⟩ := hvoices _ hv
    obtain ⟨scoreParts, hscore⟩ := readTune_body hread hbody
    rw [hsame]
    exact ⟨document, body, parts, dropped, hread, hbody, hparts,
      voiceParts_elements hscore _ hparts, hvoice⟩

/-- A song that is read has a voice of some kind if one is found in it. -/
theorem Song.exists_voice (source : Text) (instrument : Instrument)
    (p : Song → Text × Music → Bool)
    (h : (Song.read source instrument).toOption.any fun song => song.voices.any (p song)) :
    ∃ song name music, Song.read source instrument = .ok song ∧ (name, music) ∈ song.voices ∧
      p song (name, music) := by
  obtain ⟨song, hsong, hvoices⟩ := (Option.any_eq_true _ _).1 h
  obtain ⟨⟨name, music⟩, hv, hp⟩ := List.any_eq_true.1 hvoices
  exact ⟨song, name, music, toOption_eq_some.1 hsong, hv, hp⟩

/-- The music of a voice of a song that is read: what its elements are compiled to, the order in
which they are performed, and the parts that are made of them. -/
theorem Song.read_music {source : Text} {instrument : Instrument} {song : Song} {name : Text}
    {music : Music} (h : Song.read source instrument = .ok song)
    (hv : (name, music) ∈ song.voices) :
    ∃ document body parts expressions, readTune source = .ok document ∧
      document.first? .body = some body ∧ (name, parts) ∈ body.voiceParts ∧
      Compiler.compileVoice ⟨song.header, instrument⟩ parts.elements = .ok expressions ∧
      expressions.length = parts.elements.length ∧ (∀ m ∈ expressions, m.IsCompiled) ∧
      (∀ i ∈ expand parts.elements, i < parts.elements.length) ∧
      ((parts.lyrics = [] ∧
          music = .component [Compiler.timeline expressions (expand parts.elements)]) ∨
        (parts.lyrics ≠ [] ∧ ∃ shown,
          display
            (Compiler.pick (Compiler.slots parts.elements parts.lyrics expressions)
              (expand parts.elements))
            (Compiler.pick (expressions.map Music.duration) (expand parts.elements)) = .ok shown ∧
          music = .component [Music.sequence shown,
            Compiler.timeline expressions (expand parts.elements)])) := by
  obtain ⟨document, body, parts, dropped, hread, hbody, hparts, helements, hvoice⟩ :=
    Song.read_voice h hv
  obtain ⟨expressions, hexpressions, hmusic⟩ := Compiler.voice_ok hvoice
  obtain ⟨hlength, hcompiled⟩ := Compiler.compileVoice_elements helements hexpressions
  exact ⟨document, body, parts, expressions, hread, hbody, hparts, hexpressions, hlength,
    hcompiled, expand_lt parts.elements, hmusic⟩

end SingAlong

import SingAlong.Proofs.Comments
import SingAlong.Proofs.Compilation
import SingAlong.Proofs.Playback
import SingAlong.Proofs.RepeatSections
import SingAlong.Proofs.RoundTrip

/-!
# Printed pitches read back

Pitches that are printed in one tune, with bars between them, sound again when the tune is played
(`Song.read_printedTune`). The text of a pitch is that of a note with at most a sharp, and the
note's letter, sharp and octave marks make up the value of the pitch (`Pitch.text_note`,
`Pitch.enharmonic_spelled`). The tune is read as these notes and the bars (`lex_intercalate`,
`readTune_printedTune`). Up to their places the document is then a fixed term, and places do not
matter to the song (`Song.ofDocument_unplaced`). Each bar forgets the sharps before it, so that
every note is compiled to the pitch that it spells (`Compiler.compileAll_barred`), and nothing in
the line marks a repeat, so that each is played once.
-/

namespace SingAlong

open Player (Adds adds_pure)
open Score (Note Element Atom Value Entry joined Apart)

/-! ## The note that a pitch is written as -/

namespace Pitch

/-- Is the pitch that many semitones above a C a black key, and the letter that it is written
with. -/
def spelling : Nat → Bool × Letter
  | 0 => (false, .C) | 1 => (true, .C) | 2 => (false, .D) | 3 => (true, .D) | 4 => (false, .E)
  | 5 => (false, .F) | 6 => (true, .F) | 7 => (false, .G) | 8 => (true, .G) | 9 => (false, .A)
  | 10 => (true, .A) | _ => (false, .B)

/-- A name within the octave is its letter, after a sharp on the black keys, and they make up its
semitones. -/
theorem spelling_spec : ∀ n < 12,
    className n = (if (spelling n).1 then Accidental.sharp.text else []) ++ (spelling n).2.text ∧
      (spelling n).2.semitones + (if (spelling n).1 then 1 else 0) = n := by
  decide

/-- The semitones of a pitch within its octave. -/
def degree (p : Pitch) : Nat :=
  (p.value % octave).toNat

/-- There are twelve of them. -/
theorem degree_lt (p : Pitch) : p.degree < 12 := by
  have hlt : p.value % octave < 12 := Int.emod_lt_of_pos _ (by decide)
  unfold degree
  omega

/-- A pitch is its octaves and the semitones within the octave. -/
theorem degree_add (p : Pitch) : (p.degree : Int) + p.octaveNumber * octave = p.value := by
  have hpos : 0 ≤ p.value % octave := Int.emod_nonneg _ (by decide)
  have hparts : p.value % octave + octave * p.octaveNumber = p.value := Int.emod_add_mul_ediv _ _
  unfold degree
  rw [Int.toNat_of_nonneg hpos, mul_comm]
  exact hparts

/-- The octave marks of so many octaves up, or down if they are negative. -/
def octaveMarks (octaves : Int) : List OctaveMark :=
  List.replicate octaves.toNat .up ++ List.replicate (-octaves).toNat .down

/-- The octave marks shift by the octaves. -/
theorem shift_octaveMarks (octaves : Int) : OctaveMark.shift (octaveMarks octaves) = octaves := by
  have hup : (octaveMarks octaves).count .up = octaves.toNat := by
    unfold octaveMarks
    rw [List.count_append, List.count_replicate_self, List.count_replicate, if_neg (by decide),
      add_zero]
  have hdown : (octaveMarks octaves).count .down = (-octaves).toNat := by
    unfold octaveMarks
    rw [List.count_append, List.count_replicate_self, List.count_replicate, if_neg (by decide),
      zero_add]
  unfold OctaveMark.shift
  rw [hup, hdown]
  omega

/-- The note that the pitch is written as. -/
def note (p : Pitch) : Note where
  accidental := if (spelling p.degree).1 then some .sharp else none
  name := ⟨(spelling p.degree).2, false⟩
  octaves := octaveMarks p.octaveNumber
  suffix := .none

/-- The text of a pitch is that of the note. -/
theorem text_note (p : Pitch) : p.note.text = p.text := by
  have hmarks : (octaveMarks p.octaveNumber).map OctaveMark.char =
      Text.replicate p.octaveNumber.toNat '\'' ++ Text.replicate (-p.octaveNumber).toNat ',' := by
    unfold octaveMarks
    rw [List.map_append, List.map_replicate, List.map_replicate]
    rfl
  have hname : className (p.value % octave).toNat = _ := (spelling_spec p.degree p.degree_lt).1
  have hsuffix : p.note.suffix.text = [] := rfl
  unfold text Note.text
  rw [hname, hsuffix, List.append_nil, List.append_assoc _ (Text.replicate _ _), ← hmarks]
  unfold note
  split_ifs <;> rfl

/-- The pitch as its text spells it: a letter without or with a sharp, and octaves. -/
def spelled (p : Pitch) : Pitch :=
  ⟨(spelling p.degree).2, (if (spelling p.degree).1 then 1 else 0) + p.octaveNumber * octave⟩

/-- A pitch sounds as it is spelled. -/
theorem enharmonic_spelled (p : Pitch) : p.spelled.enharmonic p := by
  refine beq_iff_eq.2 ?_
  calc p.spelled.value
      = (spelling p.degree).2.semitones + (if (spelling p.degree).1 then 1 else 0) +
          p.octaveNumber * octave := (add_assoc ..).symm
    _ = p.degree + p.octaveNumber * octave := by rw [(spelling_spec p.degree p.degree_lt).2]
    _ = p.value := p.degree_add

end Pitch

/-! ## The text of a line of pitches -/

/-- The tune that pitches are printed in, with bars between them. -/
def printedTune (pitches : List Pitch) : Text :=
  "X:1\nT:t\nK:C\n".text ++ "|".text.intercalate (pitches.map Pitch.text)

example : printedTune [⟨.C, 0⟩, ⟨.B, -13⟩] = "X:1\nT:t\nK:C\nC|^A,".text := by decide

/-- The element that a pitch is printed as. -/
def Pitch.element (p : Pitch) : Element :=
  .member (.note p.note)

/-- The elements that a pitch is printed as after a bar. -/
def Pitch.barred (p : Pitch) : List Element :=
  [.bar .single, p.element]

/-- The elements of the line that pitches are printed as. -/
def printedElements : List Pitch → List Element
  | [] => []
  | p :: ps => p.element :: ps.flatMap Pitch.barred

/-- Each pitch after the first one stands after a bar. -/
theorem intercalate_text (p : Pitch) (ps : List Pitch) :
    "|".text.intercalate ((p :: ps).map Pitch.text) =
      p.note.text ++ ps.flatMap fun q => Bar.single.text ++ q.note.text := by
  induction ps generalizing p with
  | nil => rw [List.map_singleton, List.intercalate_singleton, List.flatMap_nil, List.append_nil,
      p.text_note]
  | cons q ps ih =>
    rw [List.map_cons, List.map_cons, List.intercalate_cons_cons, ← List.map_cons, ih,
      List.flatMap_cons, p.text_note, List.append_assoc, List.append_assoc]
    rfl

/-- The lexemes of the element that a pitch is printed as. -/
theorem Pitch.lexemes_element (p : Pitch) :
    p.element.atoms.flatMap Atom.lexemes = p.note.lexemes.map (·, .body) :=
  List.flatMap_singleton Atom.lexemes (.note p.note)

/-- A pitch after a bar is read in front of anything that does not go on with it. -/
theorem Pitch.lex_barred (p : Pitch) (rest : Text) (h : Apart rest) :
    lex .body (Bar.single.text ++ p.note.text ++ rest) =
      (p.barred.flatMap fun e => e.atoms.flatMap Atom.lexemes) ++ lex .body rest := by
  rw [barred, List.flatMap_cons, List.flatMap_singleton, p.lexemes_element, List.append_assoc,
    lex_recognised (l := .bar .single) (t := Bar.single.text) rfl (List.cons_ne_nil _ _)
      (Score.recognise_barline p.note rest), Score.lex_note (.inl rfl) p.note h]
  rfl

/-- The line of pitches is read as its elements. -/
theorem lex_intercalate (pitches : List Pitch) :
    lex .body ("|".text.intercalate (pitches.map Pitch.text)) =
      ((printedElements pitches).flatMap Element.atoms).flatMap Atom.lexemes := by
  cases pitches with
  | nil => rfl
  | cons p ps =>
    have hbar (q : Pitch) (rest : Text) : Apart (Bar.single.text ++ q.note.text ++ rest) := by
      rintro c ⟨⟩
      exact ⟨by decide, rfl⟩
    have hend : Apart [] := fun c hc => nomatch hc
    have hnext : Apart (ps.flatMap fun q => Bar.single.text ++ q.note.text) := by
      cases ps with
      | nil => exact hend
      | cons q ps => exact hbar q _
    have hrest := Score.lex_flatMap Pitch.lex_barred hbar ps hend
    rw [List.append_nil, show lex .body [] = [] from rfl, List.append_nil] at hrest
    rw [intercalate_text, Score.lex_note (.inl rfl) p.note hnext, hrest, printedElements,
      List.flatMap_assoc, List.flatMap_cons, p.lexemes_element, List.flatMap_assoc]

/-! ## The document that is read -/

/-- The entries of the header of a printed tune. -/
def printedEntries : List Entry :=
  [.field ⟨'X', by decide, by decide, ⟨"1".text, by decide, by decide⟩⟩,
    .field ⟨'T', by decide, by decide, ⟨"t".text, by decide, by decide⟩⟩]

/-- The key of a printed tune. -/
def printedKey : Value :=
  ⟨"C".text, by decide, by decide⟩

/-- A printed tune is read as the lexemes of its header and of its elements. -/
theorem lex_printedTune (pitches : List Pitch) :
    lex .header (printedTune pitches) = printedEntries.map (fun e => (e.lexeme, .header)) ++
      ((some printedKey).map fun v => (.keyField (v.keyText ++ Text.lineEnd), .header)).toList ++
      ((printedElements pitches).flatMap Element.atoms).flatMap Atom.lexemes := by
  have hheader : "X:1\nT:t\nK:C\n".text =
      joined Text.lineEnd (printedEntries.map Entry.text ++ [printedKey.keyText]) ++
        Text.lineEnd := by
    decide
  unfold printedTune
  rw [hheader, List.append_assoc, Score.lex_joined,
    Score.lex_entries _ _ _ (Score.lineEnds_lineEnd _), List.flatMap_singleton, List.append_assoc,
    lex_header_lineEnd, Score.lex_key, lex_intercalate, List.append_assoc]
  rfl

/-- A line that the source ends is a line of a body. -/
theorem readBody_elements {items : List Item} {pieces : List Piece} {es : List Element}
    (hne : es ≠ []) (hread : readDurables .nothing items = ⟨pieces, none⟩)
    (hpieces : List.Forall₂ Piece.Is pieces (es.flatMap Element.atoms)) :
    ∃ n, readBody items = .ok n ∧ n.unplaced = .unread .body [.unread .line
      (es.map Element.node ++ [Node.leaf (.endOfLine Text.lineEnd)])] := by
  have hempty : Draft.empty.Has [] [] := ⟨rfl, rfl, rfl⟩
  obtain ⟨d, hd, hhas⟩ := Draft.leads_elements es Draft.empty hempty pieces hpieces
  have hline : d.line.isEmpty = false := hhas.line_isEmpty (by simpa using hne)
  refine ⟨.unread .body [.unread .line (d.line ++ [Node.leaf (.endOfLine Text.lineEnd)])], ?_, ?_⟩
  · unfold readBody
    rw [hread]
    refine bind_eq_ok.2 ⟨d, hd, ?_⟩
    have hnodes : d.nodes = [] := List.map_eq_nil_iff.1 hhas.nodes
    unfold Draft.checkTuplet Draft.endLine
    rw [hhas.tuplet, hline, hnodes]
    rfl
  · rw [Node.unplaced_unread, List.map_singleton, Node.unplaced_unread, List.map_append, hhas.line]
    rfl

/-- The elements of the line of a printed tune, and the end of the line. -/
def printedLine (pitches : List Pitch) : List Node :=
  (printedElements pitches).map Element.node ++ [Node.leaf (.endOfLine Text.lineEnd)]

/-- The fields of the header of a printed tune, without their places. -/
def printedFields : Node :=
  .unread .header (printedEntries.map Entry.node ++ [Node.leaf (.keyField printedKey.keyText)])

/-- The document of a printed tune, without its places. -/
def printedDocument (pitches : List Pitch) : Node :=
  .unread .document (printedFields ::
    if pitches.isEmpty then [] else [.unread .body [.unread .line (printedLine pitches)]])

/-- A printed tune is read. -/
theorem readTune_printedTune (pitches : List Pitch) :
    ∃ n, readTune (printedTune pitches) = .ok n ∧ n.unplaced = printedDocument pitches := by
  refine readTune_lexemes (lex_printedTune pitches) (.inr rfl) (region_of_atoms _)
    fun body hbody => ?_
  cases pitches with
  | nil =>
    obtain rfl := List.map_eq_nil_iff.1 hbody
    exact ⟨[], [], rfl, rfl, rfl⟩
  | cons p ps =>
    obtain ⟨-, items, pieces, hitems, -, hread, hpieces⟩ := groupFrom_atoms hbody
    obtain ⟨n, hn, hnode⟩ := readBody_elements (List.cons_ne_nil _ _) hread hpieces
    have hnonempty : body.isEmpty = false := by
      rw [List.isEmpty_eq_false_iff]
      rintro rfl
      -- Nothing is read from no tokens, but the pitch is.
      cases hitems
      cases hread
      cases hpieces
    refine ⟨items, [n], hitems, ?_, ?_⟩
    · rw [hnonempty, if_neg Bool.false_ne_true, hn]
      rfl
    · rw [List.map_singleton, hnode]
      rfl

/-! ## Places do not matter to the song -/

/-- The header fields do not depend on places. -/
theorem Node.headerFields_unplaced (n : Node) : n.unplaced.headerFields = n.headerFields := by
  unfold headerFields fields
  rw [n.children_unplaced, List.filterMap_map]
  simp only [Function.comp_def, label_unplaced]

/-- Nodes of a body make the same of a voice whatever their places. -/
theorem Node.like_unplaced (n : Node) : n.unplaced.Like False n where
  label := congrArg Label.plain n.label_unplaced
  elements := by
    unfold lineElements
    rw [n.label_unplaced, n.children_unplaced]
    split_ifs
    · rw [List.filter_map, List.map_map]
      simp only [Function.comp_def, label_unplaced, unplaced_unplaced]
    · rfl
  lyrics := by
    have htokens : n.unplaced.lyricTokens = n.lyricTokens := by
      have htoken (k : Node) : LyricToken.ofNode k.unplaced = LyricToken.ofNode k := by
        rw [LyricToken.ofNode, k.label_unplaced]
        rfl
      unfold lyricTokens
      rw [n.label_unplaced, n.children_unplaced, List.map_map]
      simp only [Function.comp_def, htoken]
    rw [htokens]
    exact .of_forall₂ (List.forall₂_same.2 fun _ _ => rfl)

/-- A document is compiled to the same song whatever its places. -/
theorem Song.ofDocument_unplaced (document : Node) (instrument : Instrument) :
    ofDocument document.unplaced instrument = ofDocument document instrument := by
  have hbody (c : Compiler) : ofBody c ((document.first? .body).map Node.unplaced) =
      ofBody c (document.first? .body) := by
    refine ofBody_congr c ?_
    cases document.first? .body with
    | none => exact .nil
    | some body =>
      rw [Option.map_some, Option.map_some, Option.map_some, Option.getD_some, Option.getD_some]
      unfold Node.voiceParts
      rw [body.children_unplaced]
      refine splitVoices_like ?_ Header.defaultVoice .nil
      exact List.forall₂_map_left_iff.2 (List.forall₂_same.2 fun n _ => n.like_unplaced)
  unfold ofDocument
  rw [document.first?_unplaced, document.first?_unplaced]
  cases document.first? .header with
  | none => rfl
  | some header =>
    rw [Option.map_some]
    dsimp only
    rw [header.headerFields_unplaced]
    simp only [hbody]

/-! ## The music that the notes are compiled to -/

namespace Compiler

/-- The note that a pitch is compiled to. -/
def sung (c : Compiler) (p : Pitch) : Music :=
  .note (.fraction c.header.length) p.spelled c.instrument

/-- Elements are compiled one after the other. -/
theorem compileAll_cons {c : Compiler} {n : Node} {ns : List Node} {m : Music} {ms : List Music}
    {table table₁ table₂ : AccidentalTable} (hn : c.compile n table = .ok m table₁)
    (hns : c.compileAll ns table₁ = .ok ms table₂) :
    c.compileAll (n :: ns) table = .ok (m :: ms) table₂ := by
  rw [compileAll, bind_of_ok hn, bind_of_ok hns]
  rfl

/-- A note or rest without a length suffix has the default length. -/
theorem length_plain (c : Compiler) {n : Node} (h : n.lengthText = []) :
    c.length n = pure (.fraction c.header.length) := by
  have hfactor : readSuffix [] = .ok 1 := by decide +kernel
  unfold length
  rw [h, hfactor, lift, pure_bind, one_mul]

section

variable {c : Compiler} (hkey : c.header.key.accidentals = []) (hlength : 0 ≤ c.header.length)

include hkey hlength

/-- In a key without accidentals, at the beginning of a measure, the note that a pitch is written as
is compiled to it. -/
theorem compile_pitch (p : Pitch) :
    ∃ table, c.compile p.note.node (.ofKey c.header.key) = .ok (c.sung p) table ∧
      table.key = c.header.key := by
  have hmake : Music.mkNote (.fraction c.header.length) p.spelled c.instrument = .ok (c.sung p) :=
    bind_eq_ok.2 ⟨(), checkLength_of_nonneg hlength, rfl⟩
  have hoctaves : p.note.node.octaveShift + 0 = p.octaveNumber := by
    rw [p.note.octaveShift_node, add_zero]
    exact Pitch.shift_octaveMarks p.octaveNumber
  have hsound {table : AccidentalTable}
      (h : table.get p.note.name.letter.text = if (Pitch.spelling p.degree).1 then 1 else 0) :
      c.sound p.note.name p.note.node table = .ok (c.sung p) table := by
    unfold sound
    rw [c.length_plain p.note.lengthText_node]
    show lift .music (Music.mkNote _ ⟨_, table.get _ + (_ + 0) * octave⟩ _) table = _
    rw [h, hoctaves]
    exact congrArg (fun m => lift .music m table) hmake
  have hget : (AccidentalTable.ofKey c.header.key).get p.note.name.letter.text = 0 := by
    rw [AccidentalTable.get_ofKey, Key.alteration, hkey]
    rfl
  have hcompile : c.compile p.note.node = c.note p.note.name p.note.node := by
    unfold Note.node Node.unread compile
    rfl
  have haccidental : p.note.node.accidental? =
      if (Pitch.spelling p.degree).1 then some .sharp else none := p.note.accidental?_node
  rw [hcompile]
  by_cases hsharp : (Pitch.spelling p.degree).1
  · rw [if_pos hsharp] at haccidental
    refine ⟨(AccidentalTable.ofKey c.header.key).apply p.note.name.letter.text .sharp, ?_, rfl⟩
    rw [note_accidental haccidental]
    refine hsound ?_
    rw [AccidentalTable.get_apply, if_pos rfl, hget, if_pos hsharp]
    rfl
  · rw [if_neg hsharp] at haccidental
    refine ⟨AccidentalTable.ofKey c.header.key, ?_, rfl⟩
    rw [note_plain haccidental]
    refine hsound ?_
    rw [hget, if_neg hsharp]

/-- A line of pitches is compiled to their notes, with the silence of a bar between them. -/
theorem compileAll_barred (ps : List Pitch) {table : AccidentalTable}
    (htable : table.key = c.header.key) :
    ∃ table', c.compileAll ((ps.flatMap Pitch.barred).map Element.node ++
        [Node.leaf (.endOfLine Text.lineEnd)]) table =
      .ok (ps.flatMap (fun p => [Music.silence, c.sung p]) ++ [Music.silence]) table' := by
  induction ps generalizing table with
  | nil => exact ⟨table, rfl⟩
  | cons p ps ih =>
    obtain ⟨table₁, hp, htable₁⟩ := compile_pitch hkey hlength p
    obtain ⟨table₂, hps⟩ := ih htable₁
    have hbar : c.compile (Element.bar .single).node table =
        .ok Music.silence (.ofKey c.header.key) := by
      rw [← htable]
      rfl
    exact ⟨table₂, compileAll_cons hbar (compileAll_cons hp hps)⟩

end

end Compiler

/-- The notes of elements that are notes or silent have their pitches. -/
theorem Music.pitches_performedNotes {ms : List Music}
    (h : ∀ m ∈ ms, m = silence ∨ ∃ l p i, m = note l p i ∧ 0 < l.value) (beat : Rat) :
    (performedNotes beat ms).map ScheduledNote.pitch = ms.flatMap pitches := by
  have heach : ∀ m ∈ ms, ∀ b,
      (if 0 < m.duration.value then m.notesAt b else []).map ScheduledNote.pitch = m.pitches := by
    intro m hm b
    rcases h m hm with rfl | ⟨l, p, i, rfl, hl⟩
    · rfl
    · have hnote : 0 < (note l p i).duration.value := hl
      rw [if_pos hnote]
      rfl
  unfold performedNotes
  rw [List.map_flatMap]
  calc ms.zipIdx.flatMap _ = ms.zipIdx.flatMap fun mk => mk.1.pitches :=
        List.flatMap_congr fun mk hmk => heach mk.1 (List.fst_mem_of_mem_zipIdx hmk) _
    _ = ms.flatMap pitches := by
        rw [← List.flatMap_map, List.zipIdx_map_fst]

/-! ## The song that is read -/

/-- The header of a printed tune. -/
def printedHeader : Header :=
  ⟨1, "t".text, Header.defaultComposer, ⟨.major, 7⟩, 1, 1 / 8, .standard, [Header.defaultVoice]⟩

/-- The music that the elements are compiled to. -/
def Compiler.printedMusic (c : Compiler) (p : Pitch) (ps : List Pitch) : List Music :=
  c.sung p :: ps.flatMap (fun q => [Music.silence, c.sung q]) ++ [Music.silence]

/-- What holds of a bar, of the notes of pitches and of the end of a line holds of the line. -/
theorem forall_mem_printedLine (P : Node → Prop) (hbar : P (Element.bar .single).node)
    (hpitch : ∀ p : Pitch, P p.element.node) (hend : P (Node.leaf (.endOfLine Text.lineEnd)))
    (pitches : List Pitch) : ∀ n ∈ printedLine pitches, P n := by
  have helements : ∀ e ∈ printedElements pitches, P e.node := by
    cases pitches with
    | nil => exact nofun
    | cons p ps =>
      refine List.forall_mem_cons.2 ⟨hpitch p, List.forall_mem_flatMap.2 fun q _ => ?_⟩
      exact List.forall_mem_cons.2 ⟨hbar, List.forall_mem_singleton.2 (hpitch q)⟩
  exact List.forall_mem_append.2
    ⟨List.forall_mem_map.2 helements, List.forall_mem_singleton.2 hend⟩

/-- The elements of a printed tune are performed in their order. -/
theorem expand_printedLine (pitches : List Pitch) :
    expand (printedLine pitches) = List.range' 0 (printedLine pitches).length :=
  expandFrom_unmarked (forall_mem_printedLine (fun n => n.label.marksRepeat = false) rfl
    (fun _ => rfl) rfl pitches) .initial 0

/-- The line of a printed tune is all that its voice has. -/
theorem ofBody_printedLine {c : Compiler} {pitches : List Pitch} {music : Music}
    (h : c.voice (printedLine pitches) [] = .ok (music, 0)) :
    Song.ofBody c (some (.unread .body [.unread .line (printedLine pitches)])) =
      .ok ⟨[(Header.defaultVoice, music)], c.header, []⟩ := by
  have hkept : (printedLine pitches).filter (fun child => !child.label.isComment) =
      printedLine pitches :=
    List.filter_eq_self.2 (forall_mem_printedLine (fun n => !n.label.isComment) rfl
      (fun _ => rfl) rfl pitches)
  have hparts : (Node.unread .body [.unread .line (printedLine pitches)]).voiceParts =
      [(Header.defaultVoice, ⟨printedLine pitches, []⟩)] := by
    show [(Header.defaultVoice, VoiceParts.mk ((printedLine pitches).filter _) [])] = _
    rw [hkept]
  refine bind_eq_ok.2 ⟨[(Header.defaultVoice, music, 0)], ?_, rfl⟩
  rw [Option.map_some, Option.getD_some, hparts]
  exact mapM_eq_ok.2 (.cons (bind_eq_ok.2 ⟨_, h, rfl⟩) .nil)

/-- The elements of a printed tune are compiled. -/
theorem Compiler.compileVoice_printed {c : Compiler} (hkey : c.header.key.accidentals = [])
    (hlength : 0 ≤ c.header.length) (p : Pitch) (ps : List Pitch) :
    c.compileVoice (printedLine (p :: ps)) = .ok (c.printedMusic p ps) := by
  obtain ⟨table, hp, htable⟩ := compile_pitch hkey hlength p
  obtain ⟨table', hps⟩ := compileAll_barred hkey hlength ps htable
  have hall : c.compileAll (printedLine (p :: ps)) (.ofKey c.header.key) =
      .ok (c.printedMusic p ps) table' := compileAll_cons hp hps
  unfold compileVoice EStateM.run
  rw [hall]

/-- The fields of a printed tune make its header. -/
theorem ofDocument_printed (pitches : List Pitch) (instrument : Instrument) :
    Song.ofDocument (printedDocument pitches) instrument =
      Song.ofBody ⟨printedHeader, instrument⟩ ((printedDocument pitches).first? .body) := by
  have hheader : (printedDocument pitches).first? .header = some printedFields := rfl
  obtain ⟨fields, htexts, hfields⟩ : ∃ fields, printedFields.headerFields = .ok fields ∧
      Header.ofFields fields = .ok printedHeader :=
    ⟨[("X".text, "1".text), ("T".text, "t".text), ("K".text, "C".text)], rfl, by decide +kernel⟩
  unfold Song.ofDocument
  rw [hheader]
  dsimp only
  rw [htexts]
  show (Header.ofFields fields).mapError _ >>= _ = _
  rw [hfields]
  rfl

/-- The music of a printed tune has the pitches that are printed. -/
theorem Compiler.pitches_printedMusic (c : Compiler) (p : Pitch) (ps : List Pitch) :
    (c.printedMusic p ps).flatMap Music.pitches = (p :: ps).map Pitch.spelled := by
  have hrest : (ps.flatMap fun q => [Music.silence, c.sung q]).flatMap Music.pitches =
      ps.map Pitch.spelled := by
    rw [List.flatMap_assoc, List.map_eq_flatMap]
    rfl
  unfold printedMusic
  rw [List.flatMap_append, List.flatMap_cons, hrest]
  exact List.append_nil _

/-- The music of a printed tune is made of notes and silence. -/
theorem Compiler.printedMusic_cases {c : Compiler} (hlength : 0 < c.header.length) (p : Pitch)
    (ps : List Pitch) : ∀ m ∈ c.printedMusic p ps,
      m = Music.silence ∨ ∃ l q i, m = .note l q i ∧ 0 < l.value := by
  have hsung (q : Pitch) : ∃ l q' i, c.sung q = .note l q' i ∧ 0 < l.value :=
    ⟨_, _, _, rfl, hlength⟩
  unfold printedMusic
  refine List.forall_mem_append.2 ⟨List.forall_mem_cons.2 ⟨.inr (hsung p), ?_⟩, ?_⟩
  · refine List.forall_mem_flatMap.2 fun q _ => ?_
    exact List.forall_mem_cons.2 ⟨.inl rfl, List.forall_mem_singleton.2 (.inr (hsung q))⟩
  · exact List.forall_mem_singleton.2 (.inl rfl)

/-- The voice of a printed tune adds a note for each pitch that sounds as it does. -/
theorem adds_printedVoice (c : Compiler) (hkey : c.header.key.accidentals = [])
    (hlength : 0 < c.header.length) (p : Pitch) (ps : List Pitch) :
    ∃ music, c.voice (printedLine (p :: ps)) [] = .ok (music, 0) ∧ ∀ name beat, ∃ notes,
      Adds (music.play name beat) ⟨notes, []⟩ ∧
      List.Forall₂ (fun n p => n.pitch.enharmonic p) notes (p :: ps) := by
  have hcompile := Compiler.compileVoice_printed hkey hlength.le p ps
  have hcases := Compiler.printedMusic_cases hlength p ps
  have hcount : (c.printedMusic p ps).length = (printedLine (p :: ps)).length := by
    simp [Compiler.printedMusic, printedLine, printedElements, Pitch.barred, List.length_flatMap]
  have hpick : Compiler.pick (c.printedMusic p ps) (expand (printedLine (p :: ps))) =
      c.printedMusic p ps := by
    rw [expand_printedLine, ← hcount, Compiler.pick_range]
  have hcompiled : ∀ m ∈ c.printedMusic p ps, m.IsCompiled := by
    intro m hm
    rcases hcases m hm with rfl | ⟨l, q, i, rfl, hl⟩
    · exact Music.isCompiled_silence
    · exact ⟨rfl, hl.le⟩
  refine ⟨.component [Compiler.timeline (c.printedMusic p ps) (expand (printedLine (p :: ps)))],
    ?_, fun name beat => ⟨Music.performedNotes beat (c.printedMusic p ps), ?_, ?_⟩⟩
  · unfold Compiler.voice
    rw [hcompile]
    rfl
  · unfold Compiler.timeline
    rw [hpick]
    exact Music.adds_component_single (Music.adds_performed name beat hcompiled)
  · have hpitches := Music.pitches_performedNotes hcases beat
    rw [c.pitches_printedMusic] at hpitches
    refine (map_eq_iff_forall₂.1 hpitches).imp fun n q hn => ?_
    rw [hn]
    exact q.enharmonic_spelled

/-- Pitches that are printed with bars between them read back. The tune is read as a song, and when
it is played, all voices or the one that it has, it has one note for each pitch, in their order,
that sounds as the pitch does. -/
theorem Song.read_printedTune (pitches : List Pitch) (instrument : Instrument) :
    ∃ song, Song.read (printedTune pitches) instrument = .ok song ∧
      ∀ name, name = [] ∨ name = Header.defaultVoice → ∀ beat, ∃ notes,
        song.piece.scheduled name beat .unset = (⟨notes, []⟩, none) ∧
        List.Forall₂ (fun n p => n.pitch.enharmonic p) notes pitches := by
  obtain ⟨document, hdocument, hunplaced⟩ := readTune_printedTune pitches
  have hread : Song.read (printedTune pitches) instrument =
      (ofBody ⟨printedHeader, instrument⟩ ((printedDocument pitches).first? .body)).mapError
        .compile := by
    unfold Song.read
    rw [hdocument]
    show (ofDocument document instrument).mapError _ = _
    rw [← ofDocument_unplaced, hunplaced, ofDocument_printed]
  rw [hread]
  cases pitches with
  | nil =>
    refine ⟨⟨[], printedHeader, []⟩, rfl, ?_⟩
    rintro name (rfl | rfl) beat
    · exact ⟨[], Music.scheduled_of_adds (Music.adds_piece_all adds_pure), .nil⟩
    · exact ⟨[], Music.scheduled_of_adds (Music.adds_piece (by decide) ⟨by decide, rfl⟩), .nil⟩
  | cons p ps =>
    have hkey : printedHeader.key.accidentals = [] := by decide
    have hlength : 0 < printedHeader.length := by decide +kernel
    obtain ⟨music, hmusic, hplay⟩ :=
      adds_printedVoice ⟨printedHeader, instrument⟩ hkey hlength p ps
    refine ⟨⟨[(Header.defaultVoice, music)], printedHeader, []⟩, ?_, ?_⟩
    · exact congrArg (Except.mapError SongError.compile) (ofBody_printedLine hmusic)
    · rintro name (rfl | rfl) beat
      · obtain ⟨notes, hadds, hnotes⟩ := hplay [] beat
        have hall := hadds.bind adds_pure
        rw [Schedule.append_empty] at hall
        exact ⟨notes, Music.scheduled_of_adds (Music.adds_piece_all hall), hnotes⟩
      · obtain ⟨notes, hadds, hnotes⟩ := hplay Header.defaultVoice beat
        refine ⟨notes, Music.scheduled_of_adds (Music.adds_piece (by decide) ?_), hnotes⟩
        exact hadds

end SingAlong

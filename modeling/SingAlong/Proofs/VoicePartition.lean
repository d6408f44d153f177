import SingAlong.Proofs.Comments
import SingAlong.Proofs.Playback

/-!
# Voices are parts of the body

A line of music or lyrics belongs to the voice of the last voice field before it in the body
(`voicedLines`). Splitting the body adds what the lines hold to their voices, line by line, so that
a voice gets what its own lines hold in the order of the body (`lookup_voiceParts`), and together
the voices get what all lines hold (`perm_elements`, `perm_lyrics`).

The music of a voice is compiled from its parts only. Bodies that give a voice the same lines give
it the same music, wherever the lines of other voices stand between them and whatever those hold
(`Node.voices_partition`).
-/

namespace SingAlong

open Music (voiceNames)

/-! ## The lines of a voice -/

/-- Is the node a line of music or of lyrics? -/
def Node.isLine (n : Node) : Bool :=
  n.label = .line || n.label = .lyricLine

/-- What a node of the body adds to the lyrics, if it is a line of lyrics. -/
def Node.lineLyrics (n : Node) : List Node :=
  if n.label = .lyricLine then n.children else []

/-- The lines of music and lyrics among nodes of the body, each with the voice that is current after
the nodes before it. -/
def voicedLines (current : Text) (ns : List Node) : List (Text × Node) :=
  (ns.mapIdx fun i n => (voiceAfter current (ns.take i), n)).filter fun v => v.2.isLine

/-- The lines of a voice, in the order of the body. -/
def Node.linesOf (body : Node) (name : Text) : List Node :=
  ((voicedLines Header.defaultVoice body.children).filter fun v => v.1 = name).map Prod.snd

/-- What lines hold for the music and the lyrics of their voice. -/
def VoiceParts.ofLines (lines : List Node) : VoiceParts :=
  ⟨lines.flatMap Node.lineElements, lines.flatMap Node.lineLyrics⟩

/-- The lines of nodes from the first one on. -/
theorem voicedLines_cons (current : Text) (n : Node) (ns : List Node) :
    voicedLines current (n :: ns) =
      (if n.isLine then [(current, n)] else []) ++ voicedLines (n.voice?.getD current) ns := by
  have hrest : (ns.mapIdx fun i m => (voiceAfter current ((n :: ns).take (i + 1)), m)) =
      ns.mapIdx fun i m => (voiceAfter (n.voice?.getD current) (ns.take i), m) := by
    simp only [List.take_succ_cons, voiceAfter_cons]
  unfold voicedLines
  rw [List.mapIdx_cons, hrest, List.filter_cons]
  cases n.isLine <;> rfl

/-- The voices of the lines are those in which the lines come. -/
theorem map_fst_voicedLines (current : Text) (ns : List Node) :
    (voicedLines current ns).map Prod.fst = lineVoices current ns := by
  induction ns generalizing current with
  | nil => rfl
  | cons n ns ih =>
    have hline : n.isLine = true ↔ n.label = .line ∨ n.label = .lyricLine := by
      simp [Node.isLine]
    rw [voicedLines_cons, List.map_append, ih, lineVoices]
    by_cases h : n.isLine
    · rw [if_pos h, if_pos (hline.1 h), List.map_singleton]
    · rw [if_neg h, if_neg (mt hline.2 h), List.map_nil]

/-! ## Splitting the body -/

namespace VoiceParts

/-- Voice parts with those that come after them. -/
def append (p q : VoiceParts) : VoiceParts :=
  ⟨p.elements ++ q.elements, p.lyrics ++ q.lyrics⟩

/-- The parts of the voice of a name; a voice that is not there has none. -/
def named (vs : List (Text × VoiceParts)) (name : Text) : VoiceParts :=
  (vs.lookup name).getD ⟨[], []⟩

/-- Parts after others after yet others. -/
theorem append_assoc (p q r : VoiceParts) : (p.append q).append r = p.append (q.append r) := by
  simp only [append, List.append_assoc]

/-- Nothing is added by no lines. -/
theorem append_ofLines_nil (p : VoiceParts) : p.append (ofLines []) = p := by
  simp only [append, ofLines, List.flatMap_nil, List.append_nil]

/-- A line adds what it holds, and the lines behind it what they hold. -/
theorem ofLines_cons (n : Node) (lines : List Node) :
    ofLines (n :: lines) = append ⟨n.lineElements, n.lineLyrics⟩ (ofLines lines) := by
  simp only [append, ofLines, List.flatMap_cons]

/-- The first voice is found by its name, another name is looked for behind it. -/
theorem named_cons (v name : Text) (parts : VoiceParts) (vs : List (Text × VoiceParts)) :
    named ((v, parts) :: vs) name = if v = name then parts else named vs name := by
  unfold named
  rw [List.lookup_cons]
  split_ifs with h
  · rw [h, beq_self_eq_true, Option.getD_some]
  · rw [beq_eq_false_iff_ne.2 (Ne.symm h)]

/-- What is added to a voice comes after its parts, and the other voices stay as they are. -/
theorem named_add (vs : List (Text × VoiceParts)) (v name : Text) (elements lyrics : List Node) :
    named (add v elements lyrics vs) name =
      if v = name then (named vs name).append ⟨elements, lyrics⟩ else named vs name := by
  induction vs with
  | nil =>
    rw [add, named_cons]
    rfl
  | cons first vs ih =>
    obtain ⟨w, parts⟩ := first
    unfold add
    by_cases hw : w = v
    · rw [if_pos hw, hw, named_cons, named_cons]
      split_ifs <;> rfl
    · rw [if_neg hw, named_cons, named_cons, ih]
      split_ifs with hname hv
      · exact absurd (hname.trans hv.symm) hw
      · rfl
      · rfl
      · rfl

end VoiceParts

open VoiceParts (named ofLines)

/-- Splitting nodes of the body adds to each voice what its lines hold. -/
theorem named_splitVoices (current name : Text) (vs : List (Text × VoiceParts)) (ns : List Node) :
    named (splitVoices current vs ns) name = (named vs name).append
      (ofLines (((voicedLines current ns).filter fun v => v.1 = name).map Prod.snd)) := by
  induction ns generalizing current vs with
  | nil => exact (VoiceParts.append_ofLines_nil _).symm
  | cons n ns ih =>
    -- A line of music or lyrics is the first one of its voice, of another voice it is none.
    have hline (elements lyrics : List Node) (hn : n.isLine = true) (hvoice : n.voice? = none)
        (hparts : VoiceParts.mk elements lyrics = ⟨n.lineElements, n.lineLyrics⟩) :
        named (splitVoices current (VoiceParts.add current elements lyrics vs) ns) name =
          (named vs name).append (ofLines
            (((voicedLines current (n :: ns)).filter fun v => v.1 = name).map Prod.snd)) := by
      rw [ih, VoiceParts.named_add, voicedLines_cons, hn, hvoice, hparts, if_pos rfl]
      by_cases h : current = name
      · simp [h, VoiceParts.ofLines_cons, VoiceParts.append_assoc]
      · simp [h]
    unfold splitVoices
    split
    next t hl =>
      rw [ih, voicedLines_cons]
      simp [Node.isLine, Node.voice?, hl]
    next hl =>
      refine hline _ _ ?_ ?_ ?_ <;>
        simp [Node.isLine, Node.voice?, Node.lineElements, Node.lineLyrics, hl]
    next hl =>
      refine hline _ _ ?_ ?_ ?_ <;>
        simp [Node.isLine, Node.voice?, Node.lineElements, Node.lineLyrics, hl]
    next hvoice hline hlyrics =>
      have hnone : n.voice? = none := by
        unfold Node.voice?
        split
        next t hl => exact absurd hl (hvoice t)
        next => rfl
      have hother : n.isLine = false := by
        rw [Node.isLine, decide_eq_false hline, decide_eq_false hlyrics, Bool.or_self]
      rw [ih, voicedLines_cons, hnone, hother]
      rfl

/-! ## Nothing is lost -/

/-- The voices hold these elements and lyrics together, each as often as there. -/
structure VoiceParts.Hold (vs : List (Text × VoiceParts)) (elements lyrics : List Node) :
    Prop where
  elements : (vs.flatMap fun v => v.2.elements).Perm elements
  lyrics : (vs.flatMap fun v => v.2.lyrics).Perm lyrics

namespace VoiceParts

variable {vs : List (Text × VoiceParts)} {elements lyrics : List Node}

/-- What is added to a voice is held as well. -/
theorem Hold.add (h : Hold vs elements lyrics) (name : Text) (elements' lyrics' : List Node) :
    Hold (VoiceParts.add name elements' lyrics' vs) (elements ++ elements')
      (lyrics ++ lyrics') := by
  induction vs generalizing elements lyrics with
  | nil =>
    obtain ⟨helements, hlyrics⟩ := h
    rw [List.nil_perm.1 helements, List.nil_perm.1 hlyrics]
    exact ⟨by simp [VoiceParts.add], by simp [VoiceParts.add]⟩
  | cons first vs ih =>
    obtain ⟨w, parts⟩ := first
    have hrest := ih ⟨.refl _, .refl _⟩
    obtain ⟨helements, hlyrics⟩ := h
    -- What is added to the first voice comes before what the other ones hold.
    have hmove (first new rest all : List Node) (hall : (first ++ rest).Perm all) :
        (first ++ new ++ rest).Perm (all ++ new) := by
      rw [List.append_assoc]
      refine (List.perm_append_comm.append_left first).trans ?_
      rw [← List.append_assoc]
      exact hall.append_right new
    unfold VoiceParts.add
    split_ifs
    · exact ⟨hmove _ _ _ _ helements, hmove _ _ _ _ hlyrics⟩
    · refine ⟨?_, ?_⟩
      · refine (hrest.elements.append_left parts.elements).trans ?_
        rw [← List.append_assoc]
        exact helements.append_right elements'
      · refine (hrest.lyrics.append_left parts.lyrics).trans ?_
        rw [← List.append_assoc]
        exact hlyrics.append_right lyrics'

/-- Splitting nodes of the body adds what their lines hold. -/
theorem Hold.splitVoices (h : Hold vs elements lyrics) (current : Text) (ns : List Node) :
    Hold (SingAlong.splitVoices current vs ns) (elements ++ (ofLines ns).elements)
      (lyrics ++ (ofLines ns).lyrics) := by
  induction ns generalizing current vs elements lyrics with
  | nil => simpa [ofLines, SingAlong.splitVoices] using h
  | cons n ns ih =>
    rw [ofLines_cons, append, ← List.append_assoc, ← List.append_assoc]
    unfold SingAlong.splitVoices
    split
    next t hl => simpa [Node.lineElements, Node.lineLyrics, hl] using ih h (Field.value t)
    next hl =>
      simpa [Node.lineElements, Node.lineLyrics, hl] using ih (h.add current _ []) current
    next hl =>
      simpa [Node.lineElements, Node.lineLyrics, hl] using ih (h.add current [] _) current
    next hvoice hline hlyrics =>
      simpa [Node.lineElements, Node.lineLyrics, show ¬n.label = _ from hline,
        show ¬n.label = _ from hlyrics] using ih h current

end VoiceParts

namespace Node

variable {body : Node} {name : Text}

/-- The voices of a body hold what its lines do. -/
theorem hold_voiceParts (body : Node) : VoiceParts.Hold body.voiceParts
    (body.children.flatMap lineElements) (body.children.flatMap lineLyrics) := by
  have hempty : VoiceParts.Hold [] [] [] := ⟨.refl _, .refl _⟩
  exact hempty.splitVoices Header.defaultVoice body.children

/-- The parts of a voice are what its lines hold. -/
theorem named_voiceParts (body : Node) (name : Text) :
    named body.voiceParts name = ofLines (body.linesOf name) :=
  named_splitVoices _ _ _ _

/-- The voices of a body are those of its lines, in the order of their first line. -/
theorem voiceNames_voiceParts (body : Node) : voiceNames body.voiceParts =
    ((voicedLines Header.defaultVoice body.children).map Prod.fst).eraseDups := by
  have hnames := voiceNames_splitVoices Header.defaultVoice [] body.children
  unfold voiceNames at hnames ⊢
  rw [map_fst_voicedLines]
  simpa [voiceParts, List.removeAll] using hnames

/-- The voices of a body have different names. -/
theorem nodup_voiceParts (body : Node) : (voiceNames body.voiceParts).Nodup :=
  nodup_splitVoices .nil

/-- A voice is there if it has a line. -/
theorem mem_voiceNames_iff : name ∈ voiceNames body.voiceParts ↔ body.linesOf name ≠ [] := by
  rw [voiceNames_voiceParts, List.mem_eraseDups, linesOf, ne_eq, List.map_eq_nil_iff,
    List.filter_eq_nil_iff]
  simp

end Node

/-! ## The music of a voice -/

/-- The elements of a line do not depend on where it is written. -/
theorem Node.lineElements_unplaced (n : Node) :
    n.unplaced.lineElements = n.lineElements.map Node.unplaced := by
  unfold lineElements
  rw [label_unplaced, children_unplaced, List.filter_map]
  split_ifs
  · congr 2
    funext child
    exact congrArg (fun l : Label => !l.isComment) child.label_unplaced
  · rfl

/-- The lyrics of a line do not depend on where it is written. -/
theorem Node.lineLyrics_unplaced (n : Node) :
    n.unplaced.lineLyrics = n.lineLyrics.map Node.unplaced := by
  unfold lineLyrics
  rw [label_unplaced, children_unplaced]
  split_ifs <;> rfl

/-- Lines that are equal hold parts that are alike. -/
theorem VoiceParts.like_ofLines {lines lines' : List Node}
    (h : List.Forall₂ (fun n n' => n.same n' = true) lines lines') :
    (ofLines lines).Like False (ofLines lines') := by
  have hlines : lines.map Node.unplaced = lines'.map Node.unplaced :=
    map_eq_iff_forall₂.2 (h.imp fun n n' => (Node.same_iff n n').1)
  have hparts (f : Node → List Node) (hf : ∀ n, f n.unplaced = (f n).map Node.unplaced) :
      (lines.flatMap f).map Node.unplaced = (lines'.flatMap f).map Node.unplaced := by
    rw [List.map_flatMap, List.map_flatMap]
    simp only [← hf]
    rw [← List.flatMap_map, hlines, List.flatMap_map]
  refine ⟨hparts _ Node.lineElements_unplaced, .of_forall₂ ?_⟩
  rw [List.forall₂_map_left_iff, List.forall₂_map_right_iff]
  refine (map_eq_iff_forall₂.1 (hparts _ Node.lineLyrics_unplaced)).imp fun n n' hn => ?_
  have hlabel : n.label = n'.label := by rw [← n.label_unplaced, hn, n'.label_unplaced]
  rw [LyricToken.ofNode, LyricToken.ofNode, hlabel]

section

variable {c : Compiler} {body body' : Node} {song song' : Song} {name : Text}

/-- The parts of a voice that is there are found by its name. -/
theorem VoiceParts.named_of_mem {vs : List (Text × VoiceParts)} (hnames : (voiceNames vs).Nodup)
    {v : Text × VoiceParts} (hv : v ∈ vs) : named vs v.1 = v.2 := by
  rw [named, Music.lookup_of_mem hnames hv, Option.getD_some]

/-- The music of a voice is compiled from what its lines hold. -/
theorem Song.ofBody_voice (h : Song.ofBody c (some body) = .ok song)
    (hlines : body.linesOf name ≠ []) :
    ∃ music dropped, song.voices.lookup name = some music ∧
      c.voice (ofLines (body.linesOf name)).elements (ofLines (body.linesOf name)).lyrics =
        .ok (music, dropped) := by
  have hparts := body.nodup_voiceParts
  have hnames : voiceNames song.voices = voiceNames body.voiceParts := voiceNames_ofBody h
  obtain ⟨v, hv, rfl⟩ : ∃ v ∈ song.voices, v.1 = name := by
    have hmem := Node.mem_voiceNames_iff.2 hlines
    rw [← hnames] at hmem
    exact List.mem_map.1 hmem
  obtain ⟨b, parts, dropped, hbody, hmem, hvoice⟩ := (Song.ofBody_voices h).2 v hv
  cases hbody
  rw [← Node.named_voiceParts, VoiceParts.named_of_mem hparts hmem]
  exact ⟨v.2, dropped, Music.lookup_of_mem (hnames ▸ hparts) hv, hvoice⟩

/-- A voice without lines has no music. -/
theorem Song.ofBody_noVoice (h : Song.ofBody c (some body) = .ok song)
    (hlines : body.linesOf name = []) : song.voices.lookup name = none := by
  have hnames : voiceNames song.voices = voiceNames body.voiceParts := voiceNames_ofBody h
  have hnone : name ∉ voiceNames song.voices := by
    rw [hnames, Node.mem_voiceNames_iff, hlines]
    exact not_not.2 rfl
  refine List.lookup_eq_none_iff.2 fun v hv => bne_iff_ne.2 ?_
  rintro rfl
  exact hnone (List.mem_map_of_mem hv)

/-- Bodies that give a voice equal lines give it the same music. -/
theorem Song.voice_congr (hlines : List.Forall₂ (fun n n' => n.same n' = true) (body.linesOf name)
      (body'.linesOf name)) (h : Song.ofBody c (some body) = .ok song)
    (h' : Song.ofBody c (some body') = .ok song') :
    Music.voice song.voices song.header name = Music.voice song'.voices song'.header name := by
  have hheader : song.header = song'.header :=
    (Song.ofBody_voices h).1.trans (Song.ofBody_voices h').1.symm
  have hfound : song.voices.lookup name = song'.voices.lookup name := by
    by_cases hnone : body.linesOf name = []
    · have hnone' := hlines
      rw [hnone, List.forall₂_nil_left_iff] at hnone'
      rw [ofBody_noVoice h hnone, ofBody_noVoice h' hnone']
    · have hsome : body'.linesOf name ≠ [] := by
        rintro hnone'
        rw [hnone', List.forall₂_nil_right_iff] at hlines
        exact hnone hlines
      obtain ⟨music, dropped, hmusic, hvoice⟩ := ofBody_voice h hnone
      obtain ⟨music', dropped', hmusic', hvoice'⟩ := ofBody_voice h' hsome
      rw [c.voice_congr (VoiceParts.like_ofLines hlines), hvoice'] at hvoice
      cases hvoice
      rw [hmusic, hmusic']
  rw [Music.voice, Music.voice, hheader, hfound]

end

/-- The voices partition the body and do not influence each other. The voices are those of its
lines, in the order of their first line and each once; a voice has what its own lines hold, in their
order, and together the voices have what all lines hold. Bodies that give a voice equal lines give
it the same music, whatever there is of other voices. -/
theorem Node.voices_partition (body : Node) :
    voiceNames body.voiceParts =
        ((voicedLines Header.defaultVoice body.children).map Prod.fst).eraseDups ∧
      (∀ v ∈ body.voiceParts,
        v.2.elements = (body.linesOf v.1).flatMap Node.lineElements ∧
          v.2.lyrics = (body.linesOf v.1).flatMap Node.lineLyrics) ∧
      (body.voiceParts.flatMap fun v => v.2.elements).Perm
        (body.children.flatMap Node.lineElements) ∧
      (body.voiceParts.flatMap fun v => v.2.lyrics).Perm (body.children.flatMap Node.lineLyrics) ∧
      ∀ (c : Compiler) (body' : Node) (name : Text) (song song' : Song),
        List.Forall₂ (fun n n' => n.same n' = true) (body.linesOf name) (body'.linesOf name) →
        Song.ofBody c (some body) = .ok song → Song.ofBody c (some body') = .ok song' →
        Music.voice song.voices song.header name =
          Music.voice song'.voices song'.header name := by
  refine ⟨body.voiceNames_voiceParts, fun v hv => ?_, body.hold_voiceParts.elements,
    body.hold_voiceParts.lyrics, fun c body' name song song' => Song.voice_congr⟩
  have hparts := VoiceParts.named_of_mem body.nodup_voiceParts hv
  rw [Node.named_voiceParts] at hparts
  rw [← hparts]
  exact ⟨rfl, rfl⟩

/-- A line with a C that has an accidental or none. -/
def lineOfC (accidental : Option Accidental) : Node :=
  .unread .line
    [.unread (.note ⟨.C, false⟩) (accidental.toList.map fun a => .unread (.accidental a) [])]

/-- A voice of two lines alone. -/
def soloBody : Node :=
  .unread .body [lineOfC (some .sharp), lineOfC none]

/-- The same voice, with a line of another voice and lyrics of that voice between its lines. -/
def duetBody : Node :=
  .unread .body [lineOfC (some .sharp), .unread (.voiceField "V:b".text) [],
    lineOfC (some .natural), .unread .lyricLine [.unread (.lyric .syllable "la".text) []],
    .unread (.voiceField "V:default".text) [], lineOfC none]

/-- The default voice has the same music in both bodies: its sharp stays in effect in its second
line, although the other voice has a natural between them. -/
theorem Node.voices_partition_duet :
    let c : Compiler := ⟨⟨1, "t".text, Header.defaultComposer, ⟨.major, 7⟩, 1, 1 / 8, .standard,
      [Header.defaultVoice]⟩, .piano⟩
    ∃ song song', Song.ofBody c (some soloBody) = .ok song ∧
      Song.ofBody c (some duetBody) = .ok song' ∧
      voiceNames song'.voices = [Header.defaultVoice, "b".text] ∧
      Music.voice song.voices song.header Header.defaultVoice =
        Music.voice song'.voices song'.header Header.defaultVoice := by
  intro c
  have hlines : List.Forall₂ (fun n n' => n.same n' = true)
      (soloBody.linesOf Header.defaultVoice) (duetBody.linesOf Header.defaultVoice) := by
    decide +kernel
  obtain ⟨song, hsong⟩ := Option.isSome_iff_exists.1
    (show (Song.ofBody c (some soloBody)).toOption.isSome by decide +kernel)
  obtain ⟨song', hsong'⟩ := Option.isSome_iff_exists.1
    (show (Song.ofBody c (some duetBody)).toOption.isSome by decide +kernel)
  rw [toOption_eq_some] at hsong hsong'
  refine ⟨song, song', hsong, hsong', ?_, ?_⟩
  · rw [Song.voiceNames_ofBody hsong']
    decide +kernel
  · exact soloBody.voices_partition.2.2.2.2 c duetBody _ song song' hlines hsong hsong'

end SingAlong

import SingAlong.Proofs.Alignment
import SingAlong.Proofs.Likeness
import SingAlong.Proofs.LyricTime

/-!
# Blanks at the ends of lines in a song

A source and the padded source are read as the same song, but for the lyrics (`Song.read_padded`):
both are rejected, or both songs have the same header and the same voices with the same notes. The
lyrics are the same as well when no blanks are added to the lines of lyrics. There a blank is a
space, which fills no slot, but each token of the lyrics skips an element that takes no time, and so
moves what comes after it (`Song.read_spaceAfterWord`).

What is compiled depends on the elements without their places (`Compiler.compileVoice_unplaced`),
and lyrics are displayed whatever they are (`Slot.display_exists`). A space before the end of a line
of lyrics moves nothing where no two neighbouring elements take no time (`align_spread`).
-/

namespace SingAlong

namespace Compiler

variable (c : Compiler)

/-- The place of a note does not matter to what it is compiled to. -/
theorem note_unplaced (name : NoteName) (n : Node) : c.note name n.unplaced = c.note name n := by
  unfold note length Node.accidental? Node.octaveShift Node.lengthText
  simp only [Node.children_unplaced, List.findSome?_map, Function.comp_def, Node.label_unplaced]

/-- The place of a rest does not matter to what it is compiled to. -/
theorem rest_unplaced (n : Node) : c.rest n.unplaced = c.rest n := by
  unfold rest length Node.lengthText
  simp only [Node.children_unplaced, List.findSome?_map, Function.comp_def, Node.label_unplaced]

mutual
/-- The place of an element does not matter to what it is compiled to. -/
theorem compile_unplaced : ∀ n : Node, c.compile n.unplaced = c.compile n
  | .mk label opening closing ns => by
    have hall := compileAll_unplacedAll ns
    have hline := compileLine_unplacedAll ns
    have hnote (name : NoteName) := c.note_unplaced name (.mk label opening closing ns)
    have hrest := c.rest_unplaced (.mk label opening closing ns)
    unfold Node.unplaced Node.unread at *
    unfold compile
    rw [hall, hline, hrest]
    simp only [hnote]
/-- The places of elements do not matter to what they are compiled to. -/
theorem compileAll_unplacedAll :
    ∀ ns : List Node, c.compileAll (Node.unplacedAll ns) = c.compileAll ns
  | [] => rfl
  | n :: ns => by
    rw [Node.unplacedAll, compileAll, compileAll, compile_unplaced n, compileAll_unplacedAll ns]
/-- The places of the elements of a line do not matter to what they are compiled to. -/
theorem compileLine_unplacedAll :
    ∀ ns : List Node, c.compileLine (Node.unplacedAll ns) = c.compileLine ns
  | [] => rfl
  | n :: ns => by
    rw [Node.unplacedAll, compileLine, compileLine, compile_unplaced n, compileLine_unplacedAll ns,
      Node.label_unplaced]
end

/-- Voices whose elements are the same without their places are compiled to the same. -/
theorem compileVoice_unplaced {ns ms : List Node}
    (h : ns.map Node.unplaced = ms.map Node.unplaced) : c.compileVoice ns = c.compileVoice ms := by
  unfold compileVoice
  rw [← c.compileAll_unplacedAll ns, ← c.compileAll_unplacedAll ms, Node.unplacedAll_eq_map,
    Node.unplacedAll_eq_map, h]

end Compiler

/-- The labels of elements that are the same without their places. -/
theorem map_label_eq {ns ms : List Node} (h : ns.map Node.unplaced = ms.map Node.unplaced) :
    ns.map Node.label = ms.map Node.label := by
  have hlabels (ns : List Node) : ns.map Node.label = (ns.map Node.unplaced).map Node.label := by
    rw [List.map_map]
    exact List.map_congr_left fun n _ => n.label_unplaced.symm
  rw [hlabels, hlabels ms, h]

/-- The performance order depends on the labels of the elements. -/
theorem expandFrom_congr {ns ms : List Node} (h : ns.map Node.label = ms.map Node.label)
    (s : RepeatState) (i : Nat) : expandFrom s i ns = expandFrom s i ms := by
  induction ns generalizing ms s i with
  | nil =>
    rw [List.map_eq_nil_iff.1 h.symm]
  | cons n ns ih =>
    cases ms with
    | nil => cases h
    | cons m ms =>
      obtain ⟨hlabel, hrest⟩ := List.cons.inj h
      unfold expandFrom
      rw [hlabel]
      exact congrArg (i :: (s.step i m.label).1 ++ ·) (ih hrest _ _)

/-! ## Aligning -/

namespace LyricStep

/-- Steps that are the same but for spaces before line ends. -/
def Spread (added : Prop) (steps steps' : List LyricStep) : Prop :=
  SingAlong.Spread added Eq (· = space) (· = newline) steps steps'

variable {added : Prop} {steps steps' : List LyricStep}

/-- Spaces before line ends do not matter to the word that a join takes. -/
theorem takeWord?_spread (h : Spread added steps steps') :
    Option.Rel (fun w w' => w.1 = w'.1 ∧ Spread added w.2 w'.2) (takeWord? steps)
      (takeWord? steps') := by
  induction h with
  | nil => exact .none
  | @cons step step' rest rest' hstep h ih =>
    subst hstep
    cases step with
    | space => exact ih
    | text t isSyllable =>
      cases isSyllable with
      | true => exact .some ⟨rfl, h⟩
      | false => exact .none
    | _ => exact .none
  | @space step steps steps' hadded hspace hend h ih =>
    obtain rfl := of_decide_eq_true hspace
    cases steps with
    | nil => cases hend
    | cons step rest =>
      obtain rfl := of_decide_eq_true hend
      exact ih

/-- A join takes the same word. -/
theorem joinFirst_spread (h : Spread added steps steps') (joint : Joint) (own : Text) :
    Spread added (joinFirst joint own steps) (joinFirst joint own steps') := by
  have hword := takeWord?_spread h
  unfold joinFirst
  generalize takeWord? steps = w at hword
  generalize takeWord? steps' = w' at hword
  cases hword with
  | none => exact .cons rfl h
  | @some w w' hword =>
    obtain ⟨word, rest⟩ := w
    obtain ⟨word', rest'⟩ := w'
    obtain ⟨rfl, hrest⟩ := hword
    exact .cons rfl hrest

/-- Tokens that are the same but for spaces before line ends are taken as such steps. -/
theorem ofTokens_spread {ts ts' : List LyricToken} (h : LyricToken.Spread added ts ts') :
    Spread added (ofTokens ts) (ofTokens ts') := by
  induction h with
  | nil => exact .nil
  | @cons t t' ts ts' ht h ih =>
    by_cases hspace : t.kind = .space
    · have hspace' : t'.kind = .space := by rw [← t'.kind_plain, ← ht, t.kind_plain, hspace]
      rw [ofTokens, ofTokens, hspace, hspace']
      exact .cons rfl ih
    · obtain rfl : t' = t := by
        have hspace' : t'.kind ≠ .space := by rwa [← t'.kind_plain, ← ht, t.kind_plain]
        rw [LyricToken.plain, LyricToken.plain, if_neg hspace, if_neg hspace'] at ht
        exact ht.symm
      unfold ofTokens
      cases t'.kind with
      | tie => exact joinFirst_spread ih .blank t'.text
      | escapedHyphen => exact joinFirst_spread ih .hyphen t'.text
      | _ => exact .cons rfl ih
  | @space t ts ts' hadded hspace hend h ih =>
    have hsteps : ofTokens (t :: ts') = space :: ofTokens ts' := by
      rw [ofTokens, of_decide_eq_true hspace]
    rw [hsteps]
    refine .space hadded rfl ?_ ih
    cases ts with
    | nil => cases hend
    | cons s ts =>
      rw [ofTokens, of_decide_eq_true hend]
      rfl

/-- Spaces before line ends do not matter to whether a join is next. -/
theorem joinIsNext_spread (h : Spread added steps steps') :
    joinIsNext steps' = joinIsNext steps := by
  induction h with
  | nil => rfl
  | @cons step step' rest rest' hstep h ih =>
    subst hstep
    cases step with
    | space => exact ih
    | _ => rfl
  | @space step steps steps' hadded hspace hend h ih =>
    obtain rfl := of_decide_eq_true hspace
    exact ih

/-- Spaces before line ends do not matter to whether the steps can end the lyrics. -/
theorem all_isTrailing_spread (h : Spread added steps steps') :
    steps'.all isTrailing = steps.all isTrailing := by
  induction h with
  | nil => rfl
  | @cons step step' rest rest' hstep h ih =>
    subst hstep
    rw [List.all_cons, List.all_cons, ih]
  | @space step steps steps' hadded hspace hend h ih =>
    obtain rfl := of_decide_eq_true hspace
    exact ih

/-- Spaces before line ends hold no syllables. -/
theorem countP_holdsSyllable_spread (h : Spread added steps steps') :
    steps'.countP holdsSyllable = steps.countP holdsSyllable := by
  induction h with
  | nil => rfl
  | @cons step step' rest rest' hstep h ih =>
    subst hstep
    rw [List.countP_cons, List.countP_cons, ih]
  | @space step steps steps' hadded hspace hend h ih =>
    obtain rfl := of_decide_eq_true hspace
    exact ih

/-- No line of lyrics begins with a join, apart from the first. -/
def LinesApart (steps : List LyricStep) : Prop :=
  ∀ rest, newline :: rest <:+ steps → joinIsNext rest = false

end LyricStep

/-- No two neighbouring elements take no time. -/
def SilencesApart (seats : List Seat) : Prop :=
  seats.IsChain fun a b => ¬(a.IsSilent ∧ b.IsSilent)

/-- The alignment of seats to which these slots are given, when these steps are left. -/
def Alignment.ofFilled (seats : List Seat) (filled : List Slot × List LyricStep) : Alignment :=
  { slots := filled.1.take seats.length ++
      List.replicate (seats.length - filled.1.length) .blank
    dropped := (filled.1.drop seats.length).countP Slot.isSyllable +
      filled.2.countP LyricStep.holdsSyllable }

section

variable {seats : List Seat}

/-- After an element that takes no time no other one is passed over, when no two of them are
neighbours. -/
theorem fillSilent_fillSilent (h : SilencesApart seats) (slots : List Slot) :
    fillSilent seats (fillSilent seats slots) = fillSilent seats slots := by
  rcases fillSilent_eq seats slots with ⟨-, heq⟩ | ⟨⟨a, ha, hfirst⟩, heq⟩
  · rw [heq, heq]
  · rcases fillSilent_eq seats (slots ++ [.blank]) with ⟨-, heq'⟩ | ⟨⟨b, hb, hsecond⟩, -⟩
    · rw [heq, heq']
    · rw [List.length_append, List.length_singleton] at hb
      obtain ⟨hlt, rfl⟩ := List.getElem?_eq_some_iff.1 hb
      obtain ⟨_, rfl⟩ := List.getElem?_eq_some_iff.1 ha
      exact absurd ⟨hfirst, hsecond⟩ (List.isChain_iff_getElem.1 h slots.length hlt)

/-- When all slots are filled no more steps are taken unless they join. -/
theorem fillSlots_full {steps : List LyricStep} {slots : List Slot}
    (hfull : seats.length ≤ slots.length) (hjoin : LyricStep.joinIsNext steps = false) :
    fillSlots seats slots steps = (slots, steps) := by
  cases steps with
  | nil => rfl
  | cons step rest => rw [fillSlots, if_pos (by simp [hfull, hjoin])]

/-- Passing over an element before the end of a line, which passes over one as well, does not
matter when no join follows and no two elements that take no time are neighbours. -/
theorem fillSlots_newline (h : SilencesApart seats) {rest : List LyricStep}
    (hjoin : LyricStep.joinIsNext rest = false) {slots : List Slot}
    (hroom : slots.length < seats.length) :
    Alignment.ofFilled seats (fillSlots seats slots (.newline :: rest)) =
      Alignment.ofFilled seats (fillSlots seats (fillSilent seats slots) (.newline :: rest)) := by
  have htaken : fillSlots seats slots (.newline :: rest) =
      fillSlots seats (fillSilent seats slots ++ [.newline]) rest := by
    rw [fillSlots, if_neg (by simp [hroom]), takeStep]
  have hidem := fillSilent_fillSilent h slots
  have hlength : (fillSilent seats slots).length ≤ seats.length := by
    rcases fillSilent_eq seats slots with ⟨-, heq⟩ | ⟨-, heq⟩
    · rw [heq]
      exact hroom.le
    · rw [heq, List.length_append]
      exact hroom
  rw [htaken]
  generalize fillSilent seats slots = filled at *
  by_cases hroom' : filled.length < seats.length
  · rw [fillSlots, if_neg (by simp [hroom']), takeStep, hidem]
  · -- The element that is passed over is the last one, so the end of the line gets no slot.
    have hfull : seats.length = filled.length := by omega
    rw [fillSlots_full hfull.le rfl, fillSlots_full (by simp [hfull]) hjoin]
    unfold Alignment.ofFilled
    rw [hfull]
    simp [Slot.isSyllable, LyricStep.holdsSyllable]

/-- Spaces before the ends of lines of lyrics do not matter when no two elements that take no time
are neighbours, and no line of lyrics but the first begins with a join. -/
theorem fillSlots_spread (h : SilencesApart seats) {added : Prop} {steps steps' : List LyricStep}
    (hsteps : LyricStep.Spread added steps steps') (hlines : LyricStep.LinesApart steps)
    (slots : List Slot) :
    Alignment.ofFilled seats (fillSlots seats slots steps) =
      Alignment.ofFilled seats (fillSlots seats slots steps') := by
  induction hsteps generalizing slots with
  | nil => rfl
  | @cons step step' rest rest' hstep hrest ih =>
    subst hstep
    have hstepTaken (filled : List Slot) :
        takeStep seats filled step rest' = takeStep seats filled step rest := by
      cases step with
      | hyphen => rw [takeStep, takeStep, LyricStep.all_isTrailing_spread hrest]
      | _ => rfl
    have hnext := LyricStep.joinIsNext_spread (.cons (a := step) rfl hrest)
    rw [fillSlots, fillSlots, hnext, hstepTaken]
    split_ifs
    · rw [Alignment.ofFilled, Alignment.ofFilled, List.countP_cons, List.countP_cons,
        LyricStep.countP_holdsSyllable_spread hrest]
    · exact ih (fun rest₁ hsuffix => hlines rest₁ (hsuffix.trans (List.suffix_cons step rest))) _
  | @space step steps steps' hadded hspace hend hrest ih =>
    obtain rfl := of_decide_eq_true hspace
    cases steps with
    | nil => cases hend
    | cons step rest =>
      obtain rfl := of_decide_eq_true hend
      have hjoin := hlines rest List.suffix_rfl
      have hspread : LyricStep.Spread added (.newline :: rest) (.space :: steps') :=
        .space hadded rfl rfl hrest
      have hnext : LyricStep.joinIsNext (.space :: steps') = false :=
        LyricStep.joinIsNext_spread hspread
      by_cases hroom : slots.length < seats.length
      · have htaken : fillSlots seats slots (.space :: steps') =
            fillSlots seats (fillSilent seats slots) steps' := by
          rw [fillSlots, if_neg (by simp [hroom]), takeStep]
        rw [htaken, fillSlots_newline h hjoin hroom]
        exact ih hlines _
      · have hfull : seats.length ≤ slots.length := Nat.le_of_not_lt hroom
        have hcount := LyricStep.countP_holdsSyllable_spread hspread
        rw [fillSlots_full hfull rfl, fillSlots_full hfull hnext, Alignment.ofFilled,
          Alignment.ofFilled, hcount]

/-- Without new spaces the tokens are aligned in the same way. -/
theorem align_unspread {added : Prop} (hadded : ¬added) {ts ts' : List LyricToken}
    (hts : LyricToken.Spread added ts ts') (seats : List Seat) :
    align ts seats = align ts' seats := by
  have hsteps : LyricStep.ofTokens ts = LyricStep.ofTokens ts' :=
    List.forall₂_eq_eq_eq ▸ (LyricStep.ofTokens_spread hts).forall₂_of_not hadded
  unfold align
  rw [hsteps]

/-- Spaces before the ends of lines of lyrics do not change the alignment when no two elements that
take no time are neighbours, and no line of lyrics but the first begins with a join. -/
theorem align_spread (h : SilencesApart seats) {added : Prop} {ts ts' : List LyricToken}
    (hts : LyricToken.Spread added ts ts') (hlines : LyricStep.LinesApart (LyricStep.ofTokens ts)) :
    align ts seats = align ts' seats :=
  fillSlots_spread h (LyricStep.ofTokens_spread hts) hlines []

end

/-! ## The voices -/

/-- Labels that are plainly the same are the same, or those of comments. -/
theorem Label.plain_cases {l l' : Label} (h : l.plain = l'.plain) :
    l' = l ∨ (l.isComment ∧ l'.isComment) := by
  cases l with
  | comment x =>
    cases l' with
    | comment y => exact .inr ⟨rfl, rfl⟩
    | _ => cases h
  | _ =>
    cases l' with
    | comment y => cases h
    | _ => exact .inl h.symm

/-- Comments do not matter to the fields. -/
theorem Label.fieldText?_plain (l : Label) : l.plain.fieldText? = l.fieldText? := by
  cases l <;> rfl

/-- Voices whose elements are the same without their places, and whose lyrics are the same but for
spaces at the ends of lines. -/
structure VoiceParts.Like (added : Prop) (p p' : VoiceParts) : Prop where
  elements : p.elements.map Node.unplaced = p'.elements.map Node.unplaced
  lyrics : LyricToken.Spread added (p.lyrics.map LyricToken.ofNode)
    (p'.lyrics.map LyricToken.ofNode)

section

variable {added : Prop}

/-- Voices with the same names that are alike. -/
def VoicesLike (added : Prop) (vs vs' : List (Text × VoiceParts)) : Prop :=
  List.Forall₂ (fun v v' => v.1 = v'.1 ∧ v.2.Like added v'.2) vs vs'

/-- A line is added to voices that are alike. -/
theorem VoicesLike.add {vs vs' : List (Text × VoiceParts)} (h : VoicesLike added vs vs')
    (name : Text) {elements elements' lyrics lyrics' : List Node}
    (hnew : (VoiceParts.mk elements lyrics).Like added ⟨elements', lyrics'⟩) :
    VoicesLike added (VoiceParts.add name elements lyrics vs)
      (VoiceParts.add name elements' lyrics' vs') := by
  induction h with
  | nil => exact .cons ⟨rfl, hnew⟩ .nil
  | @cons v v' vs vs' hv h ih =>
    obtain ⟨hname, helements, hlyrics⟩ := hv
    unfold VoiceParts.add
    rw [← hname]
    split_ifs
    · refine .cons ⟨rfl, ?_, ?_⟩ h
      · rw [List.map_append, List.map_append, helements, hnew.elements]
      · rw [List.map_append, List.map_append]
        exact hlyrics.append hnew.lyrics
    · exact .cons ⟨rfl, helements, hlyrics⟩ ih

/-- A comment between the lines belongs to no voice. -/
theorem splitVoices_comment {n : Node} (hn : n.label.isComment) {current : Text}
    {voices : List (Text × VoiceParts)} (rest : List Node) :
    splitVoices current voices (n :: rest) = splitVoices current voices rest := by
  unfold Label.isComment at hn
  split at hn
  next t hl => rw [splitVoices, hl]
  next => cases hn

/-- Bodies that are alike have voices that are alike. -/
theorem splitVoices_like {ns ns' : List Node} (h : List.Forall₂ (Node.Like added) ns ns')
    (current : Text) {vs vs' : List (Text × VoiceParts)} (hvs : VoicesLike added vs vs') :
    VoicesLike added (splitVoices current vs ns) (splitVoices current vs' ns') := by
  induction h generalizing current vs vs' with
  | nil => exact hvs
  | @cons n n' rest rest' hn h ih =>
    obtain ⟨hlabel, helements, hlyrics⟩ := hn
    rcases Label.plain_cases hlabel with hsame | ⟨hcomment, hcomment'⟩
    · unfold splitVoices
      rw [hsame]
      cases hl : n.label with
      | voiceField t => exact ih _ hvs
      | line =>
        rw [Node.lineElements, Node.lineElements, hsame, if_pos hl, if_pos hl] at helements
        exact ih _ (hvs.add current ⟨helements, .nil⟩)
      | lyricLine =>
        rw [Node.lyricTokens, Node.lyricTokens, hsame, if_pos hl, if_pos hl] at hlyrics
        exact ih _ (hvs.add current ⟨rfl, hlyrics⟩)
      | _ => exact ih _ hvs
    · rw [splitVoices_comment hcomment, splitVoices_comment hcomment']
      exact ih current hvs

/-! ## A voice -/

/-- The notes of a voice of a song, which may have lyrics before them. -/
def Music.notes? : Music → Option Music
  | component [notes] => some notes
  | component [_, notes] => some notes
  | _ => none

/-- No two neighbouring elements of the voice take no time, and no line of its lyrics but the first
begins with a join. -/
structure VoiceParts.Apart (c : Compiler) (p : VoiceParts) : Prop where
  silences : ∀ ms, c.compileVoice p.elements = .ok ms →
    ms.IsChain fun a b => ¬(a.duration.value = 0 ∧ b.duration.value = 0)
  lines : LyricStep.LinesApart (LyricStep.ofTokens (p.lyrics.map LyricToken.ofNode))

/-- Compiled voices with the same notes, which are the same where `kept` holds. -/
def VoiceAlike (kept : Prop) (v v' : Music × Nat) : Prop :=
  (∃ notes, v.1.notes? = some notes ∧ v'.1.notes? = some notes) ∧ (kept → v = v')

/-- The lyrics of elements that are compiled can be aligned and displayed. -/
theorem lyricTimeline_exists {elements : List Node} (lyrics : List Node) {expressions : List Music}
    (hlength : expressions.length = elements.length) (hcompiled : ∀ m ∈ expressions, m.IsCompiled) :
    ∃ timeline, Compiler.lyricTimeline elements lyrics expressions (expand elements) =
      .ok timeline := by
  have horder := expand_lt elements
  have hslots : (Compiler.pick (Compiler.slots elements lyrics expressions)
      (expand elements)).length = (expand elements).length :=
    Compiler.length_pick (by rwa [Compiler.slots_length hlength])
  have hlengths : (Compiler.pick (expressions.map Music.duration) (expand elements)).length =
      (expand elements).length :=
    Compiler.length_pick (by rwa [List.length_map, hlength])
  obtain ⟨shown, hshown⟩ := Slot.display_exists (hslots.trans hlengths.symm).le fun d hd => by
    obtain ⟨m, hm, rfl⟩ := List.mem_map.1 (Compiler.mem_of_mem_pick d hd)
    exact (hcompiled m hm).2
  exact ⟨_, bind_eq_ok.2 ⟨shown, mapError_eq_ok.2 hshown, rfl⟩⟩

/-- The elements that lyrics are aligned with. -/
def Compiler.seats (elements : List Node) (expressions : List Music) : List Seat :=
  (elements.zip (expressions.map Music.duration)).map fun (n, l) => Seat.mk n.label l

/-- Elements of the same labels are the same to align with. -/
theorem seats_congr {elements elements' : List Node}
    (h : elements.map Node.label = elements'.map Node.label) (expressions : List Music) :
    Compiler.seats elements expressions = Compiler.seats elements' expressions := by
  have hseats (ns : List Node) : Compiler.seats ns expressions =
      ((ns.map Node.label).zip (expressions.map Music.duration)).map fun (n, l) => Seat.mk n l := by
    rw [List.zip_map_left, List.map_map]
    rfl
  rw [hseats, hseats, h]

/-- No two neighbouring elements to align with take no time when no two expressions do. -/
theorem silencesApart_seats {elements : List Node} {expressions : List Music}
    (hlength : expressions.length = elements.length)
    (h : expressions.IsChain fun a b => ¬(a.duration.value = 0 ∧ b.duration.value = 0)) :
    SilencesApart (Compiler.seats elements expressions) := by
  have hlengths : (Compiler.seats elements expressions).map Seat.length =
      expressions.map Music.duration := by
    rw [Compiler.seats, List.map_map]
    exact List.map_snd_zip (by rw [List.length_map, hlength])
  have hchain := (List.isChain_map (R := fun a b : Length => ¬(a.value = 0 ∧ b.value = 0))
    Music.duration).2 h
  rw [← hlengths] at hchain
  exact (List.isChain_map Seat.length).1 hchain

/-- Lyrics that are aligned in the same way make the same timeline. -/
theorem lyricTimeline_congr {elements elements' lyrics lyrics' : List Node}
    {expressions : List Music}
    (helements : elements.map Node.label = elements'.map Node.label)
    (halign : align (lyrics.map LyricToken.ofNode) (Compiler.seats elements expressions) =
      align (lyrics'.map LyricToken.ofNode) (Compiler.seats elements expressions))
    (order : List Nat) :
    Compiler.lyricTimeline elements lyrics expressions order =
      Compiler.lyricTimeline elements' lyrics' expressions order := by
  have htimeline (elements lyrics : List Node) :
      Compiler.lyricTimeline elements lyrics expressions order =
        let aligned := align (lyrics.map LyricToken.ofNode) (Compiler.seats elements expressions)
        ((display (Compiler.pick aligned.slots order)
          (Compiler.pick (expressions.map Music.duration) order)).mapError .display).map
            fun shown => (Music.sequence shown, aligned.dropped) := rfl
  rw [htimeline, htimeline, halign, seats_congr helements expressions]

/-- Voices that are alike are compiled alike. -/
theorem voice_like (c : Compiler) {p p' : VoiceParts} {kept : Prop} (h : p.Like added p')
    (helements : ∀ n ∈ p.elements, n.IsVoiceElement)
    (hkept : kept → added → p.lyrics ≠ [] → p.Apart c) :
    Agrees (VoiceAlike kept) (c.voice p.elements p.lyrics) (c.voice p'.elements p'.lyrics) := by
  have hlabels := map_label_eq h.elements
  have horder : expand p'.elements = expand p.elements := (expandFrom_congr hlabels _ _).symm
  have hempty : p'.lyrics.isEmpty = p.lyrics.isEmpty := by
    have hmap := h.lyrics.isEmpty_eq
    rw [List.isEmpty_map, List.isEmpty_map] at hmap
    exact hmap.symm
  unfold Compiler.voice
  rw [← c.compileVoice_unplaced h.elements]
  cases hexpressions : c.compileVoice p.elements with
  | error e => exact .error e e
  | ok expressions =>
    obtain ⟨hlength, hcompiled⟩ := Compiler.compileVoice_elements helements hexpressions
    have hlength' : expressions.length = p'.elements.length :=
      hlength.trans (length_of_map_eq h.elements)
    obtain ⟨⟨text, n⟩, htext⟩ := lyricTimeline_exists p.lyrics hlength hcompiled
    obtain ⟨⟨text', n'⟩, htext'⟩ := lyricTimeline_exists p'.lyrics hlength' hcompiled
    rw [horder] at htext'
    have hsame (hk : kept) (hsome : p.lyrics ≠ []) : (text, n) = (text', n') := by
      have halign : align (p.lyrics.map LyricToken.ofNode)
            (Compiler.seats p.elements expressions) =
          align (p'.lyrics.map LyricToken.ofNode) (Compiler.seats p.elements expressions) := by
        by_cases hadded : added
        · obtain ⟨hsilences, hlines⟩ := hkept hk hadded hsome
          have hapart := silencesApart_seats hlength (hsilences _ hexpressions)
          exact align_spread hapart h.lyrics hlines
        · exact align_unspread hadded h.lyrics _
      have hcongr := lyricTimeline_congr hlabels halign (expand p.elements)
      rw [htext, htext'] at hcongr
      exact Except.ok.inj hcongr
    change Agrees _ (ite _ _ (Compiler.lyricTimeline _ _ _ _ >>= _))
      (ite _ _ (Compiler.lyricTimeline _ _ _ _ >>= _))
    rw [horder, hempty, htext, htext']
    split_ifs with hnone
    · exact .ok ⟨⟨_, rfl, rfl⟩, fun _ => rfl⟩
    · refine .ok ⟨⟨_, rfl, rfl⟩, fun hk => ?_⟩
      obtain ⟨rfl, rfl⟩ := Prod.mk.inj (hsame hk fun heq => hnone (by rw [heq]; rfl))
      rfl

/-! ## The song -/

/-- Songs with the same header and the same voices with the same notes, which are the same where
`kept` holds. -/
structure Song.Like (kept : Prop) (s s' : Song) : Prop where
  header : s.header = s'.header
  voices : List.Forall₂ (fun v v' : Text × Music => v.1 = v'.1 ∧
    ∃ notes, v.2.notes? = some notes ∧ v'.2.notes? = some notes) s.voices s'.voices
  same : kept → s = s'

/-- Bodies that are alike are compiled alike. -/
theorem ofBody_like (c : Compiler) {body body' : Option Node} {kept : Prop}
    (h : Option.Rel (Node.BodyLike added) body body')
    (helements : ∀ b ∈ body, ∀ v ∈ b.voiceParts, ∀ n ∈ v.2.elements, n.IsVoiceElement)
    (hkept : kept → added → ∀ b ∈ body, ∀ v ∈ b.voiceParts, v.2.lyrics ≠ [] → v.2.Apart c) :
    Agrees (fun s s' => s.header = c.header ∧ Song.Like kept s s') (Song.ofBody c body)
      (Song.ofBody c body') := by
  have hvoices : List.Forall₂ (fun v v' : Text × VoiceParts =>
      ((∀ n ∈ v.2.elements, n.IsVoiceElement) ∧
        (kept → added → v.2.lyrics ≠ [] → v.2.Apart c)) ∧ v.1 = v'.1 ∧ v.2.Like added v'.2)
      ((body.map Node.voiceParts).getD []) ((body'.map Node.voiceParts).getD []) := by
    cases h with
    | none => exact .nil
    | some hbody =>
      obtain ⟨ns, ns', rfl, rfl, hns⟩ := hbody
      exact (List.forall₂_and_left _ _).2 ⟨fun v hv => ⟨helements _ rfl v hv,
        fun hk hadded => hkept hk hadded _ rfl v hv⟩, splitVoices_like hns _ .nil⟩
  have hcompiled : Agrees (List.Forall₂ fun e e' : Text × Music × Nat =>
      e.1 = e'.1 ∧ VoiceAlike kept e.2 e'.2) _ _ :=
    Agrees.mapM hvoices fun v v' hv => (voice_like c hv.2.2 hv.1.1 hv.1.2).bind
      fun e e' he => .ok (a := (v.1, e)) (b := (v'.1, e')) ⟨hv.2.1, he⟩
  refine hcompiled.bind fun es es' hes => .ok ⟨rfl, rfl, ?_, fun hk => ?_⟩
  · rw [List.forall₂_map_left_iff, List.forall₂_map_right_iff]
    exact hes.imp fun e e' he => ⟨he.1, he.2.1⟩
  · have hsame : es = es' :=
      List.forall₂_eq_eq_eq ▸ hes.imp fun e e' he => Prod.ext he.1 (he.2.2 hk)
    rw [hsame]

/-- Header fields that are plainly the same give the same texts. -/
theorem headerFields_like {fields fields' : List Node}
    (h : List.Forall₂ (fun n n' : Node => n.label.plain = n'.label.plain) fields fields') :
    (Node.unread .header fields).headerFields = (Node.unread .header fields').headerFields := by
  have htexts : (fields.filterMap fun n => n.label.fieldText?) =
      fields'.filterMap fun n => n.label.fieldText? := by
    induction h with
    | nil => rfl
    | cons hn _ ih =>
      rw [List.filterMap_cons, List.filterMap_cons, ← Label.fieldText?_plain, hn,
        Label.fieldText?_plain, ih]
  unfold Node.headerFields Node.fields
  exact congrArg (fun texts : List Text => (texts.mapM _ >>= _ : Except CompileError Fields)) htexts

/-- In the voices of a document that have lyrics no two neighbouring elements take no time, and no
line of lyrics but the first begins with a join. -/
def Node.VoicesApart (document : Node) (c : Compiler) : Prop :=
  ∀ body, document.first? .body = some body → ∀ v ∈ body.voiceParts, v.2.lyrics ≠ [] →
    v.2.Apart c

/-- Documents that are alike are compiled alike. -/
theorem ofDocument_like {document document' : Node} (instrument : Instrument)
    (h : Node.DocumentLike added document document')
    (helements : ∀ b ∈ document.first? .body, ∀ v ∈ b.voiceParts, ∀ n ∈ v.2.elements,
      n.IsVoiceElement) :
    Agrees (fun s s' => Song.Like (added → document.VoicesApart ⟨s.header, instrument⟩) s s')
      (Song.ofDocument document instrument) (Song.ofDocument document' instrument) := by
  obtain ⟨fields, fields', bodies, bodies', rfl, rfl, hfields, hbodies⟩ := h
  have hbody : Option.Rel (Node.BodyLike added)
      ((Node.unread .document (.unread .header fields :: bodies)).first? .body)
      ((Node.unread .document (.unread .header fields' :: bodies')).first? .body) := by
    cases hbodies with
    | nil => exact .none
    | cons hbody =>
      obtain ⟨ns, ns', rfl, rfl, hns⟩ := hbody
      exact .some ⟨ns, ns', rfl, rfl, hns⟩
  have hheader (fields bodies : List Node) :
      (Node.unread .document (.unread .header fields :: bodies)).first? .header =
        some (.unread .header fields) := rfl
  unfold Song.ofDocument
  rw [hheader, hheader]
  dsimp only
  rw [headerFields_like hfields]
  refine (Agrees.refl _).bind fun texts texts' ht => ?_
  obtain rfl := ht
  refine (Agrees.refl _).bind fun header header' hh => ?_
  obtain rfl := hh
  have hvoices : Agrees (fun s s' => s.header = header ∧ Song.Like (added →
      (Node.unread .document (.unread .header fields :: bodies)).VoicesApart ⟨header, instrument⟩)
      s s') _ _ := ofBody_like ⟨header, instrument⟩ hbody helements fun hk hadded => hk hadded
  refine hvoices.mono fun s s' hs => ?_
  rw [hs.1]
  exact hs.2

/-- Sources with tokens that are alike are read as songs that are alike. -/
theorem Song.read_like {source source' : Text} (instrument : Instrument)
    (h : Token.Spread added (tokens source) (tokens source')) :
    Agrees (fun s s' => ∃ document, readTune source = .ok document ∧
        Song.Like (added → document.VoicesApart ⟨s.header, instrument⟩) s s')
      (Song.read source instrument) (Song.read source' instrument) := by
  have hread := (readTune_like h).and_left (P := fun document => readTune source = .ok document)
    fun _ hdocument => hdocument
  refine (hread.mapError SongError.source).bind fun document document' hd => ?_
  have helements : ∀ b ∈ document.first? .body, ∀ v ∈ b.voiceParts, ∀ n ∈ v.2.elements,
      n.IsVoiceElement := by
    intro b hb
    obtain ⟨parts, hparts⟩ := readTune_body hd.1 hb
    exact voiceParts_elements hparts
  exact ((ofDocument_like instrument hd.2 helements).mapError SongError.compile).mono
    fun s s' hs => ⟨document, hd.1, hs⟩

end

/-! ## Padded sources -/

/-- Both tokens are spaces in lines of lyrics, or neither is. -/
theorem Token.Like.isLyricSpace_eq {t t' : Token} (h : t.Like t') :
    t.isLyricSpace = t'.isLyricSpace := by
  obtain ⟨hlexeme, hregion⟩ := h
  have hspace (k : Token) : k.isLyricSpace =
      (k.lexeme.plain = .lyric .space [' '] && k.region = .lyric : Bool) := by
    unfold Token.isLyricSpace
    cases k.lexeme with
    | lyric kind text => cases kind <;> rfl
    | _ => rfl
  rw [hspace, hspace, hlexeme, hregion]

/-- A source and the padded source are both rejected, or both are read as songs with the same
header and the same voices with the same notes. The songs are the same, with their lyrics, when no
blanks are added to lines of lyrics that had none at their ends. They also are the same when in the
voices with lyrics no two neighbouring elements take no time, and no line of lyrics but the first
begins with a join. -/
theorem Song.read_padded {t t' : Text} (h : t.Padded t') (instrument : Instrument) :
    ((∃ song, Song.read t instrument = .ok song) ↔ ∃ song, Song.read t' instrument = .ok song) ∧
    ∀ song song', Song.read t instrument = .ok song → Song.read t' instrument = .ok song' →
      song.header = song'.header ∧
      List.Forall₂ (fun v v' : Text × Music => v.1 = v'.1 ∧
        ∃ notes, v.2.notes? = some notes ∧ v'.2.notes? = some notes) song.voices song'.voices ∧
      ((tokens t').countP Token.isLyricSpace = (tokens t).countP Token.isLyricSpace →
        song = song') ∧
      ((∀ document, readTune t = .ok document →
        document.VoicesApart ⟨song.header, instrument⟩) → song = song') := by
  have hspread := tokensFrom_padded h .header 0 0
  have hread := Song.read_like instrument hspread
  refine ⟨hread.exists_ok_iff, fun song song' hsong hsong' => ?_⟩
  rw [hsong, hsong'] at hread
  cases hread with
  | ok hlike =>
    obtain ⟨document, hdocument, hheader, hvoices, hsame⟩ := hlike
    refine ⟨hheader, hvoices, fun hcount => ?_, fun hapart => hsame fun _ => hapart _ hdocument⟩
    -- Nothing is added, so there is no voice in which it could matter.
    have hnone := (hspread.of_countP fun k k' hk => hk.isLyricSpace_eq).2 hcount
    have hread' := Song.read_like instrument hnone
    rw [hsong, hsong'] at hread'
    cases hread' with
    | ok hlike =>
      obtain ⟨document', -, -, -, hsame'⟩ := hlike
      exact hsame' fun hadded => hadded.elim

/-- The text with a carriage return before each line end. -/
def Text.crlf : Text → Text
  | [] => []
  | c :: t => if c = '\n' then '\r' :: '\n' :: crlf t else c :: crlf t

/-- Carriage returns before the line ends are blanks that are added. -/
theorem Text.padded_crlf (t : Text) : t.Padded t.crlf := by
  induction t with
  | nil => exact .nil
  | cons c t ih =>
    unfold Text.crlf
    split_ifs with hc
    · subst hc
      exact .line ['\r'] rfl ih
    · exact .keep c ih

/-- Two measures of one note each, with a line of lyrics for each; the first one ends with these
blanks. -/
def twoMeasures (blanks : Text) : Text :=
  "X:1\nT:t\nL:1/4\nK:C\nC|\nD|\nw:a".text ++ (blanks ++ "\nw:b\n".text)

/-- A measure with lyrics is read as the same song with carriage returns before the line ends of the
header and the music. -/
theorem Song.read_padded_crlf :
    let music := "X:1\nT:t\nK:C\nC D|\n".text
    let lyrics := "w:a b\n".text
    ∃ song, Song.read (music ++ lyrics) .piano = .ok song ∧
      Song.read (music.crlf ++ lyrics) .piano = .ok song := by
  intro music lyrics
  have hpadded : Text.Padded (music ++ lyrics) (music.crlf ++ lyrics) :=
    music.padded_crlf.append (.refl lyrics)
  obtain ⟨song, -, -, hread, -⟩ := Song.exists_voice (music ++ lyrics) .piano (fun _ _ => true)
    (by decide +kernel)
  obtain ⟨hiff, hsame⟩ := Song.read_padded hpadded .piano
  obtain ⟨song', hread'⟩ := hiff.1 ⟨song, hread⟩
  have hcount : (tokens (music.crlf ++ lyrics)).countP Token.isLyricSpace =
      (tokens (music ++ lyrics)).countP Token.isLyricSpace := by decide +kernel
  obtain ⟨-, -, hkept, -⟩ := hsame song song' hread hread'
  rw [← hkept hcount] at hread'
  exact ⟨song, hread, hread'⟩

/-- A space after the first word makes the second one start on an element that takes no time: the
lyrics end before the notes, and the song is another one. -/
theorem Song.read_spaceAfterWord :
    (twoMeasures []).Padded (twoMeasures [' ']) ∧
      ∃ song song', Song.read (twoMeasures []) .piano = .ok song ∧
        Song.read (twoMeasures [' ']) .piano = .ok song' ∧
        song.piece.duration.value = 1 / 2 ∧ song'.piece.duration.value = 1 / 4 ∧
        song.piece ≠ song'.piece := by
  have hpadded : (twoMeasures []).Padded (twoMeasures [' ']) :=
    (Text.Padded.refl _).append (.line [' '] rfl (.refl "w:b\n".text))
  obtain ⟨song, name, music, hread, -, hduration⟩ := Song.exists_voice (twoMeasures []) .piano
    (fun song _ => song.piece.duration.value = 1 / 2) (by decide +kernel)
  obtain ⟨song', name', music', hread', -, hduration'⟩ := Song.exists_voice (twoMeasures [' '])
    .piano (fun song _ => song.piece.duration.value = 1 / 4) (by decide +kernel)
  have hlong := of_decide_eq_true hduration
  have hshort := of_decide_eq_true hduration'
  refine ⟨hpadded, song, song', hread, hread', hlong, hshort, fun heq => ?_⟩
  rw [heq, hshort] at hlong
  exact absurd hlong (by decide +kernel)

end SingAlong

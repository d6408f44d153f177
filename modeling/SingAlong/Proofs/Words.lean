import SingAlong.Proofs.Alignment
import SingAlong.Proofs.LyricTime

/-!
# The words of the lyrics

What one step of the lyrics does to the slots is said once (`Slot.Change`): it adds markers, it adds
a syllable, or it joins a word to the last syllable. Filling slots is a sequence of such changes
(`fillSlots_filled`), so that what each change keeps is kept by all of them.

Here this accounts for the words. At every moment the slots hold the words of the steps that are
taken, in order and each word whole in one slot (`Slot.Filled.holds`). The slots that are cut off at
the end hold the last of them, so `align_words` finds an initial part of all words in the alignment,
and all of them when no syllable is counted as dropped.
-/

namespace SingAlong

/-! ## The tokens of lines of lyrics -/

/-- A text that a slot holds as a syllable. -/
def Text.IsWord (t : Text) : Prop :=
  t ≠ [] ∧ Slot.ofText t = .syllable t

/-- A token as it is read in a line of lyrics. -/
def LyricToken.Genuine (t : LyricToken) : Prop :=
  match t.kind with
  | .plain => False
  | .syllable => t.text.IsWord
  | .tie => t.text = ['~']
  | .escapedHyphen => t.text = ['\\', '-']
  | _ => True

/-- The texts of the syllables among tokens. -/
def LyricToken.syllables (tokens : List LyricToken) : List Text :=
  (tokens.filter fun t => t.kind = .syllable).map LyricToken.text

/-- The text without the characters that join syllables. -/
def Text.unjoined (t : Text) : Text :=
  t.filter fun c => !" -~\\".text.contains c

/-- Only the texts of the markers are not held as syllables. -/
theorem Slot.ofText_eq_syllable {t : Text} (hblank : t ≠ [' ']) (hextend : t ≠ ['_'])
    (hnewline : t ≠ ['\n']) : ofText t = syllable t := by
  unfold ofText
  split
  · exact absurd rfl hblank
  · exact absurd rfl hextend
  · exact absurd rfl hnewline
  · rfl

/-- A text of more than one character is held as a syllable. -/
theorem Slot.ofText_joined {t : Text} (ht : t ≠ []) (c : CodePoint) (word : Text) :
    ofText (t ++ c :: word) = syllable (t ++ c :: word) := by
  obtain ⟨d, t, rfl⟩ := List.exists_cons_of_ne_nil ht
  refine ofText_eq_syllable ?_ ?_ ?_ <;> simp

/-- A run of characters of a syllable is a word. -/
theorem Text.isWord_of_all {t : Text} (ht : t ≠ []) (h : t.all Rule.inSyllable) : t.IsWord := by
  refine ⟨ht, Slot.ofText_eq_syllable ?_ ?_ ?_⟩
  all_goals
    rintro rfl
    revert h
    decide

namespace Region

/-- What the rules of the lyrics recognise is genuine. -/
theorem recognise_lyric_genuine {t text : Text} {kind : LyricKind} {own next : Region}
    (h : Region.lyric.recognise t = some (.lexeme (.lyric kind text) own next)) :
    (LyricToken.mk kind text).Genuine := by
  obtain ⟨rule, hmem, hrule⟩ := List.exists_of_findSome?_eq_some h
  have hspelled {l : Lexeme} {own' next' : Region}
      (hrule : Rule.spelled l own' next' t = some (.lexeme (.lyric kind text) own next)) :
      l = .lyric kind text := by
    unfold Rule.spelled at hrule
    split_ifs at hrule
    cases hrule
    rfl
  have hmany {p : CodePoint → Bool} {k : LyricKind}
      (hrule : Rule.many p (fun t => .lexeme (.lyric k t) .lyric .lyric) t =
        some (.lexeme (.lyric kind text) own next)) :
      k = kind ∧ text ≠ [] ∧ text.all p := by
    obtain ⟨hne, heq⟩ := Rule.many_eq_some hrule
    cases heq
    exact ⟨rfl, hne, List.all_takeWhile⟩
  simp only [rules, List.mem_cons, List.not_mem_nil, or_false] at hmem
  rcases hmem with rfl | rfl | rfl | rfl | rfl | rfl | rfl | rfl | rfl | rfl | rfl
  · cases hspelled hrule
  · unfold Rule.comment at hrule
    split at hrule <;> cases hrule
  · obtain ⟨rfl, -⟩ := hmany hrule
    trivial
  · cases hspelled hrule
    rfl
  · cases hspelled hrule
    trivial
  · cases hspelled hrule
    trivial
  · cases hspelled hrule
    trivial
  · cases hspelled hrule
    rfl
  · cases hspelled hrule
    trivial
  · obtain ⟨rfl, hne, hall⟩ := hmany hrule
    exact Text.isWord_of_all hne hall
  · cases hspelled hrule
    exact ⟨List.cons_ne_nil _ _, rfl⟩

end Region

/-- The tokens of a line of lyrics are genuine. -/
theorem tokensFrom_lyric_genuine (pos : Nat) {x : Text} (hx : x.all Rule.inField) :
    ∀ k ∈ tokensFrom .lyric pos 0 x, ∀ kind text, k.lexeme = .lyric kind text →
      (LyricToken.mk kind text).Genuine := by
  refine tokensFrom_induction (motive := fun r _ x ts => r = .lyric → x.all Rule.inField →
    ∀ k ∈ ts, ∀ kind text, k.lexeme = .lyric kind text → (LyricToken.mk kind text).Genuine)
    ?nil ?lexeme ?blanks .lyric pos x rfl hx
  case nil =>
    intro r pos hr hx k hk
    cases hk
  case lexeme =>
    rintro r pos l own next rest hnext ⟨-, -, -, hm, -⟩ ih rfl hx k hk kind text hl
    rw [Region.current_lyric] at hm hnext
    rw [List.all_append, Bool.and_eq_true] at hx
    obtain rfl := Region.lyric_stays hm hx.1
    rcases List.mem_cons.1 hk with rfl | hk
    · obtain rfl : l = .lyric kind text := hl
      unfold Region.next at hnext
      split at hnext
      next found hfound =>
        rw [hnext] at hfound
        exact Region.recognise_lyric_genuine hfound
      next => cases hnext
    · exact ih rfl hx.2 k hk kind text hl
  case blanks =>
    rintro r pos b rest hnext hb r' rfl ih rfl hx
    rw [Region.current_lyric] at ih ⊢
    rw [List.all_append, Bool.and_eq_true] at hx
    exact ih rfl hx.2

/-- The tokens of lines of lyrics are genuine. -/
theorem Score.lyricTokens_genuine (lines : List Lyrics) :
    ∀ t ∈ lyricTokens lines, t.Genuine := by
  intro t ht
  obtain ⟨l, -, hl⟩ := List.mem_flatMap.1 ht
  obtain ⟨n, hn, rfl⟩ := List.mem_map.1 hl
  rcases List.mem_append.1 hn with hn | hn
  · obtain ⟨e, he, hnode⟩ := List.mem_filterMap.1 hn
    obtain ⟨k, hk, rfl⟩ := List.mem_map.1 he
    obtain ⟨kind, text, hlexeme, -⟩ := tokensFrom_lyric_kinds 0 l.inField k hk
    unfold lyricNode? Token.bare at hnode
    rw [hlexeme] at hnode
    cases hnode
    exact tokensFrom_lyric_genuine 0 l.inField k hk kind text hlexeme
  · rw [List.mem_singleton.1 hn]
    trivial

/-! ## Steps -/

namespace LyricStep

/-- A step that genuine tokens are taken as. -/
def Genuine : LyricStep → Prop
  | text t isSyllable => isSyllable = true ∧ t.IsWord
  | join _ own word => own.IsWord ∧ own.unjoined = [] ∧ ∀ w ∈ word, w.IsWord
  | _ => True

/-- The words that a step holds. -/
def words : LyricStep → List Text
  | text t true => [t]
  | join _ _ word => word.toList
  | _ => []

variable {steps : List LyricStep}

/-- The word that a join takes is a word of the steps, and the others are left. -/
theorem takeWord?_genuine {word : Text} {rest : List LyricStep}
    (h : takeWord? steps = some (word, rest)) (hgenuine : ∀ step ∈ steps, step.Genuine) :
    word.IsWord ∧ (∀ step ∈ rest, step.Genuine) ∧
      steps.flatMap words = word :: rest.flatMap words := by
  induction steps with
  | nil => cases h
  | cons step steps ih =>
    obtain ⟨hstep, hsteps⟩ := List.forall_mem_cons.1 hgenuine
    cases step with
    | space => exact ih h hsteps
    | text t isSyllable =>
      cases isSyllable with
      | true =>
        cases h
        exact ⟨hstep.2, hsteps, rfl⟩
      | false => cases hstep.1
    | _ => cases h

/-- A join takes over the word of the step that it takes. -/
theorem joinFirst_genuine (joint : Joint) {own : Text} (hown : own.IsWord)
    (hunjoined : own.unjoined = []) (hgenuine : ∀ step ∈ steps, step.Genuine) :
    (∀ step ∈ joinFirst joint own steps, step.Genuine) ∧
      (joinFirst joint own steps).flatMap words = steps.flatMap words := by
  unfold joinFirst
  cases hword : takeWord? steps with
  | none => exact ⟨List.forall_mem_cons.2 ⟨⟨hown, hunjoined, nofun⟩, hgenuine⟩, rfl⟩
  | some taken =>
    obtain ⟨word, rest⟩ := taken
    obtain ⟨hisWord, hrest, hwords⟩ := takeWord?_genuine hword hgenuine
    refine ⟨List.forall_mem_cons.2 ⟨⟨hown, hunjoined, ?_⟩, hrest⟩, hwords.symm⟩
    rintro w ⟨⟩
    exact hisWord

/-- Genuine tokens are taken as genuine steps, which hold the texts of the syllables. -/
theorem ofTokens_genuine {tokens : List LyricToken} (h : ∀ t ∈ tokens, t.Genuine) :
    (∀ step ∈ ofTokens tokens, step.Genuine) ∧
      (ofTokens tokens).flatMap words = LyricToken.syllables tokens := by
  induction tokens with
  | nil => exact ⟨nofun, rfl⟩
  | cons t tokens ih =>
    obtain ⟨ht, htokens⟩ := List.forall_mem_cons.1 h
    obtain ⟨hsteps, hwords⟩ := ih htokens
    obtain ⟨kind, text⟩ := t
    cases kind with
    | plain => exact ht.elim
    | syllable =>
      exact ⟨List.forall_mem_cons.2 ⟨⟨rfl, ht⟩, hsteps⟩, congrArg (text :: ·) hwords⟩
    | tie =>
      obtain rfl : text = ['~'] := ht
      have hword : Text.IsWord ['~'] := ⟨List.cons_ne_nil _ _, rfl⟩
      obtain ⟨hjoined, hkept⟩ := joinFirst_genuine .blank hword (by decide) hsteps
      exact ⟨hjoined, hkept.trans hwords⟩
    | escapedHyphen =>
      obtain rfl : text = ['\\', '-'] := ht
      have hword : Text.IsWord ['\\', '-'] := ⟨List.cons_ne_nil _ _, rfl⟩
      obtain ⟨hjoined, hkept⟩ := joinFirst_genuine .hyphen hword (by decide) hsteps
      exact ⟨hjoined, hkept.trans hwords⟩
    | _ => exact ⟨List.forall_mem_cons.2 ⟨trivial, hsteps⟩, hwords⟩

/-- A step without a syllable holds no words. -/
theorem words_eq_nil {step : LyricStep} (h : step.holdsSyllable = false) : step.words = [] := by
  cases step with
  | text t isSyllable =>
    obtain rfl : isSyllable = false := h
    rfl
  | join joint own word =>
    cases word with
    | none => rfl
    | some => cases h
  | _ => rfl

/-- Does the step only add markers? Texts and joins do more. -/
def isMark : LyricStep → Bool
  | text _ _ | join _ _ _ => false
  | _ => true

end LyricStep

/-! ## Changes of the slots -/

namespace Slot

/-- Only markers are added. -/
def Marked (slots slots' : List Slot) : Prop :=
  ∃ markers, slots' = slots ++ markers ∧ ∀ s ∈ markers, s.isSyllable = false

/-- No syllable is empty. -/
def Worded (slots : List Slot) : Prop :=
  ∀ t, syllable t ∈ slots → t ≠ []

/-- What a step does to the slots: it adds markers, it adds a syllable, or it joins a word to the
last syllable. The words are those that the slots hold more. -/
inductive Change : List Slot → List Text → List Slot → Prop
  | mark {slots slots' : List Slot} (h : Marked slots slots') : Change slots [] slots'
  | sing {slots : List Slot} {t : Text} {words : List Text} (ht : t ≠ [])
      (hwords : t.unjoined = Text.unjoined words.flatten) :
      Change slots words (slots ++ [syllable t])
  | join {before after : List Slot} {t : Text} (joint : Joint) (word : Option Text)
      (hafter : ∀ s ∈ after, s.isSyllable = false) :
      Change (before ++ syllable t :: after) word.toList
        (before ++ syllable (t ++ joint.char :: word.getD []) :: after)

/-- A sequence of changes. -/
inductive Filled : List Slot → List Text → List Slot → Prop
  | nil {slots : List Slot} : Filled slots [] slots
  | cons {slots slots' slots'' : List Slot} {words words' : List Text}
      (h : Change slots words slots') (hrest : Filled slots' words' slots'') :
      Filled slots (words ++ words') slots''

variable {slots slots' : List Slot} {words : List Text}

/-- No markers are added. -/
theorem Marked.refl (slots : List Slot) : Marked slots slots :=
  ⟨[], (List.append_nil slots).symm, nofun⟩

/-- One marker is added. -/
theorem Marked.push {s : Slot} (hs : s.isSyllable = false) : Marked slots (slots ++ [s]) :=
  ⟨[s], rfl, List.forall_mem_singleton.2 hs⟩

/-- Markers are added after markers. -/
theorem Marked.trans {slots'' : List Slot} (h : Marked slots slots')
    (h' : Marked slots' slots'') : Marked slots slots'' := by
  obtain ⟨markers, rfl, hmarkers⟩ := h
  obtain ⟨markers', rfl, hmarkers'⟩ := h'
  exact ⟨markers ++ markers', List.append_assoc _ _ _,
    List.forall_mem_append.2 ⟨hmarkers, hmarkers'⟩⟩

/-- Where slots were filled they are filled with markers added. -/
theorem Marked.ne_nil (h : Marked slots slots') (hne : slots ≠ []) : slots' ≠ [] := by
  obtain ⟨markers, rfl, -⟩ := h
  exact List.append_ne_nil_of_left_ne_nil hne markers

/-- There is no syllable at the start. -/
theorem worded_nil : Worded [] :=
  nofun

/-- A change leaves no syllable empty. -/
theorem Change.worded (h : Change slots words slots') (hworded : Worded slots) :
    Worded slots' := by
  intro t ht
  cases h with
  | mark h =>
    obtain ⟨markers, rfl, hmarkers⟩ := h
    rcases List.mem_append.1 ht with ht | ht
    · exact hworded t ht
    · cases hmarkers _ ht
  | sing hne =>
    rcases List.mem_append.1 ht with ht | ht
    · exact hworded t ht
    · cases List.mem_singleton.1 ht
      exact hne
  | join joint word hafter =>
    rcases List.mem_append.1 ht with ht | ht
    · exact hworded t (List.mem_append_left _ ht)
    · rcases List.mem_cons.1 ht with ht | ht
      · cases ht
        exact List.append_ne_nil_of_right_ne_nil _ (List.cons_ne_nil _ _)
      · cases hafter _ ht

/-- A sequence of changes leaves no syllable empty. -/
theorem Filled.worded (h : Filled slots words slots') (hworded : Worded slots) :
    Worded slots' := by
  induction h with
  | nil => exact hworded
  | cons hchange hrest ih => exact ih (hchange.worded hworded)

end Slot

open Slot (Change Filled Marked Worded)

variable {seats : List Seat} {slots : List Slot}

/-- Before a step only markers are added. -/
theorem fillSilent_marked (seats : List Seat) (slots : List Slot) :
    Marked slots (fillSilent seats slots) := by
  rcases fillSilent_eq seats slots with ⟨-, heq⟩ | ⟨-, heq⟩
  · exact heq.symm ▸ .refl slots
  · exact heq.symm ▸ .push rfl

/-- A step without text only adds markers. -/
theorem takeStep_marked {step : LyricStep} (h : step.isMark) (rest : List LyricStep) :
    Marked slots (takeStep seats slots step rest) := by
  cases step with
  | space => exact .refl slots
  | hyphen =>
    rw [takeStep]
    split_ifs
    · exact .push rfl
    · exact .refl slots
  | extend | skip | newline => exact .push rfl
  | bar =>
    rw [takeStep, fillMeasure]
    split_ifs
    · exact .refl slots
    · refine ⟨_, rfl, fun s hs => ?_⟩
      rw [List.eq_of_mem_replicate hs]
      rfl
  | text | join => cases h

/-- A step without text only adds markers, with the one before it. -/
theorem fillStep_marked {step : LyricStep} (h : step.isMark) (rest : List LyricStep) :
    Marked slots (takeStep seats (fillSilent seats slots) step rest) :=
  (fillSilent_marked seats slots).trans (takeStep_marked h rest)

/-- A join changes the last syllable or adds the first one. -/
theorem joinWord_change {joint : Joint} {own : Text} {word : Option Text}
    (hgenuine : (LyricStep.join joint own word).Genuine) (hworded : Worded slots) :
    Change slots word.toList (joinWord joint own word slots) := by
  obtain ⟨hown, hunjoined, hword⟩ := hgenuine
  unfold joinWord
  dsimp only
  rcases changeLastSyllable?_cases (fun t => t ++ joint.char :: word.getD []) slots with
    ⟨before, t, after, rfl, hafter, hchanged⟩ | ⟨-, hnone⟩
  · have ht : t ≠ [] := hworded t (by simp)
    rw [hchanged, Slot.ofText_joined ht]
    exact .join joint word hafter
  · rw [hnone]
    cases word with
    | none =>
      rw [Option.getD_none, if_pos List.isEmpty_nil, hown.2]
      exact .sing hown.1 hunjoined
    | some w =>
      obtain ⟨hne, hslot⟩ := hword w rfl
      rw [Option.getD_some, if_neg (by rwa [List.isEmpty_iff]), hslot]
      exact .sing hne (congrArg Text.unjoined (List.append_nil w).symm)

/-- A genuine step changes the slots by the words that it holds. -/
theorem takeStep_change {step : LyricStep} (hgenuine : step.Genuine) (hworded : Worded slots)
    (rest : List LyricStep) : Change slots step.words (takeStep seats slots step rest) := by
  cases step with
  | text t isSyllable =>
    obtain ⟨rfl, hne, hslot⟩ := hgenuine
    rw [takeStep, hslot]
    exact .sing hne (congrArg Text.unjoined (List.append_nil t).symm)
  | join joint own word => exact joinWord_change hgenuine hworded
  | _ => exact .mark (takeStep_marked rfl rest)

/-- Filling slots with genuine steps is a sequence of changes by the words of the steps that are
taken. -/
theorem fillSlots_filled (seats : List Seat) {steps : List LyricStep}
    (hgenuine : ∀ step ∈ steps, step.Genuine) (hworded : Worded slots) :
    ∃ taken, steps = taken ++ (fillSlots seats slots steps).2 ∧
      Filled slots (taken.flatMap LyricStep.words) (fillSlots seats slots steps).1 := by
  induction steps generalizing slots with
  | nil => exact ⟨[], rfl, .nil⟩
  | cons step rest ih =>
    obtain ⟨hstep, hrest⟩ := List.forall_mem_cons.1 hgenuine
    rw [fillSlots]
    split_ifs
    · exact ⟨[], rfl, .nil⟩
    · have hsilent := Change.mark (fillSilent_marked seats slots)
      have hchange : Change _ _ (takeStep seats _ step rest) :=
        takeStep_change hstep (hsilent.worded hworded) rest
      obtain ⟨taken, hsteps, hfilled⟩ := ih hrest (hchange.worded (hsilent.worded hworded))
      have hboth := Filled.cons hsilent (.cons hchange hfilled)
      exact ⟨step :: taken, congrArg (step :: ·) hsteps, hboth⟩

/-! ## The words in the slots -/

/-- The characters that join syllables are left out of each part of a text. -/
theorem Text.unjoined_append (t u : Text) : (t ++ u).unjoined = t.unjoined ++ u.unjoined :=
  List.filter_append t u

/-- What joins a word is left out. -/
theorem Text.unjoined_joint (joint : Joint) (t : Text) :
    Text.unjoined (joint.char :: t) = t.unjoined := by
  cases joint <;> exact List.filter_cons_of_neg (by decide)

namespace Slot

/-- The text that is sung in a slot. -/
def sung : Slot → Text
  | syllable t => t
  | _ => []

/-- The words are those of a slot: they are sung as its text, and a marker has none. -/
def Holds (words : List Text) (s : Slot) : Prop :=
  s.sung.unjoined = Text.unjoined words.flatten ∧ (s.isSyllable = false → words = [])

variable {slots slots' markers : List Slot} {groups : List (List Text)}

/-- Markers hold no words. -/
theorem holds_markers (h : ∀ s ∈ markers, s.isSyllable = false) :
    List.Forall₂ Holds (.replicate markers.length []) markers := by
  induction markers with
  | nil => exact .nil
  | cons s markers ih =>
    obtain ⟨hs, hmarkers⟩ := List.forall_mem_cons.1 h
    refine .cons ⟨?_, fun _ => rfl⟩ (ih hmarkers)
    cases s with
    | syllable => cases hs
    | _ => rfl

/-- The words that are in markers. -/
theorem flatten_of_markers (hholds : List.Forall₂ Holds groups markers)
    (h : ∀ s ∈ markers, s.isSyllable = false) : groups.flatten = [] := by
  induction hholds with
  | nil => rfl
  | cons hs hrest ih =>
    obtain ⟨hmarker, hmarkers⟩ := List.forall_mem_cons.1 h
    rw [List.flatten_cons, hs.2 hmarker, ih hmarkers]
    rfl

/-- The slots are sung as the words in them. -/
theorem sung_of_holds (hholds : List.Forall₂ Holds groups slots) :
    Text.unjoined (slots.flatMap sung) = Text.unjoined groups.flatten.flatten := by
  induction hholds with
  | nil => rfl
  | cons hs hrest ih =>
    rw [List.flatMap_cons, List.flatten_cons, List.flatten_append, Text.unjoined_append,
      Text.unjoined_append, hs.1, ih]

/-- The texts of the syllables are what is sung. -/
theorem flatMap_text_filter (slots : List Slot) :
    (slots.filter isSyllable).flatMap text = slots.flatMap sung := by
  induction slots with
  | nil => rfl
  | cons s slots ih =>
    rw [List.flatMap_cons, ← ih]
    cases s <;> rfl

/-- A change adds its words to the end of those that the slots hold. -/
theorem Change.holds {words : List Text} (h : Change slots words slots')
    (hholds : List.Forall₂ Holds groups slots) :
    ∃ groups', List.Forall₂ Holds groups' slots' ∧ groups'.flatten = groups.flatten ++ words := by
  cases h with
  | mark h =>
    obtain ⟨markers, rfl, hmarkers⟩ := h
    exact ⟨_, List.rel_append hholds (holds_markers hmarkers), by simp⟩
  | sing ht hwords =>
    exact ⟨groups ++ [words], List.rel_append hholds (.cons ⟨hwords, nofun⟩ .nil), by simp⟩
  | @join before after t joint word hafter =>
    have hfirst := List.forall₂_take_append _ _ _ hholds
    obtain ⟨group, rest, ⟨hgroup, -⟩, hrest, hdrop⟩ :=
      List.forall₂_cons_right_iff.1 (List.forall₂_drop_append _ _ _ hholds)
    rw [← groups.take_append_drop before.length, hdrop]
    generalize groups.take before.length = first at hfirst ⊢
    -- The slots after the last syllable are markers, so its words are the last ones.
    have hnone := flatten_of_markers hrest hafter
    have hjoined : Text.unjoined (t ++ joint.char :: word.getD []) =
        Text.unjoined (group ++ word.toList).flatten := by
      have ht : t.unjoined = Text.unjoined group.flatten := hgroup
      have hword : word.getD [] = word.toList.flatten := by
        cases word <;> simp
      rw [Text.unjoined_append, Text.unjoined_joint, List.flatten_append, Text.unjoined_append, ht,
        hword]
    exact ⟨first ++ (group ++ word.toList) :: rest,
      List.rel_append hfirst (.cons ⟨hjoined, nofun⟩ hrest), by simp [hnone]⟩

/-- Changes add their words to the end of those that the slots hold. -/
theorem Filled.holds {words : List Text} (h : Filled slots words slots')
    (hholds : List.Forall₂ Holds groups slots) :
    ∃ groups', List.Forall₂ Holds groups' slots' ∧ groups'.flatten = groups.flatten ++ words := by
  induction h generalizing groups with
  | nil => exact ⟨groups, hholds, by simp⟩
  | cons hchange hrest ih =>
    obtain ⟨groups₁, hholds₁, hwords₁⟩ := hchange.holds hholds
    obtain ⟨groups₂, hholds₂, hwords₂⟩ := ih hholds₁
    exact ⟨groups₂, hholds₂, by rw [hwords₂, hwords₁, List.append_assoc]⟩

end Slot

/-- Lines of lyrics are aligned with exactly one slot for each element, and no words are lost
silently: without the characters that join syllables, the syllables in the slots are an initial
part of the words of the lyrics, each of them whole and once, in order; and when no syllable is
counted as dropped they are all of them. -/
theorem align_words (lines : List Score.Lyrics) (seats : List Seat) :
    (align (Score.lyricTokens lines) seats).slots.length = seats.length ∧
    ∃ kept, kept <+: LyricToken.syllables (Score.lyricTokens lines) ∧
      Text.unjoined (((align (Score.lyricTokens lines) seats).slots.filter
        Slot.isSyllable).flatMap Slot.text) = Text.unjoined kept.flatten ∧
      ((align (Score.lyricTokens lines) seats).dropped = 0 →
        kept = LyricToken.syllables (Score.lyricTokens lines)) := by
  refine ⟨align_length _ _, ?_⟩
  obtain ⟨hgenuine, hwords⟩ := LyricStep.ofTokens_genuine (Score.lyricTokens_genuine lines)
  obtain ⟨taken, hsteps, hfilled⟩ := fillSlots_filled seats hgenuine Slot.worded_nil
  obtain ⟨groups, hholds, hgroups⟩ := hfilled.holds .nil
  rw [← hwords, Slot.flatMap_text_filter]
  unfold align
  generalize LyricStep.ofTokens (Score.lyricTokens lines) = steps at *
  generalize fillSlots seats [] steps = result at *
  obtain ⟨filled, left⟩ := result
  dsimp only at hsteps hholds ⊢
  have hall : steps.flatMap LyricStep.words =
      (groups.take seats.length).flatten ++ (groups.drop seats.length).flatten ++
        left.flatMap LyricStep.words := by
    rw [hsteps, List.flatMap_append, ← List.flatten_append, List.take_append_drop, hgroups]
    rfl
  refine ⟨(groups.take seats.length).flatten, ?_, ?_, fun hdropped => ?_⟩
  · rw [hall, List.append_assoc]
    exact List.prefix_append _ _
  · have hblank : (List.replicate (seats.length - filled.length) Slot.blank).flatMap Slot.sung =
        [] := by
      rw [List.flatMap_replicate]
      simp [Slot.sung]
    rw [List.flatMap_append, hblank, List.append_nil]
    exact Slot.sung_of_holds (List.forall₂_take seats.length hholds)
  · -- Neither the slots that are cut off nor the steps that are left hold words.
    obtain ⟨hcut, hleft⟩ := Nat.add_eq_zero_iff.1 hdropped
    have hmarkers : ∀ s ∈ filled.drop seats.length, s.isSyllable = false := fun s hs =>
      Bool.eq_false_iff.2 (List.countP_eq_zero.1 hcut s hs)
    have hnone : left.flatMap LyricStep.words = [] :=
      List.flatMap_eq_nil_iff.2 fun step hstep =>
        LyricStep.words_eq_nil (Bool.eq_false_iff.2 (List.countP_eq_zero.1 hleft step hstep))
    rw [hall, hnone, Slot.flatten_of_markers (List.forall₂_drop seats.length hholds) hmarkers]
    simp

end SingAlong

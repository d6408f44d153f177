import Mathlib.Data.List.DropRight
import SingAlong.Proofs.Words

/-!
# Lyrics that go on

What lyrics do to the slots does not depend on the lyrics after them, but for two things: a hyphen
gets a slot only at the end of the lyrics, and a join takes the word after it. So lyrics are taken
apart at their last step that is not a space, a hyphen or a line end (`LyricStep.Settled`): up to
there the slots are the same whatever follows (`fillSlots_append`), and after it only markers come.

What follows can change a syllable only by joining words to it, and it adds new syllables after all
others (`Slot.Continues`). For lines of lyrics this gives `align_append`: later lines do not move
the syllables of earlier ones.
-/

namespace SingAlong

/-! ## The steps of lyrics that go on -/

namespace LyricStep

variable {steps : List LyricStep}

/-- A join takes its word from the lyrics before a step that is neither a word nor a space. -/
theorem takeWord?_append (steps : List LyricStep) {more : List LyricStep}
    (h : takeWord? more = none) :
    takeWord? (steps ++ more) = (takeWord? steps).map fun taken => (taken.1, taken.2 ++ more) := by
  induction steps with
  | nil => exact h
  | cons step steps ih =>
    cases step with
    | space => exact ih
    | text t isSyllable => cases isSyllable <;> rfl
    | _ => rfl

/-- The first word is joined in the lyrics before a step that is neither a word nor a space. -/
theorem joinFirst_append (joint : Joint) (own : Text) (steps : List LyricStep)
    {more : List LyricStep} (h : takeWord? more = none) :
    joinFirst joint own (steps ++ more) = joinFirst joint own steps ++ more := by
  unfold joinFirst
  rw [takeWord?_append steps h]
  cases takeWord? steps <;> rfl

/-- The steps of lyrics that go on with a step that is neither a word nor a space. -/
theorem ofTokens_append (tokens : List LyricToken) {more : List LyricToken}
    (h : takeWord? (ofTokens more) = none) :
    ofTokens (tokens ++ more) = ofTokens tokens ++ ofTokens more := by
  induction tokens with
  | nil => rfl
  | cons t tokens ih =>
    rw [List.cons_append, ofTokens, ofTokens, ih]
    cases t.kind with
    | tie => exact joinFirst_append .blank t.text _ h
    | escapedHyphen => exact joinFirst_append .hyphen t.text _ h
    | _ => rfl

/-- The steps of more lines of lyrics: each line ends with a newline, which no join passes. -/
theorem ofTokens_lyricTokens_append (earlier : List Score.Lyrics) (tokens : List LyricToken) :
    ofTokens (Score.lyricTokens earlier ++ tokens) =
      ofTokens (Score.lyricTokens earlier) ++ ofTokens tokens := by
  induction earlier with
  | nil => rfl
  | cons l earlier ih =>
    have hline : l.node.children.map LyricToken.ofNode =
        ((lex .lyric l.text).filterMap Score.lyricNode?).map LyricToken.ofNode ++
          [⟨.newline, Text.lineEnd⟩] := List.map_append
    have hsplit (more : List LyricToken) :
        ofTokens (l.node.children.map LyricToken.ofNode ++ more) =
          ofTokens (((lex .lyric l.text).filterMap Score.lyricNode?).map LyricToken.ofNode) ++
            newline :: ofTokens more := by
      rw [hline, List.append_assoc]
      exact ofTokens_append _ rfl
    have hlines : Score.lyricTokens (l :: earlier) =
        l.node.children.map LyricToken.ofNode ++ Score.lyricTokens earlier := List.flatMap_cons
    rw [hlines, List.append_assoc, hsplit, hsplit, ih, List.append_assoc, List.cons_append]

/-- The steps do not end with what could be the end of the lyrics. -/
def Settled (steps : List LyricStep) : Prop :=
  ∀ last ∈ steps.getLast?, last.isTrailing = false

/-- The steps after the first one do not either. -/
theorem Settled.tail {step : LyricStep} (h : Settled (step :: steps)) : Settled steps := by
  intro last hlast
  refine h last ?_
  rw [List.getLast?_cons, hlast]
  rfl

/-- Settled steps are not the end of the lyrics, whatever follows. -/
theorem Settled.all_isTrailing (h : Settled steps) (hne : steps ≠ []) (more : List LyricStep) :
    (steps ++ more).all isTrailing = false := by
  refine List.all_eq_false.2 ⟨steps.getLast hne, List.mem_append_left _ (List.getLast_mem hne), ?_⟩
  rw [h _ (List.getLast?_eq_some_getLast hne)]
  exact Bool.false_ne_true

/-- Settled steps tell whether a join is next, whatever follows. -/
theorem Settled.joinIsNext_append (h : Settled steps) (hne : steps ≠ []) (more : List LyricStep) :
    joinIsNext (steps ++ more) = joinIsNext steps := by
  induction steps with
  | nil => exact absurd rfl hne
  | cons step steps ih =>
    cases step with
    | space =>
      refine ih h.tail ?_
      rintro rfl
      cases h space rfl
    | _ => rfl

/-- All steps are settled up to those that could be the end of the lyrics. -/
theorem exists_settled (steps : List LyricStep) :
    ∃ front back, steps = front ++ back ∧ Settled front ∧ ∀ step ∈ back, step.isTrailing := by
  refine ⟨steps.rdropWhile isTrailing, steps.rtakeWhile isTrailing,
    List.rdropWhile_append_rtakeWhile.symm, fun last hlast => ?_, fun step hstep =>
      List.mem_rtakeWhile_imp hstep⟩
  obtain ⟨hne, rfl⟩ := List.mem_getLast?_eq_getLast hlast
  exact Bool.eq_false_iff.2 (List.rdropWhile_last_not isTrailing steps hne)

/-- What could be the end of the lyrics only adds markers. -/
theorem isMark_of_isTrailing {step : LyricStep} (h : step.isTrailing) :
    step.isMark ∧ step.Genuine := by
  cases step with
  | text | join => cases h
  | _ => exact ⟨rfl, trivial⟩

end LyricStep

open LyricStep (Settled)

variable {seats : List Seat} {slots : List Slot}

/-- Slots are filled with settled steps as they are without the steps after them. Those fill slots
from there on, unless no slot was left before. -/
theorem fillSlots_append {steps : List LyricStep} (h : Settled steps) (more : List LyricStep) :
    (fillSlots seats slots steps).2 = [] ∧
        fillSlots seats slots (steps ++ more) =
          fillSlots seats (fillSlots seats slots steps).1 more ∨
      (fillSlots seats slots steps).2 ≠ [] ∧
        fillSlots seats slots (steps ++ more) =
          ((fillSlots seats slots steps).1, (fillSlots seats slots steps).2 ++ more) := by
  induction steps generalizing slots with
  | nil => exact .inl ⟨rfl, rfl⟩
  | cons step rest ih =>
    have hjoin : LyricStep.joinIsNext (step :: (rest ++ more)) =
        LyricStep.joinIsNext (step :: rest) :=
      h.joinIsNext_append (List.cons_ne_nil _ _) more
    have htake (slots : List Slot) :
        takeStep seats slots step (rest ++ more) = takeStep seats slots step rest := by
      cases step with
      | hyphen =>
        -- A hyphen is not the last of settled steps.
        have hne : rest ≠ [] := by
          rintro rfl
          cases h .hyphen rfl
        have halone := h.tail.all_isTrailing hne []
        rw [List.append_nil] at halone
        rw [takeStep, takeStep, h.tail.all_isTrailing hne more, halone]
      | _ => rfl
    rw [List.cons_append, fillSlots, fillSlots, hjoin, htake]
    split_ifs with hfull
    · exact .inr ⟨List.cons_ne_nil _ _, rfl⟩
    · exact ih h.tail

/-- Steps without text only add markers. -/
theorem fillSlots_marked {steps : List LyricStep} (h : ∀ step ∈ steps, step.isMark) :
    Slot.Marked slots (fillSlots seats slots steps).1 := by
  induction steps generalizing slots with
  | nil => exact .refl slots
  | cons step rest ih =>
    obtain ⟨hstep, hrest⟩ := List.forall_mem_cons.1 h
    rw [fillSlots]
    split_ifs
    · exact .refl slots
    · exact (fillStep_marked hstep rest).trans (ih hrest)

/-! ## Slots that go on -/

namespace Slot

/-- There is a syllable in the slot at an index. -/
def SungAt (slots : List Slot) (k : Nat) : Prop :=
  ∃ t, slots[k]? = some (syllable t)

/-- The slots go on: each syllable stays in its slot, where words can be joined to it, and new
syllables are in new slots. -/
structure Continues (slots slots' : List Slot) : Prop where
  kept : ∀ (k : Nat) (t : Text), slots[k]? = some (syllable t) →
    ∃ t', slots'[k]? = some (syllable t') ∧ t <+: t'
  new : ∀ k, SungAt slots' k → SungAt slots k ∨ slots.length ≤ k
  length_le : slots.length ≤ slots'.length

variable {slots slots' slots'' : List Slot} {words : List Text}

/-- A slot with a syllable is one of the slots. -/
theorem SungAt.lt {k : Nat} (h : SungAt slots k) : k < slots.length := by
  obtain ⟨t, ht⟩ := h
  exact (List.getElem?_eq_some_iff.1 ht).1

/-- Slots go on as they are. -/
theorem Continues.refl (slots : List Slot) : Continues slots slots :=
  ⟨fun _ t ht => ⟨t, ht, List.prefix_refl t⟩, fun _ h => .inl h, le_refl _⟩

/-- Slots go on step by step. -/
theorem Continues.trans (h : Continues slots slots') (h' : Continues slots' slots'') :
    Continues slots slots'' where
  kept k t ht := by
    obtain ⟨t', ht', hprefix⟩ := h.kept k t ht
    obtain ⟨t'', ht'', hprefix'⟩ := h'.kept k t' ht'
    exact ⟨t'', ht'', hprefix.trans hprefix'⟩
  new k hk := by
    rcases h'.new k hk with hk' | hle
    · exact h.new k hk'
    · exact .inr (h.length_le.trans hle)
  length_le := h.length_le.trans h'.length_le

/-- Slots go on with new ones. -/
theorem continues_append (slots more : List Slot) : Continues slots (slots ++ more) where
  kept k t ht := by
    refine ⟨t, ?_, List.prefix_refl t⟩
    rwa [List.getElem?_append_left (List.getElem?_eq_some_iff.1 ht).1]
  new k hk := by
    by_cases hlt : k < slots.length
    · obtain ⟨t, ht⟩ := hk
      rw [List.getElem?_append_left hlt] at ht
      exact .inl ⟨t, ht⟩
    · exact .inr (Nat.le_of_not_lt hlt)
  length_le := by simp

/-- Slots go on with a change. -/
theorem Change.continues (h : Change slots words slots') : Continues slots slots' := by
  cases h with
  | mark h =>
    obtain ⟨markers, rfl, -⟩ := h
    exact continues_append slots markers
  | sing => exact continues_append slots _
  | @join before after t joint word hafter =>
    -- Only the slot of the last syllable changes, and it still holds a syllable.
    have hother {k : Nat} (hk : k ≠ before.length) (s s' : Slot) :
        (before ++ s :: after)[k]? = (before ++ s' :: after)[k]? := by
      simp only [List.getElem?_append, List.getElem?_cons]
      split_ifs with hlt hzero
      · rfl
      · exact absurd (by omega) hk
      · rfl
    have hhere (s : Slot) : (before ++ s :: after)[before.length]? = some s := by simp
    refine ⟨fun k t' ht' => ?_, fun k hk => ?_, by simp⟩
    · by_cases hk : k = before.length
      · subst hk
        rw [hhere] at ht'
        cases ht'
        exact ⟨_, hhere _, List.prefix_append t _⟩
      · exact ⟨t', (hother hk _ _).symm.trans ht', List.prefix_refl t'⟩
    · by_cases hkl : k = before.length
      · subst hkl
        exact .inl ⟨t, hhere _⟩
      · obtain ⟨t', ht'⟩ := hk
        exact .inl ⟨t', (hother hkl _ _).trans ht'⟩

/-- Slots go on with a sequence of changes. -/
theorem Filled.continues (h : Filled slots words slots') : Continues slots slots' := by
  induction h with
  | nil => exact .refl _
  | cons hchange hrest ih => exact hchange.continues.trans ih

/-- Markers add no syllables. -/
theorem Marked.getElem? (h : Marked slots slots') {k : Nat} {t : Text} :
    slots'[k]? = some (syllable t) ↔ slots[k]? = some (syllable t) := by
  obtain ⟨markers, rfl, hmarkers⟩ := h
  by_cases hk : k < slots.length
  · rw [List.getElem?_append_left hk]
  · rw [List.getElem?_append_right (Nat.le_of_not_lt hk),
      List.getElem?_eq_none (Nat.le_of_not_lt hk)]
    refine ⟨fun ht => ?_, nofun⟩
    cases hmarkers _ (List.mem_of_getElem? ht)

/-- With markers the syllables are in the same slots. -/
theorem Marked.sungAt (h : Marked slots slots') {k : Nat} : SungAt slots' k ↔ SungAt slots k :=
  exists_congr fun _ => h.getElem?

end Slot

open Slot (Continues SungAt)

/-- Lyrics reach slots from where other lyrics after them go on. By themselves they only add
markers to these slots. -/
theorem exists_reached (seats : List Seat) {steps : List LyricStep}
    (hsteps : ∀ step ∈ steps, step.Genuine) :
    ∃ reached back, Slot.Worded reached ∧ (∀ step ∈ back, step.isTrailing) ∧
      Slot.Marked reached (fillSlots seats [] steps).1 ∧
      ∀ more, (fillSlots seats [] (steps ++ more)).1 = reached ∨
        fillSlots seats [] (steps ++ more) = fillSlots seats reached (back ++ more) := by
  obtain ⟨front, back, rfl, hfront, hback⟩ := LyricStep.exists_settled steps
  obtain ⟨_, -, hfilled⟩ := fillSlots_filled seats (List.forall_mem_append.1 hsteps).1
    Slot.worded_nil
  refine ⟨(fillSlots seats [] front).1, back, hfilled.worded Slot.worded_nil, hback, ?_,
    fun more => ?_⟩
  · rcases fillSlots_append hfront back with ⟨-, heq⟩ | ⟨-, heq⟩
    · rw [heq]
      exact fillSlots_marked fun step hstep => (LyricStep.isMark_of_isTrailing (hback step hstep)).1
    · rw [heq]
      exact .refl _
  · rw [List.append_assoc]
    rcases fillSlots_append hfront (back ++ more) with ⟨-, heq⟩ | ⟨-, heq⟩
    · exact .inr heq
    · exact .inl (by rw [heq])

/-- Genuine steps make slots go on. -/
theorem fillSlots_continues {steps : List LyricStep} (hsteps : ∀ step ∈ steps, step.Genuine)
    (hworded : Slot.Worded slots) : Continues slots (fillSlots seats slots steps).1 := by
  obtain ⟨_, -, hfilled⟩ := fillSlots_filled seats hsteps hworded
  exact hfilled.continues

/-- An element has a syllable in the alignment when its slot is filled with one. -/
theorem align_getElem?_syllable {tokens : List LyricToken} {k : Nat} {t : Text} :
    (align tokens seats).slots[k]? = some (.syllable t) ↔ k < seats.length ∧
      (fillSlots seats [] (LyricStep.ofTokens tokens)).1[k]? = some (.syllable t) := by
  by_cases hk : k < seats.length
  · rw [align_getElem? tokens seats hk]
    cases (fillSlots seats [] (LyricStep.ofTokens tokens)).1[k]? with
    | none => exact ⟨nofun, nofun⟩
    | some s => exact ⟨fun h => ⟨hk, h⟩, And.right⟩
  · rw [List.getElem?_eq_none (by rw [align_length]; omega)]
    exact ⟨nofun, fun h => absurd h.1 hk⟩

/-- Which elements have syllables. -/
theorem align_sungAt {tokens : List LyricToken} {k : Nat} :
    SungAt (align tokens seats).slots k ↔ k < seats.length ∧
      SungAt (fillSlots seats [] (LyricStep.ofTokens tokens)).1 k := by
  unfold SungAt
  simp only [align_getElem?_syllable, exists_and_left]

section

variable {tokens more : List LyricToken} (htokens : ∀ t ∈ tokens, t.Genuine)
  (hmore : ∀ t ∈ more, t.Genuine)
  (hsteps : LyricStep.ofTokens (tokens ++ more) =
    LyricStep.ofTokens tokens ++ LyricStep.ofTokens more)
include htokens hmore hsteps

/-- Tokens that no join takes over do not move the syllables before them: each of these stays in
its slot, where words can be joined to it, and new syllables come after all of them. -/
theorem align_continues (seats : List Seat) :
    (∀ (k : Nat) (s : Text), (align tokens seats).slots[k]? = some (.syllable s) →
      ∃ s', (align (tokens ++ more) seats).slots[k]? = some (.syllable s') ∧ s <+: s') ∧
    ∀ k, SungAt (align (tokens ++ more) seats).slots k → ¬SungAt (align tokens seats).slots k →
      ∀ j, SungAt (align tokens seats).slots j → j < k := by
  obtain ⟨hgenuine, -⟩ := LyricStep.ofTokens_genuine htokens
  obtain ⟨hgenuine', -⟩ := LyricStep.ofTokens_genuine hmore
  obtain ⟨reached, back, hworded, hback, hmarked, hreached⟩ := exists_reached seats hgenuine
  have hcontinues : Continues reached
      (fillSlots seats [] (LyricStep.ofTokens (tokens ++ more))).1 := by
    rw [hsteps]
    rcases hreached (LyricStep.ofTokens more) with heq | heq
    · exact heq.symm ▸ .refl reached
    · rw [heq]
      refine fillSlots_continues (List.forall_mem_append.2 ⟨fun step hstep => ?_, hgenuine'⟩)
        hworded
      exact (LyricStep.isMark_of_isTrailing (hback step hstep)).2
  -- By themselves the tokens leave the syllables that are reached.
  have halone {k : Nat} {t : Text} : (align tokens seats).slots[k]? = some (.syllable t) ↔
      k < seats.length ∧ reached[k]? = some (.syllable t) := by
    rw [align_getElem?_syllable, hmarked.getElem?]
  constructor
  · intro k s hs
    obtain ⟨hk, hs⟩ := halone.1 hs
    obtain ⟨s', hs', hprefix⟩ := hcontinues.kept k s hs
    exact ⟨s', align_getElem?_syllable.2 ⟨hk, hs'⟩, hprefix⟩
  · rintro k ⟨s, hs⟩ hnew j ⟨t, ht⟩
    obtain ⟨hk, hs⟩ := align_getElem?_syllable.1 hs
    obtain ⟨hj, ht⟩ := halone.1 ht
    rcases hcontinues.new k ⟨s, hs⟩ with ⟨s₀, hs₀⟩ | hle
    · exact absurd ⟨s₀, halone.2 ⟨hk, hs₀⟩⟩ hnew
    · exact (SungAt.lt ⟨t, ht⟩).trans_le hle

end

/-- Later lines of lyrics do not move the syllables of earlier lines: each of these stays in its
slot, where words can be joined to it, and new syllables come after all of them. -/
theorem align_append (earlier later : List Score.Lyrics) (seats : List Seat) :
    (∀ (k : Nat) (s : Text),
      (align (Score.lyricTokens earlier) seats).slots[k]? = some (.syllable s) →
        ∃ s', (align (Score.lyricTokens earlier ++ Score.lyricTokens later) seats).slots[k]? =
          some (.syllable s') ∧ s <+: s') ∧
    ∀ k, SungAt (align (Score.lyricTokens earlier ++ Score.lyricTokens later) seats).slots k →
      ¬SungAt (align (Score.lyricTokens earlier) seats).slots k →
        ∀ j, SungAt (align (Score.lyricTokens earlier) seats).slots j → j < k :=
  align_continues (Score.lyricTokens_genuine earlier) (Score.lyricTokens_genuine later)
    (LyricStep.ofTokens_lyricTokens_append earlier _) seats

end SingAlong

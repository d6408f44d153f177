import SingAlong.Lyrics.Align
import SingAlong.Proofs.Spelling

/-!
# Syllables on elements that take no time

An element that takes no time, such as a bar or the end of a line, is passed over before a step of
the lyrics, but only one before each step. So a syllable can come to stand on such an element, and
then the element right before it takes no time either and was the one that was passed over
(`Slot.Guarded`). Every step keeps this, and `align_silent` draws the line: whatever lines of lyrics
are aligned, no syllable comes to stand on an element that takes no time, exactly when no two
neighbouring elements take no time.
-/

namespace SingAlong

/-- Does the element take no time? -/
def Seat.IsSilent (s : Seat) : Prop :=
  s.length.value = 0

instance : DecidablePred Seat.IsSilent := fun s =>
  inferInstanceAs (Decidable (s.length.value = 0))

/-- The element at an index takes no time. -/
def SilentAt (seats : List Seat) (k : Nat) : Prop :=
  ∃ seat, seats[k]? = some seat ∧ seat.IsSilent

/-- The tokens of lines of lyrics, as they are aligned. -/
def Score.lyricTokens (lines : List Score.Lyrics) : List LyricToken :=
  lines.flatMap fun l => l.node.children.map LyricToken.ofNode

namespace Slot

variable {seats : List Seat} {slots : List Slot}

/-- A syllable stands on an element that takes no time only after another such element, which was
passed over. -/
def Guarded (seats : List Seat) (slots : List Slot) : Prop :=
  ∀ k t, SilentAt seats k → slots[k]? = some (syllable t) →
    ∃ j, k = j + 1 ∧ SilentAt seats j ∧ slots[j]? = some blank

/-- The next slot is that of an element that takes time, or the one before it was passed over. -/
def Ready (seats : List Seat) (slots : List Slot) : Prop :=
  SilentAt seats slots.length →
    ∃ j, slots.length = j + 1 ∧ SilentAt seats j ∧ slots[j]? = some blank

/-- Slots that are not syllables are added anywhere. -/
theorem Guarded.append_markers (h : Guarded seats slots) {markers : List Slot}
    (hmarkers : ∀ s ∈ markers, s.isSyllable = false) : Guarded seats (slots ++ markers) := by
  intro k t hk ht
  have hold : k < slots.length := by
    by_contra hge
    rw [List.getElem?_append_right (Nat.le_of_not_lt hge)] at ht
    have hmarker := hmarkers _ (List.mem_of_getElem? ht)
    cases hmarker
  rw [List.getElem?_append_left hold] at ht
  obtain ⟨j, rfl, hj, hblank⟩ := h k t hk ht
  refine ⟨j, rfl, hj, ?_⟩
  rwa [List.getElem?_append_left (Nat.lt_of_succ_lt hold)]

/-- A slot of any kind is added when the next slot is ready for it. -/
theorem Guarded.push (h : Guarded seats slots) (hready : Ready seats slots) (s : Slot) :
    Guarded seats (slots ++ [s]) := by
  intro k t hk ht
  have hle : k ≤ slots.length := by
    have hlt := (List.getElem?_eq_some_iff.1 ht).1
    rw [List.length_append, List.length_singleton] at hlt
    omega
  have hbefore : ∃ j, k = j + 1 ∧ SilentAt seats j ∧ slots[j]? = some blank := by
    rcases Nat.lt_or_eq_of_le hle with hlt | rfl
    · rw [List.getElem?_append_left hlt] at ht
      exact h k t hk ht
    · exact hready hk
  obtain ⟨j, rfl, hj, hblank⟩ := hbefore
  refine ⟨j, rfl, hj, ?_⟩
  rwa [List.getElem?_append_left hle]

/-- A syllable is changed where it stands. -/
theorem Guarded.set (h : Guarded seats slots) {i : Nat} {old : Text}
    (hold : slots[i]? = some (syllable old)) (s : Slot) : Guarded seats (slots.set i s) := by
  intro k t hk ht
  have hsyllable : ∃ t', slots[k]? = some (syllable t') := by
    by_cases hik : i = k
    · exact ⟨old, hik ▸ hold⟩
    · rw [List.getElem?_set_ne hik] at ht
      exact ⟨t, ht⟩
  obtain ⟨t', ht'⟩ := hsyllable
  obtain ⟨j, rfl, hj, hblank⟩ := h k t' hk ht'
  refine ⟨j, rfl, hj, ?_⟩
  -- The slot before it is blank, so it is not the one that changes.
  have hij : i ≠ j := by
    rintro rfl
    rw [hold] at hblank
    cases hblank
  rwa [List.getElem?_set_ne hij]

end Slot

open Slot (Guarded Ready)

variable {seats : List Seat} {slots : List Slot}

/-- The last syllable is changed, which only other slots follow, if there is a syllable at all. -/
theorem changeLastSyllable?_cases (f : Text → Text) (slots : List Slot) :
    (∃ before t after, slots = before ++ .syllable t :: after ∧
      (∀ s ∈ after, s.isSyllable = false) ∧
      changeLastSyllable? f slots = some (before ++ .ofText (f t) :: after)) ∨
    ((∀ s ∈ slots, s.isSyllable = false) ∧ changeLastSyllable? f slots = none) := by
  induction slots with
  | nil => exact .inr ⟨nofun, rfl⟩
  | cons s slots ih =>
    unfold changeLastSyllable?
    obtain ⟨before, t, after, rfl, hafter, hchanged⟩ | ⟨hmarkers, hnone⟩ := ih
    · rw [hchanged]
      exact .inl ⟨s :: before, t, after, rfl, hafter, rfl⟩
    · rw [hnone]
      cases s with
      | syllable t => exact .inl ⟨[], t, slots, rfl, hmarkers, rfl⟩
      | _ => exact .inr ⟨List.forall_mem_cons.2 ⟨rfl, hmarkers⟩, rfl⟩

/-- The last syllable is changed where it stands. -/
theorem changeLastSyllable?_eq_some {f : Text → Text} {changed : List Slot}
    (h : changeLastSyllable? f slots = some changed) :
    ∃ i t, slots[i]? = some (.syllable t) ∧ changed = slots.set i (.ofText (f t)) := by
  rcases changeLastSyllable?_cases f slots with ⟨before, t, after, rfl, -, hchanged⟩ | ⟨-, hnone⟩
  · rw [hchanged] at h
    cases h
    exact ⟨before.length, t, by simp, by simp⟩
  · rw [hnone] at h
    cases h

/-- Before a step an element that takes no time is passed over. -/
theorem fillSilent_eq (seats : List Seat) (slots : List Slot) :
    ¬SilentAt seats slots.length ∧ fillSilent seats slots = slots ∨
      SilentAt seats slots.length ∧ fillSilent seats slots = slots ++ [.blank] := by
  unfold fillSilent SilentAt
  cases hseat : seats[slots.length]? with
  | none => exact .inl ⟨by simp, rfl⟩
  | some seat =>
    by_cases hsilent : seat.IsSilent
    · exact .inr ⟨⟨seat, rfl, hsilent⟩, if_pos hsilent⟩
    · refine .inl ⟨?_, if_neg hsilent⟩
      rintro ⟨seat', hseat', hsilent'⟩
      cases hseat'
      exact hsilent hsilent'

section

variable {before after : List Seat} {s : Seat} (hlength : slots.length = before.length)
include hlength

/-- A step at an element comes after a blank slot for it if that takes no time. -/
theorem fillSlots_cons (step : LyricStep) (rest : List LyricStep) :
    fillSlots (before ++ s :: after) slots (step :: rest) =
      fillSlots (before ++ s :: after) (takeStep (before ++ s :: after)
        (if s.IsSilent then slots ++ [.blank] else slots) step rest) rest := by
  have hseat : (before ++ s :: after)[slots.length]? = some s := by
    rw [hlength]
    simp
  have hfill : fillSilent (before ++ s :: after) slots =
      if s.IsSilent then slots ++ [.blank] else slots := by
    unfold fillSilent
    rw [hseat]
    rfl
  rw [fillSlots, if_neg (by simp [hlength]), hfill]

end

/-- After an element that takes no time is passed over the next slot is ready. -/
theorem fillSilent_ready (h : Guarded seats slots) :
    Guarded seats (fillSilent seats slots) ∧ Ready seats (fillSilent seats slots) := by
  rcases fillSilent_eq seats slots with ⟨hsounds, heq⟩ | ⟨hsilent, heq⟩
  · rw [heq]
    exact ⟨h, fun hsilent => absurd hsilent hsounds⟩
  · rw [heq]
    refine ⟨h.append_markers ?_, fun _ => ⟨slots.length, ?_, hsilent, ?_⟩⟩
    · simp [Slot.isSyllable]
    · simp
    · simp

/-- Every step keeps syllables off elements that take no time, but for those right after one that
was passed over. -/
theorem takeStep_guarded (h : Guarded seats slots) (hready : Ready seats slots) (step : LyricStep)
    (rest : List LyricStep) : Guarded seats (takeStep seats slots step rest) := by
  cases step with
  | space => exact h
  | extend | skip | newline | text => exact h.push hready _
  | hyphen =>
    rw [takeStep]
    split_ifs with htrailing
    · exact h.push hready .blank
    · exact h
  | bar =>
    rw [takeStep, fillMeasure]
    split_ifs with hempty
    · exact h
    · refine h.append_markers fun s hs => ?_
      rw [List.eq_of_mem_replicate hs]
      rfl
  | join joint own word =>
    rw [takeStep, joinWord]
    split
    next changed hchanged =>
      obtain ⟨i, t, ht, rfl⟩ := changeLastSyllable?_eq_some hchanged
      exact h.set ht _
    next => exact h.push hready _

/-- Filling slots with steps keeps syllables off elements that take no time, but for those right
after one that was passed over. -/
theorem fillSlots_guarded (steps : List LyricStep) (h : Guarded seats slots) :
    Guarded seats (fillSlots seats slots steps).1 := by
  induction steps generalizing slots with
  | nil => exact h
  | cons step rest ih =>
    unfold fillSlots
    split_ifs with hfull
    · exact h
    · obtain ⟨hguarded, hready⟩ := fillSilent_ready h
      exact ih (takeStep_guarded hguarded hready step rest)

/-- A slot of the alignment is one that was filled, or blank. -/
theorem align_getElem? (tokens : List LyricToken) (seats : List Seat) {k : Nat}
    (hk : k < seats.length) :
    (align tokens seats).slots[k]? =
      some ((fillSlots seats [] (LyricStep.ofTokens tokens)).1[k]?.getD .blank) := by
  unfold align
  dsimp only
  generalize hfill : fillSlots seats [] (LyricStep.ofTokens tokens) = result
  obtain ⟨filled, left⟩ := result
  dsimp only
  by_cases hfilled : k < filled.length
  · have htake : k < (filled.take seats.length).length := by
      rw [List.length_take]
      omega
    rw [List.getElem?_append_left htake, List.getElem?_take_of_lt hk,
      List.getElem?_eq_getElem hfilled]
    rfl
  · have htake : (filled.take seats.length).length ≤ k := by
      rw [List.length_take]
      omega
    have hrest : k - (filled.take seats.length).length < seats.length - filled.length := by
      rw [List.length_take]
      omega
    rw [List.getElem?_append_right htake, List.getElem?_replicate_of_lt hrest,
      List.getElem?_eq_none (Nat.le_of_not_lt hfilled)]
    rfl

/-- A syllable stands on an element that takes no time only after another such element, which has a
blank slot. -/
theorem align_guarded (tokens : List LyricToken) (seats : List Seat) :
    Guarded seats (align tokens seats).slots := by
  have hfilled : Guarded seats (fillSlots seats [] (LyricStep.ofTokens tokens)).1 :=
    fillSlots_guarded _ fun k t _ ht => by cases ht
  intro k t hk ht
  have hlt : k < seats.length := by
    obtain ⟨seat, hseat, -⟩ := hk
    exact (List.getElem?_eq_some_iff.1 hseat).1
  rw [align_getElem? tokens seats hlt] at ht
  generalize hslots : (fillSlots seats [] (LyricStep.ofTokens tokens)).1 = filled at *
  cases hslot : filled[k]? with
  | none =>
    rw [hslot] at ht
    cases ht
  | some s =>
    rw [hslot] at ht
    cases ht
    obtain ⟨j, rfl, hj, hblank⟩ := hfilled k t hk hslot
    refine ⟨j, rfl, hj, ?_⟩
    rw [align_getElem? tokens seats (Nat.lt_of_succ_lt hlt), hslots, hblank]
    rfl

/-! ## Lyrics that put a syllable on an element that takes no time -/

/-- The character that goes on to the next element without a syllable: a hyphen passes over an
element that takes no time, and a skip leaves out one that takes time. -/
def Seat.passChar (s : Seat) : CodePoint :=
  if s.IsSilent then '-' else '*'

/-- The step that goes on to the next element without a syllable. -/
def Seat.passStep (s : Seat) : LyricStep :=
  if s.IsSilent then .hyphen else .skip

/-- The token that goes on to the next element without a syllable. -/
def Seat.passToken (s : Seat) : LyricToken :=
  ⟨if s.IsSilent then .hyphen else .skip, [s.passChar]⟩

/-- What goes on to the next element depends on whether the element takes time. -/
theorem Seat.pass_cases (s : Seat) :
    s.IsSilent ∧ s.passChar = '-' ∧ s.passToken = ⟨.hyphen, "-".text⟩ ∧ s.passStep = .hyphen ∨
      ¬s.IsSilent ∧ s.passChar = '*' ∧ s.passToken = ⟨.skip, "*".text⟩ ∧ s.passStep = .skip := by
  unfold passToken passStep passChar
  by_cases h : s.IsSilent
  · rw [if_pos h, if_pos h, if_pos h]
    exact .inl ⟨h, rfl, rfl, rfl⟩
  · rw [if_neg h, if_neg h, if_neg h]
    exact .inr ⟨h, rfl, rfl, rfl⟩

/-- A line of lyrics that passes over elements and then sings a syllable. -/
def Score.passing (seats : List Seat) : Score.Lyrics where
  text := seats.map Seat.passChar ++ "a".text
  inField := by
    rw [List.all_append, List.all_map]
    refine Bool.and_eq_true_iff.2 ⟨List.all_eq_true.2 fun s _ => ?_, rfl⟩
    rcases s.pass_cases with ⟨-, hchar, -⟩ | ⟨-, hchar, -⟩
    all_goals
      rw [Function.comp_apply, hchar]
      rfl

/-- The tokens of a line that passes over elements. -/
theorem Score.lyricTokens_passing (seats : List Seat) :
    Score.lyricTokens [Score.passing seats] =
      seats.map Seat.passToken ++ [⟨.syllable, "a".text⟩, ⟨.newline, Text.lineEnd⟩] := by
  have htokens : ((lex .lyric (seats.map Seat.passChar ++ "a".text)).filterMap
      Score.lyricNode?).map LyricToken.ofNode =
        seats.map Seat.passToken ++ [⟨.syllable, "a".text⟩] := by
    induction seats with
    | nil => rfl
    | cons s seats ih =>
      rw [List.map_cons, List.map_cons, List.cons_append, List.cons_append, ← ih]
      generalize seats.map Seat.passChar ++ "a".text = rest
      rcases s.pass_cases with ⟨-, hchar, htoken, -⟩ | ⟨-, hchar, htoken, -⟩
      · have hlex : lex .lyric ("-".text ++ rest) =
            (.lyric .hyphen "-".text, .lyric) :: lex .lyric rest :=
          lex_recognised rfl (List.cons_ne_nil _ _) rfl
        rw [hchar, htoken]
        exact congrArg (fun ls => (ls.filterMap Score.lyricNode?).map LyricToken.ofNode) hlex
      · have hlex : lex .lyric ("*".text ++ rest) =
            (.lyric .skip "*".text, .lyric) :: lex .lyric rest :=
          lex_recognised rfl (List.cons_ne_nil _ _) rfl
        rw [hchar, htoken]
        exact congrArg (fun ls => (ls.filterMap Score.lyricNode?).map LyricToken.ofNode) hlex
  unfold lyricTokens Lyrics.node passing
  rw [List.flatMap_singleton, Node.unread, Node.children, List.map_append, htokens,
    List.append_assoc]
  rfl

/-- The steps of a line that passes over elements. -/
theorem LyricStep.ofTokens_passing (seats : List Seat) :
    ofTokens (Score.lyricTokens [Score.passing seats]) =
      seats.map Seat.passStep ++ [text "a".text true, newline] := by
  rw [Score.lyricTokens_passing]
  induction seats with
  | nil => rfl
  | cons s seats ih =>
    rw [List.map_cons, List.cons_append, ofTokens, ih]
    rcases s.pass_cases with ⟨-, -, htoken, hstep⟩ | ⟨-, -, htoken, hstep⟩
    all_goals
      rw [List.map_cons, htoken, hstep]
      rfl

/-- Elements are passed over with one blank slot each, as long as the steps go on with a
syllable. -/
theorem fillSlots_passing (before passed after : List Seat) {steps : List LyricStep}
    (hsteps : steps.all LyricStep.isTrailing = false) :
    fillSlots (before ++ passed ++ after) (.replicate before.length .blank)
        (passed.map Seat.passStep ++ steps) =
      fillSlots (before ++ passed ++ after) (.replicate (before ++ passed).length .blank) steps := by
  induction passed generalizing before with
  | nil => simp
  | cons s passed ih =>
    have hnext := ih (before ++ [s])
    have hrest : (passed.map Seat.passStep ++ steps).all LyricStep.isTrailing = false := by
      rw [List.all_append, hsteps, Bool.and_false]
    rw [List.length_append, List.length_singleton, List.replicate_succ', List.append_assoc before,
      List.append_assoc before, List.singleton_append, List.cons_append] at hnext
    rw [List.map_cons, List.cons_append, List.append_assoc, List.cons_append,
      fillSlots_cons List.length_replicate, ← hnext]
    rcases s.pass_cases with ⟨hs, -, -, hpass⟩ | ⟨hs, -, -, hpass⟩
    · rw [if_pos hs, hpass, takeStep, hrest]
      rfl
    · rw [if_neg hs, hpass, takeStep]

/-- Steps that do not join only add slots. -/
theorem prefix_fillSlots {steps : List LyricStep}
    (h : ∀ joint own word, .join joint own word ∉ steps) :
    slots <+: (fillSlots seats slots steps).1 := by
  induction steps generalizing slots with
  | nil => exact List.prefix_refl slots
  | cons step rest ih =>
    have hfill : slots <+: fillSilent seats slots := by
      rcases fillSilent_eq seats slots with ⟨-, heq⟩ | ⟨-, heq⟩
      · exact heq.symm ▸ List.prefix_refl slots
      · exact heq.symm ▸ List.prefix_append slots _
    have hstep : fillSilent seats slots <+: takeStep seats (fillSilent seats slots) step rest := by
      generalize fillSilent seats slots = filled
      cases step with
      | space => exact List.prefix_refl filled
      | extend | skip | newline | text => exact List.prefix_append filled _
      | hyphen =>
        rw [takeStep]
        split_ifs
        · exact List.prefix_append filled _
        · exact List.prefix_refl filled
      | bar =>
        rw [takeStep, fillMeasure]
        split_ifs
        · exact List.prefix_refl filled
        · exact List.prefix_append filled _
      | join joint own word => exact absurd List.mem_cons_self (h joint own word)
    rw [fillSlots]
    split_ifs with hfull
    · exact List.prefix_refl slots
    · refine hfill.trans (hstep.trans (ih fun joint own word hmem => ?_))
      exact h joint own word (List.mem_cons_of_mem step hmem)

/-- Of two neighbouring elements that take no time the second one gets the syllable of a line that
passes over the elements before them. -/
theorem align_passing (before after : List Seat) {a b : Seat} (ha : a.IsSilent) :
    (align (Score.lyricTokens [Score.passing before]) (before ++ a :: b :: after)).slots[
      before.length + 1]? = some (.syllable "a".text) := by
  rw [align_getElem? _ _ (by simp), LyricStep.ofTokens_passing]
  have hpassed := fillSlots_passing [] before (a :: b :: after)
    (show [LyricStep.text "a".text true, .newline].all LyricStep.isTrailing = false from rfl)
  simp only [List.nil_append, List.length_nil, List.replicate_zero] at hpassed
  rw [hpassed, fillSlots_cons List.length_replicate, if_pos ha, takeStep]
  -- The newline at the end of the line does not change the slots before it.
  have hprefix : List.replicate before.length .blank ++ [.blank] ++ [.ofText "a".text] <+:
      (fillSlots (before ++ a :: b :: after)
        (List.replicate before.length .blank ++ [.blank] ++ [.ofText "a".text]) [.newline]).1 :=
    prefix_fillSlots (by simp)
  obtain ⟨more, hmore⟩ := hprefix
  rw [← hmore, List.getElem?_append_left (by simp), List.getElem?_append_right (by simp)]
  simp
  rfl

/-- Syllables keep off the elements that take no time, but for such an element right after another
one, which then has a blank slot. So no lines of lyrics put a syllable on an element that takes no
time exactly when no two neighbouring elements take no time. -/
theorem align_silent (seats : List Seat) :
    (∀ tokens k t, SilentAt seats k → (align tokens seats).slots[k]? = some (.syllable t) →
      ∃ j, k = j + 1 ∧ SilentAt seats j ∧ (align tokens seats).slots[j]? = some .blank) ∧
    ((∀ lines k s, SilentAt seats k →
        (align (Score.lyricTokens lines) seats).slots[k]? = some s → s.isSyllable = false) ↔
      seats.IsChain fun a b => ¬(a.IsSilent ∧ b.IsSilent)) := by
  refine ⟨fun tokens => align_guarded tokens seats, fun h => ?_, fun h lines k s hk hs => ?_⟩
  · rw [List.isChain_iff_forall_rel_of_append_cons_cons]
    rintro a b before after rfl ⟨ha, hb⟩
    have hsung := h [Score.passing before] (before.length + 1) _ ⟨b, by simp, hb⟩
      (align_passing before after ha)
    cases hsung
  · cases s with
    | syllable t =>
      have hguarded := align_guarded (Score.lyricTokens lines) seats k t hk hs
      obtain ⟨j, rfl, ⟨a, ha, hfirst⟩, -⟩ := hguarded
      obtain ⟨b, hb, hsecond⟩ := hk
      obtain ⟨hlt, rfl⟩ := List.getElem?_eq_some_iff.1 hb
      obtain ⟨_, rfl⟩ := List.getElem?_eq_some_iff.1 ha
      exact absurd ⟨hfirst, hsecond⟩ (List.isChain_iff_getElem.1 h j hlt)
    | _ => rfl

/-- The elements of a voice that begins with a repeat mark and a bar. -/
def barredStart : List Seat :=
  [⟨.bar .startRepeat, .fraction 0⟩, ⟨.bar .single, .fraction 0⟩,
    ⟨.note ⟨.C, false⟩, .fraction (1 / 4)⟩]

/-- After a repeat mark and a bar the first syllable stands on the bar, and the note has none. -/
theorem align_barredStart :
    Score.lyricTokens [Score.passing []] = [⟨.syllable, "a".text⟩, ⟨.newline, "\n".text⟩] ∧
      SilentAt barredStart 1 ∧
      (align (Score.lyricTokens [Score.passing []]) barredStart).slots =
        [.blank, .syllable "a".text, .newline] := by
  refine ⟨by decide +kernel, ⟨_, rfl, rfl⟩, by decide +kernel⟩

end SingAlong

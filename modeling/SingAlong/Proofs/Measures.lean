import SingAlong.Proofs.LaterLyrics

/-!
# Lyrics and measures

A lyric bar fills slots up to the first element from the last filled one on that is neither a note
nor a chord (`fillMeasure_boundary`). So of two syllables on the two sides of a lyric bar, the later
one never stands in the run of notes and chords that the earlier one is in (`align_measure`). In a
measure of notes and chords this element is the bar or the line end after the measure. A rest and a
tuplet also stop the lyric bar, within the measure (`align_tupletMeasure`).

A word that is joined over the lyric bar belongs to the syllable before it. The syllables after the
lyric bar are those that the lyrics up to the lyric bar do not have.
-/

namespace SingAlong

/-- Is it a bar or the end of a line? -/
def Label.endsMeasure : Label → Bool
  | bar _ | endOfLine _ => true
  | _ => false

variable {seats : List Seat} {slots : List Slot}

/-- The last slot up to a lyric bar belongs to an element that is neither a note nor a chord, unless
all elements have slots. -/
theorem fillMeasure_boundary (hne : slots ≠ [])
    (hroom : (fillMeasure seats slots).length < seats.length) :
    ∃ seat, seats[(fillMeasure seats slots).length - 1]? = some seat ∧
      seat.label.isSung = false := by
  have hpos := List.length_pos_iff.2 hne
  unfold fillMeasure at hroom ⊢
  rw [if_neg (by rwa [List.isEmpty_iff]), List.length_append, List.length_replicate] at hroom ⊢
  have hsplit := List.takeWhile_append_dropWhile (p := fun seat : Seat => seat.label.isSung)
    (l := seats.drop (slots.length - 1))
  have hboundary := List.head?_dropWhile_not (fun seat : Seat => seat.label.isSung)
    (seats.drop (slots.length - 1))
  generalize (seats.drop (slots.length - 1)).takeWhile (fun seat => seat.label.isSung) = sung at *
  generalize (seats.drop (slots.length - 1)).dropWhile (fun seat => seat.label.isSung) = rest at *
  have hlength := congrArg List.length hsplit
  rw [List.length_append, List.length_drop] at hlength
  cases rest with
  | nil =>
    rw [List.length_nil] at hlength
    omega
  | cons seat rest =>
    rw [List.length_cons] at hlength
    have hindex : slots.length + min sung.length (seats.length - slots.length) - 1 =
        slots.length - 1 + sung.length := by omega
    refine ⟨seat, ?_, hboundary⟩
    rw [hindex, ← List.getElem?_drop, ← hsplit]
    simp

/-- Steps that could be the end of the lyrics and a lyric bar after them add markers, and the next
slot comes after an element that is neither a note nor a chord. -/
theorem fillSlots_bar {back : List LyricStep} (hback : ∀ step ∈ back, step.isTrailing)
    (hne : slots ≠ []) (more : List LyricStep) :
    Slot.Marked slots (fillSlots seats slots (back ++ .bar :: more)).1 ∨
      ∃ slots', Slot.Marked slots slots' ∧
        fillSlots seats slots (back ++ .bar :: more) = fillSlots seats slots' more ∧
        (slots'.length < seats.length → ∃ seat, seats[slots'.length - 1]? = some seat ∧
          seat.label.isSung = false) := by
  induction back generalizing slots with
  | nil =>
    rw [List.nil_append, fillSlots]
    split_ifs
    · exact .inl (.refl slots)
    · exact .inr ⟨_, fillStep_marked rfl more, rfl,
        fillMeasure_boundary ((fillSilent_marked seats slots).ne_nil hne)⟩
  | cons step back ih =>
    obtain ⟨hstep, hback⟩ := List.forall_mem_cons.1 hback
    rw [List.cons_append, fillSlots]
    split_ifs
    · exact .inl (.refl slots)
    · have hfirst : Slot.Marked slots (takeStep seats (fillSilent seats slots) step _) :=
        fillStep_marked (LyricStep.isMark_of_isTrailing hstep).1 (back ++ .bar :: more)
      rcases ih hback (hfirst.ne_nil hne) with h | ⟨slots', h, heq, hboundary⟩
      · exact .inl (hfirst.trans h)
      · exact .inr ⟨slots', hfirst.trans h, heq, hboundary⟩

open Slot (SungAt)

section

variable {before after : List LyricStep} (hbefore : ∀ step ∈ before, step.Genuine)
  (hafter : ∀ step ∈ after, step.Genuine) {i j : Nat}
include hbefore hafter

/-- From the element of a syllable before a lyric bar on there is an element that is neither a note
nor a chord, before the element of each syllable that the lyrics up to the lyric bar do not have. -/
theorem exists_boundary (hi : SungAt (fillSlots seats [] before).1 i)
    (hj : SungAt (fillSlots seats [] (before ++ .bar :: after)).1 j)
    (hnew : ¬SungAt (fillSlots seats [] before).1 j) (hlt : j < seats.length) :
    ∃ k seat, i ≤ k ∧ k < j ∧ seats[k]? = some seat ∧ seat.label.isSung = false := by
  obtain ⟨reached, back, hworded, hback, hmarked, hreached⟩ := exists_reached seats hbefore
  rw [hmarked.sungAt] at hi hnew
  have hne : reached ≠ [] := List.ne_nil_of_length_pos (Nat.zero_lt_of_lt hi.lt)
  -- The later syllable is not one of those that are reached, so the lyrics go on up to it.
  rcases hreached (.bar :: after) with hstop | hgo
  · exact absurd (hstop ▸ hj) hnew
  rw [hgo] at hj
  rcases fillSlots_bar hback hne after with hbar | ⟨slots, hbar, hgo, hboundary⟩
  · exact absurd (hbar.sungAt.1 hj) hnew
  rw [hgo] at hj
  have hcontinues : Slot.Continues slots (fillSlots seats slots after).1 :=
    fillSlots_continues hafter ((Slot.Change.mark hbar).worded hworded)
  rcases hcontinues.new j hj with hold | hle
  · exact absurd (hbar.sungAt.1 hold) hnew
  have hi' : i < slots.length := (hbar.sungAt.2 hi).lt
  obtain ⟨seat, hseat, hsung⟩ := hboundary (hle.trans_lt hlt)
  exact ⟨slots.length - 1, seat, by omega, by omega, hseat, hsung⟩

end

/-- Two syllables on the two sides of a lyric bar. The syllables before it are those of the lyrics
up to it, which keep their slots. Each other syllable comes after them, and from the element of a
syllable before it on there is an element that is neither a note nor a chord. So when the rest of
the measure from this element on, up to the next bar or line end, is notes and chords, a bar or a
line end stands between the two syllables. -/
theorem align_measure {lines : List Score.Lyrics} {before after : List LyricToken} {t : Text}
    (htokens : Score.lyricTokens lines = before ++ ⟨.bar, t⟩ :: after) (seats : List Seat) :
    (∀ (i : Nat) (s : Text), (align before seats).slots[i]? = some (.syllable s) →
      ∃ s', (align (Score.lyricTokens lines) seats).slots[i]? = some (.syllable s') ∧ s <+: s') ∧
    ∀ i j, SungAt (align before seats).slots i →
      SungAt (align (Score.lyricTokens lines) seats).slots j →
      ¬SungAt (align before seats).slots j →
      i < j ∧
      (∃ k seat, i ≤ k ∧ k < j ∧ seats[k]? = some seat ∧ seat.label.isSung = false) ∧
      ((∀ k seat, i ≤ k → k < j → seats[k]? = some seat →
          (∀ m seat, i < m → m < k → seats[m]? = some seat → seat.label.endsMeasure = false) →
          seat.label.isSung ∨ i < k ∧ seat.label.endsMeasure) →
        ∃ k seat, i < k ∧ k < j ∧ seats[k]? = some seat ∧ seat.label.endsMeasure) := by
  have hgenuine := Score.lyricTokens_genuine lines
  rw [htokens] at hgenuine ⊢
  obtain ⟨hbefore, hafter⟩ := List.forall_mem_append.1 hgenuine
  have hsplit : LyricStep.ofTokens (before ++ ⟨.bar, t⟩ :: after) =
      LyricStep.ofTokens before ++ .bar :: LyricStep.ofTokens after :=
    LyricStep.ofTokens_append before rfl
  obtain ⟨hkept, hlater⟩ := align_continues hbefore hafter hsplit seats
  refine ⟨hkept, fun i j hi hj hnew => ?_⟩
  have hij := hlater j hj hnew i hi
  have hboundary : ∃ k seat, i ≤ k ∧ k < j ∧ seats[k]? = some seat ∧
      seat.label.isSung = false := by
    obtain ⟨hsteps, -⟩ := LyricStep.ofTokens_genuine hbefore
    obtain ⟨hsteps', -⟩ := LyricStep.ofTokens_genuine (List.forall_mem_cons.1 hafter).2
    rw [align_sungAt, hsplit] at hj
    rw [align_sungAt] at hi hnew
    exact exists_boundary hsteps hsteps' hi.2 hj.2 (fun h => hnew ⟨hj.1, h⟩) hj.1
  refine ⟨hij, hboundary, fun hmeasure => ?_⟩
  obtain ⟨k, seat, hik, hkj, hseat, hsilent⟩ := hboundary
  by_contra hnone
  have hinside (m : Nat) (seat : Seat) (him : i < m) (hmk : m < k) (hseat : seats[m]? = some seat) :
      seat.label.endsMeasure = false :=
    Bool.eq_false_iff.2 fun hends => hnone ⟨m, seat, him, hmk.trans hkj, hseat, hends⟩
  rcases hmeasure k seat hik hkj hseat hinside with hsung | ⟨hlt, hends⟩
  · rw [hsung] at hsilent
    cases hsilent
  · exact hnone ⟨k, seat, hlt, hkj, hseat, hends⟩

/-- A line of lyrics with a lyric bar between two syllables. -/
def Score.acrossBar : Score.Lyrics where
  text := "a|b".text
  inField := rfl

/-- Elements with a bar after the first two. -/
def Seat.twoBeats (first : Label) (l : Length) : List Seat :=
  [⟨first, l⟩, ⟨.note ⟨.D, false⟩, .fraction (1 / 4)⟩, ⟨.bar .single, .fraction 0⟩,
    ⟨.note ⟨.E, false⟩, .fraction (1 / 4)⟩]

/-- In a measure of two notes the second syllable stands after the bar. -/
theorem align_twoNotes :
    (align (Score.lyricTokens [Score.acrossBar])
      (Seat.twoBeats (.note ⟨.C, false⟩) (.fraction (1 / 4)))).slots =
        [.syllable "a".text, .blank, .blank, .syllable "b".text] ∧
    ∃ k seat, 0 < k ∧ k < 3 ∧
      (Seat.twoBeats (.note ⟨.C, false⟩) (.fraction (1 / 4)))[k]? = some seat ∧
      seat.label.endsMeasure := by
  have htokens : Score.lyricTokens [Score.acrossBar] =
      [⟨.syllable, "a".text⟩] ++ ⟨.bar, "|".text⟩ ::
        [⟨.syllable, "b".text⟩, ⟨.newline, Text.lineEnd⟩] := by decide +kernel
  have hslots : (align (Score.lyricTokens [Score.acrossBar])
      (Seat.twoBeats (.note ⟨.C, false⟩) (.fraction (1 / 4)))).slots =
        [.syllable "a".text, .blank, .blank, .syllable "b".text] := by decide +kernel
  have halone : (align [⟨.syllable, "a".text⟩]
      (Seat.twoBeats (.note ⟨.C, false⟩) (.fraction (1 / 4)))).slots =
        [.syllable "a".text, .blank, .blank, .blank] := by decide +kernel
  obtain ⟨-, hmeasure⟩ := align_measure htokens
    (Seat.twoBeats (.note ⟨.C, false⟩) (.fraction (1 / 4)))
  obtain ⟨-, -, hend⟩ := hmeasure 0 3 ⟨"a".text, by rw [halone]; rfl⟩
    ⟨"b".text, by rw [hslots]; rfl⟩ (by rw [SungAt, halone]; nofun)
  refine ⟨hslots, hend fun k seat _ hk hseat _ => ?_⟩
  match k, hk with
  | 0, _ | 1, _ =>
    cases hseat
    exact .inl rfl
  | 2, _ =>
    cases hseat
    exact .inr ⟨by decide, rfl⟩

/-- After a tuplet the second syllable stands in the same measure. -/
theorem align_tupletMeasure :
    Score.lyricTokens [Score.acrossBar] =
        [⟨.syllable, "a".text⟩] ++ ⟨.bar, "|".text⟩ ::
          [⟨.syllable, "b".text⟩, ⟨.newline, Text.lineEnd⟩] ∧
      (align (Score.lyricTokens [Score.acrossBar])
        (Seat.twoBeats (.tuplet .three) (.fraction (1 / 2)))).slots =
          [.syllable "a".text, .syllable "b".text, .blank, .newline] ∧
      ¬∃ k seat, 0 < k ∧ k < 1 ∧
        (Seat.twoBeats (.tuplet .three) (.fraction (1 / 2)))[k]? = some seat ∧
        seat.label.endsMeasure := by
  refine ⟨by decide +kernel, by decide +kernel, ?_⟩
  rintro ⟨k, seat, hpos, hlt, -⟩
  omega

end SingAlong

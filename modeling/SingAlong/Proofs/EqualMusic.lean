import SingAlong.Music.Text
import SingAlong.Proofs.Moving
import SingAlong.Proofs.Rounding

/-!
# Equal music

Music is equal when its pitches sound the same, whatever letters they are written with, and its
lengths and tempos have the same value, whether they are whole numbers or fractions, and marked or
not. `Recasting.canonical` writes every pitch above middle C, every length as a fraction and every
tempo as marked. Music is equal exactly when its canonical forms are one and the same (`same_iff`),
so equality is an equivalence; and a rendering or duration that the canonical form has as well does
not tell equal music apart.

Playing does tell equal music apart, as the shares of a tuplet are rounded when its time is a whole
number (`same_told_apart`). When no note is played with a rounded share, the canonical form is
played in the same way, and so is all equal music (`same_indistinguishable`).
-/

namespace SingAlong

/-! ## Canonical forms -/

/-- The pitch above middle C that sounds the same. -/
def Pitch.canonical (p : Pitch) : Pitch :=
  ⟨.C, p.value⟩

/-- The fraction of the same value. -/
def Length.canonical (l : Length) : Length :=
  .fraction l.value

/-- The header with its tempo marked. -/
def Header.canonical (h : Header) : Header :=
  { h with tempo := .marked h.tempo.value }

/-- The recasting that forgets how pitches, lengths and tempos are written. -/
def Recasting.canonical : Recasting :=
  ⟨Pitch.canonical, Length.canonical, Header.canonical, fun _ => rfl, fun _ => rfl⟩

namespace Pitch

/-- The canonical pitch sounds the same. -/
theorem value_canonical (p : Pitch) : p.canonical.value = p.value :=
  zero_add p.value

/-- Pitches sound the same when they have one canonical pitch. -/
theorem enharmonic_iff {p q : Pitch} : p.enharmonic q = true ↔ p.canonical = q.canonical := by
  rw [enharmonic, beq_iff_eq, canonical, canonical, Pitch.mk.injEq]
  exact (and_iff_right rfl).symm

/-- The canonical pitch is written the same in a tune. -/
theorem text_canonical (p : Pitch) : p.canonical.text = p.text := by
  rw [text, text, octaveNumber, octaveNumber, value_canonical]

end Pitch

/-- Lengths have the same value when they have one canonical length. -/
theorem Length.value_eq_iff {l m : Length} : l.value = m.value ↔ l.canonical = m.canonical := by
  rw [canonical, canonical, Length.fraction.injEq]

/-- Headers are equal when they have one canonical header. -/
theorem Header.same_iff {h k : Header} : h.same k = true ↔ h.canonical = k.canonical := by
  simp only [same, canonical, Bool.and_eq_true, beq_iff_eq, Header.mk.injEq, Tempo.marked.injEq,
    and_assoc]

namespace Music

open Recasting (canonical)

mutual
/-- Music is equal when it has one canonical form. -/
theorem same_iff : ∀ {a b : Music}, a.same b = true ↔ a.recast canonical = b.recast canonical
  -- Recasting keeps how music is built, so that music of two kinds never has one canonical form.
  | note l p i, b => by
    cases b with
    | note m q j =>
      simp only [same, recast, Bool.and_eq_true, Length.value_eq_iff, Pitch.enharmonic_iff,
        beq_iff_eq, Music.note.injEq, canonical, and_assoc]
    | _ => simp only [same, recast, reduceCtorEq]
  | rest l, b => by
    cases b with
    | rest m =>
      simp only [same, recast, beq_iff_eq, Length.value_eq_iff, Music.rest.injEq, canonical]
    | _ => simp only [same, recast, reduceCtorEq]
  | lyric t l, b => by
    cases b with
    | lyric u m =>
      simp only [same, recast, Bool.and_eq_true, Length.value_eq_iff, beq_iff_eq,
        Music.lyric.injEq, canonical]
    | _ => simp only [same, recast, reduceCtorEq]
  | chord ns, b => by
    cases b with
    | chord ms => rw [same, sameAll_iff, recast, recast, Music.chord.injEq]
    | _ => simp only [same, recast, reduceCtorEq]
  | tuplet ns, b => by
    cases b with
    | tuplet ms => rw [same, sameAll_iff, recast, recast, Music.tuplet.injEq]
    | _ => simp only [same, recast, reduceCtorEq]
  | concat a b, c => by
    cases c with
    | concat c d =>
      rw [same, Bool.and_eq_true, same_iff, same_iff, recast, recast, Music.concat.injEq]
    | _ => simp only [same, recast, reduceCtorEq]
  | component ps, b => by
    cases b with
    | component qs => rw [same, sameAll_iff, recast, recast, Music.component.injEq]
    | _ => simp only [same, recast, reduceCtorEq]
  | piece vs h, b => by
    cases b with
    | piece ws k =>
      rw [same, Bool.and_eq_true, sameVoices_iff, Header.same_iff, recast, recast,
        Music.piece.injEq]
      rfl
    | _ => simp only [same, recast, reduceCtorEq]
/-- The expressions of two lists are equal when they have the same canonical forms. -/
theorem sameAll_iff : ∀ {ms ns : List Music}, sameAll ms ns = true ↔
    recastAll canonical ms = recastAll canonical ns
  | [], [] => by simp only [sameAll]
  | [], _ :: _ => by simp only [sameAll, recastAll, reduceCtorEq]
  | _ :: _, [] => by simp only [sameAll, recastAll, reduceCtorEq]
  | m :: ms, n :: ns => by
    rw [sameAll, Bool.and_eq_true, same_iff, sameAll_iff, recastAll, recastAll, List.cons.injEq]
/-- The voices of two pieces are equal when they have the same names and canonical forms. -/
theorem sameVoices_iff : ∀ {vs ws : List (Text × Music)}, sameVoices vs ws = true ↔
    recastVoices canonical vs = recastVoices canonical ws
  | [], [] => by simp only [sameVoices]
  | [], _ :: _ => by simp only [sameVoices, recastVoices, reduceCtorEq]
  | _ :: _, [] => by simp only [sameVoices, recastVoices, reduceCtorEq]
  | (v, m) :: vs, (w, n) :: ws => by
    rw [sameVoices, Bool.and_eq_true, Bool.and_eq_true, beq_iff_eq, same_iff, sameVoices_iff,
      recastVoices, recastVoices, List.cons.injEq, Prod.mk.injEq]
end

/-- Music differs exactly when it is not equal. -/
theorem differs_eq_not_same (a b : Music) : a.differs b = !a.same b := by
  cases a <;> cases b <;> rfl

/-! ## What does not tell equal music apart -/

mutual
/-- The canonical form has the same short rendering, or none either. -/
theorem text?_canonical : ∀ m : Music, (m.recast canonical).text? = m.text?
  | note l p i => by
    change (decimal? l.value).map (p.canonical.text ++ ·) = _
    rw [p.text_canonical, text?]
  | rest _ => rfl
  | lyric _ _ => rfl
  | chord ns => by rw [recast, text?, textOf?_canonical ns, text?]
  | tuplet ns => by
    rw [recast, text?, textOf?_canonical ns, length_recastAll, value_scale,
      value_firstDuration_recastAll, ← value_scale, text?]
  | concat a b => by rw [recast, text?, text?_canonical a, text?_canonical b, text?]
  | component ps => by rw [recast, text?, textOf?_canonical ps, text?]
  | piece vs h => by
    rw [recast, text?, textIn?_canonical vs, text?]
    rfl
/-- The canonical forms of a list have the same short renderings together. -/
theorem textOf?_canonical : ∀ ms : List Music, textOf? (recastAll canonical ms) = textOf? ms
  | [] => rfl
  | m :: ms => by rw [recastAll, textOf?, text?_canonical m, textOf?_canonical ms, textOf?]
/-- The canonical forms of voices have the same lines. -/
theorem textIn?_canonical : ∀ vs : List (Text × Music),
    textIn? (recastVoices canonical vs) = textIn? vs
  | [] => rfl
  | (v, m) :: vs => by rw [recastVoices, textIn?, text?_canonical m, textIn?_canonical vs, textIn?]
end

/-- Equal music is equal when it is transposed. -/
theorem same_transpose {a b : Music} (h : a.same b = true) (n : Int) :
    (a.transpose n).same (b.transpose n) = true := by
  -- Whether pitches are made canonical before they are raised makes no difference after it.
  have hraised : (Recasting.raising n).andThen canonical =
      (canonical.andThen (.raising n)).andThen canonical := by
    refine Recasting.ext (funext fun p => ?_) rfl rfl
    change (p.transpose n).canonical = (p.canonical.transpose n).canonical
    rw [Pitch.canonical, Pitch.value_transpose, Pitch.canonical, Pitch.value_transpose,
      Pitch.value_canonical]
  have hcanonical (m : Music) : (m.transpose n).recast canonical =
      ((m.recast canonical).recast (.raising n)).recast canonical := by
    rw [transpose_eq_recast, recast_recast, hraised, ← recast_recast, ← recast_recast]
  rw [same_iff, hcanonical, hcanonical, same_iff.1 h]

end Music

/-- Two scheduled notes sound alike: they start at the same beat and last as long, on one
instrument, with pitches that sound the same. -/
structure ScheduledNote.SoundsLike (k k' : ScheduledNote) : Prop where
  instrument : k.instrument = k'.instrument
  pitch : k.pitch.enharmonic k'.pitch = true
  start : k.start = k'.start
  length : k.length = k'.length

/-- Schedules that are equal once the pitches are canonical have notes that sound alike, and the
same lyrics. -/
theorem Schedule.soundsLike_of_recast {s t : Schedule}
    (h : s.recast .canonical = t.recast .canonical) :
    List.Forall₂ ScheduledNote.SoundsLike s.notes t.notes ∧ s.lyrics = t.lyrics := by
  obtain ⟨hnotes, hlyrics⟩ := Schedule.mk.inj h
  refine ⟨?_, hlyrics⟩
  rw [← List.forall₂_eq_eq_eq, List.forall₂_map_left_iff, List.forall₂_map_right_iff] at hnotes
  refine hnotes.imp fun k k' hk => ?_
  obtain ⟨hinstrument, hpitch, hstart, hlength⟩ := ScheduledNote.mk.inj hk
  exact ⟨hinstrument, Pitch.enharmonic_iff.2 hpitch, hstart, hlength⟩

namespace Music

open Recasting (canonical)

mutual
/-- A duration that is a fraction is one for the canonical form. -/
theorem isFraction_duration_canonical : ∀ m : Music, m.duration.isFraction →
    (m.recast canonical).duration.isFraction
  | note _ _ _, _ | rest _, _ | lyric _ _, _ => rfl
  | chord ns, h => isFraction_firstDuration_canonical ns h
  | tuplet ns, h => by
    rw [duration, isFraction_scale] at h
    rw [recast, duration, isFraction_scale]
    exact isFraction_firstDuration_canonical ns h
  | concat a b, h => by
    rw [duration, isFraction_add, Bool.or_eq_true] at h
    rw [recast, duration, isFraction_add, Bool.or_eq_true]
    exact h.imp (isFraction_duration_canonical a) (isFraction_duration_canonical b)
  | component ps, h => isFraction_firstDuration_canonical ps h
  | piece vs _, h => isFraction_longestDuration_canonical vs h
/-- A first duration that is a fraction is one for the canonical forms. -/
theorem isFraction_firstDuration_canonical : ∀ ms : List Music, (firstDuration ms).isFraction →
    (firstDuration (recastAll canonical ms)).isFraction
  | [], h => h
  | m :: _, h => isFraction_duration_canonical m h
/-- A longest duration that is a fraction is one for the canonical forms: the same voice is the
longest. -/
theorem isFraction_longestDuration_canonical : ∀ vs : List (Text × Music),
    (longestDuration vs).isFraction → (longestDuration (recastVoices canonical vs)).isFraction
  | [], h => h
  | (_, m) :: vs, h => by
    unfold longestDuration Length.longer at h
    rw [recastVoices, longestDuration, Length.longer, value_duration_recast,
      value_longestDuration_recastVoices]
    split_ifs at h ⊢
    · exact isFraction_duration_canonical m h
    · exact isFraction_longestDuration_canonical vs h
end

/-- The canonical form of a tuplet has the same share if the share is exact. -/
theorem share?_canonical {ns : List Music} (h : (firstDuration ns).isFraction) :
    share? (recastAll canonical ns) = share? ns := by
  have hvalue : (tuplet (recastAll canonical ns)).duration.value = (tuplet ns).duration.value :=
    value_duration_recast canonical (tuplet ns)
  rw [share?_of_isFraction h, share?_of_isFraction (isFraction_firstDuration_canonical ns h),
    length_recastAll, hvalue]

/-- The canonical form of a tuplet with an exact share keeps it. -/
theorem keepsShare_canonical {ns : List Music} (h : HasExactShare ns) :
    KeepsShare .canonical Eq ns := by
  by_cases hfraction : (firstDuration ns).isFraction
  · exact keepsShare_eq (share?_canonical hfraction)
  obtain ⟨hshare, hhead⟩ := h.resolve_left hfraction
  refine .unplayed hshare ?_ hhead
  by_cases hcanonical : (firstDuration (recastAll canonical ns)).isFraction
  · rw [share?_of_isFraction hcanonical]
    rfl
  · -- Two whole lengths of the same value are the same.
    have hsame : firstDuration (recastAll canonical ns) = firstDuration ns :=
      length_eq (value_firstDuration_recastAll canonical ns) (by
        rw [Bool.eq_false_of_not_eq_true hcanonical, Bool.eq_false_of_not_eq_true hfraction])
    rw [share?, duration, hsame, length_recastAll]
    exact hshare

/-- The canonical form of music with exact shares has its schedule with canonical pitches and the
same outcome. -/
theorem scheduled_canonical {m : Music} (h : m.ExactShares) (name : Text) (beat : Rat)
    (flag : CancelFlag) : (m.recast canonical).scheduled name beat flag =
      ((m.scheduled name beat flag).1.recast canonical, (m.scheduled name beat flag).2) :=
  scheduled_recast (fun ns hns => keepsShare_canonical (h ns hns)) name beat flag

/-- Equality is reflexive, symmetric and transitive, with its exact negation beside it. Equal music
has the same rendering or none, the same duration, voices and lyrics, and stays equal when it is
transposed. When no note is played with a rounded share, it is played with the same outcome, lyrics
and notes, up to the letters of the pitches. -/
theorem same_indistinguishable (a b c : Music) :
    (a == a) = true ∧
    ((a == b) = true → (b == a) = true) ∧
    ((a == b) = true → (b == c) = true → (a == c) = true) ∧
    (a.differs b = !(a == b)) ∧
    ((a == b) = true →
      a.text? = b.text? ∧
      a.duration.value = b.duration.value ∧
      a.voices = b.voices ∧
      (∀ name, a.lyrics name = b.lyrics name) ∧
      (∀ n, (a.transpose n == b.transpose n) = true) ∧
      (a.ExactShares → b.ExactShares → ∀ name beat flag,
        let played := a.scheduled name beat flag
        let played' := b.scheduled name beat flag
        List.Forall₂ ScheduledNote.SoundsLike played.1.notes played'.1.notes ∧
          played.1.lyrics = played'.1.lyrics ∧ played.2 = played'.2)) := by
  refine ⟨same_refl a, fun h => ?_, fun h h' => ?_, differs_eq_not_same a b, fun h =>
    ⟨?_, ?_, ?_, fun name => ?_, same_transpose h, fun ha hb name beat flag => ?_⟩⟩
  · exact same_iff.2 (same_iff.1 h).symm
  · exact same_iff.2 ((same_iff.1 h).trans (same_iff.1 h'))
  · rw [← text?_canonical a, same_iff.1 h, text?_canonical]
  · rw [← value_duration_recast .canonical a, same_iff.1 h, value_duration_recast]
  · rw [← voices_recast .canonical a, same_iff.1 h, voices_recast]
  · rw [← lyrics_recast .canonical name a, same_iff.1 h, lyrics_recast]
  · have hplayed := scheduled_canonical ha name beat flag
    rw [same_iff.1 h] at hplayed
    obtain ⟨hschedule, houtcome⟩ :=
      Prod.mk.inj (hplayed.symm.trans (scheduled_canonical hb name beat flag))
    obtain ⟨hnotes, hlyrics⟩ := Schedule.soundsLike_of_recast hschedule
    exact ⟨hnotes, hlyrics, houtcome⟩

/-- The voice of `sungTriplet`, written with B sharp for C and F flat for E. -/
def respelledTriplet : Music :=
  let c : Music := note (.fraction (1 / 4)) ⟨.B, -11⟩ .piano
  let e : Music := note (.fraction (1 / 4)) ⟨.F, -1⟩ .piano
  component [lyric "la".text (.fraction (1 / 2)), tuplet [c, chord [c, e], e]]

/-- The respelled voice is equal to the one with the triplet: it is rendered and played in the same
way, also a fifth higher. -/
theorem same_indistinguishable_triplet :
    (sungTriplet == respelledTriplet) = true ∧
      sungTriplet.text? = respelledTriplet.text? ∧
      (sungTriplet.transpose 7 == respelledTriplet.transpose 7) = true ∧
      sungTriplet.ExactShares ∧ respelledTriplet.ExactShares ∧
      List.Forall₂ ScheduledNote.SoundsLike (sungTriplet.scheduled "a".text 0 .unset).1.notes
        (respelledTriplet.scheduled "a".text 0 .unset).1.notes ∧
      (respelledTriplet.scheduled "a".text 0 .unset).1.notes.map (·.pitch.letter) =
        [.B, .B, .F, .F] := by
  have hequal : (sungTriplet == respelledTriplet) = true := by decide +kernel
  have hexact : sungTriplet.ExactShares := by decide
  have hexact' : respelledTriplet.ExactShares := by decide
  obtain ⟨-, -, -, -, hrest⟩ := same_indistinguishable sungTriplet respelledTriplet sungTriplet
  obtain ⟨htext, -, -, -, htransposed, hplayed⟩ := hrest hequal
  exact ⟨hequal, htext, htransposed 7, hexact, hexact',
    (hplayed hexact hexact' "a".text 0 .unset).1, by decide +kernel⟩

/-- A triplet of notes of the given length. -/
def tripletOf (l : Length) : Music :=
  tuplet [note l ⟨.C, 0⟩ .piano, note l ⟨.D, 0⟩ .piano, note l ⟨.E, 0⟩ .piano]

/-- The constructors accept a triplet unless its length is negative. -/
theorem built_tripletOf {l : Length} (h : 0 ≤ l.value) : (tripletOf l).Built := by
  have hnote (p : Pitch) : (note l p .piano).Built := built_iff.2 h
  exact .tuplet (List.forall_mem_cons.2 ⟨hnote _, built_pair (hnote _) (hnote _)⟩) rfl

/-- The triplets of the whole length one and of the fraction one are equal, but only the second one
has its second note start at exactly two thirds. -/
theorem same_told_apart :
    (tripletOf (.whole 1)).Built ∧ (tripletOf (.fraction 1)).Built ∧
      (tripletOf (.whole 1) == tripletOf (.fraction 1)) = true ∧
      ((tripletOf (.whole 1)).scheduled [] 0 .unset).1.notes.map (·.start.toRat?) =
        [some 0, some (6004799503160661 / 9007199254740992),
          some (6004799503160661 / 4503599627370496)] ∧
      ((tripletOf (.fraction 1)).scheduled [] 0 .unset).1.notes.map (·.start.toRat?) =
        [some 0, some (2 / 3), some (4 / 3)] := by
  refine ⟨built_tripletOf ?_, built_tripletOf ?_, ?_, ?_, ?_⟩ <;> decide +kernel

end Music

end SingAlong

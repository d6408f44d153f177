import SingAlong.Music.Equality
import SingAlong.Proofs.Building
import SingAlong.Proofs.Recasting

/-!
# Transposed music

Transposing is the recasting that moves the pitches (`transpose_eq_recast`). Transposing by zero
changes nothing, and transposing twice adds the semitones (`transpose_zero`, `transpose_transpose`).
Durations, voices and lyrics stay what they are.

`transpose` builds the new expression as it is. `mkTransposed` goes through the constructors, which
look at their parts again; for built music they accept all of them, and the two agree
(`mkTransposed_built`). So transposed music is built as well (`Built.transpose`).
-/

namespace SingAlong

/-- A pitch that is transposed sounds that many semitones higher. -/
theorem Pitch.value_transpose (p : Pitch) (n : Int) : (p.transpose n).value = p.value + n :=
  (Int.add_assoc _ _ _).symm

/-- Transposing a pitch by zero changes nothing. -/
theorem Pitch.transpose_zero (p : Pitch) : p.transpose 0 = p := by
  rw [transpose, Int.add_zero]

/-- Transposing a pitch twice adds the semitones. -/
theorem Pitch.transpose_transpose (p : Pitch) (a b : Int) :
    (p.transpose a).transpose b = p.transpose (a + b) := by
  rw [transpose, transpose, transpose, Int.add_assoc]

namespace Recasting

/-- The recasting that moves all pitches by a number of semitones. -/
def raising (n : Int) : Recasting :=
  { unchanged with pitch := (·.transpose n) }

/-- Moving the pitches by zero changes nothing. -/
theorem raising_zero : raising 0 = unchanged :=
  Recasting.ext (funext Pitch.transpose_zero) rfl rfl

/-- Moving the pitches twice adds the semitones. -/
theorem raising_andThen_raising (a b : Int) :
    (raising a).andThen (raising b) = raising (a + b) :=
  Recasting.ext (funext fun p => p.transpose_transpose a b) rfl rfl

end Recasting

/-- A header is equal to itself. -/
theorem Header.same_refl (h : Header) : h.same h = true := by
  simp only [Header.same, beq_self_eq_true, Bool.and_self]

namespace Music

/-! ## Equality and the action of the semitones -/

mutual
/-- Music is equal to itself. -/
theorem same_refl : ∀ m : Music, m.same m = true
  | note l p i => by simp only [same, Pitch.enharmonic, beq_self_eq_true, Bool.and_self]
  | rest l => beq_self_eq_true _
  | lyric t l => by simp only [same, beq_self_eq_true, Bool.and_self]
  | chord ns => sameAll_refl ns
  | tuplet ns => sameAll_refl ns
  | concat a b => by rw [same, same_refl a, same_refl b, Bool.and_self]
  | component ps => sameAll_refl ps
  | piece vs h => by rw [same, sameVoices_refl vs, h.same_refl, Bool.and_self]
/-- The expressions of a list are equal to themselves. -/
theorem sameAll_refl : ∀ ms : List Music, sameAll ms ms = true
  | [] => rfl
  | m :: ms => by rw [sameAll, same_refl m, sameAll_refl ms, Bool.and_self]
/-- The voices of a piece are equal to themselves. -/
theorem sameVoices_refl : ∀ vs : List (Text × Music), sameVoices vs vs = true
  | [] => rfl
  | (v, m) :: vs => by
    rw [sameVoices, same_refl m, sameVoices_refl vs, beq_self_eq_true, Bool.and_self, Bool.and_self]
end

mutual
/-- Transposing is recasting the pitches. -/
theorem transpose_eq_recast (n : Int) : ∀ m : Music, m.transpose n = m.recast (.raising n)
  | note _ _ _ => rfl
  | rest _ => rfl
  | lyric _ _ => rfl
  | chord ns => congrArg chord (transposeAll_eq_recastAll n ns)
  | tuplet ns => congrArg tuplet (transposeAll_eq_recastAll n ns)
  | concat a b => congrArg₂ concat (transpose_eq_recast n a) (transpose_eq_recast n b)
  | component ps => congrArg component (transposeAll_eq_recastAll n ps)
  | piece vs h => congrArg (piece · h) (transposeVoices_eq_recastVoices n vs)
/-- Transposing the expressions of a list is recasting their pitches. -/
theorem transposeAll_eq_recastAll (n : Int) : ∀ ms : List Music,
    transposeAll n ms = recastAll (.raising n) ms
  | [] => rfl
  | m :: ms => congrArg₂ List.cons (transpose_eq_recast n m) (transposeAll_eq_recastAll n ms)
/-- Transposing the voices of a piece is recasting their pitches. -/
theorem transposeVoices_eq_recastVoices (n : Int) : ∀ vs : List (Text × Music),
    transposeVoices n vs = recastVoices (.raising n) vs
  | [] => rfl
  | (v, m) :: vs =>
    congrArg₂ (fun m vs => (v, m) :: vs) (transpose_eq_recast n m)
      (transposeVoices_eq_recastVoices n vs)
end

/-- Transposing by zero changes nothing. -/
theorem transpose_zero (m : Music) : m.transpose 0 = m := by
  rw [transpose_eq_recast, Recasting.raising_zero, recast_unchanged]

/-- Transposing twice adds the semitones. -/
theorem transpose_transpose (a b : Int) (m : Music) :
    (m.transpose a).transpose b = m.transpose (a + b) := by
  rw [transpose_eq_recast, transpose_eq_recast, recast_recast, Recasting.raising_andThen_raising,
    transpose_eq_recast]

/-! ## What stays -/

section

variable (n : Int)

/-- As many expressions are transposed as there are. -/
theorem length_transposeAll (ms : List Music) : (transposeAll n ms).length = ms.length := by
  induction ms with
  | nil => rfl
  | cons m ms ih => rw [transposeAll, List.length_cons, ih, List.length_cons]

/-- The voices keep their names. -/
theorem voiceNames_transposeVoices (vs : List (Text × Music)) :
    voiceNames (transposeVoices n vs) = voiceNames vs := by
  induction vs with
  | nil => rfl
  | cons v vs ih =>
    unfold voiceNames at ih ⊢
    rw [transposeVoices, List.map_cons, ih, List.map_cons]

mutual
/-- Transposed music has the same duration. -/
theorem duration_transpose : ∀ m : Music, (m.transpose n).duration = m.duration
  | note _ _ _ => rfl
  | rest _ => rfl
  | lyric _ _ => rfl
  | chord ns => firstDuration_transposeAll ns
  | tuplet ns => by
    rw [transpose, duration, firstDuration_transposeAll ns, length_transposeAll, duration]
  | concat a b => congrArg₂ (· + ·) (duration_transpose a) (duration_transpose b)
  | component ps => firstDuration_transposeAll ps
  | piece vs _ => longestDuration_transposeVoices vs
/-- The first of transposed expressions has the same duration. -/
theorem firstDuration_transposeAll : ∀ ms : List Music,
    firstDuration (transposeAll n ms) = firstDuration ms
  | [] => rfl
  | m :: _ => duration_transpose m
/-- The longest of transposed voices has the same duration. -/
theorem longestDuration_transposeVoices : ∀ vs : List (Text × Music),
    longestDuration (transposeVoices n vs) = longestDuration vs
  | [] => rfl
  | (_, m) :: vs =>
    congrArg₂ Length.longer (longestDuration_transposeVoices vs) (duration_transpose m)
end

/-- Transposed music has the same voices. -/
theorem voices_transpose (m : Music) : (m.transpose n).voices = m.voices := by
  rw [transpose_eq_recast, voices_recast]

/-- Transposed music has the same lyrics, or lacks the same voice. -/
theorem lyrics_transpose (name : Text) (m : Music) :
    (m.transpose n).lyrics name = m.lyrics name := by
  rw [transpose_eq_recast, lyrics_recast]

/-- Transposed music fits into a chord if it did before. -/
theorem fitsChord_transpose (m : Music) : (m.transpose n).fitsChord = m.fitsChord := by
  cases m <;> rfl

/-- Transposed music fits into a tuplet if it did before. -/
theorem fitsTuplet_transpose (m : Music) : (m.transpose n).fitsTuplet = m.fitsTuplet := by
  cases m <;> rfl

/-- The expressions of a transposed list are those of the list, transposed. -/
theorem forall_transposeAll {p : Music → Prop} {ms : List Music}
    (h : ∀ m ∈ ms, p (m.transpose n)) : ∀ m ∈ transposeAll n ms, p m := by
  induction ms with
  | nil => exact nofun
  | cons m ms ih =>
    obtain ⟨hm, hms⟩ := List.forall_mem_cons.1 h
    exact List.forall_mem_cons.2 ⟨hm, ih hms⟩

/-- There is a transposed expression if there is one. -/
theorem transposeAll_ne_nil {ms : List Music} (h : ms ≠ []) : transposeAll n ms ≠ [] := by
  rw [← List.length_pos_iff] at h ⊢
  rwa [length_transposeAll]

/-- The voices of a transposed piece are its voices, transposed. -/
theorem forall_transposeVoices {p : Text × Music → Prop} {vs : List (Text × Music)}
    (h : ∀ v ∈ vs, p (v.1, v.2.transpose n)) : ∀ v ∈ transposeVoices n vs, p v := by
  induction vs with
  | nil => exact nofun
  | cons v vs ih =>
    obtain ⟨hv, hvs⟩ := List.forall_mem_cons.1 h
    exact List.forall_mem_cons.2 ⟨hv, ih hvs⟩

end

/-! ## Transposing through the constructors -/

section

variable (n : Int) {ns ps : List Music} {m : Music}

/-- The constructor of a chord accepts its parts transposed. -/
theorem mkChord_transposeAll (h : mkChord ns = .ok m) :
    mkChord (transposeAll n ns) = .ok (m.transpose n) := by
  obtain ⟨hne, hfit, rfl⟩ := mkChord_eq_ok.1 h
  refine mkChord_eq_ok.2 ⟨transposeAll_ne_nil n hne, forall_transposeAll n fun m hm => ?_, rfl⟩
  rw [fitsChord_transpose]
  exact hfit m hm

/-- The constructor of a tuplet accepts its parts transposed. -/
theorem mkTuplet_transposeAll (h : mkTuplet ns = .ok m) :
    mkTuplet (transposeAll n ns) = .ok (m.transpose n) := by
  obtain ⟨hcount, hfit, rfl⟩ := mkTuplet_eq_ok.1 h
  refine mkTuplet_eq_ok.2 ⟨?_, forall_transposeAll n fun m hm => ?_, rfl⟩
  · rwa [length_transposeAll]
  · rw [fitsTuplet_transpose]
    exact hfit m hm

/-- The constructor of a component accepts its parts transposed. -/
theorem mkComponent_transposeAll (h : mkComponent ps = .ok m) :
    mkComponent (transposeAll n ps) = .ok (m.transpose n) := by
  obtain ⟨hne, rfl⟩ := mkComponent_eq_ok.1 h
  exact mkComponent_eq_ok.2 ⟨transposeAll_ne_nil n hne, rfl⟩

/-- Built music is built when it is transposed. -/
theorem Built.transpose (h : m.Built) : (m.transpose n).Built := by
  induction h with
  | note h =>
    obtain ⟨hl, rfl⟩ := mkNote_eq_ok.1 h
    exact built_iff.2 hl
  | rest h =>
    obtain ⟨hl, rfl⟩ := mkRest_eq_ok.1 h
    exact built_iff.2 hl
  | lyric h =>
    obtain ⟨ht, hl, rfl⟩ := mkLyric_eq_ok.1 h
    exact built_iff.2 ⟨ht, hl⟩
  | chord _ h ih => exact .chord (forall_transposeAll n ih) (mkChord_transposeAll n h)
  | tuplet _ h ih => exact .tuplet (forall_transposeAll n ih) (mkTuplet_transposeAll n h)
  | concat _ _ iha ihb => exact .concat iha ihb
  | component _ h ih => exact .component (forall_transposeAll n ih) (mkComponent_transposeAll n h)
  | piece _ ih =>
    refine built_iff.2 ⟨?_, forall_transposeVoices n fun v hv => ?_⟩
    · rw [voiceNames_transposeVoices]
      exact foldl_putVoice_nodup .nil
    · exact ih v ((mem_foldl_putVoice hv).resolve_left List.not_mem_nil)

end

mutual
/-- Transposes an expression by the constructors. Rests and lyrics are kept as they are. -/
def mkTransposed (n : Int) : Music → Except MusicError Music
  | note l p i => mkNote l (p.transpose n) i
  | rest l => .ok (rest l)
  | lyric t l => .ok (lyric t l)
  | chord ns => do mkChord (← mkTransposedAll n ns)
  | tuplet ns => do mkTuplet (← mkTransposedAll n ns)
  | concat a b => do return concat (← mkTransposed n a) (← mkTransposed n b)
  | component ps => do mkComponent (← mkTransposedAll n ps)
  | piece vs h => do return mkPiece (← mkTransposedVoices n vs) h
/-- Transposes the expressions of a list by the constructors. -/
def mkTransposedAll (n : Int) : List Music → Except MusicError (List Music)
  | [] => .ok []
  | m :: ms => do return (← mkTransposed n m) :: (← mkTransposedAll n ms)
/-- Transposes the voices of a piece by the constructors. -/
def mkTransposedVoices (n : Int) : List (Text × Music) → Except MusicError (List (Text × Music))
  | [] => .ok []
  | (v, m) :: vs => do return (v, ← mkTransposed n m) :: (← mkTransposedVoices n vs)
end

mutual
/-- The constructors accept what built music is transposed to. -/
theorem mkTransposed_built (n : Int) : ∀ {m : Music}, m.Built →
    m.mkTransposed n = .ok (m.transpose n)
  | note _ _ _, h => mkNote_eq_ok.2 ⟨built_iff.1 h, rfl⟩
  | rest _, _ => rfl
  | lyric _ _, _ => rfl
  | chord ns, h => by
    obtain ⟨hne, hfit, hns⟩ := built_iff.1 h
    rw [mkTransposed, mkTransposedAll_built n hns]
    exact mkChord_transposeAll n (mkChord_eq_ok.2 ⟨hne, hfit, rfl⟩)
  | tuplet ns, h => by
    obtain ⟨hcount, hfit, hns⟩ := built_iff.1 h
    rw [mkTransposed, mkTransposedAll_built n hns]
    exact mkTuplet_transposeAll n (mkTuplet_eq_ok.2 ⟨hcount, hfit, rfl⟩)
  | concat a b, h => by
    obtain ⟨ha, hb⟩ := built_iff.1 h
    rw [mkTransposed, mkTransposed_built n ha, mkTransposed_built n hb]
    rfl
  | component ps, h => by
    obtain ⟨hne, hps⟩ := built_iff.1 h
    rw [mkTransposed, mkTransposedAll_built n hps]
    exact mkComponent_transposeAll n (mkComponent_eq_ok.2 ⟨hne, rfl⟩)
  | piece vs header, h => by
    obtain ⟨hnames, hvs⟩ := built_iff.1 h
    rw [← voiceNames_transposeVoices n] at hnames
    rw [mkTransposed, mkTransposedVoices_built n hvs]
    exact congrArg Except.ok (mkPiece_of_nodup header hnames)
/-- The constructors accept what built expressions are transposed to. -/
theorem mkTransposedAll_built (n : Int) : ∀ {ms : List Music}, (∀ m ∈ ms, m.Built) →
    mkTransposedAll n ms = .ok (transposeAll n ms)
  | [], _ => rfl
  | m :: ms, h => by
    obtain ⟨hm, hms⟩ := List.forall_mem_cons.1 h
    rw [mkTransposedAll, mkTransposed_built n hm, mkTransposedAll_built n hms]
    rfl
/-- The constructors accept what built voices are transposed to. -/
theorem mkTransposedVoices_built (n : Int) : ∀ {vs : List (Text × Music)},
    (∀ v ∈ vs, v.2.Built) → mkTransposedVoices n vs = .ok (transposeVoices n vs)
  | [], _ => rfl
  | (v, m) :: vs, h => by
    obtain ⟨hm, hvs⟩ := List.forall_mem_cons.1 h
    rw [mkTransposedVoices, mkTransposed_built n hm, mkTransposedVoices_built n hvs]
    rfl
end

end Music

end SingAlong

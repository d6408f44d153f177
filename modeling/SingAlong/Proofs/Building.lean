import SingAlong.Proofs.Cancellation
import SingAlong.Proofs.Elements

/-!
# Music that is built

`Music.Built` is the music that the constructors accept, nested in any way. Each constructor looks
only at what it is given, so `built_iff` says once what is known of built music: what its own
constructor asks, and that its parts are built.

Built music takes no negative time (`Built.duration_nonneg`). What stretching makes is built
(`built_of_stretch`), and it is made of exactly the notes and the chords of notes and chords
(`isStretchable_iff`). The members of a tuplet with exact shares are played as the copies that
stretching makes of them (`playEvenly_cons`), and the shares are exact when the lengths of all
notes, rests and lyrics are fractions (`Built.exactShares`).
-/

namespace SingAlong

namespace Music

/-- Music that the constructors accept, nested in any way. -/
inductive Built : Music → Prop where
  | note {l : Length} {p : Pitch} {i : Instrument} {m : Music} : mkNote l p i = .ok m → Built m
  | rest {l : Length} {m : Music} : mkRest l = .ok m → Built m
  | lyric {t : Text} {l : Length} {m : Music} : mkLyric t l = .ok m → Built m
  | chord {ns : List Music} {m : Music} : (∀ n ∈ ns, Built n) → mkChord ns = .ok m → Built m
  | tuplet {ns : List Music} {m : Music} : (∀ n ∈ ns, Built n) → mkTuplet ns = .ok m → Built m
  | concat {a b : Music} : Built a → Built b → Built (concat a b)
  | component {ps : List Music} {m : Music} :
    (∀ p ∈ ps, Built p) → mkComponent ps = .ok m → Built m
  | piece {entries : List (Text × Music)} {h : Header} :
    (∀ e ∈ entries, Built e.2) → Built (mkPiece entries h)

/-! ## The voices of a piece -/

/-- The names of the voices, whatever there is of them. -/
def voiceNames {α : Type} (vs : List (Text × α)) : List Text :=
  vs.map Prod.fst

/-- A way to put something of a voice among others leaves the names, unless the voice is new: if it
changes the first entry of the name, and else makes a last one. -/
theorem voiceNames_put {α : Type} {name : Text} {put : List (Text × α) → List (Text × α)}
    (hnil : voiceNames (put []) = [name])
    (hcons : ∀ v vs, voiceNames (put (v :: vs)) =
      v.1 :: if v.1 = name then voiceNames vs else voiceNames (put vs)) (vs : List (Text × α)) :
    voiceNames (put vs) =
      if name ∈ voiceNames vs then voiceNames vs else voiceNames vs ++ [name] := by
  induction vs with
  | nil => exact hnil
  | cons v vs ih =>
    have hnames : voiceNames (v :: vs) = v.1 :: voiceNames vs := rfl
    rw [hcons, ih, hnames]
    by_cases hv : v.1 = name
    · rw [if_pos hv, if_pos (List.mem_cons.2 (.inl hv.symm))]
    · rw [if_neg hv]
      by_cases hmem : name ∈ voiceNames vs
      · rw [if_pos hmem, if_pos (List.mem_cons_of_mem v.1 hmem)]
      · have hnone : name ∉ v.1 :: voiceNames vs :=
          fun h => (List.mem_cons.1 h).elim (Ne.symm hv) hmem
        rw [if_neg hmem, if_neg hnone, List.cons_append]

/-- Different names stay different when a new one is added. -/
theorem nodup_put {names : List Text} (name : Text) (h : names.Nodup) :
    (if name ∈ names then names else names ++ [name]).Nodup := by
  split_ifs with hmem
  · exact h
  · exact List.nodup_append.2 ⟨h, List.pairwise_singleton _ _, fun a ha b hb hab => by
      cases List.mem_singleton.1 hb
      exact hmem (hab ▸ ha)⟩

/-- A voice that is put among others is added unless there is one of its name. -/
theorem voiceNames_putVoice (name : Text) (m : Music) (vs : List (Text × Music)) :
    voiceNames (putVoice name m vs) =
      if name ∈ voiceNames vs then voiceNames vs else voiceNames vs ++ [name] := by
  refine voiceNames_put rfl (fun v vs => ?_) vs
  rw [putVoice]
  split_ifs with hv
  · exact congrArg (· :: voiceNames vs) hv.symm
  · rfl

/-- The voices are the one that is put and those that were there. -/
theorem mem_putVoice {name : Text} {m : Music} {vs : List (Text × Music)} {e : Text × Music}
    (he : e ∈ putVoice name m vs) : e = (name, m) ∨ e ∈ vs := by
  induction vs with
  | nil => exact .inl (List.mem_singleton.1 he)
  | cons v vs ih =>
    unfold putVoice at he
    split_ifs at he with hv
    · exact (List.mem_cons.1 he).imp_right (List.mem_cons_of_mem v)
    · rcases List.mem_cons.1 he with rfl | he
      · exact .inr List.mem_cons_self
      · exact (ih he).imp_right (List.mem_cons_of_mem v)

/-- A voice of a new name is put after the others. -/
theorem putVoice_of_notMem {name : Text} (m : Music) {vs : List (Text × Music)}
    (h : name ∉ voiceNames vs) : putVoice name m vs = vs ++ [(name, m)] := by
  induction vs with
  | nil => rfl
  | cons v vs ih =>
    unfold voiceNames at h ih
    rw [List.map_cons, List.mem_cons, not_or] at h
    unfold putVoice
    rw [if_neg (Ne.symm h.1), ih h.2, List.cons_append]

section Entries

variable {vs entries : List (Text × Music)}

/-- Voices that are put one after the other among voices of different names. -/
theorem foldl_putVoice_nodup (h : (voiceNames vs).Nodup) :
    (voiceNames (entries.foldl (fun vs e => putVoice e.1 e.2 vs) vs)).Nodup := by
  induction entries generalizing vs with
  | nil => exact h
  | cons e entries ih =>
    refine ih ?_
    rw [voiceNames_putVoice]
    exact nodup_put e.1 h

/-- The voices are those that are put and those that were there. -/
theorem mem_foldl_putVoice {e : Text × Music}
    (he : e ∈ entries.foldl (fun vs e => putVoice e.1 e.2 vs) vs) : e ∈ vs ∨ e ∈ entries := by
  induction entries generalizing vs with
  | nil => exact .inl he
  | cons e' entries ih =>
    rcases ih he with he | he
    · rcases mem_putVoice he with rfl | he
      · exact .inr List.mem_cons_self
      · exact .inl he
    · exact .inr (List.mem_cons_of_mem e' he)

/-- Voices of different names are put one after the other. -/
theorem foldl_putVoice_of_nodup (h : (voiceNames (vs ++ entries)).Nodup) :
    entries.foldl (fun vs e => putVoice e.1 e.2 vs) vs = vs ++ entries := by
  induction entries generalizing vs with
  | nil => exact (List.append_nil vs).symm
  | cons e entries ih =>
    have hnew : e.1 ∉ voiceNames vs := by
      unfold voiceNames at h ⊢
      rw [List.map_append, List.map_cons] at h
      exact fun hmem => (List.nodup_append.1 h).2.2 _ hmem _ List.mem_cons_self rfl
    rw [List.foldl_cons, putVoice_of_notMem e.2 hnew, ih, List.append_assoc, List.singleton_append]
    rwa [List.append_assoc]

/-- A piece has the voices that it is given if they have different names. -/
theorem mkPiece_of_nodup (h : Header) (hnames : (voiceNames entries).Nodup) :
    mkPiece entries h = piece entries h := by
  unfold mkPiece
  rw [@foldl_putVoice_of_nodup [] entries hnames, List.nil_append]

end Entries

/-! ## Built music -/

/-- What is known of built music: what its constructor asks, and that its parts are built. -/
def Formed : Music → Prop
  | note l _ _ | rest l => 0 ≤ l.value
  | lyric t l => t ≠ [] ∧ 0 ≤ l.value
  | chord ns => ns ≠ [] ∧ (∀ n ∈ ns, n.fitsChord) ∧ ∀ n ∈ ns, n.Built
  | tuplet ns =>
    (2 ≤ ns.length ∧ ns.length ≤ 4) ∧ (∀ n ∈ ns, n.fitsTuplet) ∧ ∀ n ∈ ns, n.Built
  | concat a b => a.Built ∧ b.Built
  | component ps => ps ≠ [] ∧ ∀ p ∈ ps, p.Built
  | piece vs _ => (voiceNames vs).Nodup ∧ ∀ v ∈ vs, v.2.Built

/-- Music is built exactly when its constructor accepts it and its parts are built. -/
theorem built_iff {m : Music} : m.Built ↔ m.Formed := by
  constructor
  · intro h
    cases h with
    | note h =>
      obtain ⟨hl, rfl⟩ := mkNote_eq_ok.1 h
      exact hl
    | rest h =>
      obtain ⟨hl, rfl⟩ := mkRest_eq_ok.1 h
      exact hl
    | lyric h =>
      obtain ⟨ht, hl, rfl⟩ := mkLyric_eq_ok.1 h
      exact ⟨ht, hl⟩
    | chord hns h =>
      obtain ⟨hne, hfit, rfl⟩ := mkChord_eq_ok.1 h
      exact ⟨hne, hfit, hns⟩
    | tuplet hns h =>
      obtain ⟨hcount, hfit, rfl⟩ := mkTuplet_eq_ok.1 h
      exact ⟨hcount, hfit, hns⟩
    | concat ha hb => exact ⟨ha, hb⟩
    | component hps h =>
      obtain ⟨hne, rfl⟩ := mkComponent_eq_ok.1 h
      exact ⟨hne, hps⟩
    | piece hvs =>
      refine ⟨foldl_putVoice_nodup .nil, fun v hv => ?_⟩
      exact hvs v ((mem_foldl_putVoice hv).resolve_left List.not_mem_nil)
  · intro h
    cases m with
    | note l p i => exact .note (mkNote_eq_ok.2 ⟨h, rfl⟩)
    | rest l => exact .rest (mkRest_eq_ok.2 ⟨h, rfl⟩)
    | lyric t l => exact .lyric (mkLyric_eq_ok.2 ⟨h.1, h.2, rfl⟩)
    | chord ns => exact .chord h.2.2 (mkChord_eq_ok.2 ⟨h.1, h.2.1, rfl⟩)
    | tuplet ns => exact .tuplet h.2.2 (mkTuplet_eq_ok.2 ⟨h.1, h.2.1, rfl⟩)
    | concat a b => exact .concat h.1 h.2
    | component ps => exact .component h.2 (mkComponent_eq_ok.2 ⟨h.1, rfl⟩)
    | piece vs header =>
      rw [← mkPiece_of_nodup header h.1]
      exact .piece h.2

/-- The rest that takes no time is built. -/
theorem built_silence : silence.Built :=
  built_iff.2 (le_refl (0 : Rat))

/-- Two expressions that are built. -/
theorem built_pair {a b : Music} (ha : a.Built) (hb : b.Built) : ∀ m ∈ [a, b], m.Built :=
  List.forall_mem_cons.2 ⟨ha, List.forall_mem_singleton.2 hb⟩

/-- The constructors accept the voice with the triplet. -/
theorem built_sungTriplet : sungTriplet.Built := by
  have hnote (p : Pitch) : (note (.fraction (1 / 4)) p .piano).Built :=
    built_iff.2 (show (0 : Rat) ≤ 1 / 4 by decide +kernel)
  refine .component (built_pair ?_ ?_) rfl
  · exact built_iff.2 ⟨by decide, show (0 : Rat) ≤ 1 / 2 by decide +kernel⟩
  · have hchord : (chord [note (.fraction (1 / 4)) ⟨.C, 0⟩ .piano,
        note (.fraction (1 / 4)) ⟨.E, 0⟩ .piano]).Built :=
      .chord (built_pair (hnote _) (hnote _)) rfl
    exact built_iff.2 ⟨by decide, by decide,
      List.forall_mem_cons.2 ⟨hnote _, built_pair hchord (hnote _)⟩⟩

/-- Built expressions one after the other are built. -/
theorem built_sequence {ms : List Music} (h : ∀ m ∈ ms, m.Built) : (sequence ms).Built := by
  have hfold (first : Music) (hfirst : first.Built) : (ms.foldl concat first).Built := by
    induction ms generalizing first with
    | nil => exact hfirst
    | cons m ms ih =>
      obtain ⟨hm, hms⟩ := List.forall_mem_cons.1 h
      exact ih hms _ (hfirst.concat hm)
  exact hfold silence built_silence

mutual
/-- Built music takes no negative time. -/
theorem Built.duration_nonneg : ∀ {m : Music}, m.Built → 0 ≤ m.duration.value
  | note _ _ _, h => built_iff.1 h
  | rest _, h => built_iff.1 h
  | lyric _ _, h => (built_iff.1 h).2
  | chord _, h => firstDuration_of_built (built_iff.1 h).2.2
  | tuplet _, h => scale_nonneg _ (firstDuration_of_built (built_iff.1 h).2.2)
  | concat a b, h => by
    obtain ⟨ha, hb⟩ := built_iff.1 h
    rw [duration, value_add]
    exact add_nonneg ha.duration_nonneg hb.duration_nonneg
  | component _, h => firstDuration_of_built (built_iff.1 h).2
  | piece _ _, h => longestDuration_of_built (built_iff.1 h).2
/-- The first of built expressions takes no negative time. -/
theorem firstDuration_of_built : ∀ {ms : List Music}, (∀ m ∈ ms, m.Built) →
    0 ≤ (firstDuration ms).value
  | [], _ => le_refl 0
  | m :: _, h => (h m List.mem_cons_self).duration_nonneg
/-- The longest of built voices takes no negative time. -/
theorem longestDuration_of_built : ∀ {vs : List (Text × Music)}, (∀ v ∈ vs, v.2.Built) →
    0 ≤ (longestDuration vs).value
  | [], _ => le_refl 0
  | (v, m) :: vs, h => by
    have hm := (h (v, m) List.mem_cons_self).duration_nonneg
    have hvs := longestDuration_of_built fun v' hv' => h v' (List.mem_cons_of_mem (v, m) hv')
    unfold longestDuration Length.longer
    split_ifs
    · exact hm
    · exact hvs
end

/-- The share of the time of a built tuplet that each member is played for is not negative. -/
theorem Built.share_nonneg {ns : List Music} (h : (Music.tuplet ns).Built) :
    0 ≤ (Music.tuplet ns).duration.value / ns.length :=
  div_nonneg h.duration_nonneg (Nat.cast_nonneg _)

/-! ## Stretching -/

mutual
/-- What stretching makes is built. -/
theorem built_of_stretch {l : Length} : ∀ {m copy : Music}, m.stretch l = .ok copy → copy.Built
  | note _ _ _, _, h => .note h
  | chord _, _, h => by
    obtain ⟨copies, hcopies, hcopy⟩ := bind_eq_ok.1 h
    exact .chord (built_of_stretchAll hcopies) hcopy
/-- What stretching makes of a list is built. -/
theorem built_of_stretchAll {l : Length} : ∀ {ms copies : List Music},
    stretchAll l ms = .ok copies → ∀ copy ∈ copies, copy.Built
  | [], _, h => by
    cases h
    exact nofun
  | m :: ms, _, h => by
    obtain ⟨copy, hcopy, h⟩ := bind_eq_ok.1 h
    obtain ⟨copies, hcopies, h⟩ := bind_eq_ok.1 h
    cases h
    exact List.forall_mem_cons.2 ⟨built_of_stretch hcopy, built_of_stretchAll hcopies⟩
end

mutual
/-- Only notes, and chords of notes and chords, can be stretched. -/
theorem isStretchable_of_stretch {l : Length} : ∀ {m copy : Music},
    m.stretch l = .ok copy → m.isStretchable
  | note _ _ _, _, _ => rfl
  | chord _, _, h => by
    obtain ⟨copies, hcopies, -⟩ := bind_eq_ok.1 h
    exact areStretchable_of_stretchAll hcopies
/-- Only lists of notes, and of chords of notes and chords, can be stretched. -/
theorem areStretchable_of_stretchAll {l : Length} : ∀ {ms copies : List Music},
    stretchAll l ms = .ok copies → areStretchable ms
  | [], _, _ => rfl
  | m :: ms, _, h => by
    obtain ⟨copy, hcopy, h⟩ := bind_eq_ok.1 h
    obtain ⟨copies, hcopies, -⟩ := bind_eq_ok.1 h
    exact Bool.and_eq_true_iff.2
      ⟨isStretchable_of_stretch hcopy, areStretchable_of_stretchAll hcopies⟩
end

/-- What can be stretched fits into a chord. -/
theorem fitsChord_of_isStretchable {m : Music} (h : m.isStretchable) : m.fitsChord := by
  cases m <;> first | rfl | cases h

mutual
/-- The copy of a note or chord with another length. -/
def stretched (length : Rat) : Music → Music
  | note _ p i => note (.fraction length) p i
  | chord ns => chord (allStretched length ns)
  | m => m
/-- The copies of notes and chords with another length. -/
def allStretched (length : Rat) : List Music → List Music
  | [] => []
  | m :: ms => stretched length m :: allStretched length ms
end

section Stretched

variable (length : Rat)

mutual
/-- A copy can be stretched again. -/
theorem isStretchable_stretched : ∀ m : Music,
    (m.stretched length).isStretchable = m.isStretchable
  | note _ _ _ => rfl
  | chord ns => areStretchable_allStretched ns
  | rest _ | lyric _ _ | tuplet _ | concat _ _ | component _ | piece _ _ => rfl
/-- Copies can be stretched again. -/
theorem areStretchable_allStretched : ∀ ms : List Music,
    areStretchable (allStretched length ms) = areStretchable ms
  | [] => rfl
  | m :: ms => congrArg₂ (· && ·) (isStretchable_stretched m) (areStretchable_allStretched ms)
end

variable {length}

mutual
/-- A built note, or a chord of notes and chords, is stretched to its copy. -/
theorem stretch_built (hl : 0 ≤ length) : ∀ {m : Music}, m.Built → m.isStretchable →
    m.stretch (.fraction length) = .ok (m.stretched length)
  | note _ _ _, _, _ => mkNote_eq_ok.2 ⟨hl, rfl⟩
  | chord ns, h, hs => by
    obtain ⟨hne, -, hns⟩ := built_iff.1 h
    rw [stretch, stretchAll_built hl hns hs]
    refine mkChord_eq_ok.2 ⟨?_, fun m hm => ?_, rfl⟩
    · cases ns with
      | nil => exact absurd rfl hne
      | cons n ns => exact List.cons_ne_nil _ _
    · -- The copies are notes and chords again.
      have hcopies : areStretchable (allStretched length ns) := by
        rwa [areStretchable_allStretched]
      exact fitsChord_of_isStretchable ((areStretchable_iff _).1 hcopies m hm)
/-- Built notes, and chords of notes and chords, are stretched to their copies. -/
theorem stretchAll_built (hl : 0 ≤ length) : ∀ {ms : List Music}, (∀ m ∈ ms, m.Built) →
    areStretchable ms → stretchAll (.fraction length) ms = .ok (allStretched length ms)
  | [], _, _ => rfl
  | m :: ms, h, hs => by
    obtain ⟨hm, hms⟩ := List.forall_mem_cons.1 h
    obtain ⟨hsm, hsms⟩ := Bool.and_eq_true_iff.1 hs
    rw [stretchAll, stretch_built hl hm hsm, stretchAll_built hl hms hsms]
    rfl
end

/-- Built music has a copy of some length if it is a note, or a chord of notes and chords. -/
theorem isStretchable_iff (hl : 0 ≤ length) {m : Music} (h : m.Built) :
    m.isStretchable ↔ ∃ copy, m.stretch (.fraction length) = .ok copy :=
  ⟨fun hs => ⟨_, stretch_built hl h hs⟩, fun ⟨_, hcopy⟩ => isStretchable_of_stretch hcopy⟩

end Stretched

mutual
/-- A note or chord is played stretched as its copy is played. -/
theorem playStretched_eq (name : Text) (length beat : Rat) : ∀ {m : Music}, m.isStretchable →
    playStretched (.exact length) (.exact beat) m = (m.stretched length).play name beat
  | note _ _ _, _ => rfl
  | chord ns, h => by
    rw [playStretched, playAllStretched_eq name length beat h, stretched, play]
/-- Notes and chords are played stretched as their copies are played. -/
theorem playAllStretched_eq (name : Text) (length beat : Rat) : ∀ {ms : List Music},
    areStretchable ms →
      playAllStretched (.exact length) (.exact beat) ms =
        playAll name beat (allStretched length ms)
  | [], _ => rfl
  | m :: ms, h => by
    obtain ⟨hm, hms⟩ := Bool.and_eq_true_iff.1 h
    rw [playAllStretched, playStretched_eq name length beat hm,
      playAllStretched_eq name length beat hms, allStretched, playAll]
end

/-- Plays the copy of an expression that stretching makes. -/
def playCopy (name : Text) (length beat : Rat) (m : Music) : Player Unit :=
  match m.stretch (.fraction length) with
  | .ok copy => copy.play name beat
  | .error _ => throw .notStretchable

/-- Each member of a tuplet is stretched to its exact share, and the copy is played. -/
theorem playEvenly_cons (name : Text) {length : Rat} (hl : 0 ≤ length) (beat : Rat) {m : Music}
    (hm : m.Built) (ms : List Music) :
    playEvenly (.exact length) (.exact beat) (m :: ms) = (do
      playCopy name length beat m
      playEvenly (.exact length) (.exact (beat + length)) ms) := by
  rw [playEvenly, playCopy, Beats.add?]
  by_cases hs : m.isStretchable
  · rw [if_pos hs, stretch_built hl hm hs, playStretched_eq name length beat hs]
  · rw [if_neg hs]
    cases hcopy : m.stretch (.fraction length) with
    | ok copy => exact absurd (isStretchable_of_stretch hcopy) hs
    | error e => rfl

/-! ## Lengths that are fractions -/

mutual
/-- The lengths of the notes, rests and lyrics in an expression, at any depth. -/
def lengths : Music → List Length
  | note l _ _ | rest l | lyric _ l => [l]
  | chord ns | tuplet ns | component ns => lengthsOf ns
  | concat a b => lengths a ++ lengths b
  | piece vs _ => lengthsIn vs
/-- The lengths in the expressions of a list. -/
def lengthsOf : List Music → List Length
  | [] => []
  | m :: ms => lengths m ++ lengthsOf ms
/-- The lengths in the voices of a piece. -/
def lengthsIn : List (Text × Music) → List Length
  | [] => []
  | (_, m) :: vs => lengths m ++ lengthsIn vs
end

mutual
/-- Music whose lengths are fractions lasts for a fraction of a note, or for no time when it is a
piece without voices. -/
theorem duration_of_fractions : ∀ {m : Music}, (∀ l ∈ m.lengths, l.isFraction) →
    m.duration.isFraction ∨ m.duration = .whole 0
  | note _ _ _, h | rest _, h | lyric _ _, h => .inl (h _ List.mem_cons_self)
  | chord _, h => firstDuration_of_fractions h
  | tuplet ns, h => by
    rw [duration, isFraction_scale]
    refine (firstDuration_of_fractions h).imp_right fun hzero => ?_
    rw [hzero, Length.scale, mul_zero]
  | concat a b, h => by
    obtain ⟨ha, hb⟩ := List.forall_mem_append.1 h
    rw [duration, isFraction_add, Bool.or_eq_true]
    rcases duration_of_fractions ha with hfraction | hzero
    · exact .inl (.inl hfraction)
    · refine (duration_of_fractions hb).imp .inr fun hzero' => ?_
      rw [hzero, hzero']
      rfl
  | component _, h => firstDuration_of_fractions h
  | piece _ _, h => longestDuration_of_fractions h
/-- The first of expressions whose lengths are fractions lasts for one, or for no time. -/
theorem firstDuration_of_fractions : ∀ {ms : List Music}, (∀ l ∈ lengthsOf ms, l.isFraction) →
    (firstDuration ms).isFraction ∨ firstDuration ms = .whole 0
  | [], _ => .inr rfl
  | _ :: _, h => duration_of_fractions (List.forall_mem_append.1 h).1
/-- The longest of voices whose lengths are fractions lasts for one, or for no time. -/
theorem longestDuration_of_fractions : ∀ {vs : List (Text × Music)},
    (∀ l ∈ lengthsIn vs, l.isFraction) →
      (longestDuration vs).isFraction ∨ longestDuration vs = .whole 0
  | [], _ => .inr rfl
  | (_, _) :: _, h => by
    obtain ⟨hm, hvs⟩ := List.forall_mem_append.1 h
    unfold longestDuration Length.longer
    split_ifs
    · exact duration_of_fractions hm
    · exact longestDuration_of_fractions hvs
end

mutual
/-- A built note or chord that can be stretched starts with a note, whose length is its own. -/
theorem isFraction_of_isStretchable : ∀ {m : Music}, m.Built → m.isStretchable →
    (∀ l ∈ m.lengths, l.isFraction) → m.duration.isFraction
  | note _ _ _, _, _, hl => hl _ List.mem_cons_self
  | chord _, h, hs, hl =>
    isFraction_of_areStretchable (built_iff.1 h).1 (built_iff.1 h).2.2 hs hl
/-- The first of built notes and chords that can be stretched starts with a note. -/
theorem isFraction_of_areStretchable : ∀ {ms : List Music}, ms ≠ [] → (∀ m ∈ ms, m.Built) →
    areStretchable ms → (∀ l ∈ lengthsOf ms, l.isFraction) → (firstDuration ms).isFraction
  | [], hne, _, _, _ => absurd rfl hne
  | m :: _, _, h, hs, hl =>
    isFraction_of_isStretchable (h m List.mem_cons_self) (Bool.and_eq_true_iff.1 hs).1
      (List.forall_mem_append.1 hl).1
end

/-- A built tuplet whose lengths are fractions has an exact share. -/
theorem hasExactShare_of_fractions {ns : List Music} (h : (tuplet ns).Built)
    (hl : ∀ l ∈ lengthsOf ns, l.isFraction) : HasExactShare ns := by
  refine (firstDuration_of_fractions hl).imp_right fun hzero => ⟨?_, ?_⟩
  · rw [share?, duration, hzero, Length.scale, mul_zero, Length.part?, Int.cast_zero, zero_div]
    rfl
  · cases ns with
    | nil => exact absurd (built_iff.1 h).1.1 (by decide)
    | cons n ns =>
      -- If it could be stretched, it would start with a note of a whole length.
      refine Bool.not_eq_eq_eq_not.2 (Bool.eq_false_iff.2 fun hs => ?_)
      have hn := isFraction_of_isStretchable ((built_iff.1 h).2.2 n List.mem_cons_self) hs
        (List.forall_mem_append.1 hl).1
      rw [show n.duration = .whole 0 from hzero] at hn
      cases hn

mutual
/-- Built music whose lengths are fractions has exact shares. -/
theorem Built.exactShares : ∀ {m : Music}, m.Built → (∀ l ∈ m.lengths, l.isFraction) →
    m.ExactShares
  | note _ _ _, _, _ | rest _, _, _ | lyric _ _, _, _ => fun _ hns => absurd hns List.not_mem_nil
  | chord _, h, hl => exactShares_of_all (built_iff.1 h).2.2 hl
  | tuplet _, h, hl => List.forall_mem_cons.2
    ⟨hasExactShare_of_fractions h hl, exactShares_of_all (built_iff.1 h).2.2 hl⟩
  | concat _ _, h, hl => by
    obtain ⟨hla, hlb⟩ := List.forall_mem_append.1 hl
    exact List.forall_mem_append.2
      ⟨(built_iff.1 h).1.exactShares hla, (built_iff.1 h).2.exactShares hlb⟩
  | component _, h, hl => exactShares_of_all (built_iff.1 h).2 hl
  | piece _ _, h, hl => exactShares_of_voices (built_iff.1 h).2 hl
/-- Built expressions whose lengths are fractions have exact shares. -/
theorem exactShares_of_all : ∀ {ms : List Music}, (∀ m ∈ ms, m.Built) →
    (∀ l ∈ lengthsOf ms, l.isFraction) → ∀ ns ∈ tupletsOf ms, HasExactShare ns
  | [], _, _ => fun _ hns => absurd hns List.not_mem_nil
  | _ :: _, h, hl => by
    obtain ⟨hm, hms⟩ := List.forall_mem_cons.1 h
    obtain ⟨hlm, hlms⟩ := List.forall_mem_append.1 hl
    exact List.forall_mem_append.2 ⟨hm.exactShares hlm, exactShares_of_all hms hlms⟩
/-- Built voices whose lengths are fractions have exact shares. -/
theorem exactShares_of_voices : ∀ {vs : List (Text × Music)}, (∀ v ∈ vs, v.2.Built) →
    (∀ l ∈ lengthsIn vs, l.isFraction) → ∀ ns ∈ tupletsIn vs, HasExactShare ns
  | [], _, _ => fun _ hns => absurd hns List.not_mem_nil
  | (_, _) :: _, h, hl => by
    obtain ⟨hm, hvs⟩ := List.forall_mem_cons.1 h
    obtain ⟨hlm, hlvs⟩ := List.forall_mem_append.1 hl
    exact List.forall_mem_append.2 ⟨hm.exactShares hlm, exactShares_of_voices hvs hlvs⟩
end

end Music

end SingAlong

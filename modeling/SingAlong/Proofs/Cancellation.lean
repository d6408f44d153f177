import SingAlong.Proofs.Schedule

/-!
# Cancelled playing

Playing looks at the cancel flag once for each expression that it visits, before it schedules
anything for it. `Music.visits` lists these expressions in the order of the visits: an expression
before what is in it, and the notes and chords in a tuplet with the length that they are stretched
to.

When the flag is set after `n` looks, what is scheduled is what the first `n` visits schedule, and
playing is cancelled exactly when there are more visits than that (`Music.scheduled_setAfter`).
`Player.Visits` says this of a step of playing; steps one after the other make their visits one
after the other (`Visits.bind`), with the looks that are left handed on from one to the next.
-/

namespace SingAlong

/-! ## Visits -/

/-- An expression that playing visits at a beat: as it is, or stretched to another length. -/
inductive Visit where
  | played (beat : Rat) (m : Music)
  | stretched (length beat : Beats) (m : Music)

namespace Visit

/-- What is scheduled for the expression itself, apart from the expressions in it. -/
def schedule (name : Text) : Visit → Schedule
  | played beat (.note l p i) => ⟨[⟨i, p, .exact beat, .exact l.value⟩], []⟩
  | played beat (.lyric t _) => if name.isEmpty then .empty else ⟨[], [⟨beat, t⟩]⟩
  | stretched length beat (.note _ p i) => ⟨[⟨i, p, beat, length⟩], []⟩
  | _ => .empty

/-- What is scheduled by visits one after the other. -/
def scheduleAll (name : Text) : List Visit → Schedule
  | [] => .empty
  | v :: vs => v.schedule name ++ scheduleAll name vs

/-- Visits schedule one after the other. -/
theorem scheduleAll_append (name : Text) (vs ws : List Visit) :
    scheduleAll name (vs ++ ws) = scheduleAll name vs ++ scheduleAll name ws := by
  induction vs with
  | nil => rfl
  | cons v vs ih => rw [List.cons_append, scheduleAll, ih, scheduleAll, Schedule.append_assoc]

/-- A single visit schedules what it does. -/
theorem scheduleAll_singleton (name : Text) (v : Visit) :
    scheduleAll name [v] = v.schedule name :=
  Schedule.append_empty _

/-- What the first visits schedule stands at the front of what all of them do. -/
theorem scheduleAll_take (name : Text) (vs : List Visit) (n : Nat) :
    (scheduleAll name (vs.take n)).notes <+: (scheduleAll name vs).notes ∧
      (scheduleAll name (vs.take n)).lyrics <+: (scheduleAll name vs).lyrics := by
  have hsplit := scheduleAll_append name (vs.take n) (vs.drop n)
  rw [List.take_append_drop, Schedule.append_eq] at hsplit
  rw [hsplit]
  exact ⟨List.prefix_append _ _, List.prefix_append _ _⟩

end Visit

namespace Music

mutual
/-- The visits of a note or chord that is stretched: itself, and the notes and chords in it. -/
def stretchedVisits (length beat : Beats) : Music → List Visit
  | note l p i => [.stretched length beat (note l p i)]
  | chord ns => .stretched length beat (chord ns) :: allStretchedVisits length beat ns
  | _ => []
/-- The visits of the notes and chords of a list that are stretched. -/
def allStretchedVisits (length beat : Beats) : List Music → List Visit
  | [] => []
  | m :: ms => stretchedVisits length beat m ++ allStretchedVisits length beat ms
end

/-- The visits of the members of a tuplet, one after the other. -/
def evenVisits (length beat : Beats) : List Music → List Visit
  | [] => []
  | m :: ms =>
    stretchedVisits length beat m ++
      match beat.add? length with
      | some next => evenVisits length next ms
      | none => []

mutual
/-- The expressions that are visited when the expression is played from a beat on, each before those
in it. -/
def visits (name : Text) (beat : Rat) : Music → List Visit
  | note l p i => [.played beat (note l p i)]
  | rest l => [.played beat (rest l)]
  | lyric t l => [.played beat (lyric t l)]
  | chord ns => .played beat (chord ns) :: allVisits name beat ns
  | tuplet ns =>
    .played beat (tuplet ns) ::
      match share? ns with
      | some length => evenVisits length (.exact beat) ns
      | none => []
  | concat a b =>
    .played beat (concat a b) :: (visits name beat a ++ visits name (beat + a.duration.value) b)
  | component ps => .played beat (component ps) :: allVisits name beat ps
  | piece vs h =>
    .played beat (piece vs h) ::
      if name.isEmpty then allVoicesVisits name beat vs else voiceVisits name beat vs
/-- The visits of expressions that are played together. -/
def allVisits (name : Text) (beat : Rat) : List Music → List Visit
  | [] => []
  | m :: ms => visits name beat m ++ allVisits name beat ms
/-- The visits of all voices of a piece. -/
def allVoicesVisits (name : Text) (beat : Rat) : List (Text × Music) → List Visit
  | [] => []
  | (_, m) :: vs => visits name beat m ++ allVoicesVisits name beat vs
/-- The visits of the named voice of a piece, which is silent when it has no music. -/
def voiceVisits (name : Text) (beat : Rat) : List (Text × Music) → List Visit
  | [] => [.played beat silence]
  | (v, m) :: vs => if v = name then visits name beat m else voiceVisits name beat vs
end

end Music

/-! ## Steps of playing -/

namespace Player

variable {name : Text} {x y : Player Unit} {vs ws : List Visit}

/-- The step looks at the flag once for each of these visits, and schedules what they schedule. If
the flag is set before, it is cancelled, and has scheduled what the visits before that schedule. -/
structure Visits (name : Text) (x : Player Unit) (vs : List Visit) : Prop where
  adds : Adds x (Visit.scheduleAll name vs)
  enough : ∀ k before, x.run ⟨.setAfter (vs.length + k), before⟩ =
    .ok () ⟨.setAfter k, before ++ Visit.scheduleAll name vs⟩
  cancelled : ∀ n before, n < vs.length → x.run ⟨.setAfter n, before⟩ =
    .error .cancelled ⟨.set, before ++ Visit.scheduleAll name (vs.take n)⟩

/-- A step after another one. -/
theorem run_bind (x y : Player Unit) (s : Playing) :
    (x >>= fun _ => y).run s =
      match x.run s with
      | .ok _ s' => y.run s'
      | .error e s' => .error e s' := by
  change EStateM.bind x (fun _ => y) s = _
  unfold EStateM.bind EStateM.run
  cases x s <;> rfl

/-- Doing nothing visits nothing. -/
theorem visits_pure : Visits name (pure ()) [] where
  adds := adds_pure
  enough k before := by
    rw [Visit.scheduleAll, before.append_empty, List.length_nil, Nat.zero_add]
    rfl
  cancelled n before h := absurd h (Nat.not_lt_zero n)

/-- The flag is looked at before what is visited is scheduled. -/
theorem visits_single {v : Visit} (hx : ∀ flag before, x.run ⟨flag, before⟩ =
      .ok () ⟨flag, before ++ v.schedule name⟩) :
    Visits name (check >>= fun _ => x) [v] where
  adds before := by
    rw [Visit.scheduleAll_singleton]
    exact hx .unset before
  enough k before := by
    rw [Visit.scheduleAll_singleton, List.length_singleton, Nat.add_comm 1 k]
    exact hx (.setAfter k) before
  cancelled n before h := by
    obtain rfl : n = 0 := Nat.lt_one_iff.1 h
    rw [List.take_zero, Visit.scheduleAll, before.append_empty]
    rfl

/-- Steps one after the other make their visits one after the other. -/
theorem Visits.bind (hx : Visits name x vs) (hy : Visits name y ws) :
    Visits name (x >>= fun _ => y) (vs ++ ws) where
  adds := by
    rw [Visit.scheduleAll_append]
    exact hx.adds.bind hy.adds
  enough k before := by
    rw [run_bind, List.length_append, Nat.add_assoc, hx.enough]
    dsimp only
    rw [hy.enough, Visit.scheduleAll_append, Schedule.append_assoc]
  cancelled n before h := by
    rw [run_bind]
    rcases Nat.lt_or_ge n vs.length with hn | hn
    · -- The first step is cancelled, and the second one is not taken.
      rw [hx.cancelled n before hn, List.take_append_of_le_length hn.le]
    · -- The first step uses up its looks, and the second one is cancelled by what is left.
      obtain ⟨k, rfl⟩ := Nat.exists_eq_add_of_le hn
      have hk : k < ws.length := by
        rw [List.length_append] at h
        omega
      rw [hx.enough]
      dsimp only
      rw [hy.cancelled k _ hk, List.take_length_add_append, Visit.scheduleAll_append,
        Schedule.append_assoc]

/-- A visit that schedules nothing. -/
theorem visits_check {v : Visit} (hv : v.schedule name = .empty) : Visits name check [v] := by
  have hchecked : Visits name (check >>= fun _ => pure ()) [v] :=
    visits_single fun flag before => by
      rw [hv, before.append_empty]
      rfl
  rwa [bind_pure_unit] at hchecked

/-- A visit that schedules nothing itself, before others. -/
theorem Visits.checked {v : Visit} (hv : v.schedule name = .empty) (hx : Visits name x vs) :
    Visits name (check >>= fun _ => x) (v :: vs) :=
  (visits_check hv).bind hx

/-- The step makes these visits if it comes to its end without being cancelled. -/
def Expects (name : Text) (x : Player Unit) (vs : List Visit) : Prop :=
  ∀ before after, x.run ⟨.unset, before⟩ = .ok () after → Visits name x vs

/-- Steps one after the other, if both come to their end. -/
theorem Expects.bind (hx : Expects name x vs) (hy : Expects name y ws) :
    Expects name (x >>= fun _ => y) (vs ++ ws) := by
  intro before after h
  rw [run_bind] at h
  cases hrun : x.run ⟨.unset, before⟩ with
  | error e s =>
    rw [hrun] at h
    cases h
  | ok _ s =>
    have hvisits := hx before s hrun
    rw [hvisits.adds before] at h
    exact hvisits.bind (hy _ after h)

/-- A visit that schedules nothing itself, before a step that may come to its end. -/
theorem Expects.checked {v : Visit} (hv : v.schedule name = .empty) (hx : Expects name x vs) :
    Expects name (check >>= fun _ => x) (v :: vs) :=
  fun before after h => (hx before after h).checked hv

end Player

open Player (Expects Visits visits_single visits_check visits_pure)

/-! ## Music -/

namespace Music

mutual
/-- Playing a note or chord stretched visits it and what is in it. -/
theorem visits_playStretched (name : Text) (length beat : Beats) : ∀ m : Music, m.isStretchable →
    Visits name (playStretched length beat m) (stretchedVisits length beat m)
  | note l p i, _ => visits_single (v := .stretched length beat (note l p i)) fun flag before => by
    rw [Visit.schedule, Schedule.append_eq, List.append_nil]
    rfl
  | chord ns, h => (visits_playAllStretched name length beat ns h).checked rfl
/-- Playing notes and chords stretched visits each of them. -/
theorem visits_playAllStretched (name : Text) (length beat : Beats) : ∀ ms : List Music,
    areStretchable ms →
      Visits name (playAllStretched length beat ms) (allStretchedVisits length beat ms)
  | [], _ => visits_pure
  | m :: ms, h => by
    obtain ⟨hm, hms⟩ := Bool.and_eq_true_iff.1 h
    exact (visits_playStretched name length beat m hm).bind
      (visits_playAllStretched name length beat ms hms)
end

/-- Playing the members of a tuplet visits them one after the other. -/
theorem expects_playEvenly (name : Text) (length beat : Beats) (ms : List Music) :
    Expects name (playEvenly length beat ms) (evenVisits length beat ms) := by
  induction ms generalizing beat with
  | nil => exact fun _ _ _ => visits_pure
  | cons m ms ih =>
    unfold playEvenly evenVisits
    by_cases hm : m.isStretchable
    · rw [if_pos hm]
      refine Expects.bind (fun _ _ _ => visits_playStretched name length beat m hm) ?_
      -- A beat that is too large for the next member ends the playing.
      cases beat.add? length with
      | some next => exact ih next
      | none => rintro before after ⟨⟩
    · -- So does a member that cannot be stretched.
      rw [if_neg hm]
      rintro before after ⟨⟩

mutual
/-- Playing visits the expression and those in it. -/
theorem expects_play (name : Text) : ∀ (beat : Rat) (m : Music),
    Expects name (m.play name beat) (m.visits name beat)
  | beat, note l p i => fun _ _ _ =>
    visits_single (v := .played beat (note l p i)) fun flag before => by
      rw [Visit.schedule, Schedule.append_eq, List.append_nil]
      rfl
  | _, rest _ => fun _ _ _ => visits_check rfl
  | beat, lyric t l => fun _ _ _ => by
    refine visits_single (v := .played beat (lyric t l)) fun flag before => ?_
    unfold Visit.schedule
    dsimp only
    -- A lyric is visited also when no voice is named, but adds nothing then.
    split_ifs with hname
    · rw [before.append_empty]
      rfl
    · rw [Schedule.append_eq, List.append_nil]
      rfl
  | beat, chord ns => (expects_playAll name beat ns).checked (v := .played beat (chord ns)) rfl
  | beat, tuplet ns => by
    rw [play_tuplet, visits]
    refine Expects.checked rfl ?_
    -- Visits are expected of playing that comes to its end, which needs a share.
    cases share? ns with
    | some length => exact expects_playEvenly name length (.exact beat) ns
    | none => rintro before after ⟨⟩
  | beat, concat a b =>
    ((expects_play name beat a).bind (expects_play name _ b)).checked
      (v := .played beat (concat a b)) rfl
  | beat, component ps =>
    (expects_playAll name beat ps).checked (v := .played beat (component ps)) rfl
  | beat, piece vs h => by
    unfold play visits
    refine Expects.checked rfl ?_
    split_ifs with hname
    · exact expects_playVoices name beat vs
    · exact expects_playVoice name beat h vs
/-- Playing expressions together visits each of them. -/
theorem expects_playAll (name : Text) : ∀ (beat : Rat) (ms : List Music),
    Expects name (playAll name beat ms) (allVisits name beat ms)
  | _, [] => fun _ _ _ => visits_pure
  | beat, m :: ms => (expects_play name beat m).bind (expects_playAll name beat ms)
/-- Playing all voices visits each of them. -/
theorem expects_playVoices (name : Text) : ∀ (beat : Rat) (vs : List (Text × Music)),
    Expects name (playVoices name beat vs) (allVoicesVisits name beat vs)
  | _, [] => fun _ _ _ => visits_pure
  | beat, (_, m) :: vs => (expects_play name beat m).bind (expects_playVoices name beat vs)
/-- Playing a voice visits its music. -/
theorem expects_playVoice (name : Text) : ∀ (beat : Rat) (h : Header) (vs : List (Text × Music)),
    Expects name (playVoice name beat h vs) (voiceVisits name beat vs)
  | beat, h, [] => by
    unfold playVoice voiceVisits
    split_ifs with hdeclared
    · exact fun _ _ _ => visits_check rfl
    · rintro before after ⟨⟩
  | beat, h, (v, m) :: vs => by
    unfold playVoice voiceVisits
    split_ifs with hv
    · exact expects_play name beat m
    · exact expects_playVoice name beat h vs
end

/-! ## Cancelled playing -/

/-- When the flag is set after it has been found unset `n` times, playing schedules what the first
`n` visits schedule, and it is cancelled exactly when there are more visits. That is the front of
what is scheduled without cancellation: playing that comes to its end looks at the flag once for
each visit, as a flag shows that stays unset for `k` more looks. -/
theorem scheduled_setAfter {m : Music} {name : Text} {beat : Rat}
    (h : (m.scheduled name beat .unset).2 = none) (n : Nat) :
    let vs := m.visits name beat
    m.scheduled name beat (.setAfter n) = (Visit.scheduleAll name (vs.take n),
      if n < vs.length then some .cancelled else none) ∧
    (m.scheduled name beat .unset).1 = Visit.scheduleAll name vs ∧
    (∀ k, (m.play name beat).run ⟨.setAfter (vs.length + k), .empty⟩ =
      .ok () ⟨.setAfter k, Visit.scheduleAll name vs⟩) ∧
    (m.scheduled name beat (.setAfter n)).1.notes <+: (m.scheduled name beat .unset).1.notes ∧
    (m.scheduled name beat (.setAfter n)).1.lyrics <+: (m.scheduled name beat .unset).1.lyrics := by
  intro vs
  have hvisits : Visits name (m.play name beat) vs := by
    unfold scheduled at h
    cases hrun : (m.play name beat).run ⟨.unset, .empty⟩ with
    | ok _ after => exact expects_play name beat m .empty after hrun
    | error e after =>
      rw [hrun] at h
      cases h
  have huncancelled := scheduled_of_adds hvisits.adds
  have hcancelled : m.scheduled name beat (.setAfter n) = (Visit.scheduleAll name (vs.take n),
      if n < vs.length then some .cancelled else none) := by
    unfold scheduled
    split_ifs with hn
    · rw [hvisits.cancelled n .empty hn]
      rfl
    · obtain ⟨k, rfl⟩ := Nat.exists_eq_add_of_le (not_lt.1 hn)
      rw [hvisits.enough, List.take_of_length_le (Nat.le_add_right _ _)]
      rfl
  rw [hcancelled, huncancelled]
  exact ⟨rfl, rfl, fun k => hvisits.enough k .empty, Visit.scheduleAll_take name vs n⟩

/-- A voice with a lyric, and a triplet with a chord in it. -/
def sungTriplet : Music :=
  let c : Music := note (.fraction (1 / 4)) ⟨.C, 0⟩ .piano
  let e : Music := note (.fraction (1 / 4)) ⟨.E, 0⟩ .piano
  component [lyric "la".text (.fraction (1 / 2)), tuplet [c, chord [c, e], e]]

/-- Playing the voice makes eight visits. When it is cancelled after six, the lyric, the first note
and the first one of the chord are scheduled. -/
theorem scheduled_setAfter_triplet :
    (sungTriplet.scheduled "a".text 0 .unset).2 = none ∧
      (sungTriplet.visits "a".text 0).length = 8 ∧
      (sungTriplet.scheduled "a".text 0 (.setAfter 6)).1.lyrics = [⟨0, "la".text⟩] ∧
      (sungTriplet.scheduled "a".text 0 (.setAfter 6)).1.notes.map (·.start) =
        [.exact 0, .exact (1 / 6)] ∧
      (sungTriplet.scheduled "a".text 0 (.setAfter 6)).2 = some .cancelled := by
  have h : (sungTriplet.scheduled "a".text 0 .unset).2 = none := by decide +kernel
  obtain ⟨hcancelled, -, -, -, -⟩ := scheduled_setAfter h 6
  rw [hcancelled]
  exact ⟨h, by decide +kernel, by decide +kernel, by decide +kernel, by decide +kernel⟩

end Music

end SingAlong

import SingAlong.Proofs.Building
import SingAlong.Proofs.Rounding

/-!
# What can be played

Built music is played to its end unless it comes to a tuplet that cannot be played from its beat on:
a member cannot be stretched to its share of the time, as a chord that holds anything but notes and
chords, or the share is rounded and it or the beat is too large for that (`scheduled_finishes_iff`).
The constructors accept such chords, also in tuplets (`lyricTuplet`).

`Player.EndsIf` says of a step of playing when it comes to its end. Steps one after the other do so
when all of them do (`EndsIf.bind`).
-/

namespace SingAlong

/-! ## Steps that come to their end -/

namespace Player

variable {E : PlayError → Prop} {P Q : Prop} {x y : Player Unit}

/-- Uncancelled, the step comes to its end if the condition holds, and else fails with one of these
errors. -/
def EndsIf (E : PlayError → Prop) (P : Prop) (x : Player Unit) : Prop :=
  ∀ before, ∃ after, P ∧ x.run ⟨.unset, before⟩ = .ok () ⟨.unset, after⟩ ∨
    ¬P ∧ ∃ e, E e ∧ x.run ⟨.unset, before⟩ = .error e ⟨.unset, after⟩

/-- A step that comes to its end anyway. -/
theorem endsIf_of_ok (h : P)
    (hx : ∀ before, ∃ after, x.run ⟨.unset, before⟩ = .ok () ⟨.unset, after⟩) : EndsIf E P x :=
  fun before => (hx before).imp fun _ hafter => .inl ⟨h, hafter⟩

/-- A step that fails. -/
theorem endsIf_throw {e : PlayError} (he : E e) (h : ¬P) : EndsIf E P (throw e) :=
  fun before => ⟨before, .inr ⟨h, e, he, rfl⟩⟩

/-- Looking at the flag changes nothing. -/
theorem EndsIf.checked (hx : EndsIf E P x) : EndsIf E P (check >>= fun _ => x) :=
  hx

/-- The condition of a step may be replaced by an equivalent one. -/
theorem EndsIf.congr (hx : EndsIf E P x) (h : P ↔ Q) : EndsIf E Q x :=
  propext h ▸ hx

/-- Steps one after the other come to their end if all of them do. -/
theorem EndsIf.bind (hx : EndsIf E P x) (hy : EndsIf E Q y) :
    EndsIf E (P ∧ Q) (x >>= fun _ => y) := by
  intro before
  rw [run_bind]
  obtain ⟨s, ⟨hp, hs⟩ | ⟨hp, e, he, hs⟩⟩ := hx before
  · rw [hs]
    exact (hy s).imp fun _ => Or.imp (And.imp_left (⟨hp, ·⟩)) (And.imp_left fun hq h => hq h.2)
  · rw [hs]
    exact ⟨s, .inr ⟨fun h => hp h.1, e, he, rfl⟩⟩

end Player

open Player (EndsIf endsIf_of_ok endsIf_throw)

namespace Music

/-! ## Tuplets -/

/-- The tuplet can be played from a beat on: its share can be added to the beat, and each of its
members has a copy of this share of the time. -/
def Divides (beat : Rat) (ns : List Music) : Prop :=
  (∃ length next, share? ns = some length ∧ (Beats.exact beat).add? length = some next) ∧
    ∀ n ∈ ns, ∃ copy, n.stretch (.fraction ((tuplet ns).duration.value / ns.length)) = .ok copy

/-- The members of a built tuplet have copies if they can be stretched. -/
theorem divides_iff {ns : List Music} (h : (tuplet ns).Built) {beat : Rat} {length next : Beats}
    (hlength : share? ns = some length) (hnext : (Beats.exact beat).add? length = some next) :
    Divides beat ns ↔ ∀ n ∈ ns, n.isStretchable := by
  have hns := (built_iff.1 h).2.2
  have hmember (n : Music) (hn : n ∈ ns) := isStretchable_iff h.share_nonneg (hns n hn)
  constructor
  · exact fun hdivides n hn => (hmember n hn).2 (hdivides.2 n hn)
  · exact fun hs => ⟨⟨length, next, hlength, hnext⟩, fun n hn => (hmember n hn).1 (hs n hn)⟩

/-- Where a tuplet has no share or no next beat, the share is not exact. -/
theorem not_isFraction_of_not_next {ns : List Music} {beat : Rat}
    (h : ¬∃ length next, share? ns = some length ∧ (Beats.exact beat).add? length = some next) :
    ¬(firstDuration ns).isFraction :=
  fun hfraction => h ⟨_, _, share?_of_isFraction hfraction, rfl⟩

/-- Each tuplet among the visits can be played from its beat on. -/
def AllDivide (vs : List Visit) : Prop :=
  ∀ beat ns, .played beat (tuplet ns) ∈ vs → Divides beat ns

/-- There is nothing to divide. -/
theorem allDivide_nil : AllDivide [] :=
  fun _ _ h => absurd h List.not_mem_nil

/-- Visits one after the other can be played if all of them can. -/
theorem allDivide_append {vs ws : List Visit} :
    AllDivide (vs ++ ws) ↔ AllDivide vs ∧ AllDivide ws := by
  simp only [AllDivide, List.mem_append, or_imp, forall_and]

/-- What is no tuplet can be left out. -/
theorem allDivide_cons {v : Visit} {vs : List Visit}
    (hv : ∀ beat ns, v ≠ .played beat (tuplet ns)) : AllDivide (v :: vs) ↔ AllDivide vs := by
  refine forall₂_congr fun beat ns => ?_
  rw [List.mem_cons, or_iff_right (hv beat ns).symm]

mutual
/-- No tuplet is visited when notes and chords are stretched. -/
theorem allDivide_stretchedVisits (length beat : Beats) : ∀ m : Music,
    AllDivide (stretchedVisits length beat m)
  | note _ _ _ => (allDivide_cons fun _ _ h => by cases h).2 allDivide_nil
  | chord ns =>
    (allDivide_cons fun _ _ h => by cases h).2 (allDivide_allStretchedVisits length beat ns)
  | rest _ | lyric _ _ | tuplet _ | concat _ _ | component _ | piece _ _ => allDivide_nil
/-- No tuplet is visited when lists of notes and chords are stretched. -/
theorem allDivide_allStretchedVisits (length beat : Beats) : ∀ ms : List Music,
    AllDivide (allStretchedVisits length beat ms)
  | [] => allDivide_nil
  | m :: ms => allDivide_append.2
    ⟨allDivide_stretchedVisits length beat m, allDivide_allStretchedVisits length beat ms⟩
end

/-- No tuplet is visited among the members of a tuplet. -/
theorem allDivide_evenVisits (length beat : Beats) (ms : List Music) :
    AllDivide (evenVisits length beat ms) := by
  induction ms generalizing beat with
  | nil => exact allDivide_nil
  | cons m ms ih =>
    refine allDivide_append.2 ⟨allDivide_stretchedVisits length beat m, ?_⟩
    cases beat.add? length with
    | some next => exact ih next
    | none => exact allDivide_nil

/-- All visits of a tuplet can be played if the tuplet can. -/
theorem allDivide_tuplet (name : Text) (beat : Rat) (ns : List Music) :
    AllDivide ((tuplet ns).visits name beat) ↔ Divides beat ns := by
  rw [visits]
  constructor
  · exact fun h => h beat ns List.mem_cons_self
  · intro hdivides beat' ns' hmem
    rcases List.mem_cons.1 hmem with hhead | hrest
    · cases hhead
      exact hdivides
    · cases hlength : share? ns with
      | some length =>
        rw [hlength] at hrest
        exact allDivide_evenVisits length _ ns beat' ns' hrest
      | none =>
        rw [hlength] at hrest
        exact absurd hrest List.not_mem_nil

/-! ## Playing -/

section

variable {E : PlayError → Prop} {P : Prop} {x : Player Unit}

/-- An expression that is no tuplet is played if the visits of its parts can be. -/
theorem endsIf_visits {v : Visit} {vs : List Visit} (hx : EndsIf E (AllDivide vs) x)
    (hv : ∀ beat ns, v ≠ .played beat (tuplet ns)) :
    EndsIf E (AllDivide (v :: vs)) (Player.check >>= fun _ => x) :=
  hx.checked.congr (allDivide_cons hv).symm

variable (hstretch : E .notStretchable)
include hstretch

/-- A member of a tuplet is played, before others, if it can be stretched. -/
theorem endsIf_member (length beat : Beats) (m : Music) (hx : EndsIf E P x) :
    EndsIf E (m.isStretchable = true ∧ P)
      (if m.isStretchable then (playStretched length beat m >>= fun _ => x)
        else ((throw .notStretchable : Player Unit) >>= fun _ => x)) := by
  split_ifs with hm
  · have hvisits := visits_playStretched [] length beat m hm
    exact (endsIf_of_ok hm fun before => ⟨_, hvisits.adds before⟩).bind hx
  · exact (endsIf_throw hstretch hm).bind hx

/-- The members of a tuplet are played if all of them can be stretched, where the share can be added
to the beat. -/
theorem endsIf_playEvenly {length beat next : Beats} (hnext : beat.add? length = some next)
    (ms : List Music) : EndsIf E (∀ m ∈ ms, m.isStretchable) (playEvenly length beat ms) := by
  induction ms generalizing beat next with
  | nil => exact endsIf_of_ok (fun _ h => absurd h List.not_mem_nil) fun before => ⟨before, rfl⟩
  | cons m ms ih =>
    obtain ⟨later, hlater⟩ := Beats.add?_again hnext
    rw [playEvenly, hnext]
    refine EndsIf.congr ?_ List.forall_mem_cons.symm
    exact endsIf_member hstretch length beat m (ih hlater)

/-- They are not played where it cannot. -/
theorem endsIf_playEvenly_none {length beat : Beats} (hnext : beat.add? length = none)
    {ms : List Music} (hms : ms ≠ [])
    (hlarge : (ms.head?.any fun n => !n.isStretchable) = false → E .tooLarge) :
    EndsIf E False (playEvenly length beat ms) := by
  by_cases hhead : (ms.head?.any fun n => !n.isStretchable) = true
  · rw [playEvenly_of_head hhead]
    exact endsIf_throw hstretch not_false
  have hfails := endsIf_throw (hlarge (Bool.eq_false_of_not_eq_true hhead)) not_false
  cases ms with
  | nil => exact absurd rfl hms
  | cons m ms =>
    rw [playEvenly, hnext]
    refine EndsIf.congr ?_ (iff_of_eq (and_false (m.isStretchable = true)))
    exact endsIf_member hstretch length beat m hfails

/-- A built tuplet is played if it can be. -/
theorem endsIf_tuplet {ns : List Music} (h : (tuplet ns).Built)
    (hlarge : ¬HasExactShare ns → E .tooLarge) (beat : Rat) :
    EndsIf E (Divides beat ns) ((tuplet ns).play [] beat) := by
  have hne : ns ≠ [] := List.ne_nil_of_length_pos (Nat.zero_lt_of_lt (built_iff.1 h).1.1)
  rw [play_tuplet]
  refine EndsIf.checked ?_
  by_cases hfits : ∃ length next, share? ns = some length ∧
      (Beats.exact beat).add? length = some next
  · obtain ⟨length, next, hlength, hnext⟩ := hfits
    rw [hlength]
    exact (endsIf_playEvenly hstretch hnext ns).congr (divides_iff h hlength hnext).symm
  · -- A share that is rounded is too large itself, or the beat is too large for it.
    have hrounded := not_isFraction_of_not_next hfits
    refine EndsIf.congr ?_ (iff_of_false not_false fun hdivides => hfits hdivides.1)
    cases hlength : share? ns with
    | none =>
      refine endsIf_throw (hlarge fun hexact => ?_) not_false
      have hshare := (hexact.resolve_left hrounded).1
      rw [hlength] at hshare
      cases hshare
    | some length =>
      refine endsIf_playEvenly_none hstretch ?_ hne fun hhead => hlarge fun hexact => ?_
      · rw [Option.eq_none_iff_forall_ne_some]
        exact fun next hnext => hfits ⟨length, next, hlength, hnext⟩
      · exact Bool.false_ne_true (hhead.symm.trans (hexact.resolve_left hrounded).2)

end

mutual
/-- Built music is played if all tuplets that are visited can be. -/
theorem endsIf_play {E : PlayError → Prop} (hstretch : E .notStretchable) :
    ∀ (beat : Rat) {m : Music}, m.Built →
    (∀ ns ∈ m.tuplets, ¬HasExactShare ns → E .tooLarge) →
      EndsIf E (AllDivide (m.visits [] beat)) (m.play [] beat)
  | _, note _ _ _, _, _ | _, rest _, _, _ | _, lyric _ _, _, _ =>
    endsIf_of_ok ((allDivide_cons fun _ _ h => by cases h).2 allDivide_nil) fun _ => ⟨_, rfl⟩
  | beat, chord _, h, hlarge =>
    endsIf_visits (endsIf_playAll hstretch beat (built_iff.1 h).2.2 hlarge) fun _ _ h => by cases h
  | beat, tuplet ns, h, hlarge =>
    (endsIf_tuplet hstretch h (hlarge ns List.mem_cons_self) beat).congr
      (allDivide_tuplet [] beat ns).symm
  | beat, concat _ _, h, hlarge => by
    obtain ⟨ha, hb⟩ := List.forall_mem_append.1 hlarge
    refine endsIf_visits (EndsIf.congr ?_ allDivide_append.symm) fun _ _ h => by cases h
    exact (endsIf_play hstretch beat (built_iff.1 h).1 ha).bind
      (endsIf_play hstretch _ (built_iff.1 h).2 hb)
  | beat, component _, h, hlarge =>
    endsIf_visits (endsIf_playAll hstretch beat (built_iff.1 h).2 hlarge) fun _ _ h => by cases h
  | beat, piece _ _, h, hlarge =>
    endsIf_visits (endsIf_playVoices hstretch beat (built_iff.1 h).2 hlarge) fun _ _ h => by cases h
/-- Built expressions are played together if all tuplets that are visited can be. -/
theorem endsIf_playAll {E : PlayError → Prop} (hstretch : E .notStretchable) :
    ∀ (beat : Rat) {ms : List Music}, (∀ m ∈ ms, m.Built) →
    (∀ ns ∈ tupletsOf ms, ¬HasExactShare ns → E .tooLarge) →
      EndsIf E (AllDivide (allVisits [] beat ms)) (playAll [] beat ms)
  | _, [], _, _ => endsIf_of_ok allDivide_nil fun _ => ⟨_, rfl⟩
  | beat, _ :: _, h, hlarge => by
    obtain ⟨hm, hms⟩ := List.forall_mem_cons.1 h
    obtain ⟨hlm, hlms⟩ := List.forall_mem_append.1 hlarge
    exact ((endsIf_play hstretch beat hm hlm).bind (endsIf_playAll hstretch beat hms hlms)).congr
      allDivide_append.symm
/-- Built voices are played together if all tuplets that are visited can be. -/
theorem endsIf_playVoices {E : PlayError → Prop} (hstretch : E .notStretchable) :
    ∀ (beat : Rat) {vs : List (Text × Music)}, (∀ v ∈ vs, v.2.Built) →
    (∀ ns ∈ tupletsIn vs, ¬HasExactShare ns → E .tooLarge) →
      EndsIf E (AllDivide (allVoicesVisits [] beat vs)) (playVoices [] beat vs)
  | _, [], _, _ => endsIf_of_ok allDivide_nil fun _ => ⟨_, rfl⟩
  | beat, (_, _) :: _, h, hlarge => by
    obtain ⟨hm, hvs⟩ := List.forall_mem_cons.1 h
    obtain ⟨hlm, hlvs⟩ := List.forall_mem_append.1 hlarge
    exact ((endsIf_play hstretch beat hm hlm).bind (endsIf_playVoices hstretch beat hvs hlvs)).congr
      allDivide_append.symm
end

/-- Built music is played to its end exactly when each tuplet that is visited can be played: the
share of its members can be added to its beat, and each member can be stretched to its share of the
time. Nothing else can go wrong; only rounded shares and what they are added to can be too large. -/
theorem scheduled_finishes_iff {m : Music} (h : m.Built) (beat : Rat) :
    let outcome := (m.scheduled [] beat .unset).2
    (outcome = none ↔ ∀ b ns, .played b (tuplet ns) ∈ m.visits [] beat →
      (∃ length next, share? ns = some length ∧ (Beats.exact b).add? length = some next) ∧
      ∀ n ∈ ns, ∃ copy,
        n.stretch (.fraction ((tuplet ns).duration.value / ns.length)) = .ok copy) ∧
    (outcome = none ∨ outcome = some .notStretchable ∨
      outcome = some .tooLarge ∧ ¬m.ExactShares) := by
  intro outcome
  have hends : EndsIf (fun e => e = .notStretchable ∨ e = .tooLarge ∧ ¬m.ExactShares)
      (AllDivide (m.visits [] beat)) (m.play [] beat) :=
    endsIf_play (.inl rfl) beat h
      fun ns hns hrounded => .inr ⟨rfl, fun hexact => hrounded (hexact ns hns)⟩
  have houtcome : outcome = (m.scheduled [] beat .unset).2 := rfl
  unfold scheduled at houtcome
  obtain ⟨s, ⟨hdivide, hrun⟩ | ⟨hdivide, e, he, hrun⟩⟩ := hends .empty
  · rw [hrun] at houtcome
    exact ⟨iff_of_true houtcome hdivide, .inl houtcome⟩
  · rw [hrun] at houtcome
    have hfails : outcome ≠ none := fun hnone => nomatch houtcome.symm.trans hnone
    refine ⟨iff_of_false hfails hdivide, .inr ?_⟩
    rcases he with rfl | ⟨rfl, hrounded⟩
    · exact .inl houtcome
    · exact .inr ⟨houtcome, hrounded⟩

/-- The voice with the triplet is played, as its chord can be stretched and its shares are exact. -/
theorem scheduled_finishes_iff_triplet :
    sungTriplet.Built ∧ (sungTriplet.scheduled [] 0 .unset).2 = none := by
  have htuplet := (built_iff.1 built_sungTriplet).2 _ (List.mem_cons_of_mem _ List.mem_cons_self)
  have hvisits : AllDivide (sungTriplet.visits [] 0) := by
    refine (allDivide_cons fun _ _ h => by cases h).2 (allDivide_append.2 ⟨?_, ?_⟩)
    · exact (allDivide_cons fun _ _ h => by cases h).2 allDivide_nil
    · refine allDivide_append.2 ⟨(allDivide_tuplet [] 0 _).2 ?_, allDivide_nil⟩
      exact (divides_iff htuplet rfl rfl).2 ((areStretchable_iff _).1 rfl)
  exact ⟨built_sungTriplet, (scheduled_finishes_iff built_sungTriplet 0).1.2 hvisits⟩

/-- A duplet with a lyric in the chord that it starts with. -/
def lyricTuplet : Music :=
  let c : Music := note (.fraction (1 / 4)) ⟨.C, 0⟩ .piano
  let d : Music := note (.fraction (1 / 4)) ⟨.D, 0⟩ .piano
  tuplet [chord [c, lyric "la".text (.fraction (1 / 4))], d]

/-- The constructors accept a lyric in a chord and this chord in a tuplet, but the tuplet cannot be
played. -/
theorem built_not_played :
    lyricTuplet.Built ∧ (lyricTuplet.scheduled [] 0 .unset).2 = some .notStretchable := by
  have hquarter : (0 : Rat) ≤ 1 / 4 := by decide +kernel
  have hnote (p : Pitch) : (note (.fraction (1 / 4)) p .piano).Built := built_iff.2 hquarter
  have hlyric : (lyric "la".text (.fraction (1 / 4))).Built := built_iff.2 ⟨by decide, hquarter⟩
  have hchord : (chord [note (.fraction (1 / 4)) ⟨.C, 0⟩ .piano,
      lyric "la".text (.fraction (1 / 4))]).Built := .chord (built_pair (hnote _) hlyric) rfl
  exact ⟨.tuplet (built_pair hchord (hnote _)) rfl, by decide +kernel⟩

end Music

end SingAlong

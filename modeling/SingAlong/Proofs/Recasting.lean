import Mathlib.Data.List.Forall2
import SingAlong.Proofs.Cancellation

/-!
# Recast music

A `Recasting` changes pitches, and writes lengths and headers in another way, of the same value and
with the same voices. `Music.recast` makes these changes everywhere in an expression and keeps how
it is built. Transposing is a recasting of the pitches, and music is equal when it becomes the same
by the recasting that forgets how things are written.

Recast music has the same voices and lyrics, and takes the same time (`voices_recast`,
`lyrics_recast`, `value_duration_recast`). It is played in the same way, but that the pitches are
changed, as long as its tuplets keep their shares: a share depends on how the time of the tuplet is
written, and a beat that it is rounded with does not move along with the start (`KeepsShare`).

`Player.Alike` relates two steps of playing: from related schedules both come to their end or both
fail, for the same reason and after as many looks at the cancel flag, and leave related schedules.
Steps one after the other stay alike (`Alike.bind`), so `alike_play` follows the recursion of `play`
once, for music that is recast and delayed at the same time.
-/

namespace SingAlong

/-- A change of pitches, and of the way lengths and headers are written. -/
@[ext]
structure Recasting where
  pitch : Pitch → Pitch
  length : Length → Length
  header : Header → Header
  keepsTime : ∀ l, (length l).value = l.value
  keepsVoices : ∀ h, (header h).voices = h.voices

namespace Recasting

/-- The recasting that changes nothing. -/
def unchanged : Recasting :=
  ⟨id, id, id, fun _ => rfl, fun _ => rfl⟩

/-- One recasting after another one. -/
def andThen (r t : Recasting) : Recasting where
  pitch p := t.pitch (r.pitch p)
  length l := t.length (r.length l)
  header h := t.header (r.header h)
  keepsTime l := (t.keepsTime _).trans (r.keepsTime l)
  keepsVoices h := (t.keepsVoices _).trans (r.keepsVoices h)

end Recasting

namespace Music

/-- The longer of two lengths has the greater value. -/
theorem value_longer (a b : Length) : (a.longer b).value = max a.value b.value := by
  unfold Length.longer
  split_ifs with h
  · exact (max_eq_right h.le).symm
  · exact (max_eq_left (not_lt.1 h)).symm

mutual
/-- The expression, recast. -/
def recast (r : Recasting) : Music → Music
  | note l p i => note (r.length l) (r.pitch p) i
  | rest l => rest (r.length l)
  | lyric t l => lyric t (r.length l)
  | chord ns => chord (recastAll r ns)
  | tuplet ns => tuplet (recastAll r ns)
  | concat a b => concat (recast r a) (recast r b)
  | component ps => component (recastAll r ps)
  | piece vs h => piece (recastVoices r vs) (r.header h)
/-- The expressions of a list, recast. -/
def recastAll (r : Recasting) : List Music → List Music
  | [] => []
  | m :: ms => recast r m :: recastAll r ms
/-- The voices of a piece, recast. -/
def recastVoices (r : Recasting) : List (Text × Music) → List (Text × Music)
  | [] => []
  | (v, m) :: vs => (v, recast r m) :: recastVoices r vs
end

/-! ## One recasting after another -/

mutual
/-- Music that is not changed stays the same. -/
theorem recast_unchanged : ∀ m : Music, m.recast .unchanged = m
  | note _ _ _ => rfl
  | rest _ => rfl
  | lyric _ _ => rfl
  | chord ns => congrArg chord (recastAll_unchanged ns)
  | tuplet ns => congrArg tuplet (recastAll_unchanged ns)
  | concat a b => congrArg₂ concat (recast_unchanged a) (recast_unchanged b)
  | component ps => congrArg component (recastAll_unchanged ps)
  | piece vs h => congrArg (piece · h) (recastVoices_unchanged vs)
/-- Expressions that are not changed stay the same. -/
theorem recastAll_unchanged : ∀ ms : List Music, recastAll .unchanged ms = ms
  | [] => rfl
  | m :: ms => congrArg₂ List.cons (recast_unchanged m) (recastAll_unchanged ms)
/-- Voices that are not changed stay the same. -/
theorem recastVoices_unchanged : ∀ vs : List (Text × Music), recastVoices .unchanged vs = vs
  | [] => rfl
  | (v, m) :: vs =>
    congrArg₂ (fun m vs => (v, m) :: vs) (recast_unchanged m) (recastVoices_unchanged vs)
end

section

variable (r t : Recasting)

mutual
/-- Recasting twice is recasting by one after the other. -/
theorem recast_recast : ∀ m : Music, (m.recast r).recast t = m.recast (r.andThen t)
  | note _ _ _ => rfl
  | rest _ => rfl
  | lyric _ _ => rfl
  | chord ns => congrArg chord (recastAll_recastAll ns)
  | tuplet ns => congrArg tuplet (recastAll_recastAll ns)
  | concat a b => congrArg₂ concat (recast_recast a) (recast_recast b)
  | component ps => congrArg component (recastAll_recastAll ps)
  | piece vs h => congrArg (piece · (t.header (r.header h))) (recastVoices_recastVoices vs)
/-- Recasting the expressions of a list twice is recasting them by one after the other. -/
theorem recastAll_recastAll : ∀ ms : List Music,
    recastAll t (recastAll r ms) = recastAll (r.andThen t) ms
  | [] => rfl
  | m :: ms => congrArg₂ List.cons (recast_recast m) (recastAll_recastAll ms)
/-- Recasting the voices of a piece twice is recasting them by one after the other. -/
theorem recastVoices_recastVoices : ∀ vs : List (Text × Music),
    recastVoices t (recastVoices r vs) = recastVoices (r.andThen t) vs
  | [] => rfl
  | (v, m) :: vs =>
    congrArg₂ (fun m vs => (v, m) :: vs) (recast_recast m) (recastVoices_recastVoices vs)
end

end

/-! ## What stays -/

section

variable (r : Recasting)

/-- As many expressions are recast as there are. -/
theorem length_recastAll (ms : List Music) : (recastAll r ms).length = ms.length := by
  induction ms with
  | nil => rfl
  | cons m ms ih => rw [recastAll, List.length_cons, ih, List.length_cons]

mutual
/-- Recast music takes the same time. -/
theorem value_duration_recast : ∀ m : Music, (m.recast r).duration.value = m.duration.value
  | note l _ _ => r.keepsTime l
  | rest l => r.keepsTime l
  | lyric _ l => r.keepsTime l
  | chord ns => value_firstDuration_recastAll ns
  | tuplet ns => by
    rw [recast, duration, duration, value_scale, value_scale,
      value_firstDuration_recastAll ns, length_recastAll]
  | concat a b => by
    rw [recast, duration, duration, value_add, value_add, value_duration_recast a,
      value_duration_recast b]
  | component ps => value_firstDuration_recastAll ps
  | piece vs _ => value_longestDuration_recastVoices vs
/-- The first of recast expressions takes the same time. -/
theorem value_firstDuration_recastAll : ∀ ms : List Music,
    (firstDuration (recastAll r ms)).value = (firstDuration ms).value
  | [] => rfl
  | m :: _ => value_duration_recast m
/-- The longest of recast voices takes the same time. -/
theorem value_longestDuration_recastVoices : ∀ vs : List (Text × Music),
    (longestDuration (recastVoices r vs)).value = (longestDuration vs).value
  | [] => rfl
  | (_, m) :: vs => by
    rw [recastVoices, longestDuration, longestDuration, value_longer, value_longer,
      value_duration_recast m, value_longestDuration_recastVoices vs]
end

mutual
/-- Recast music has the same voices. -/
theorem voices_recast : ∀ m : Music, (m.recast r).voices = m.voices
  | note _ _ _ => rfl
  | rest _ => rfl
  | lyric _ _ => rfl
  | chord ns => voicesOf_recastAll ns []
  | tuplet ns => voicesOf_recastAll ns []
  | concat a b => by rw [recast, voices, voices_recast a, voices_recast b, voices]
  | component ps => voicesOf_recastAll ps []
  | piece _ h => r.keepsVoices h
/-- Recast expressions have the same voices. -/
theorem voicesOf_recastAll : ∀ (ms : List Music) (names : List Text),
    voicesOf names (recastAll r ms) = voicesOf names ms
  | [], _ => rfl
  | m :: ms, names => by
    rw [recastAll, voicesOf, voices_recast m, voicesOf_recastAll ms, voicesOf]
end

mutual
/-- Recast music has the same lyrics, or lacks the same voice. -/
theorem lyrics_recast (name : Text) : ∀ m : Music, (m.recast r).lyrics name = m.lyrics name
  | note _ _ _ => rfl
  | rest _ => rfl
  | lyric _ _ => rfl
  | chord ns => lyricsOf_recastAll name ns
  | tuplet ns => lyricsOf_recastAll name ns
  | concat a b => by rw [recast, lyrics, lyrics_recast name a, lyrics_recast name b, lyrics]
  | component ps => lyricsOf_recastAll name ps
  | piece vs h => lyricsIn_recastVoices name h vs
/-- Recast expressions have the same lyrics. -/
theorem lyricsOf_recastAll (name : Text) : ∀ ms : List Music,
    lyricsOf name (recastAll r ms) = lyricsOf name ms
  | [] => rfl
  | m :: ms => by
    rw [recastAll, lyricsOf, lyrics_recast name m, lyricsOf_recastAll name ms, lyricsOf]
/-- A voice of a recast piece has the same lyrics. -/
theorem lyricsIn_recastVoices (name : Text) (h : Header) : ∀ vs : List (Text × Music),
    lyricsIn name (r.header h) (recastVoices r vs) = lyricsIn name h vs
  | [] => by rw [recastVoices, lyricsIn, r.keepsVoices, lyricsIn]
  | (v, m) :: vs => by
    rw [recastVoices, lyricsIn, lyrics_recast name m, lyricsIn_recastVoices name h vs, lyricsIn]
end

mutual
/-- Recast music can be stretched if it could be before. -/
theorem isStretchable_recast : ∀ m : Music, (m.recast r).isStretchable = m.isStretchable
  | note _ _ _ => rfl
  | rest _ => rfl
  | lyric _ _ => rfl
  | chord ns => areStretchable_recastAll ns
  | tuplet _ => rfl
  | concat _ _ => rfl
  | component _ => rfl
  | piece _ _ => rfl
/-- Recast expressions can be stretched if they could be before. -/
theorem areStretchable_recastAll : ∀ ms : List Music,
    areStretchable (recastAll r ms) = areStretchable ms
  | [] => rfl
  | m :: ms => congrArg₂ (· && ·) (isStretchable_recast m) (areStretchable_recastAll ms)
end

end

end Music

/-! ## Steps that are alike -/

namespace Player

/-- Two outcomes of playing that are alike: both steps have come to their end, or both have failed
for the same reason, with the same flag and with related schedules. -/
inductive Outcome.Alike (R : Schedule → Schedule → Prop) :
    EStateM.Result PlayError Playing Unit → EStateM.Result PlayError Playing Unit → Prop where
  | ok {flag : CancelFlag} {s t : Schedule} : R s t → Alike R (.ok () ⟨flag, s⟩) (.ok () ⟨flag, t⟩)
  | error {e : PlayError} {flag : CancelFlag} {s t : Schedule} :
    R s t → Alike R (.error e ⟨flag, s⟩) (.error e ⟨flag, t⟩)

/-- Two steps of playing that are alike: with the same flag and from related schedules they have
outcomes that are alike. -/
def Alike (R : Schedule → Schedule → Prop) (x y : Player Unit) : Prop :=
  ∀ flag s t, R s t → Outcome.Alike R (x.run ⟨flag, s⟩) (y.run ⟨flag, t⟩)

section

variable {R : Schedule → Schedule → Prop} {x x' y y' : Player Unit}

/-- Doing nothing is like doing nothing. -/
theorem alike_pure : Alike R (pure ()) (pure ()) :=
  fun _ _ _ h => .ok h

/-- Failing is like failing for the same reason. -/
theorem alike_throw (e : PlayError) : Alike R (throw e) (throw e) :=
  fun _ _ _ h => .error h

/-- Looking at the flag is like looking at the same flag. -/
theorem alike_check : Alike R check check := by
  intro flag s t h
  obtain ⟨_ | _ | n⟩ := flag
  · exact .ok h
  · exact .error h
  · exact .ok h

/-- Steps one after the other are alike if they are so one by one. -/
theorem Alike.bind (hx : Alike R x x') (hy : Alike R y y') :
    Alike R (x >>= fun _ => y) (x' >>= fun _ => y') := by
  intro flag s t h
  rw [run_bind, run_bind]
  have hfirst := hx flag s t h
  generalize x.run ⟨flag, s⟩ = r at hfirst
  generalize x'.run ⟨flag, t⟩ = r' at hfirst
  cases hfirst with
  | ok h => exact hy _ _ _ h
  | error h => exact .error h

/-- Notes that keep the schedules related are added alike. -/
theorem alike_note {k k' : ScheduledNote}
    (h : ∀ s t, R s t → R { s with notes := s.notes ++ [k] } { t with notes := t.notes ++ [k'] }) :
    Alike R (addNote k) (addNote k') :=
  fun _ s t hst => .ok (h s t hst)

/-- Lyrics that keep the schedules related are added alike. -/
theorem alike_lyric {l l' : ScheduledLyric}
    (h : ∀ s t, R s t →
      R { s with lyrics := s.lyrics ++ [l] } { t with lyrics := t.lyrics ++ [l'] }) :
    Alike R (addLyric l) (addLyric l') :=
  fun _ s t hst => .ok (h s t hst)

end

end Player

open Player (Alike alike_pure alike_throw alike_check alike_note alike_lyric)

/-- The second note is the first one, recast, with a start that is related to its start. -/
structure ScheduledNote.Recast (r : Recasting) (R : Beats → Beats → Prop)
    (k k' : ScheduledNote) : Prop where
  instrument : k'.instrument = k.instrument
  pitch : k'.pitch = r.pitch k.pitch
  start : R k.start k'.start
  length : k'.length = k.length

/-- The second schedule is the first one, recast and later. -/
structure Schedule.Recast (r : Recasting) (R : Beats → Beats → Prop) (d : Rat)
    (s t : Schedule) : Prop where
  notes : List.Forall₂ (ScheduledNote.Recast r R) s.notes t.notes
  lyrics : t.lyrics = s.lyrics.map fun l => { l with beat := l.beat + d }

namespace Music

open Schedule (Recast)

/-- Music that is played alike from the empty schedule on has related schedules and the same
outcome. -/
theorem scheduled_alike {R : Schedule → Schedule → Prop} {m m' : Music} {name : Text}
    {beat beat' : Rat} (h : Alike R (m.play name beat) (m'.play name beat'))
    (hempty : R .empty .empty) (flag : CancelFlag) :
    R (m.scheduled name beat flag).1 (m'.scheduled name beat' flag).1 ∧
      (m'.scheduled name beat' flag).2 = (m.scheduled name beat flag).2 := by
  unfold scheduled
  have hrun := h flag _ _ hempty
  generalize (m.play name beat).run ⟨flag, .empty⟩ = r at hrun
  generalize (m'.play name beat').run ⟨flag, .empty⟩ = r' at hrun
  cases hrun with
  | ok h => exact ⟨h, rfl⟩
  | error h => exact ⟨h, rfl⟩

/-- A member of a tuplet is played like another one, before steps that are alike, if it is stretched
like the other. -/
theorem alike_member {R : Schedule → Schedule → Prop} {length beat beat' : Beats} {m m' : Music}
    {x x' : Player Unit}
    (hm : Alike R (playStretched length beat m) (playStretched length beat' m'))
    (hs : m'.isStretchable = m.isStretchable) (hx : Alike R x x') :
    Alike R
      (if m.isStretchable then (playStretched length beat m >>= fun _ => x)
        else ((throw .notStretchable : Player Unit) >>= fun _ => x))
      (if m'.isStretchable then (playStretched length beat' m' >>= fun _ => x')
        else ((throw .notStretchable : Player Unit) >>= fun _ => x')) := by
  rw [hs]
  split_ifs
  · exact hm.bind hx
  · exact (alike_throw _).bind hx

/-! ## Playing -/

/-- Each exact beat is related to the beat that is `d` later. -/
def Delays (R : Beats → Beats → Prop) (d : Rat) : Prop :=
  ∀ q, R (.exact q) (.exact (q + d))

/-- The tuplet is played like the recast one, from related beats on. -/
inductive KeepsShare (r : Recasting) (R : Beats → Beats → Prop) (ns : List Music) : Prop
  /-- Recasting does not change the share, and related beats stay related when it is added. -/
  | shared (share : share? (recastAll r ns) = share? ns)
    (next : ∀ {length beat beat'}, share? ns = some length → R beat beat' →
      Option.Rel R (beat.add? length) (beat'.add? length))
  /-- No member is played, as the first one can not be stretched, whatever the shares are. -/
  | unplayed (share : (share? ns).isSome) (recast : (share? (recastAll r ns)).isSome)
    (head : (ns.head?.any fun n => !n.isStretchable) = true)

section

variable {r : Recasting} {R : Beats → Beats → Prop} {d : Rat}

/-- A note is added like the recast one. -/
theorem alike_recastNote (i : Instrument) (p : Pitch) {beat beat' : Beats} (length : Beats)
    (hbeat : R beat beat') : Alike (Recast r R d) (Player.addNote ⟨i, p, beat, length⟩)
      (Player.addNote ⟨i, r.pitch p, beat', length⟩) := by
  refine alike_note fun s t h => ⟨List.rel_append h.notes (.cons ?_ .nil), h.lyrics⟩
  exact ⟨rfl, rfl, hbeat, rfl⟩

/-- A lyric is added like the later one. -/
theorem alike_recastLyric (beat : Rat) (t : Text) :
    Alike (Recast r R d) (Player.addLyric ⟨beat, t⟩) (Player.addLyric ⟨beat + d, t⟩) := by
  refine alike_lyric fun s t h => ⟨h.notes, ?_⟩
  rw [h.lyrics, List.map_append, List.map_singleton]

mutual
/-- Music is played stretched like the recast one. -/
theorem alike_playStretched (length : Beats) {beat beat' : Beats} (hbeat : R beat beat') :
    ∀ m : Music, Alike (Recast r R d)
      (playStretched length beat m) (playStretched length beat' (m.recast r))
  | note _ p i => alike_check.bind (alike_recastNote i p length hbeat)
  | chord ns => alike_check.bind (alike_playAllStretched length hbeat ns)
  | rest _ | lyric _ _ | tuplet _ | concat _ _ | component _ | piece _ _ => alike_throw _
/-- The expressions of a list are played stretched like the recast ones. -/
theorem alike_playAllStretched (length : Beats) {beat beat' : Beats} (hbeat : R beat beat') :
    ∀ ms : List Music, Alike (Recast r R d)
      (playAllStretched length beat ms) (playAllStretched length beat' (recastAll r ms))
  | [] => alike_pure
  | m :: ms => (alike_playStretched length hbeat m).bind (alike_playAllStretched length hbeat ms)
end

/-- The members of a tuplet are played like the recast ones. -/
theorem alike_playEvenly {length : Beats} (hnext : ∀ {beat beat'}, R beat beat' →
      Option.Rel R (beat.add? length) (beat'.add? length))
    {beat beat' : Beats} (hbeat : R beat beat') (ms : List Music) : Alike (Recast r R d)
      (playEvenly length beat ms) (playEvenly length beat' (recastAll r ms)) := by
  induction ms generalizing beat beat' with
  | nil => exact alike_pure
  | cons m ms ih =>
    rw [recastAll, playEvenly, playEvenly]
    refine alike_member (alike_playStretched length hbeat m) (isStretchable_recast r m) ?_
    have hrel := hnext hbeat
    revert hrel
    generalize beat.add? length = next
    generalize beat'.add? length = next'
    rintro (hrel | _)
    · exact ih hrel
    · exact alike_throw _

/-- The first member of a recast tuplet can be stretched if it could be before. -/
theorem head_recastAll (ns : List Music) :
    ((recastAll r ns).head?.any fun n => !n.isStretchable) =
      (ns.head?.any fun n => !n.isStretchable) := by
  cases ns with
  | nil => rfl
  | cons n ns => exact congrArg (!·) (isStretchable_recast r n)

variable (name : Text)

/-- A tuplet that keeps its share is played like the recast one that starts `d` beats later. -/
theorem alike_tuplet (hR : Delays R d) (beat : Rat) {ns : List Music} (h : KeepsShare r R ns) :
    Alike (Recast r R d) ((tuplet ns).play name beat)
      (((tuplet ns).recast r).play name (beat + d)) := by
  rw [recast, play_tuplet, play_tuplet]
  refine alike_check.bind ?_
  cases h with
  | shared hshare hnext =>
    rw [hshare]
    cases hlength : share? ns with
    | some length => exact alike_playEvenly (hnext hlength) (hR beat) ns
    | none => exact alike_throw _
  | unplayed hshare hrecast hhead =>
    obtain ⟨length, hlength⟩ := Option.isSome_iff_exists.1 hshare
    obtain ⟨length', hlength'⟩ := Option.isSome_iff_exists.1 hrecast
    rw [hlength, hlength']
    dsimp only
    rw [playEvenly_of_head hhead, playEvenly_of_head ((head_recastAll ns).trans hhead)]
    exact alike_throw _

mutual
/-- Music is played like the recast one that starts `d` beats later. -/
theorem alike_play (hR : Delays R d) : ∀ (beat : Rat) (m : Music),
    (∀ ns ∈ m.tuplets, KeepsShare r R ns) →
      Alike (Recast r R d) (m.play name beat) ((m.recast r).play name (beat + d))
  | beat, note l p i, _ => by
    rw [recast, play, play, r.keepsTime]
    exact alike_check.bind (alike_recastNote i p (.exact l.value) (hR beat))
  | _, rest _, _ => alike_check
  | beat, lyric t _, _ => by
    rw [recast, play, play]
    refine alike_check.bind ?_
    split_ifs
    · exact alike_pure
    · exact alike_recastLyric beat t
  | beat, chord ns, h => alike_check.bind (alike_playAll hR beat ns h)
  | beat, tuplet ns, h => alike_tuplet name hR beat (h ns List.mem_cons_self)
  | beat, concat a b, h => by
    -- The second expression starts as much later as the first one.
    have hlater : beat + d + a.duration.value = beat + a.duration.value + d := by ring
    obtain ⟨ha, hb⟩ := List.forall_mem_append.1 h
    rw [recast, play, play, value_duration_recast, hlater]
    exact alike_check.bind ((alike_play hR beat a ha).bind (alike_play hR _ b hb))
  | beat, component ps, h => alike_check.bind (alike_playAll hR beat ps h)
  | beat, piece vs header, h => by
    rw [recast, play, play]
    refine alike_check.bind ?_
    split_ifs
    · exact alike_playVoices hR beat vs h
    · exact alike_playVoice hR beat header vs h
/-- Expressions are played together like the recast ones. -/
theorem alike_playAll (hR : Delays R d) : ∀ (beat : Rat) (ms : List Music),
    (∀ ns ∈ tupletsOf ms, KeepsShare r R ns) →
      Alike (Recast r R d) (playAll name beat ms) (playAll name (beat + d) (recastAll r ms))
  | _, [], _ => alike_pure
  | beat, m :: ms, h => by
    obtain ⟨hm, hms⟩ := List.forall_mem_append.1 h
    exact (alike_play hR beat m hm).bind (alike_playAll hR beat ms hms)
/-- All voices of a piece are played like the recast ones. -/
theorem alike_playVoices (hR : Delays R d) : ∀ (beat : Rat) (vs : List (Text × Music)),
    (∀ ns ∈ tupletsIn vs, KeepsShare r R ns) → Alike (Recast r R d)
      (playVoices name beat vs) (playVoices name (beat + d) (recastVoices r vs))
  | _, [], _ => alike_pure
  | beat, (_, m) :: vs, h => by
    obtain ⟨hm, hvs⟩ := List.forall_mem_append.1 h
    exact (alike_play hR beat m hm).bind (alike_playVoices hR beat vs hvs)
/-- A voice of a piece is played like the recast one. -/
theorem alike_playVoice (hR : Delays R d) : ∀ (beat : Rat) (header : Header)
    (vs : List (Text × Music)), (∀ ns ∈ tupletsIn vs, KeepsShare r R ns) → Alike (Recast r R d)
      (playVoice name beat header vs)
      (playVoice name (beat + d) (r.header header) (recastVoices r vs))
  | _, header, [], _ => by
    rw [recastVoices, playVoice, playVoice, r.keepsVoices]
    split_ifs
    · exact alike_check
    · exact alike_throw _
  | beat, header, (v, m) :: vs, h => by
    obtain ⟨hm, hvs⟩ := List.forall_mem_append.1 h
    rw [recastVoices, playVoice, playVoice]
    split_ifs
    · exact alike_play hR beat m hm
    · exact alike_playVoice hR beat header vs hvs
end

/-- Music that is recast and started later has the recast schedule and the same outcome. -/
theorem scheduled_later (hR : Delays R d) {m : Music} (h : ∀ ns ∈ m.tuplets, KeepsShare r R ns)
    (beat : Rat) (flag : CancelFlag) :
    (m.scheduled name beat flag).1.Recast r R d ((m.recast r).scheduled name (beat + d) flag).1 ∧
      ((m.recast r).scheduled name (beat + d) flag).2 = (m.scheduled name beat flag).2 :=
  scheduled_alike (alike_play name hR beat m h) ⟨.nil, rfl⟩ flag

end

/-- A recasting that does not change the share of a tuplet lets it start at the same beat. -/
theorem keepsShare_eq {r : Recasting} {ns : List Music} (h : share? (recastAll r ns) = share? ns) :
    KeepsShare r Eq ns := by
  refine .shared h fun {length beat beat'} _ hbeat => ?_
  subst hbeat
  cases beat.add? length with
  | some next => exact .some rfl
  | none => exact .none

end Music

/-- The schedule with the pitches recast. -/
def Schedule.recast (r : Recasting) (s : Schedule) : Schedule :=
  { s with notes := s.notes.map fun k => { k with pitch := r.pitch k.pitch } }

/-- A schedule that is recast and not later is determined. -/
theorem Schedule.Recast.eq {r : Recasting} {s t : Schedule} (h : s.Recast r Eq 0 t) :
    t = s.recast r := by
  obtain ⟨hnotes, hlyrics⟩ := h
  have hmap : List.Forall₂ (fun k' k => k' = k) t.notes
      (s.notes.map fun k => { k with pitch := r.pitch k.pitch }) := by
    rw [List.forall₂_map_right_iff]
    refine hnotes.flip.imp fun k' k hk => ?_
    rw [ScheduledNote.mk.injEq]
    exact ⟨hk.instrument, hk.pitch, hk.start.symm, hk.length⟩
  obtain ⟨notes, lyrics⟩ := t
  simp only [add_zero, List.map_id'] at hlyrics
  rw [Schedule.recast, Schedule.mk.injEq]
  exact ⟨List.forall₂_eq_eq_eq ▸ hmap, hlyrics⟩

/-- Music that is recast has the recast schedule and the same outcome, if its tuplets keep their
shares. -/
theorem Music.scheduled_recast {r : Recasting} {m : Music}
    (h : ∀ ns ∈ m.tuplets, KeepsShare r Eq ns) (name : Text) (beat : Rat)
    (flag : CancelFlag) : (m.recast r).scheduled name beat flag =
      ((m.scheduled name beat flag).1.recast r, (m.scheduled name beat flag).2) := by
  have hlater : Delays Eq 0 := fun q => congrArg Beats.exact (add_zero q).symm
  obtain ⟨hschedule, houtcome⟩ :=
    scheduled_later name hlater h beat flag
  rw [add_zero] at hschedule houtcome
  exact Prod.ext hschedule.eq houtcome

end SingAlong

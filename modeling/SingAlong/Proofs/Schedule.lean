import SingAlong.Music.Play
import Mathlib.Algebra.Order.Field.Rat
import Mathlib.Tactic.Ring

/-!
# What playing schedules

`Player.Adds` says that a step of playing, when nothing cancels it, adds a schedule to what has been
scheduled and does not fail. Each way to build music has one lemma about it: notes and chords
(`adds_together`), elements of a voice (`adds_element`), lyrics, and music in sequence
(`adds_sequence`).

The members of a tuplet get equal shares of its time (`share?`). The shares are exact when the time
is a fraction, and rounded when it is whole; `tuplets` lists the tuplets in an expression, at any
depth, and `ExactShares` says that no note is played with a rounded share.

The schedules are flat. In a sequence each expression starts at the beat of the sequence and the
durations of the expressions before it (`inTurn_eq_flatMap`); expressions that take no time can be
left out (`inTurn_filter`).
-/

namespace SingAlong

/-! ## Steps of playing -/

/-- One schedule after another. -/
instance : Append Schedule :=
  ⟨fun a b => ⟨a.notes ++ b.notes, a.lyrics ++ b.lyrics⟩⟩

/-- Schedules are put together part by part. -/
theorem Schedule.append_eq (a b : Schedule) :
    a ++ b = ⟨a.notes ++ b.notes, a.lyrics ++ b.lyrics⟩ :=
  rfl

/-- Nothing is added by the empty schedule. -/
theorem Schedule.append_empty (a : Schedule) : a ++ Schedule.empty = a := by
  rw [Schedule.append_eq, Schedule.empty, List.append_nil, List.append_nil]

/-- Schedules after the empty one are all there is. -/
theorem Schedule.empty_append (a : Schedule) : Schedule.empty ++ a = a :=
  rfl

/-- Three schedules can be put together in either way. -/
theorem Schedule.append_assoc (a b c : Schedule) : a ++ b ++ c = a ++ (b ++ c) := by
  rw [Schedule.append_eq, Schedule.append_eq a b, Schedule.append_eq a, Schedule.append_eq b,
    List.append_assoc, List.append_assoc]

namespace Player

/-- Unless it is cancelled, the step adds this schedule and does not fail. -/
def Adds (x : Player Unit) (s : Schedule) : Prop :=
  ∀ before, x.run ⟨.unset, before⟩ = .ok () ⟨.unset, before ++ s⟩

/-- Doing nothing adds nothing. -/
theorem adds_pure : Adds (pure ()) .empty := by
  intro before
  rw [before.append_empty]
  rfl

/-- Looking at the flag adds nothing. -/
theorem adds_check : Adds check .empty := by
  intro before
  rw [before.append_empty]
  rfl

/-- A note is added. -/
theorem adds_note (n : ScheduledNote) : Adds (addNote n) ⟨[n], []⟩ := by
  intro before
  rw [Schedule.append_eq, List.append_nil]
  rfl

/-- A lyric is added. -/
theorem adds_lyric (l : ScheduledLyric) : Adds (addLyric l) ⟨[], [l]⟩ := by
  intro before
  rw [Schedule.append_eq, List.append_nil]
  rfl

/-- Two steps add one schedule after the other. -/
theorem Adds.bind {x y : Player Unit} {s t : Schedule} (hx : Adds x s) (hy : Adds y t) :
    Adds (x >>= fun _ => y) (s ++ t) := by
  intro before
  change EStateM.bind x (fun _ => y) ⟨.unset, before⟩ = _
  unfold EStateM.bind
  have hfirst : x ⟨.unset, before⟩ = .ok () ⟨.unset, before ++ s⟩ := hx before
  rw [hfirst, ← Schedule.append_assoc]
  exact hy (before ++ s)

/-- After the flag is looked at, a step adds what it adds. -/
theorem Adds.checked {x : Player Unit} {s : Schedule} (hx : Adds x s) :
    Adds (check >>= fun _ => x) s :=
  adds_check.bind hx

end Player

open Player (Adds adds_pure adds_check adds_note adds_lyric)

namespace Music

/-- The schedule of music that adds one. -/
theorem scheduled_of_adds {m : Music} {name : Text} {beat : Rat} {s : Schedule}
    (h : Adds (m.play name beat) s) : m.scheduled name beat .unset = (s, none) := by
  unfold scheduled
  rw [h .empty, s.empty_append]

/-! ## Lengths and their parts -/

/-- The duration of a sum is the sum of the durations. -/
theorem value_add (a b : Length) : (a + b).value = a.value + b.value := by
  cases a with
  | whole m =>
    cases b with
    | whole n => exact Rat.intCast_add m n
    | fraction q => rfl
  | fraction p => rfl

/-- A sum is a fraction if one of its parts is. -/
theorem isFraction_add (a b : Length) : (a + b).isFraction = (a.isFraction || b.isFraction) := by
  cases a <;> cases b <;> rfl

/-- The duration of a multiple is the multiple of the duration. -/
theorem value_scale (n : Nat) (l : Length) : (l.scale n).value = n * l.value := by
  cases l with
  | whole m => exact Rat.intCast_mul n m
  | fraction q => rfl

/-- A multiple is a fraction if the length is one. -/
theorem isFraction_scale (n : Nat) (l : Length) : (l.scale n).isFraction = l.isFraction := by
  cases l <;> rfl

/-- The parts of a fraction are exact. -/
theorem part?_of_isFraction {l : Length} (h : l.isFraction) (n : Nat) :
    l.part? n = some (.exact (l.value / n)) := by
  cases l with
  | whole m => cases h
  | fraction q => rfl

/-- The share of its time that each member of a tuplet is played for, unless the time is too much to
be rounded. -/
def share? (ns : List Music) : Option Beats :=
  (tuplet ns).duration.part? ns.length

/-- The share is exact when the first member of the tuplet lasts for a fraction of a note. -/
theorem share?_of_isFraction {ns : List Music} (h : (firstDuration ns).isFraction) :
    share? ns = some (.exact ((tuplet ns).duration.value / ns.length)) :=
  part?_of_isFraction (by rwa [duration, isFraction_scale]) ns.length

/-- The members of a tuplet are played for its share, if there is one. -/
theorem play_tuplet (ns : List Music) (name : Text) (beat : Rat) :
    (tuplet ns).play name beat = (Player.check >>= fun _ =>
      match share? ns with
      | some length => playEvenly length (.exact beat) ns
      | none => throw .tooLarge) := by
  rw [play]
  rfl

/-! ## Notes, chords and tuplets -/

mutual
/-- The notes that sound together in a note or chord, all of a given length or each of its own. -/
def together (length : Option Rat) (beat : Rat) : Music → List ScheduledNote
  | note l p i => [⟨i, p, .exact beat, .exact (length.getD l.value)⟩]
  | chord ns => allTogether length beat ns
  | _ => []
/-- The notes that sound together in the notes and chords of a list. -/
def allTogether (length : Option Rat) (beat : Rat) : List Music → List ScheduledNote
  | [] => []
  | m :: ms => together length beat m ++ allTogether length beat ms
end

mutual
/-- A note or chord that is stretched adds its notes with the new length. -/
theorem adds_stretched (length beat : Rat) : ∀ m : Music, m.isStretchable →
    Adds (playStretched (.exact length) (.exact beat) m) ⟨m.together (some length) beat, []⟩
  | note _ p i, _ => (adds_note ⟨i, p, .exact beat, .exact length⟩).checked
  | chord ns, h => (adds_allStretched length beat ns h).checked
/-- The notes and chords of a list that is stretched add their notes with the new length. -/
theorem adds_allStretched (length beat : Rat) : ∀ ms : List Music, areStretchable ms →
    Adds (playAllStretched (.exact length) (.exact beat) ms)
      ⟨allTogether (some length) beat ms, []⟩
  | [], _ => adds_pure
  | m :: ms, h => by
    obtain ⟨hm, hms⟩ := Bool.and_eq_true_iff.1 h
    exact (adds_stretched length beat m hm).bind (adds_allStretched length beat ms hms)
end

mutual
/-- A note or chord adds its notes, each with its own length. -/
theorem adds_together (name : Text) (beat : Rat) : ∀ m : Music, m.isStretchable →
    Adds (m.play name beat) ⟨m.together none beat, []⟩
  | note l p i, _ => (adds_note ⟨i, p, .exact beat, .exact l.value⟩).checked
  | chord ns, h => (adds_allTogether name beat ns h).checked
/-- The notes and chords of a list add their notes, each with its own length. -/
theorem adds_allTogether (name : Text) (beat : Rat) : ∀ ms : List Music, areStretchable ms →
    Adds (playAll name beat ms) ⟨allTogether none beat ms, []⟩
  | [], _ => adds_pure
  | m :: ms, h => by
    obtain ⟨hm, hms⟩ := Bool.and_eq_true_iff.1 h
    exact (adds_together name beat m hm).bind (adds_allTogether name beat ms hms)
end

/-- The notes of an element of a voice that starts at a beat. The members of a tuplet share its
duration evenly. -/
def notesAt (beat : Rat) : Music → List ScheduledNote
  | tuplet ns =>
    let length := (tuplet ns).duration.value / ns.length
    ns.zipIdx.flatMap fun (m, j) => m.together (some length) (beat + j * length)
  | m => m.together none beat

/-- The members of a tuplet add their notes, one member after the other. -/
theorem adds_evenly (length beat : Rat) (ms : List Music) (k : Nat) (h : areStretchable ms) :
    Adds (playEvenly (.exact length) (.exact (beat + k * length)) ms)
      ⟨(ms.zipIdx k).flatMap fun (m, j) => m.together (some length) (beat + j * length), []⟩ := by
  induction ms generalizing k with
  | nil => exact adds_pure
  | cons m ms ih =>
    obtain ⟨hm, hms⟩ := Bool.and_eq_true_iff.1 h
    -- The next member starts one share of the time later.
    have hnext : beat + k * length + length = beat + (k + 1 : Nat) * length := by
      push_cast
      ring
    unfold playEvenly
    rw [if_pos hm, Beats.add?, hnext, List.zipIdx_cons, List.flatMap_cons]
    exact (adds_stretched length _ m hm).bind (ih (k + 1) hms)

/-- What an element of a voice can be: a rest, a note or chord, or a tuplet of notes and chords that
get exact shares of its duration. -/
def isElement : Music → Bool
  | rest _ => true
  | tuplet ns => (firstDuration ns).isFraction && areStretchable ns
  | m => m.isStretchable

/-- An element of a voice adds its notes. -/
theorem adds_element (name : Text) (beat : Rat) (m : Music) (h : m.isElement) :
    Adds (m.play name beat) ⟨m.notesAt beat, []⟩ := by
  cases m with
  | rest l => exact adds_check
  | tuplet ns =>
    obtain ⟨hfirst, hns⟩ := Bool.and_eq_true_iff.1 h
    have hevenly := adds_evenly ((tuplet ns).duration.value / ns.length) beat ns 0 hns
    rw [Nat.cast_zero, zero_mul, add_zero] at hevenly
    rw [play_tuplet, share?_of_isFraction hfirst]
    exact hevenly.checked
  | note l p i => exact adds_together name beat _ h
  | chord ns => exact adds_together name beat _ h
  | _ => cases h

/-! ## Tuplets in music -/

mutual
/-- The tuplets in an expression, at any depth and itself included: the members of each. -/
def tuplets : Music → List (List Music)
  | note _ _ _ | rest _ | lyric _ _ => []
  | chord ns => tupletsOf ns
  | tuplet ns => ns :: tupletsOf ns
  | concat a b => tuplets a ++ tuplets b
  | component ps => tupletsOf ps
  | piece vs _ => tupletsIn vs
/-- The tuplets in the expressions of a list. -/
def tupletsOf : List Music → List (List Music)
  | [] => []
  | m :: ms => tuplets m ++ tupletsOf ms
/-- The tuplets in the voices of a piece. -/
def tupletsIn : List (Text × Music) → List (List Music)
  | [] => []
  | (_, m) :: vs => tuplets m ++ tupletsIn vs
end

mutual
/-- There are no tuplets in what can be stretched. -/
theorem tuplets_of_isStretchable : ∀ {m : Music}, m.isStretchable → m.tuplets = []
  | note _ _ _, _ => rfl
  | chord _, h => tupletsOf_of_areStretchable h
/-- There are no tuplets in expressions that can be stretched. -/
theorem tupletsOf_of_areStretchable : ∀ {ms : List Music}, areStretchable ms → tupletsOf ms = []
  | [], _ => rfl
  | m :: ms, h => by
    obtain ⟨hm, hms⟩ := Bool.and_eq_true_iff.1 h
    rw [tupletsOf, tuplets_of_isStretchable hm, tupletsOf_of_areStretchable hms, List.append_nil]
end

/-- No member of the tuplet is played with a share that is rounded: the first member lasts for a
fraction of a note, or it can not be stretched, and then no member is played. -/
def HasExactShare (ns : List Music) : Prop :=
  (firstDuration ns).isFraction ∨
    (share? ns).isSome ∧ (ns.head?.any fun n => !n.isStretchable) = true

instance (ns : List Music) : Decidable (HasExactShare ns) :=
  inferInstanceAs (Decidable (_ ∨ _ ∧ _))

/-- No note of any tuplet is played with a share that is rounded. -/
def ExactShares (m : Music) : Prop :=
  ∀ ns ∈ m.tuplets, HasExactShare ns

instance (m : Music) : Decidable m.ExactShares :=
  inferInstanceAs (Decidable (∀ ns ∈ m.tuplets, HasExactShare ns))

/-- Nothing of a tuplet is played when its first member can not be stretched. -/
theorem playEvenly_of_head {ns : List Music}
    (h : (ns.head?.any fun n => !n.isStretchable) = true) (length beat : Beats) :
    playEvenly length beat ns = throw .notStretchable := by
  cases ns with
  | nil => cases h
  | cons n ns =>
    rw [playEvenly, Bool.not_eq_eq_eq_not.1 h]
    rfl

/-! ## Sequences -/

/-- The duration of all expressions of a list together. -/
def totalTime (ms : List Music) : Rat :=
  (ms.map fun m => m.duration.value).sum

/-- The time from the start of the first expression of a list to that of the one at an index. -/
def onset (ms : List Music) (k : Nat) : Rat :=
  totalTime (ms.take k)

/-- Expressions one after the other: each at the beat at which those before it have ended. -/
def inTurn {α : Type} (f : Rat → Music → List α) (beat : Rat) : List Music → List α
  | [] => []
  | m :: ms => f beat m ++ inTurn f (beat + m.duration.value) ms

/-- A list takes the time of its first expression and of the others. -/
theorem totalTime_cons (m : Music) (ms : List Music) :
    totalTime (m :: ms) = m.duration.value + totalTime ms :=
  rfl

/-- A sequence takes the time of its expressions. -/
theorem duration_sequence (ms : List Music) : (sequence ms).duration.value = totalTime ms := by
  have hfold (first : Music) :
      (ms.foldl concat first).duration.value = first.duration.value + totalTime ms := by
    induction ms generalizing first with
    | nil => exact (add_zero _).symm
    | cons m ms ih =>
      calc (ms.foldl concat (concat first m)).duration.value
          = (concat first m).duration.value + totalTime ms := ih _
        _ = first.duration.value + m.duration.value + totalTime ms := by rw [duration, value_add]
        _ = first.duration.value + totalTime (m :: ms) := by rw [totalTime_cons, add_assoc]
  unfold sequence
  rw [hfold]
  exact zero_add _

/-- The first expression of a list starts at once. -/
theorem onset_zero (ms : List Music) : onset ms 0 = 0 :=
  rfl

/-- The others start after it. -/
theorem onset_cons_succ (m : Music) (ms : List Music) (k : Nat) :
    onset (m :: ms) (k + 1) = m.duration.value + onset ms k := by
  unfold onset
  rw [List.take_succ_cons, totalTime_cons]

section InTurn

variable {α : Type} (f : Rat → Music → List α)

/-- Expressions that each give nothing give nothing in turn. -/
theorem inTurn_none (beat : Rat) (ms : List Music) :
    inTurn (fun _ _ => ([] : List α)) beat ms = [] := by
  induction ms generalizing beat with
  | nil => rfl
  | cons m ms ih => exact ih _

/-- Each expression of a list starts after the time of those before it. -/
theorem inTurn_eq_flatMap (beat : Rat) (ms : List Music) :
    inTurn f beat ms = ms.zipIdx.flatMap fun (m, k) => f (beat + onset ms k) m := by
  induction ms generalizing beat with
  | nil => rfl
  | cons m ms ih =>
    rw [inTurn, ih, List.zipIdx_cons, zero_add, List.zipIdx_succ, List.flatMap_cons,
      List.flatMap_map]
    simp only [onset_zero, onset_cons_succ, add_zero, add_assoc]

/-- What takes no time and adds nothing can be left out. -/
theorem inTurn_filter (beat : Rat) (ms : List Music) (h : ∀ m ∈ ms, 0 ≤ m.duration.value) :
    inTurn f beat (ms.filter fun m => 0 < m.duration.value) =
      inTurn (fun beat m => if 0 < m.duration.value then f beat m else []) beat ms := by
  induction ms generalizing beat with
  | nil => rfl
  | cons m ms ih =>
    have hms := fun beat => ih beat fun m' hm' => h m' (List.mem_cons_of_mem m hm')
    by_cases hm : 0 < m.duration.value
    · rw [List.filter_cons, if_pos (decide_eq_true hm), inTurn, inTurn, hms, if_pos hm]
    · -- What is left out would not have moved what comes after it.
      have hzero : m.duration.value = 0 := le_antisymm (not_lt.1 hm) (h m List.mem_cons_self)
      rw [List.filter_cons, if_neg (by rwa [decide_eq_true_iff]), inTurn, hms, if_neg hm,
        List.nil_append, hzero, add_zero]

end InTurn

/-- What takes no time can be left out of a sum. -/
theorem totalTime_filter (ms : List Music) (h : ∀ m ∈ ms, 0 ≤ m.duration.value) :
    totalTime (ms.filter fun m => 0 < m.duration.value) = totalTime ms := by
  induction ms with
  | nil => rfl
  | cons m ms ih =>
    have hms := ih fun m' hm' => h m' (List.mem_cons_of_mem m hm')
    by_cases hm : 0 < m.duration.value
    · rw [List.filter_cons, if_pos (decide_eq_true hm), totalTime_cons, totalTime_cons, hms]
    · have hzero : m.duration.value = 0 := le_antisymm (not_lt.1 hm) (h m List.mem_cons_self)
      rw [List.filter_cons, if_neg (by rwa [decide_eq_true_iff]), hms, totalTime_cons, hzero,
        zero_add]

/-- A sequence adds the notes and the lyrics of its expressions in turn. -/
theorem adds_sequence (name : Text) (notes : Rat → Music → List ScheduledNote)
    (lyrics : Rat → Music → List ScheduledLyric) (beat : Rat) (ms : List Music)
    (h : ∀ m ∈ ms, ∀ b, Adds (m.play name b) ⟨notes b m, lyrics b m⟩) :
    Adds ((sequence ms).play name beat) ⟨inTurn notes beat ms, inTurn lyrics beat ms⟩ := by
  -- A sequence is built by adding at its end, so the induction keeps what has been built.
  have hfold (first : Music) (s : Schedule) (hfirst : Adds (first.play name beat) s) :
      Adds ((ms.foldl concat first).play name beat)
        (s ++ ⟨inTurn notes (beat + first.duration.value) ms,
          inTurn lyrics (beat + first.duration.value) ms⟩) := by
    induction ms generalizing first s with
    | nil =>
      have hnone : s ++ ⟨[], []⟩ = s := s.append_empty
      rwa [inTurn, inTurn, hnone]
    | cons m ms ih =>
      have hm := h m List.mem_cons_self (beat + first.duration.value)
      have hconcat : Adds ((concat first m).play name beat)
          (s ++ ⟨notes (beat + first.duration.value) m, lyrics (beat + first.duration.value) m⟩) :=
        (hfirst.bind hm).checked
      have hrest := ih (fun m' hm' => h m' (List.mem_cons_of_mem m hm')) _ _ hconcat
      rw [duration, value_add, ← add_assoc, Schedule.append_assoc] at hrest
      exact hrest
  have hsilence : Adds (silence.play name beat) .empty := adds_check
  have hall := hfold silence .empty hsilence
  have hbeat : beat + silence.duration.value = beat := add_zero beat
  rw [hbeat, Schedule.empty_append] at hall
  exact hall

/-- The parts of a component are added one after the other, from the same beat on. -/
theorem adds_component {name : Text} {beat : Rat} {first second : Music} {s t : Schedule}
    (hs : Adds (first.play name beat) s) (ht : Adds (second.play name beat) t) :
    Adds ((component [first, second]).play name beat) (s ++ t) := by
  have hrest := ht.bind adds_pure
  rw [t.append_empty] at hrest
  exact (hs.bind hrest).checked

/-- A component of one part adds what this part adds. -/
theorem adds_component_single {name : Text} {beat : Rat} {m : Music} {s : Schedule}
    (hs : Adds (m.play name beat) s) : Adds ((component [m]).play name beat) s := by
  have hrest := hs.bind adds_pure
  rw [s.append_empty] at hrest
  exact hrest.checked

/-- The lyric that is scheduled for a lyric at a beat, when a voice is named. -/
def shownLyrics (name : Text) (beat : Rat) : Music → List ScheduledLyric
  | lyric t _ => if name.isEmpty then [] else [⟨beat, t⟩]
  | _ => []

/-- A lyric is scheduled when a voice is named. -/
theorem shownLyrics_lyric {name : Text} (hname : name ≠ []) (beat : Rat) (t : Text) (l : Length) :
    shownLyrics name beat (lyric t l) = [⟨beat, t⟩] := by
  dsimp only [shownLyrics]
  rw [if_neg (by rwa [List.isEmpty_iff])]

/-- Lyrics are added when a voice is named. -/
theorem adds_lyric_text (name : Text) (beat : Rat) (t : Text) (l : Length) :
    Adds ((lyric t l).play name beat) ⟨[], shownLyrics name beat (lyric t l)⟩ := by
  unfold play shownLyrics
  split_ifs with hname
  · exact adds_pure.checked
  · exact (adds_lyric ⟨beat, t⟩).checked

end Music

end SingAlong

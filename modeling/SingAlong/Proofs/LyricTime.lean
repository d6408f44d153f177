import SingAlong.Proofs.Timeline

/-!
# The time that displayed lyrics take

Slots that are displayed keep the time of their elements, but for two exceptions: a newline slot
takes no time, and neither does an extending slot that has no slot to extend, because it stands at
the start of the voice or after a newline slot (`Slot.keeps`). `displayFrom_totalTime` is the exact
account: the lyrics before a slot take the time of the elements before it, less what is lost there.
Displaying fails only for a slot that would be shown for a negative time (`displayFrom_cases`).

For the voices of songs that are read `Song.read_lyrics` follows. The lyrics take as long as the
notes, and each syllable is scheduled when its element starts, exactly when the slots that lose
their time belong to elements that take none. Nothing ensures this: a line of lyrics with fewer
syllables than notes ends with a newline slot on a note, and all that follows is scheduled early.
-/

namespace SingAlong

open Player (Adds)

namespace Slot

/-! ## Time that is lost -/

/-- For each slot, whether its time is kept when it is displayed. A newline slot loses its time, and
an extending slot keeps its time only if the slot before it does. -/
def keeps (held : Bool) : List Slot → List Bool
  | [] => []
  | newline :: slots => false :: keeps false slots
  | extend :: slots => held :: keeps held slots
  | _ :: slots => true :: keeps true slots

/-- The total of lengths. -/
def total (lengths : List Length) : Rat :=
  (lengths.map Length.value).sum

/-- The first length counts with the others. -/
theorem total_cons (d : Length) (lengths : List Length) :
    total (d :: lengths) = d.value + total lengths :=
  rfl

/-- The total of the lengths that are not kept. -/
def lostTime : List Bool → List Length → Rat
  | keep :: kept, d :: lengths => (if keep then 0 else d.value) + lostTime kept lengths
  | _, _ => 0

/-- The total of the lengths of the extending slots in front. -/
def leadTime : List Slot → List Length → Rat
  | extend :: slots, d :: lengths => d.value + leadTime slots lengths
  | _, _ => 0

/-- Extending slots in front lose their time unless a slot before them holds it. -/
theorem lostTime_false (slots : List Slot) (lengths : List Length) :
    lostTime (keeps false slots) lengths =
      lostTime (keeps true slots) lengths + leadTime slots lengths := by
  -- Only slots in front differ, since any slot but an extending one says anew what is held.
  induction slots generalizing lengths with
  | nil => exact (add_zero _).symm
  | cons s slots ih =>
    cases lengths with
    | nil => cases s <;> exact (add_zero _).symm
    | cons d lengths =>
      cases s with
      | extend =>
        simp only [keeps, lostTime, leadTime, Bool.false_eq_true, if_false, if_true, ih]
        ring
      | _ => exact (add_zero _).symm

/-- A length is extended by the lengths of the extending slots that follow. -/
theorem value_extended {l l' : Length} {slots : List Slot} {lengths : List Length}
    (h : extended? l slots lengths = some l') : l'.value = l.value + leadTime slots lengths := by
  induction slots generalizing l lengths with
  | nil =>
    cases h
    exact (add_zero _).symm
  | cons s slots ih =>
    cases s with
    | extend =>
      cases lengths with
      | nil => cases h
      | cons d lengths =>
        unfold extended? at h
        rw [ih h, Music.value_add, leadTime, add_assoc]
    | _ =>
      cases h
      exact (add_zero _).symm

/-- The extending slots in front end before a slot that is not extending. -/
theorem leadTime_take {slots : List Slot} {lengths : List Length} {m : Nat}
    (hm : slots[m]? ≠ some extend) :
    leadTime (slots.take m) (lengths.take m) = leadTime slots lengths := by
  induction slots generalizing lengths m with
  | nil => rw [List.take_nil]; rfl
  | cons s slots ih =>
    cases m with
    | zero =>
      cases s with
      | extend => exact absurd rfl hm
      | _ => rfl
    | succ m =>
      cases lengths with
      | nil => cases s <;> rfl
      | cons d lengths =>
        cases s with
        | extend => exact congrArg (d.value + ·) (ih hm)
        | _ => rfl

/-- The slots at the front keep their time or lose it whatever follows. -/
theorem keeps_take (held : Bool) (slots : List Slot) (m : Nat) :
    keeps held (slots.take m) = (keeps held slots).take m := by
  induction slots generalizing held m with
  | nil => rw [List.take_nil, keeps, List.take_nil]
  | cons s slots ih =>
    cases m with
    | zero => rfl
    | succ m =>
      rw [List.take_succ_cons]
      cases s <;> exact congrArg (_ :: ·) (ih _ m)

/-! ## What can be displayed -/

/-- The time that the slot at an index is displayed for. -/
def shownTime (slots : List Slot) (lengths : List Length) (m : Nat) : Rat :=
  match slots[m]?, lengths[m]? with
  | some blank, some d | some (syllable _), some d =>
    d.value + leadTime (slots.drop (m + 1)) (lengths.drop (m + 1))
  | _, _ => 0

/-- The length of a slot can be extended when no slot is without a length. -/
theorem exists_extended {slots : List Slot} {lengths : List Length}
    (hlength : slots.length ≤ lengths.length) (l : Length) :
    ∃ l', extended? l slots lengths = some l' := by
  induction slots generalizing lengths l with
  | nil => exact ⟨l, rfl⟩
  | cons s slots ih =>
    cases s with
    | extend =>
      cases lengths with
      | nil => cases hlength
      | cons d lengths => exact ih (Nat.le_of_succ_le_succ hlength) (l + d)
    | _ => exact ⟨l, rfl⟩

/-- A lyric is made for a slot unless its length is negative. -/
theorem lyric_cases (before after : List Slot) (s : Slot) (l : Length) :
    (0 ≤ (s.shownLength l).value ∧ ∃ m, s.lyric before l after = .ok m) ∨
      ((s.shownLength l).value < 0 ∧
        s.lyric before l after = .error (.negativeLength (s.shownLength l).value)) := by
  have hmake : s.lyric before l after =
      Music.mkLyric (s.shownText before after) (s.shownLength l) := by
    cases s <;> rfl
  have htext : s.shownText before after ≠ [] := by
    cases s with
    | syllable t => simp [shownText, marked, String.text]
    | _ => exact List.cons_ne_nil _ _
  rw [hmake]
  by_cases hneg : (s.shownLength l).value < 0
  · refine .inr ⟨hneg, ?_⟩
    unfold Music.mkLyric Music.checkLength
    rw [if_neg (by rwa [List.isEmpty_iff]), if_pos hneg]
    rfl
  · exact .inl ⟨not_lt.1 hneg, _, Music.mkLyric_eq_ok.2 ⟨htext, not_lt.1 hneg, rfl⟩⟩

/-- Slots are displayed if none of them is displayed for a negative time, and are refused for one
that is otherwise. -/
theorem displayFrom_cases {slots : List Slot} {lengths : List Length}
    (hlength : slots.length ≤ lengths.length) (before : List Slot) :
    ((∀ m, 0 ≤ shownTime slots lengths m) ∧ ∃ ms, displayFrom before slots lengths = .ok ms) ∨
      ∃ m, shownTime slots lengths m < 0 ∧ displayFrom before slots lengths =
        .error (.music (.negativeLength (shownTime slots lengths m))) := by
  induction slots generalizing lengths before with
  | nil => exact .inl ⟨fun m => le_refl 0, [], rfl⟩
  | cons s slots ih =>
    cases lengths with
    | nil => cases hlength
    | cons d lengths =>
      have hle := Nat.le_of_succ_le_succ hlength
      obtain ⟨l, hl⟩ := exists_extended hle d
      have hfirst : shownTime (s :: slots) (d :: lengths) 0 = (s.shownLength l).value := by
        cases s with
        | extend | newline => rfl
        | _ => exact (value_extended hl).symm
      unfold displayFrom
      rw [hl]
      dsimp only
      by_cases hlast : slots.isEmpty && s.isIdle l
      · -- A last slot that shows nothing has no lyric, and is shown for no time.
        rw [if_pos hlast]
        refine .inl ⟨fun m => ?_, [], rfl⟩
        obtain ⟨hempty, hidle⟩ := Bool.and_eq_true_iff.1 hlast
        obtain rfl := List.isEmpty_iff.1 hempty
        cases m with
        | zero =>
          rw [hfirst]
          cases s with
          | extend | newline => exact le_refl 0
          | blank => exact (beq_iff_eq.1 hidle).ge
          | syllable t => cases hidle
        | succ m => exact le_refl 0
      · rw [if_neg hlast]
        rcases s.lyric_cases before slots l with ⟨hpos, m, hm⟩ | ⟨hneg, hm⟩
        · rw [hm]
          rcases ih hle (if s = newline then [] else before ++ [s]) with
            ⟨hall, ms, hms⟩ | ⟨k, hk, hfail⟩
          · refine .inl ⟨fun k => ?_, m :: ms, bind_eq_ok.2 ⟨m, rfl, bind_eq_ok.2 ⟨ms, hms, rfl⟩⟩⟩
            cases k with
            | zero => rwa [hfirst]
            | succ k => exact hall k
          · refine .inr ⟨k + 1, hk, ?_⟩
            change (displayFrom _ slots lengths >>= _) = _
            rw [hfail]
            rfl
        · -- The first slot is refused before the others are looked at.
          refine .inr ⟨0, hfirst ▸ hneg, ?_⟩
          rw [hm, hfirst]
          rfl

/-- Extending slots in front take no negative time when no length is negative. -/
theorem leadTime_nonneg (slots : List Slot) {lengths : List Length}
    (h : ∀ d ∈ lengths, 0 ≤ d.value) : 0 ≤ leadTime slots lengths := by
  induction slots generalizing lengths with
  | nil => exact le_refl 0
  | cons s slots ih =>
    cases lengths with
    | nil => cases s <;> exact le_refl 0
    | cons d lengths =>
      obtain ⟨hd, hlengths⟩ := List.forall_mem_cons.1 h
      cases s with
      | extend => exact add_nonneg hd (ih hlengths)
      | _ => exact le_refl 0

/-- No slot is displayed for a negative time when no length is negative. -/
theorem shownTime_nonneg (slots : List Slot) {lengths : List Length}
    (h : ∀ d ∈ lengths, 0 ≤ d.value) (m : Nat) : 0 ≤ shownTime slots lengths m := by
  have hlead : 0 ≤ leadTime (slots.drop (m + 1)) (lengths.drop (m + 1)) :=
    leadTime_nonneg _ fun d hd => h d (List.mem_of_mem_drop hd)
  unfold shownTime
  split
  next d _ hd => exact add_nonneg (h d (List.mem_of_getElem? hd)) hlead
  next d _ hd => exact add_nonneg (h d (List.mem_of_getElem? hd)) hlead
  next => exact le_refl 0

/-- Slots can be displayed for lengths that are not negative, when there are no more slots than
lengths. -/
theorem display_exists {slots : List Slot} {lengths : List Length}
    (hlength : slots.length ≤ lengths.length) (h : ∀ d ∈ lengths, 0 ≤ d.value) :
    ∃ ms, display slots lengths = .ok ms := by
  rcases displayFrom_cases hlength [] with ⟨-, hms⟩ | ⟨m, hneg, -⟩
  · exact hms
  · exact absurd hneg (not_lt.2 (shownTime_nonneg slots h m))

/-! ## What is displayed -/

/-- A slot is displayed for the time of its element and of the extending slots that follow, as far
as that is kept. -/
theorem shownLength_value {s : Slot} {d l : Length} {slots : List Slot} {lengths : List Length}
    (hl : l.value = d.value + leadTime slots lengths) :
    (s.shownLength l).value =
      d.value + lostTime (keeps false slots) lengths -
        lostTime (keeps false (s :: slots)) (d :: lengths) := by
  have hlead := lostTime_false slots lengths
  cases s with
  | extend | newline =>
    simp only [keeps, lostTime, shownLength, Length.value, Bool.false_eq_true, if_false]
    ring
  | blank | syllable =>
    simp only [keeps, lostTime, shownLength, if_true, hl, hlead]
    ring

/-- The lyrics before a slot that is not extending take the time of the elements before it, less
what is lost there. -/
theorem displayFrom_totalTime {before slots : List Slot} {lengths : List Length} {ms : List Music}
    (h : displayFrom before slots lengths = .ok ms) (hlength : slots.length = lengths.length)
    {m : Nat} (hm : slots[m]? ≠ some extend) :
    Music.totalTime (ms.take m) =
      total (lengths.take m) - lostTime (keeps false (slots.take m)) (lengths.take m) := by
  -- The index is not that of an extending slot, so no slot before it is extended beyond it.
  induction slots generalizing before lengths ms m with
  | nil =>
    unfold displayFrom at h
    cases h
    obtain rfl := List.length_eq_zero_iff.1 hlength.symm
    rw [List.take_nil, List.take_nil, List.take_nil]
    exact (sub_zero 0).symm
  | cons s slots ih =>
    cases m with
    | zero => exact (sub_zero 0).symm
    | succ m =>
      cases lengths with
      | nil => cases hlength
      | cons d lengths =>
        obtain ⟨l, hl, ⟨rfl, hidle, rfl⟩ | ⟨before', rest, hrest, rfl⟩⟩ := displayFrom_cons h
        · -- A last slot that is not displayed takes no time, or loses it.
          obtain rfl := List.length_eq_zero_iff.1 (Nat.succ.inj hlength).symm
          cases hl
          have hall : [s].take (m + 1) = [s] ∧ [d].take (m + 1) = [d] :=
            ⟨List.take_of_length_le (Nat.le_add_left 1 m),
              List.take_of_length_le (Nat.le_add_left 1 m)⟩
          have hlost : lostTime (keeps false [s]) [d] = d.value := by
            cases s with
            | extend | newline => exact add_zero d.value
            | blank => exact (add_zero (0 : Rat)).trans (beq_iff_eq.1 hidle).symm
            | syllable t => cases hidle
          have htotal : total [d] = d.value := add_zero d.value
          rw [List.take_nil, hall.1, hall.2, hlost, htotal, sub_self]
          rfl
        · have hrestm : slots[m]? ≠ some extend := hm
          have hvalue := value_extended hl
          rw [← leadTime_take hrestm] at hvalue
          have hfirst := shownLength_value (s := s) hvalue
          have hothers := ih hrest (Nat.succ.inj hlength) hrestm
          rw [List.take_succ_cons, List.take_succ_cons, List.take_succ_cons]
          generalize slots.take m = front at *
          generalize lengths.take m = times at *
          -- What the extending slots in front of the others lose is what the first slot gains.
          calc Music.totalTime (.lyric (s.shownText before slots) (s.shownLength l) :: rest.take m)
              = (s.shownLength l).value + Music.totalTime (rest.take m) := rfl
            _ = d.value + lostTime (keeps false front) times -
                  lostTime (keeps false (s :: front)) (d :: times) +
                  (total times - lostTime (keeps false front) times) := by rw [hfirst, hothers]
            _ = total (d :: times) - lostTime (keeps false (s :: front)) (d :: times) := by
                rw [total_cons]
                ring

/-- All lyrics take the time of the elements, less what is lost. -/
theorem displayFrom_duration {before slots : List Slot} {lengths : List Length} {ms : List Music}
    (h : displayFrom before slots lengths = .ok ms) (hlength : slots.length = lengths.length) :
    Music.totalTime ms = total lengths - lostTime (keeps false slots) lengths := by
  -- An index behind the slots and behind the lyrics.
  have hbehind : slots[slots.length + ms.length]? = none :=
    List.getElem?_eq_none (Nat.le_add_right _ _)
  have hall := displayFrom_totalTime h hlength (m := slots.length + ms.length)
    (by rw [hbehind]; exact nofun)
  rwa [List.take_of_length_le (Nat.le_add_left _ _), List.take_of_length_le (Nat.le_add_right _ _),
    List.take_of_length_le (hlength ▸ Nat.le_add_right _ _)] at hall

/-- Each lyric is that of the slot at its index. -/
theorem displayFrom_getElem {before slots : List Slot} {lengths : List Length} {ms : List Music}
    (h : displayFrom before slots lengths = .ok ms) {m : Nat} {x : Music} (hx : ms[m]? = some x) :
    ∃ s before' l, slots[m]? = some s ∧
      x = .lyric (s.shownText before' (slots.drop (m + 1))) l := by
  induction slots generalizing before lengths ms m with
  | nil =>
    unfold displayFrom at h
    cases h
    cases hx
  | cons s slots ih =>
    cases lengths with
    | nil => cases h
    | cons d lengths =>
      obtain ⟨l, -, ⟨-, -, rfl⟩ | ⟨before', rest, hrest, rfl⟩⟩ := displayFrom_cons h
      · cases hx
      · cases m with
        | zero =>
          cases hx
          exact ⟨s, before, _, rfl, rfl⟩
        | succ m => exact ih hrest hx

/-- Each syllable is displayed. -/
theorem displayFrom_syllable {before slots : List Slot} {lengths : List Length} {ms : List Music}
    (h : displayFrom before slots lengths = .ok ms) {m : Nat} {t : Text}
    (ht : slots[m]? = some (.syllable t)) : ∃ x, ms[m]? = some x := by
  induction slots generalizing before lengths ms m with
  | nil => cases ht
  | cons s slots ih =>
    cases lengths with
    | nil => cases h
    | cons d lengths =>
      obtain ⟨l, -, ⟨rfl, hidle, rfl⟩ | ⟨before', rest, hrest, rfl⟩⟩ := displayFrom_cons h
      · -- A slot that is left out is no syllable.
        cases m with
        | zero =>
          cases ht
          cases hidle
        | succ m => cases ht
      · cases m with
        | zero => exact ⟨_, rfl⟩
        | succ m => exact ih hrest ht

/-! ## When nothing is lost -/

/-- What is lost is not negative. -/
theorem lostTime_nonneg (kept : List Bool) {lengths : List Length}
    (h : ∀ l ∈ lengths, 0 ≤ l.value) : 0 ≤ lostTime kept lengths := by
  induction kept generalizing lengths with
  | nil => exact le_refl 0
  | cons keep kept ih =>
    cases lengths with
    | nil => exact le_refl 0
    | cons d lengths =>
      obtain ⟨hd, hlengths⟩ := List.forall_mem_cons.1 h
      have hrest := ih hlengths
      unfold lostTime
      split_ifs
      · rwa [zero_add]
      · exact add_nonneg hd hrest

/-- Nothing is lost when what is not kept takes no time. -/
theorem lostTime_eq_zero_iff {kept : List Bool} {lengths : List Length}
    (h : ∀ l ∈ lengths, 0 ≤ l.value) : lostTime kept lengths = 0 ↔
      ∀ (k : Nat) (l : Length), kept[k]? = some false → lengths[k]? = some l → l.value = 0 := by
  induction kept generalizing lengths with
  | nil => exact ⟨fun _ k l hk => (nomatch hk), fun _ => rfl⟩
  | cons keep kept ih =>
    cases lengths with
    | nil => exact ⟨fun _ k l _ hl => (nomatch hl), fun _ => rfl⟩
    | cons d lengths =>
      obtain ⟨hd, hlengths⟩ := List.forall_mem_cons.1 h
      have hrest := lostTime_nonneg kept hlengths
      -- A sum of times that are not negative is zero when each of them is.
      have hsplit : lostTime (keep :: kept) (d :: lengths) = 0 ↔
          (keep = false → d.value = 0) ∧ lostTime kept lengths = 0 := by
        cases keep with
        | true => simp [lostTime]
        | false =>
          rw [lostTime, if_neg Bool.false_ne_true, add_eq_zero_iff_of_nonneg hd hrest]
          simp
      rw [hsplit, ih hlengths]
      constructor
      · rintro ⟨hfirst, hothers⟩ (_ | k) l hk hl
        · cases hl
          exact hfirst (Option.some.inj hk)
        · exact hothers k l hk hl
      · intro hall
        exact ⟨fun hkeep => hall 0 d (congrArg some hkeep) rfl,
          fun k l hk hl => hall (k + 1) l hk hl⟩

/-- Before this index no element that takes time has a slot that loses it. -/
def InStep (slots : List Slot) (performed : List Music) (m : Nat) : Prop :=
  ∀ k < m, ∀ e, (keeps false slots)[k]? = some false → performed[k]? = some e →
    e.duration.value = 0

/-- The time that the slots before an index lose. -/
def lostBefore (slots : List Slot) (performed : List Music) (m : Nat) : Rat :=
  lostTime (keeps false (slots.take m)) ((performed.map Music.duration).take m)

/-- No time is lost before an index exactly when lyrics and music are in step there. -/
theorem lostBefore_eq_zero_iff {slots : List Slot} {performed : List Music} (m : Nat)
    (h : ∀ e ∈ performed, 0 ≤ e.duration.value) :
    lostBefore slots performed m = 0 ↔ InStep slots performed m := by
  have hnonneg : ∀ l ∈ (performed.map Music.duration).take m, 0 ≤ l.value := by
    intro l hl
    obtain ⟨e, he, rfl⟩ := List.mem_map.1 (List.mem_of_mem_take hl)
    exact h e he
  unfold lostBefore InStep
  rw [lostTime_eq_zero_iff hnonneg, keeps_take]
  constructor
  · intro hall k hk e hlost he
    refine hall k e.duration ?_ ?_
    · rwa [List.getElem?_take_of_lt hk]
    · rw [List.getElem?_take_of_lt hk, List.getElem?_map, he]
      rfl
  · intro hall k l hlost hl
    have hk : k < m := by
      by_contra hge
      rw [List.getElem?_take_eq_none (Nat.le_of_not_lt hge)] at hl
      cases hl
    rw [List.getElem?_take_of_lt hk] at hlost hl
    rw [List.getElem?_map] at hl
    obtain ⟨e, he, rfl⟩ := Option.map_eq_some_iff.1 hl
    exact hall k hk e hlost he

end Slot

/-! ## The lyrics of a voice -/

/-- Every element gets exactly one slot. -/
theorem align_length (tokens : List LyricToken) (seats : List Seat) :
    (align tokens seats).slots.length = seats.length := by
  unfold align
  rw [List.length_append, List.length_take, List.length_replicate]
  omega

namespace Compiler

/-- Every element of a voice gets exactly one slot. -/
theorem slots_length {elements lyrics : List Node} {expressions : List Music}
    (h : expressions.length = elements.length) :
    (slots elements lyrics expressions).length = elements.length := by
  unfold slots
  rw [align_length, List.length_map, List.length_zip, List.length_map, h, Nat.min_self]

/-- The entries that are picked can be changed before or after. -/
theorem pick_map {α β : Type} (f : α → β) (xs : List α) (order : List Nat) :
    pick (xs.map f) order = (pick xs order).map f := by
  unfold pick
  rw [List.map_filterMap]
  refine List.filterMap_congr fun i _ => ?_
  rw [List.getElem?_toArray, List.getElem?_toArray, List.getElem?_map]

/-- As many entries are picked as there are indices. -/
theorem length_pick {α : Type} {xs : List α} {order : List Nat} (h : ∀ i ∈ order, i < xs.length) :
    (pick xs order).length = order.length := by
  have hlength := congrArg List.length (map_some_pick h)
  rwa [List.length_map, List.length_map] at hlength

end Compiler

namespace Music

/-- The lyric that is scheduled for each of a list of lyrics, when a voice is named. -/
theorem getElem?_inTurn_lyrics {name : Text} (hname : name ≠ []) (beat : Rat) {ms : List Music}
    (h : ∀ m ∈ ms, ∃ t l, m = .lyric t l) (m : Nat) :
    (inTurn (shownLyrics name) beat ms)[m]? =
      (ms[m]?.bind fun x => (shownLyrics name (beat + onset ms m) x).head?) := by
  -- Each lyric adds exactly one, so the indices agree.
  induction ms generalizing beat m with
  | nil => rfl
  | cons x ms ih =>
    obtain ⟨⟨t, l, rfl⟩, hms⟩ := List.forall_mem_cons.1 h
    rw [inTurn, shownLyrics_lyric hname, List.singleton_append]
    cases m with
    | zero =>
      rw [onset_zero, add_zero, List.getElem?_cons_zero, List.getElem?_cons_zero,
        Option.bind_some, shownLyrics_lyric hname]
      rfl
    | succ m =>
      rw [onset_cons_succ, ← add_assoc, List.getElem?_cons_succ, List.getElem?_cons_succ,
        ih _ hms]

/-- A voice of a piece does not take longer than the piece. -/
theorem duration_le_longest {vs : List (Text × Music)} {name : Text} {m : Music}
    (h : (name, m) ∈ vs) : m.duration.value ≤ (longestDuration vs).value := by
  have hlonger (a b : Length) : a.value ≤ (a.longer b).value ∧ b.value ≤ (a.longer b).value := by
    unfold Length.longer
    split_ifs with hlt
    · exact ⟨hlt.le, le_refl _⟩
    · exact ⟨le_refl _, not_lt.1 hlt⟩
  induction vs with
  | nil => cases h
  | cons v vs ih =>
    obtain ⟨hrest, hfirst⟩ := hlonger (longestDuration vs) v.2.duration
    rcases List.mem_cons.1 h with rfl | h
    · exact hfirst
    · exact (ih h).trans hrest

end Music

namespace Slot

variable {slots : List Slot} {performed ms : List Music}

/-- What is scheduled for the slots of elements that are performed from a beat on. -/
structure Shows (slots : List Slot) (performed : List Music) (beat : Rat)
    (lyrics : List ScheduledLyric) : Prop where
  /-- The lyric at the index of a syllable marks it, and is early by the time that is lost. -/
  syllable : ∀ m t, slots[m]? = some (.syllable t) →
    ∃ l before, lyrics[m]? = some l ∧ l.text = marked before t (slots.drop (m + 1)) ∧
      l.beat = beat + Music.onset performed m - lostBefore slots performed m ∧
      (l.beat = beat + Music.onset performed m ↔ InStep slots performed m)
  /-- The other lyrics are blank. -/
  other : ∀ (m : Nat) l, lyrics[m]? = some l →
    (∃ t, slots[m]? = some (.syllable t)) ∨ l.text = blank.text

/-- The lengths of elements are the time that they take. -/
theorem total_duration (performed : List Music) :
    total (performed.map Music.duration) = Music.totalTime performed := by
  unfold total Music.totalTime
  rw [List.map_map]
  rfl

/-- The lyrics of all elements take their time, less what is lost. -/
theorem display_duration (h : display slots (performed.map Music.duration) = .ok ms)
    (hlength : slots.length = performed.length) :
    Music.totalTime ms =
      Music.totalTime performed - lostBefore slots performed performed.length := by
  have hall := displayFrom_duration h (by rw [hlength, List.length_map])
  have hlengths : (performed.map Music.duration).take performed.length =
      performed.map Music.duration := List.take_of_length_le (List.length_map _).le
  unfold lostBefore
  rw [List.take_of_length_le hlength.le, hlengths, hall, total_duration]

/-- The lyrics before a syllable take the time of the elements before it, less what is lost
there. -/
theorem display_onset (h : display slots (performed.map Music.duration) = .ok ms)
    (hlength : slots.length = performed.length) {m : Nat} {t : Text}
    (ht : slots[m]? = some (.syllable t)) :
    Music.onset ms m = Music.onset performed m - lostBefore slots performed m := by
  have hbefore := displayFrom_totalTime h (by rw [hlength, List.length_map]) (m := m)
    (by rw [ht]; exact nofun)
  rwa [← List.map_take, total_duration, List.map_take] at hbefore

/-- The lyrics of slots that are displayed show them. -/
theorem shows_display {name : Text} (hname : name ≠ []) (beat : Rat)
    (h : display slots (performed.map Music.duration) = .ok ms)
    (hlength : slots.length = performed.length) (htime : ∀ e ∈ performed, 0 ≤ e.duration.value) :
    Shows slots performed beat (Music.inTurn (Music.shownLyrics name) beat ms) := by
  have hlyrics := Music.getElem?_inTurn_lyrics hname beat (displayFrom_lyrics h)
  constructor
  case syllable =>
    intro m t ht
    obtain ⟨x, hx⟩ := displayFrom_syllable h ht
    obtain ⟨s, before, l, hs, rfl⟩ := displayFrom_getElem h hx
    obtain rfl : s = .syllable t := Option.some.inj (hs.symm.trans ht)
    have honset := display_onset h hlength ht
    refine ⟨⟨beat + Music.onset ms m, _⟩, before, ?_, rfl, ?_, ?_⟩
    · rw [hlyrics, hx, Option.bind_some, Music.shownLyrics_lyric hname]
      rfl
    · rw [honset, add_sub_assoc]
    · rw [honset, ← lostBefore_eq_zero_iff m htime, add_right_inj, sub_eq_self]
  case other =>
    intro m l hl
    rw [hlyrics] at hl
    obtain ⟨x, hx, hl⟩ := Option.bind_eq_some_iff.1 hl
    obtain ⟨s, before, d, hs, rfl⟩ := displayFrom_getElem h hx
    rw [Music.shownLyrics_lyric hname] at hl
    cases hl
    cases s with
    | syllable t => exact .inl ⟨t, hs⟩
    | _ => exact .inr rfl

/-- The voice of lyrics that are displayed and of the notes of the elements, which leave out those
that take no time. -/
theorem display_voice (h : display slots (performed.map Music.duration) = .ok ms)
    (hlength : slots.length = performed.length) (hperformed : ∀ m ∈ performed, m.IsCompiled) :
    let text := Music.sequence ms
    let notes := Music.sequence (performed.filter fun m => 0 < m.duration.value)
    notes.duration.value = Music.totalTime performed ∧
      text.duration.value = notes.duration.value - lostBefore slots performed performed.length ∧
      (text.duration.value = notes.duration.value ↔ InStep slots performed performed.length) ∧
      ∀ name beat, name ≠ [] →
        ((Music.component [text, notes]).scheduled name beat .unset).2 = none ∧
          Shows slots performed beat
            ((Music.component [text, notes]).scheduled name beat .unset).1.lyrics := by
  have htime : ∀ m ∈ performed, 0 ≤ m.duration.value := fun m hm => (hperformed m hm).2
  intro text notes
  have hnotes : notes.duration.value = Music.totalTime performed := by
    rw [Music.duration_sequence, Music.totalTime_filter performed htime]
  have htext : text.duration.value =
      notes.duration.value - lostBefore slots performed performed.length := by
    rw [Music.duration_sequence, display_duration h hlength, hnotes]
  refine ⟨hnotes, htext, ?_, fun name beat hname => ?_⟩
  · rw [htext, ← lostBefore_eq_zero_iff performed.length htime]
    exact sub_eq_self
  · have hadds := Music.adds_component (Music.adds_lyrics name beat (displayFrom_lyrics h))
      (Music.adds_performed name beat hperformed)
    rw [Music.scheduled_of_adds hadds, Schedule.append_eq, List.append_nil]
    exact ⟨rfl, shows_display hname beat h hlength htime⟩

end Slot

/-- The lyrics of a voice of a song that is read, when there are any, are a part of the voice of
their own, before the notes. They take the time of the notes less what the slots lose, and each
syllable is as early as the slots before it lose time. So they take the time of the notes exactly
when no element that takes time has a slot that loses it, and a syllable starts with its element
exactly when none before it has. -/
theorem Song.read_lyrics {source : Text} {instrument : Instrument} {song : Song} {name : Text}
    {music : Music} (h : Song.read source instrument = .ok song)
    (hv : (name, music) ∈ song.voices) :
    ∃ document body parts expressions performed slots,
      readTune source = .ok document ∧ document.first? .body = some body ∧
      (name, parts) ∈ body.voiceParts ∧
      Compiler.compileVoice ⟨song.header, instrument⟩ parts.elements = .ok expressions ∧
      performed.map some = (expand parts.elements).map (expressions[·]?) ∧
      slots.map some = (expand parts.elements).map
        ((Compiler.slots parts.elements parts.lyrics expressions)[·]?) ∧
      (parts.lyrics ≠ [] → ∃ text notes, music = .component [text, notes] ∧
        notes.duration.value = Music.totalTime performed ∧
        text.duration.value =
          notes.duration.value - Slot.lostBefore slots performed performed.length ∧
        (text.duration.value = notes.duration.value ↔
          Slot.InStep slots performed performed.length) ∧
        (Slot.InStep slots performed performed.length →
          notes.duration.value ≤ song.piece.duration.value) ∧
        ∀ voice beat, voice ≠ [] → (music.scheduled voice beat .unset).2 = none ∧
          Slot.Shows slots performed beat (music.scheduled voice beat .unset).1.lyrics) := by
  obtain ⟨document, body, parts, expressions, hread, hbody, hparts, hexpressions, hlength,
    hcompiled, horder, hmusic⟩ := Song.read_music h hv
  have hexpressionOrder : ∀ i ∈ expand parts.elements, i < expressions.length := by
    rwa [hlength]
  have hslotOrder : ∀ i ∈ expand parts.elements,
      i < (Compiler.slots parts.elements parts.lyrics expressions).length := by
    rwa [Compiler.slots_length hlength]
  refine ⟨document, body, parts, expressions, _, _, hread, hbody, hparts, hexpressions,
    Compiler.map_some_pick hexpressionOrder, Compiler.map_some_pick hslotOrder, fun hlyrics => ?_⟩
  obtain ⟨hnone, -⟩ | ⟨-, shown, hshown, rfl⟩ := hmusic
  · exact absurd hnone hlyrics
  rw [Compiler.pick_map] at hshown
  -- Slots and elements are picked in the same order, so there are as many of them.
  have hsame := (Compiler.length_pick hslotOrder).trans (Compiler.length_pick hexpressionOrder).symm
  have hperformed : ∀ m ∈ Compiler.pick expressions (expand parts.elements), m.IsCompiled :=
    fun m hm => hcompiled m (Compiler.mem_of_mem_pick m hm)
  obtain ⟨hnotes, htext, hstep, hplayed⟩ := Slot.display_voice hshown hsame hperformed
  refine ⟨_, _, rfl, hnotes, htext, hstep, fun hin => ?_, hplayed⟩
  -- The duration of the voice is that of its lyrics.
  have hvoice := Music.duration_le_longest hv
  exact (hstep.2 hin).symm.le.trans hvoice

/-- The lyrics of a voice with repeats take the time of its notes exactly when no time is lost. -/
theorem Song.read_lyrics_repeated :
    ∃ song name music, Song.read repeated .piano = .ok song ∧ (name, music) ∈ song.voices ∧
      ∃ text notes slots performed, music = .component [text, notes] ∧
        (text.duration.value = notes.duration.value ↔
          Slot.InStep slots performed performed.length) := by
  obtain ⟨song, name, music, h, hv, -⟩ := Song.exists_voice repeated .piano (fun _ _ => true)
    (by decide +kernel)
  obtain ⟨document, body, parts, -, performed, slots, hread, hbody, hparts, -, -, -, hlyrics⟩ :=
    Song.read_lyrics h hv
  have hsung : (readTune repeated).toOption.all fun document =>
      (document.first? .body).all fun body => body.voiceParts.all fun v => !v.2.lyrics.isEmpty := by
    decide +kernel
  rw [hread, Except.toOption, Option.all_some, hbody, Option.all_some] at hsung
  have hnonempty := List.all_eq_true.1 hsung _ hparts
  obtain ⟨text, notes, hmusic, -, -, hiff, -⟩ := hlyrics (by simpa using hnonempty)
  exact ⟨song, name, music, h, hv, text, notes, slots, performed, hmusic, hiff⟩

/-- The lyrics and the notes of a voice that has both. -/
def Music.parts? : Music → Option (Music × Music)
  | component [text, notes] => some (text, notes)
  | _ => none

/-- A voice with lyrics and notes has these two parts. -/
theorem Music.parts?_eq_some {m text notes : Music} (h : m.parts? = some (text, notes)) :
    m = .component [text, notes] := by
  unfold parts? at h
  split at h
  next text' notes' =>
    cases h
    rfl
  next => cases h

/-- A first line of lyrics with fewer syllables than the line of music above it. -/
def shortLine : Text :=
  "X:1\nT:t\nL:1/4\nK:C\nC D E|\nw:a\nw:b\n".text

/-- After a line of lyrics that ends on a note the lyrics are early: they end before the notes, as
the whole song does, and the second syllable is scheduled on the second note and not on its own. -/
theorem Song.read_lyrics_shortLine :
    ∃ song name text notes, Song.read shortLine .piano = .ok song ∧
      (name, .component [text, notes]) ∈ song.voices ∧
      text.duration.value = 1 / 2 ∧ notes.duration.value = 3 / 4 ∧
      song.piece.duration.value = 1 / 2 ∧
      let schedule := ((Music.component [text, notes]).scheduled name 0 .unset).1
      schedule.lyrics = [⟨0, " <mark>a</mark> ".text⟩, ⟨1 / 4, " ".text⟩,
          ⟨1 / 4, " <mark>b</mark>   ".text⟩, ⟨1 / 2, " ".text⟩] ∧
        schedule.notes.map (·.start) = [.exact 0, .exact (1 / 4), .exact (1 / 2)] := by
  obtain ⟨song, name, music, h, hv, hfound⟩ := Song.exists_voice shortLine .piano
    (fun song v => v.2.parts?.any fun parts =>
      let schedule := ((Music.component [parts.1, parts.2]).scheduled v.1 0 .unset).1
      parts.1.duration.value = 1 / 2 ∧ parts.2.duration.value = 3 / 4 ∧
        song.piece.duration.value = 1 / 2 ∧
        schedule.lyrics = [⟨0, " <mark>a</mark> ".text⟩, ⟨1 / 4, " ".text⟩,
          ⟨1 / 4, " <mark>b</mark>   ".text⟩, ⟨1 / 2, " ".text⟩] ∧
        schedule.notes.map (·.start) = [.exact 0, .exact (1 / 4), .exact (1 / 2)])
    (by decide +kernel)
  obtain ⟨⟨text, notes⟩, hparts, hholds⟩ := (Option.any_eq_true _ _).1 hfound
  obtain rfl := Music.parts?_eq_some hparts
  exact ⟨song, name, text, notes, h, hv, of_decide_eq_true hholds⟩

end SingAlong

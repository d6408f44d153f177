import SingAlong.Proofs.LyricTime
import Mathlib.Data.List.DropRight
import Mathlib.Tactic.Linarith

/-!
# Lines of displayed lyrics

Newline slots cut the slots of a voice into lines. Two statements about displaying are made line by
line.

The time that is lost is that of the newline slots themselves and of the extending slots that a line
begins with, since nothing on their line holds them (`lostTime_keeps`). So `display_time` says when
lyrics keep the time of their elements.

A syllable is shown with the slots of its line before and after it. Whichever syllable of a line is
marked, the line has the same words, those of its syllables in order (`Slot.words_line`).
`display_marks` says this of all slots, and of the voices that are compiled.
-/

namespace SingAlong

/-! ## The words of a text -/

namespace Text

/-- The words of a text, which blanks separate. -/
def words (t : Text) : List Text :=
  (t.splitOnP isBlank).filter fun word => !word.isEmpty

/-- There are no words in an empty text. -/
theorem words_nil : words [] = [] :=
  rfl

/-- A space separates the words before it from those after it. -/
theorem words_append_space (t u : Text) : words (t ++ " ".text ++ u) = words t ++ words u := by
  have htext : t ++ " ".text ++ u = t ++ (' ' : CodePoint) :: u := by
    rw [List.append_assoc]
    rfl
  rw [htext, words, List.splitOnP_append_cons t u (by decide), List.filter_append]
  rfl

end Text

/-! ## The time of lines -/

namespace Slot

/-- Slots with their lengths, cut into lines at the newline slots. -/
def timedLines (slots : List Slot) (lengths : List Length) : List (List (Slot × Length)) :=
  (slots.zip lengths).splitOnP fun e => e.1 = newline

/-- The total length of the newline slots. -/
def newlineTime (slots : List Slot) (lengths : List Length) : Rat :=
  total (((slots.zip lengths).filter fun e => e.1 = newline).map Prod.snd)

/-- The lengths of the extending slots that a line begins with. -/
def unheld (line : List (Slot × Length)) : List Length :=
  (line.takeWhile fun e => e.1 = extend).map Prod.snd

/-- The total length of the extending slots that lines begin with. -/
def unheldTime (slots : List Slot) (lengths : List Length) : Rat :=
  total ((timedLines slots lengths).flatMap unheld)

/-- Every run of extending slots follows a syllable or a blank slot: no extending slot comes first,
and none comes right after a newline slot. -/
def RunsFollow (slots : List Slot) : Prop :=
  ∀ k < slots.length, slots[k]? = some extend → 0 < k ∧ slots[k - 1]? ≠ some newline

instance (slots : List Slot) : Decidable (RunsFollow slots) :=
  inferInstanceAs (Decidable (∀ k < _, _ → _))

/-- The lengths of two lists count together. -/
theorem total_append (lengths lengths' : List Length) :
    total (lengths ++ lengths') = total lengths + total lengths' := by
  unfold total
  rw [List.map_append, List.sum_append]

section

variable {s : Slot} {d : Length} {slots : List Slot} {lengths : List Length}

/-- A newline slot ends a line. -/
theorem timedLines_newline :
    timedLines (newline :: slots) (d :: lengths) = [] :: timedLines slots lengths :=
  splitOnP_cons_of_pos rfl _

/-- Another slot belongs to the first line. -/
theorem timedLines_cons (hs : s ≠ newline) (d : Length) (slots : List Slot)
    (lengths : List Length) :
    ∃ line lines, timedLines slots lengths = line :: lines ∧
      timedLines (s :: slots) (d :: lengths) = ((s, d) :: line) :: lines :=
  splitOnP_cons_of_neg (by simpa using hs) _

/-- The extending slots in front are those that the first line begins with. -/
theorem leadTime_eq {line : List (Slot × Length)} {lines : List (List (Slot × Length))}
    (h : timedLines slots lengths = line :: lines) :
    leadTime slots lengths = total (unheld line) := by
  induction slots generalizing lengths line with
  | nil =>
    cases h
    rfl
  | cons s slots ih =>
    cases lengths with
    | nil =>
      cases h
      cases s <;> rfl
    | cons d lengths =>
      by_cases hs : s = newline
      · subst hs
        rw [timedLines_newline] at h
        cases h
        rfl
      · obtain ⟨line', lines', hlines, hcons⟩ := timedLines_cons hs d slots lengths
        rw [hcons] at h
        cases h
        cases s with
        | newline => exact absurd rfl hs
        | extend => exact congrArg (d.value + ·) (ih hlines)
        | _ => rfl

/-- What is lost is the time of the newline slots, and of the extending slots that lines begin
with. -/
theorem lostTime_keeps (slots : List Slot) (lengths : List Length) :
    lostTime (keeps false slots) lengths =
      newlineTime slots lengths + unheldTime slots lengths := by
  induction slots generalizing lengths with
  | nil => exact (add_zero 0).symm
  | cons s slots ih =>
    cases lengths with
    | nil => cases s <;> exact (add_zero 0).symm
    | cons d lengths =>
      by_cases hs : s = newline
      · subst hs
        have hunheld : unheldTime (newline :: slots) (d :: lengths) = unheldTime slots lengths := by
          rw [unheldTime, timedLines_newline]
          rfl
        calc lostTime (keeps false (newline :: slots)) (d :: lengths)
            = d.value + lostTime (keeps false slots) lengths := rfl
          _ = d.value + newlineTime slots lengths + unheldTime slots lengths := by
              rw [ih, add_assoc]
          _ = newlineTime (newline :: slots) (d :: lengths) +
                unheldTime (newline :: slots) (d :: lengths) := by
              rw [hunheld]
              rfl
      · obtain ⟨line, lines, hlines, hcons⟩ := timedLines_cons hs d slots lengths
        have hnewline : newlineTime (s :: slots) (d :: lengths) = newlineTime slots lengths := by
          unfold newlineTime
          rw [List.zip_cons_cons, List.filter_cons_of_neg (by simpa using hs)]
        have hrest : unheldTime slots lengths =
            leadTime slots lengths + total (lines.flatMap unheld) := by
          rw [unheldTime, hlines, List.flatMap_cons, total_append, leadTime_eq hlines]
        have hwhole : unheldTime (s :: slots) (d :: lengths) =
            total (unheld ((s, d) :: line)) + total (lines.flatMap unheld) := by
          rw [unheldTime, hcons, List.flatMap_cons, total_append]
        rw [hnewline, hwhole]
        cases s with
        | newline => exact absurd rfl hs
        | extend =>
          have hlead : total (unheld ((extend, d) :: line)) =
              d.value + leadTime slots lengths := by
            rw [leadTime_eq hlines]
            rfl
          calc lostTime (keeps false (extend :: slots)) (d :: lengths)
              = d.value + lostTime (keeps false slots) lengths := rfl
            _ = newlineTime slots lengths +
                  (d.value + leadTime slots lengths + total (lines.flatMap unheld)) := by
                rw [ih, hrest]
                ring
            _ = _ := by rw [hlead]
        | _ =>
          -- The slot holds the time of the extending slots after it.
          have hkept := lostTime_false slots lengths
          rw [ih, hrest] at hkept
          change 0 + lostTime (keeps true slots) lengths = newlineTime slots lengths + (0 + _)
          linarith

/-- When every run of extending slots follows a slot that holds it, only newline slots lose their
time. -/
theorem newline_of_lost (front : List Slot) (h : RunsFollow (front ++ slots)) {held : Bool}
    (hheld : held = false → front = [] ∨ front.getLast? = some newline) {k : Nat}
    (hlost : (keeps held slots)[k]? = some false) : slots[k]? = some newline := by
  induction slots generalizing front held k with
  | nil => cases hlost
  | cons s slots ih =>
    have hnext : RunsFollow (front ++ [s] ++ slots) := by
      rwa [List.append_assoc]
    cases s with
    | newline =>
      cases k with
      | zero => rfl
      | succ k => exact ih _ hnext (fun _ => .inr List.getLast?_concat) hlost
    | extend =>
      cases held with
      | true =>
        cases k with
        | zero => cases hlost
        | succ k =>
          have hrest : (keeps true slots)[k]? = some false := hlost
          exact ih _ hnext (fun h : true = false => nomatch h) hrest
      | false =>
        -- The slot would come first, or right after a newline slot.
        obtain ⟨hpos, hbefore⟩ := h front.length (by simp) (by simp)
        rcases hheld rfl with rfl | hlast
        · cases hpos
        · rw [List.getLast?_eq_getElem?] at hlast
          rw [List.getElem?_append_left (Nat.sub_lt hpos Nat.one_pos)] at hbefore
          exact absurd hlast hbefore
    | _ =>
      cases k with
      | zero => cases hlost
      | succ k =>
        have hrest : (keeps true slots)[k]? = some false := hlost
        exact ih _ hnext (fun h : true = false => nomatch h) hrest

/-- Nothing is lost before an index when newline slots take no time and every run of extending slots
follows a slot that holds it. -/
theorem lostTime_take (h : RunsFollow slots) (htime : ∀ l ∈ lengths, 0 ≤ l.value)
    (hnewline : ∀ e ∈ slots.zip lengths, e.1 = newline → e.2.value = 0) (m : Nat) :
    lostTime (keeps false (slots.take m)) (lengths.take m) = 0 := by
  rw [lostTime_eq_zero_iff fun l hl => htime l (List.mem_of_mem_take hl), keeps_take]
  intro k l hlost hl
  have hk : k < m := by
    by_contra hge
    rw [List.getElem?_take_eq_none (Nat.le_of_not_lt hge)] at hl
    cases hl
  rw [List.getElem?_take_of_lt hk] at hlost hl
  have hslot := newline_of_lost [] h (fun _ => .inl rfl) hlost
  exact hnewline (newline, l) (List.mem_of_getElem? (List.getElem?_zip_eq_some.2 ⟨hslot, hl⟩)) rfl

end

end Slot

/-- Slots with lengths that are not negative can be displayed, and the lyrics take the time of all
slots less that of the newline slots and of the extending slots that come first or right after a
newline slot. So when newline slots take no time and every run of extending slots follows a syllable
or a blank slot, the lyrics before each slot that is not extending take the time of the slots before
it, and all lyrics that of all slots. -/
theorem display_time {slots : List Slot} {lengths : List Length}
    (hlength : slots.length = lengths.length) (htime : ∀ l ∈ lengths, 0 ≤ l.value) :
    ∃ ms, display slots lengths = .ok ms ∧ (∀ m ∈ ms, ∃ t l, m = .lyric t l) ∧
      Music.totalTime ms =
        Slot.total lengths - (Slot.newlineTime slots lengths + Slot.unheldTime slots lengths) ∧
      ((∀ e ∈ slots.zip lengths, e.1 = .newline → e.2.value = 0) → Slot.RunsFollow slots →
        (∀ m, slots[m]? ≠ some .extend →
          Music.totalTime (ms.take m) = Slot.total (lengths.take m)) ∧
        Music.totalTime ms = Slot.total lengths) := by
  obtain ⟨ms, hms⟩ := Slot.display_exists hlength.le htime
  have hall := Slot.displayFrom_duration hms hlength
  refine ⟨ms, hms, Slot.displayFrom_lyrics hms, ?_, fun hnewline hruns => ⟨fun m hm => ?_, ?_⟩⟩
  · rw [hall, Slot.lostTime_keeps]
  · rw [Slot.displayFrom_totalTime hms hlength hm, Slot.lostTime_take hruns htime hnewline,
      sub_zero]
  · have hnone := Slot.lostTime_take hruns htime hnewline slots.length
    rw [List.take_length, hlength, List.take_length] at hnone
    rw [hall, hnone, sub_zero]

/-- Two lines, each with a slot that extends another, and a last slot that is left out. -/
def heldLines : List (Slot × Length) :=
  [(.syllable "la".text, .fraction (1 / 4)), (.extend, .fraction (1 / 8)), (.newline, .fraction 0),
    (.blank, .fraction (1 / 4)), (.extend, .fraction (1 / 2))]

/-- The slots of two lines are displayed for the time that they take. -/
theorem display_time_held :
    let slots := heldLines.map Prod.fst
    let lengths := heldLines.map Prod.snd
    slots.length = lengths.length ∧ (∀ l ∈ lengths, 0 ≤ l.value) ∧
      (∀ e ∈ slots.zip lengths, e.1 = .newline → e.2.value = 0) ∧ Slot.RunsFollow slots ∧
      ∃ ms, display slots lengths = .ok ms ∧
        Music.totalTime (ms.take 3) = Slot.total (lengths.take 3) ∧
        Music.totalTime ms = Slot.total lengths := by
  intro slots lengths
  have hlength : slots.length = lengths.length := by decide
  have htime : ∀ l ∈ lengths, 0 ≤ l.value := by decide +kernel
  have hnewline : ∀ e ∈ slots.zip lengths, e.1 = .newline → e.2.value = 0 := by decide +kernel
  have hruns : Slot.RunsFollow slots := by decide
  obtain ⟨ms, hms, -, -, hkept⟩ := display_time hlength htime
  obtain ⟨hbefore, hall⟩ := hkept hnewline hruns
  exact ⟨hlength, htime, hnewline, hruns, ms, hms, hbefore 3 (by decide), hall⟩

namespace Slot

/-! ## The line of a syllable -/

/-- The text of the line of a slot before it. -/
def leftText (slots : List Slot) (m : Nat) : Text :=
  lineBefore ((slots.take m).rtakeWhile (· != newline))

/-- The text of the line of a slot after it. -/
def rightText (slots : List Slot) (m : Nat) : Text :=
  lineAfter (slots.drop (m + 1))

/-- The line of a slot: all slots around it up to the newline slots or the ends. -/
def lineAt (slots : List Slot) (m : Nat) : List Slot :=
  (slots.take m).rtakeWhile (· != newline) ++ (slots.drop m).takeWhile (· != newline)

/-- The text of the line of a slot, when that is a syllable of this text. -/
def lineText (slots : List Slot) (m : Nat) (t : Text) : Text :=
  leftText slots m ++ " ".text ++ t ++ " ".text ++ rightText slots m

/-- The words of the syllables on a line. -/
def lineWords (line : List Slot) : List Text :=
  (line.filter isSyllable).flatMap fun s => s.text.words

/-- An empty line has no words. -/
theorem lineWords_nil : lineWords [] = [] :=
  rfl

/-- Only syllables are shown with words. -/
theorem lineWords_cons (s : Slot) (line : List Slot) :
    lineWords (s :: line) = s.shown.words ++ lineWords line := by
  have hmarker {s : Slot} (hs : s.isSyllable = false) (hwords : s.shown.words = []) :
      lineWords (s :: line) = s.shown.words ++ lineWords line := by
    rw [hwords, lineWords, List.filter_cons_of_neg (by simpa using hs)]
    rfl
  cases s with
  | syllable t => rfl
  | _ => exact hmarker rfl (by decide)

/-- The words of a line are those of its parts. -/
theorem lineWords_append (line line' : List Slot) :
    lineWords (line ++ line') = lineWords line ++ lineWords line' := by
  unfold lineWords
  rw [List.filter_append, List.flatMap_append]

/-- The words before a syllable. -/
theorem words_lineBefore (before : List Slot) (t : Text) :
    Text.words (lineBefore before ++ t) = lineWords before ++ t.words := by
  induction before with
  | nil => rfl
  | cons s before ih =>
    have hshown : lineBefore (s :: before) ++ t =
        s.shown ++ " ".text ++ (lineBefore before ++ t) := by
      rw [lineBefore, List.flatMap_cons, List.append_assoc]
      rfl
    rw [hshown, Text.words_append_space, ih, lineWords_cons, List.append_assoc]

/-- The words after a syllable. -/
theorem words_lineAfter (t : Text) (after : List Slot) :
    Text.words (t ++ lineAfter after) = t.words ++ lineWords (after.takeWhile (· != newline)) := by
  unfold lineAfter
  induction after.takeWhile (· != newline) generalizing t with
  | nil => rw [List.flatMap_nil, List.append_nil, lineWords_nil, List.append_nil]
  | cons s rest ih =>
    have hshown (u : Text) : t ++ ((' ' : CodePoint) :: s.shown ++ u) =
        t ++ " ".text ++ s.shown ++ u := by
      simp [String.text]
    rw [List.flatMap_cons, hshown, ih, Text.words_append_space, lineWords_cons, List.append_assoc]

variable {slots : List Slot} {s : Slot} {m : Nat}

/-- A slot is on its line, between those before it and those after it. -/
theorem lineAt_eq (hs : slots[m]? = some s) (hline : s ≠ newline) :
    lineAt slots m = (slots.take m).rtakeWhile (· != newline) ++
      s :: (slots.drop (m + 1)).takeWhile (· != newline) := by
  obtain ⟨hm, rfl⟩ := List.getElem?_eq_some_iff.1 hs
  rw [lineAt, List.drop_eq_getElem_cons hm, List.takeWhile_cons_of_pos (by simpa using hline)]

/-- The line goes on after a slot that does not end it. -/
theorem lineAt_succ (hs : slots[m]? = some s) (hline : s ≠ newline) :
    lineAt slots (m + 1) = lineAt slots m := by
  rw [lineAt_eq hs hline, lineAt, List.take_add_one, hs, Option.toList_some,
    List.rtakeWhile_concat_pos _ _ _ (by simpa using hline), List.append_assoc]
  rfl

/-- Slots without a newline slot between them are on one line. -/
theorem lineAt_of_le {n : Nat} (hmn : m ≤ n) (hn : n < slots.length)
    (hline : ∀ k, m ≤ k → k < n → slots[k]? ≠ some newline) : lineAt slots m = lineAt slots n := by
  induction n, hmn using Nat.le_induction with
  | base => rfl
  | succ n hmn ih =>
    have hs : slots[n]? = some slots[n] := List.getElem?_eq_getElem (Nat.lt_of_succ_lt hn)
    have hnot : slots[n] ≠ newline := fun h =>
      hline n hmn (Nat.lt_succ_self n) (hs.trans (congrArg some h))
    rw [lineAt_succ hs hnot]
    exact ih (Nat.lt_of_succ_lt hn) fun k hk hkn => hline k hk (Nat.lt_succ_of_lt hkn)

/-- The text of a line with a syllable on it has the words of the line. -/
theorem words_line {t : Text} (ht : slots[m]? = some (syllable t)) :
    (lineText slots m t).words = lineWords (lineAt slots m) := by
  have hright : (rightText slots m).words =
      lineWords ((slots.drop (m + 1)).takeWhile (· != newline)) := words_lineAfter [] _
  have hleft : Text.words (leftText slots m ++ " ".text ++ t) =
      lineWords ((slots.take m).rtakeWhile (· != newline)) ++ t.words := by
    rw [Text.words_append_space, leftText, ← List.append_nil (lineBefore _), words_lineBefore,
      Text.words_nil, List.append_nil]
  rw [lineText, Text.words_append_space, hleft, hright, lineAt_eq ht nofun, lineWords_append,
    lineWords_cons, List.append_assoc]
  rfl

/-! ## What is displayed -/

/-- The last slot takes no time. -/
def EndsIdle (slots : List Slot) (lengths : List Length) : Prop :=
  slots.getLast? = some extend ∨ slots.getLast? = some newline ∨
    slots.getLast? = some blank ∧ ∀ l ∈ lengths.getLast?, l.value = 0

/-- What slots are displayed as. -/
structure Displays (slots : List Slot) (lengths : List Length) (ms : List Music) : Prop where
  /-- There is a lyric for each slot. -/
  all : ¬EndsIdle slots lengths → ms.length = slots.length
  /-- A last slot that takes no time has none. -/
  butLast : EndsIdle slots lengths → ms.length + 1 = slots.length
  /-- The lyric of a syllable marks it on its line. -/
  syllable : ∀ (m : Nat) (t : Text), slots[m]? = some (.syllable t) → ∃ l, ms[m]? = some (.lyric
    (leftText slots m ++ " <mark>".text ++ t ++ "</mark> ".text ++ rightText slots m) l)
  /-- The other lyrics are a single blank. -/
  other : ∀ (m : Nat) (x : Music), ms[m]? = some x →
    (∃ t, slots[m]? = some (.syllable t)) ∨ ∃ l, x = .lyric " ".text l

variable {lengths : List Length} {ms : List Music}

/-- A last slot alone takes no time. -/
theorem endsIdle_singleton {d : Length} : EndsIdle [s] [d] ↔ s.isIdle d := by
  cases s <;> simp [EndsIdle, isIdle]

/-- Only the last slot counts. -/
theorem endsIdle_cons {d : Length} (hslots : slots ≠ []) (hlength : slots.length = lengths.length) :
    EndsIdle (s :: slots) (d :: lengths) ↔ EndsIdle slots lengths := by
  obtain ⟨s', slots, rfl⟩ := List.exists_cons_of_ne_nil hslots
  cases lengths with
  | nil => cases hlength
  | cons d' lengths => rfl

/-- There is a lyric for each slot, but for a last one that takes no time. -/
theorem displayFrom_length {before : List Slot} (h : displayFrom before slots lengths = .ok ms)
    (hlength : slots.length = lengths.length) :
    (¬EndsIdle slots lengths → ms.length = slots.length) ∧
      (EndsIdle slots lengths → ms.length + 1 = slots.length) := by
  induction slots generalizing before lengths ms with
  | nil =>
    unfold displayFrom at h
    cases h
    exact ⟨fun _ => rfl, by simp [EndsIdle]⟩
  | cons s slots ih =>
    cases lengths with
    | nil => cases h
    | cons d lengths =>
      have hrest := Nat.succ.inj hlength
      by_cases hslots : slots = []
      · subst hslots
        obtain rfl := List.length_eq_zero_iff.1 hrest.symm
        rw [endsIdle_singleton]
        obtain ⟨l, hl, ⟨-, hidle, rfl⟩ | ⟨hbusy, x, rest, -, hnone, rfl⟩⟩ := displayFrom_made h
        · cases hl
          exact ⟨absurd hidle, fun _ => rfl⟩
        · cases hl
          unfold displayFrom at hnone
          cases hnone
          exact ⟨fun _ => rfl, fun hidle => absurd ⟨rfl, hidle⟩ hbusy⟩
      · rw [endsIdle_cons hslots hrest]
        obtain ⟨l, -, ⟨hnone, -, -⟩ | ⟨-, x, rest, -, hms, rfl⟩⟩ := displayFrom_made h
        · exact absurd hnone hslots
        · obtain ⟨hall, hbutLast⟩ := ih hms hrest
          exact ⟨fun hbusy => congrArg Nat.succ (hall hbusy),
            fun hidle => congrArg Nat.succ (hbutLast hidle)⟩

/-- The lyric of a syllable marks it between the slots of its line. -/
theorem displayFrom_marked (front : List Slot)
    (h : displayFrom (front.rtakeWhile (· != newline)) slots lengths = .ok ms) {t : Text}
    (ht : slots[m]? = some (.syllable t)) :
    ∃ l, ms[m]? = some (.lyric (marked ((front ++ slots.take m).rtakeWhile (· != newline)) t
      (slots.drop (m + 1))) l) := by
  induction slots generalizing front lengths ms m with
  | nil => cases ht
  | cons s slots ih =>
    cases lengths with
    | nil => cases h
    | cons d lengths =>
      obtain ⟨l, -, ⟨rfl, hidle, -⟩ | ⟨-, x, rest, hx, hrest, rfl⟩⟩ := displayFrom_made h
      · -- A slot that is left out is no syllable.
        cases m with
        | zero =>
          cases ht
          cases hidle
        | succ m => cases ht
      · cases m with
        | zero =>
          cases ht
          refine ⟨l, ?_⟩
          rw [List.take_zero, List.append_nil, lyric_ok hx]
          rfl
        | succ m =>
          have hbefore : (if s = newline then [] else front.rtakeWhile (· != newline) ++ [s]) =
              (front ++ [s]).rtakeWhile (· != newline) := by
            rw [List.rtakeWhile_concat]
            split_ifs <;> simp_all
          rw [hbefore] at hrest
          have hfront : front ++ (s :: slots).take (m + 1) = front ++ [s] ++ slots.take m := by
            rw [List.take_succ_cons, List.append_assoc]
            rfl
          rw [hfront, List.drop_succ_cons, List.getElem?_cons_succ]
          exact ih _ hrest ht

/-- Slots are displayed as their lyrics. -/
theorem displays (h : display slots lengths = .ok ms) (hlength : slots.length = lengths.length) :
    Displays slots lengths ms := by
  obtain ⟨hall, hbutLast⟩ := displayFrom_length h hlength
  refine ⟨hall, hbutLast, fun m t ht => ?_, fun m x hx => ?_⟩
  · exact displayFrom_marked [] h ht
  · obtain ⟨s, before, l, hs, rfl⟩ := displayFrom_getElem h hx
    cases s with
    | syllable t => exact .inl ⟨t, hs⟩
    | _ => exact .inr ⟨l, rfl⟩

end Slot

/-! ## The syllables that are marked -/

namespace Music

/-- The lyric marks a syllable. -/
def Marks (m : Music) (t : Text) : Prop :=
  ∃ left right l, m = .lyric (left ++ " <mark>".text ++ t ++ "</mark> ".text ++ right) l

/-- Is it a lyric of more than a single blank? -/
def showsText : Music → Bool
  | .lyric t _ => t != " ".text
  | _ => false

end Music

namespace Slot

/-- The text of a marked syllable is more than a blank. -/
theorem marked_ne_blank (before : List Slot) (t : Text) (after : List Slot) :
    marked before t after ≠ " ".text := by
  intro h
  have hlength := congrArg List.length h
  simp only [marked, List.length_append, String.text, List.length_map] at hlength
  have hmark : " <mark>".toList.length = 7 := rfl
  have hblank : " ".toList.length = 1 := rfl
  omega

/-- The lyrics that are not blank mark the syllables one after the other. -/
theorem displayFrom_marks {slots before : List Slot} {lengths : List Length} {ms : List Music}
    (h : displayFrom before slots lengths = .ok ms) :
    List.Forall₂ Music.Marks (ms.filter Music.showsText)
      ((slots.filter isSyllable).map text) := by
  induction slots generalizing before lengths ms with
  | nil =>
    unfold displayFrom at h
    cases h
    exact .nil
  | cons s slots ih =>
    cases lengths with
    | nil => cases h
    | cons d lengths =>
      obtain ⟨l, -, ⟨rfl, hidle, rfl⟩ | ⟨-, x, rest, hx, hrest, rfl⟩⟩ := displayFrom_made h
      · cases s with
        | syllable t => cases hidle
        | _ => exact .nil
      · have hothers := ih hrest
        rw [lyric_ok hx]
        cases s with
        | syllable t =>
          have hshown : (Music.lyric (marked before t slots) l).showsText :=
            bne_iff_ne.2 (marked_ne_blank before t slots)
          change List.Forall₂ _ ((Music.lyric (marked before t slots) l :: rest).filter _) _
          rw [List.filter_cons_of_pos hshown]
          exact .cons ⟨_, _, l, rfl⟩ hothers
        | _ => exact hothers

end Slot

/-- Slots are displayed unless one of them would be displayed for a negative time, and are refused
then. There is a lyric for each slot, but for a last one that takes no time. The lyric of a syllable
marks it on its line and the others are blank; and whichever syllable of a line is marked, the line
has the words of all its syllables, in order. So the lyrics of a voice mark the syllables that its
elements are aligned with, in performance order. -/
theorem display_marks :
    (∀ (slots : List Slot) (lengths : List Length), slots.length = lengths.length →
      ((∃ ms, display slots lengths = .ok ms) ↔ ∀ m, 0 ≤ Slot.shownTime slots lengths m) ∧
      (∀ e, display slots lengths = .error e → ∃ q < 0, e = .music (.negativeLength q)) ∧
      (∀ ms, display slots lengths = .ok ms → Slot.Displays slots lengths ms) ∧
      (∀ m t, slots[m]? = some (.syllable t) →
        (Slot.lineText slots m t).words = Slot.lineWords (Slot.lineAt slots m)) ∧
      (∀ m n t u, slots[m]? = some (.syllable t) → slots[n]? = some (.syllable u) → m ≤ n →
        (∀ k, m < k → k < n → slots[k]? ≠ some .newline) →
        (Slot.lineText slots m t).words = (Slot.lineText slots n u).words)) ∧
    ∀ (c : Compiler) (elements lyrics : List Node) (music : Music) (dropped : Nat),
      c.voice elements lyrics = .ok (music, dropped) → lyrics ≠ [] →
      ∃ expressions slots lengths shown notes, c.compileVoice elements = .ok expressions ∧
        slots.map some =
          (expand elements).map ((Compiler.slots elements lyrics expressions)[·]?) ∧
        lengths.map some = (expand elements).map ((expressions.map Music.duration)[·]?) ∧
        music = .component [Music.sequence shown, notes] ∧ Slot.Displays slots lengths shown ∧
        List.Forall₂ Music.Marks (shown.filter Music.showsText)
          ((slots.filter Slot.isSyllable).map Slot.text) := by
  constructor
  · intro slots lengths hlength
    refine ⟨⟨fun ⟨ms, hms⟩ => ?_, fun htime => ?_⟩, fun e he => ?_,
      fun ms hms => Slot.displays hms hlength, fun m t ht => Slot.words_line ht,
      fun m n t u ht hu hmn hline => ?_⟩
    · rcases Slot.displayFrom_cases hlength.le [] with ⟨htime, -⟩ | ⟨m, -, hfail⟩
      · exact htime
      · cases hms.symm.trans hfail
    · rcases Slot.displayFrom_cases hlength.le [] with ⟨-, hms⟩ | ⟨m, hneg, -⟩
      · exact hms
      · exact absurd hneg (not_lt.2 (htime m))
    · rcases Slot.displayFrom_cases hlength.le [] with ⟨-, ms, hms⟩ | ⟨m, hneg, hfail⟩
      · cases he.symm.trans hms
      · cases he.symm.trans hfail
        exact ⟨_, hneg, rfl⟩
    · -- No newline stands between the two syllables, so they have the same line around them.
      obtain ⟨hn, -⟩ := List.getElem?_eq_some_iff.1 hu
      have hline : ∀ k, m ≤ k → k < n → slots[k]? ≠ some .newline := by
        intro k hk hkn
        rcases hk.eq_or_lt with rfl | hmk
        · rw [ht]
          nofun
        · exact hline k hmk hkn
      rw [Slot.words_line ht, Slot.words_line hu, Slot.lineAt_of_le hmn hn hline]
  · intro c elements lyrics music dropped h hlyrics
    obtain ⟨expressions, hexpressions, ⟨hnone, -⟩ | ⟨-, shown, hshown, rfl⟩⟩ := Compiler.voice_ok h
    · exact absurd hnone hlyrics
    -- Every performed index has a slot and a length, so none of them is lost by picking them.
    have hcount := Compiler.length_compileVoice hexpressions
    have hslots : ∀ i ∈ expand elements,
        i < (Compiler.slots elements lyrics expressions).length := by
      rw [Compiler.slots_length hcount]
      exact expand_lt elements
    have hlengths : ∀ i ∈ expand elements, i < (expressions.map Music.duration).length := by
      rw [List.length_map, hcount]
      exact expand_lt elements
    have hsame := (Compiler.length_pick hslots).trans (Compiler.length_pick hlengths).symm
    exact ⟨expressions, _, _, shown, _, hexpressions, Compiler.map_some_pick hslots,
      Compiler.map_some_pick hlengths, rfl, Slot.displays hshown hsame,
      Slot.displayFrom_marks hshown⟩

/-- Two syllables on a line are shown with the same words, and the lyrics of a voice with repeats
mark its syllables in performance order. -/
theorem display_marks_repeated :
    (let slots : List Slot := [.syllable "la".text, .extend, .syllable "lu".text, .newline]
      let lengths : List Length := [.fraction 1, .fraction 1, .fraction (1 / 2), .fraction 0]
      slots.length = lengths.length ∧
        (∃ ms, display slots lengths = .ok ms ∧ Slot.Displays slots lengths ms) ∧
        (Slot.lineText slots 0 "la".text).words = (Slot.lineText slots 2 "lu".text).words) ∧
    ∃ c elements lyrics music dropped,
      Compiler.voice c elements lyrics = .ok (music, dropped) ∧ lyrics ≠ [] ∧
      ∃ (slots : List Slot) (shown : List Music) (notes : Music),
        music = .component [Music.sequence shown, notes] ∧
        List.Forall₂ Music.Marks (shown.filter Music.showsText)
          ((slots.filter Slot.isSyllable).map Slot.text) := by
  constructor
  · intro slots lengths
    have hlength : slots.length = lengths.length := rfl
    have htime : ∀ l ∈ lengths, 0 ≤ l.value := by decide +kernel
    obtain ⟨hshown, -, hdisplays, -, hwords⟩ := display_marks.1 slots lengths hlength
    obtain ⟨ms, hms⟩ := hshown.2 (Slot.shownTime_nonneg slots htime)
    have hline : ∀ k < 2, slots[k]? ≠ some .newline := by decide
    exact ⟨hlength, ⟨ms, hms, hdisplays ms hms⟩,
      hwords 0 2 _ _ rfl rfl (by decide) fun k _ hk => hline k hk⟩
  · obtain ⟨song, name, music, h, hv, -⟩ := Song.exists_voice repeated .piano (fun _ _ => true)
      (by decide +kernel)
    obtain ⟨document, body, parts, dropped, hread, hbody, hparts, -, hvoice⟩ := Song.read_voice h hv
    have hsung : (readTune repeated).toOption.all fun document =>
        (document.first? .body).all fun body =>
          body.voiceParts.all fun v => !v.2.lyrics.isEmpty := by
      decide +kernel
    rw [hread, Except.toOption, Option.all_some, hbody, Option.all_some] at hsung
    have hlyrics : parts.lyrics ≠ [] := by
      simpa using List.all_eq_true.1 hsung _ hparts
    obtain ⟨-, slots, -, shown, notes, -, -, -, hmusic, -, hmarks⟩ :=
      display_marks.2 _ _ _ _ _ hvoice hlyrics
    exact ⟨_, _, _, _, _, hvoice, hlyrics, slots, shown, notes, hmusic, hmarks⟩

/-- A syllable of a negative length is refused. -/
theorem display_negativeLength :
    let slots : List Slot := [.syllable "a".text]
    let lengths : List Length := [.fraction (-1 / 4)]
    slots.length = lengths.length ∧
      display slots lengths = .error (.music (.negativeLength (-1 / 4))) ∧
      ¬∃ ms, display slots lengths = .ok ms := by
  have hrefused : display [.syllable "a".text] [.fraction (-1 / 4)] =
      .error (.music (.negativeLength (-1 / 4))) := by
    rcases Slot.lyric_cases [] [] (.syllable "a".text) (.fraction (-1 / 4)) with
      ⟨hpos, -⟩ | ⟨-, hfail⟩
    · exact absurd hpos (by decide +kernel)
    · change (Except.mapError DisplayError.music _ >>= _) = _
      rw [hfail]
      rfl
  refine ⟨rfl, hrefused, ?_⟩
  rintro ⟨ms, hms⟩
  cases hms.symm.trans hrefused

end SingAlong

import SingAlong.Header
import SingAlong.Proofs.Reading
import Mathlib.Data.List.TakeDrop
import Mathlib.Tactic.Positivity

/-!
# The texts of header fields

What the readers of the header fields accept. A numeral is a run of digits with blanks around it, a
fraction two numerals with a slash between them, and a tempo mark a fraction and a numeral with an
equals sign between them. For each reader there is one statement that says which texts it reads and
as what: `Header.readRat_eq_ok` for fractions, `Header.splitTempo?_eq_some` for tempo marks and
`Key.read_eq_ok` for keys.
-/

namespace SingAlong

/-! ## Runs of characters -/

/-- No digit is blank. -/
theorem isBlank_of_isDigit {c : CodePoint} (h : isDigit c) : isBlank c = false := by
  obtain ⟨v, hv⟩ := Option.isSome_iff_exists.1 h
  obtain ⟨start, hfind, -⟩ := Option.map_eq_some_iff.1 hv
  have hmem := List.mem_of_find?_eq_some hfind
  have hrange := List.find?_some hfind
  rw [Bool.and_eq_true, decide_eq_true_iff, decide_eq_true_iff] at hrange
  obtain ⟨k, hk⟩ := Nat.exists_eq_add_of_le hrange.1
  have hlt : k < 10 := by omega
  -- The digits are checked one by one: ten from each zero on.
  unfold isBlank
  rw [hk]
  clear h hv hfind hrange hk
  revert start k
  decide +kernel

/-- No blank is a digit. -/
theorem isDigit_of_isBlank {c : CodePoint} (h : isBlank c) : isDigit c = false :=
  Bool.eq_false_iff.2 fun hc => Bool.false_ne_true ((isBlank_of_isDigit hc).symm.trans h)

namespace Text

variable {t rest digits : Text}

/-- A run of characters of a class is split from what follows it. -/
theorem span_eq_iff {p : CodePoint → Bool} {run : Text} :
    t.span p = (run, rest) ↔ t = run ++ rest ∧ run.all p ∧ ∀ c ∈ rest.head?, p c = false := by
  rw [List.span_eq_takeWhile_dropWhile, Prod.mk.injEq]
  constructor
  · rintro ⟨rfl, rfl⟩
    exact ⟨List.takeWhile_append_dropWhile.symm, List.all_takeWhile, Rule.head_dropWhile⟩
  · rintro ⟨rfl, hrun, hrest⟩
    have hstop : rest.takeWhile p = [] ∧ rest.dropWhile p = rest := by
      cases rest with
      | nil => exact ⟨rfl, rfl⟩
      | cons c rest =>
        have hc := Bool.eq_false_iff.1 (hrest c rfl)
        exact ⟨List.takeWhile_cons_of_neg hc, List.dropWhile_cons_of_neg hc⟩
    rw [List.takeWhile_append_of_pos (List.all_eq_true.1 hrun),
      List.dropWhile_append_of_pos (List.all_eq_true.1 hrun), hstop.1, hstop.2, List.append_nil]
    exact ⟨rfl, rfl⟩

/-- The blanks in front of a text end at a character that is not blank. -/
theorem trimStart_eq_cons {c : CodePoint} (hc : isBlank c = false) :
    trimStart t = c :: rest ↔ ∃ front : Text, t = front ++ c :: rest ∧ front.allBlank := by
  constructor
  · intro h
    refine ⟨t.takeWhile isBlank, ?_, List.all_takeWhile⟩
    rw [← h]
    exact List.takeWhile_append_dropWhile.symm
  · rintro ⟨front, rfl, hfront⟩
    unfold trimStart
    rw [List.dropWhile_append_of_pos (List.all_eq_true.1 hfront),
      List.dropWhile_cons_of_neg (Bool.eq_false_iff.1 hc)]

/-- Digits are split from the blanks before them and from what follows them. -/
theorem span_trimStart (hdigits : digits ≠ []) :
    (trimStart t).span isDigit = (digits, rest) ↔
      ∃ front : Text, t = front ++ (digits ++ rest) ∧ front.allBlank ∧ digits.all isDigit ∧
        ∀ c ∈ rest.head?, isDigit c = false := by
  rw [span_eq_iff]
  -- The first digit is where the blanks end.
  cases digits with
  | nil => exact absurd rfl hdigits
  | cons c digits =>
    constructor
    · rintro ⟨ht, hall, hrest⟩
      have hc := isBlank_of_isDigit (List.all_eq_true.1 hall c List.mem_cons_self)
      obtain ⟨front, hfront, hblank⟩ := (trimStart_eq_cons hc).1 ht
      exact ⟨front, hfront, hblank, hall, hrest⟩
    · rintro ⟨front, ht, hblank, hall, hrest⟩
      have hc := isBlank_of_isDigit (List.all_eq_true.1 hall c List.mem_cons_self)
      exact ⟨(trimStart_eq_cons hc).2 ⟨front, ht, hblank⟩, hall, hrest⟩

/-- Blanks do not begin with a digit. -/
theorem head_allBlank (h : t.allBlank) : ∀ c ∈ t.head?, isDigit c = false :=
  fun c hc => isDigit_of_isBlank (List.all_eq_true.1 h c (List.mem_of_mem_head? hc))

/-- There is always a line in a text. -/
theorem lines_ne_nil (t : Text) : lines t ≠ [] := by
  unfold lines
  split
  next => exact List.cons_ne_nil _ _
  next =>
    split_ifs
    · exact List.cons_ne_nil _ _
    · split <;> exact List.cons_ne_nil _ _

/-! ## Numerals, fractions and tempo marks -/

/-- A number in digits, with blanks around it. -/
def IsNumeral (t : Text) (n : Nat) : Prop :=
  ∃ front digits back : Text, t = front ++ (digits ++ back) ∧ front.allBlank ∧ digits ≠ [] ∧
    digits.all isDigit ∧ back.allBlank ∧ numeral digits = n

/-- A fraction: two numerals with a slash between them. -/
def IsFraction (t : Text) (n d : Nat) : Prop :=
  ∃ num den : Text, t = num ++ ('/' : CodePoint) :: den ∧ num.IsNumeral n ∧ den.IsNumeral d

/-- A fraction that is a number, since its denominator is not zero. -/
def IsRatio (t : Text) (q : Rat) : Prop :=
  ∃ n d : Nat, t.IsFraction n d ∧ d ≠ 0 ∧ q = n / d

/-- A tempo mark: a beat on the first line, an equals sign, and the number of these beats in a
minute. -/
def IsTempo (t : Text) (beat : Rat) (count : Nat) : Prop :=
  ∃ fraction number : Text, t = fraction ++ ('=' : CodePoint) :: number ∧ fraction.all inLine ∧
    fraction.IsRatio beat ∧ number.IsNumeral count

/-- A numeral is the digits that are split off, when nothing but blanks follows them. -/
theorem isNumeral_iff {n : Nat} : t.IsNumeral n ↔
    ∃ digits back : Text, (trimStart t).span isDigit = (digits, back) ∧ digits ≠ [] ∧
      back.allBlank ∧ numeral digits = n := by
  constructor
  · rintro ⟨front, digits, back, ht, hfront, hne, hall, hback, hn⟩
    exact ⟨digits, back, (span_trimStart hne).2 ⟨front, ht, hfront, hall, head_allBlank hback⟩,
      hne, hback, hn⟩
  · rintro ⟨digits, back, hspan, hne, hback, hn⟩
    obtain ⟨front, ht, hfront, hall, -⟩ := (span_trimStart hne).1 hspan
    exact ⟨front, digits, back, ht, hfront, hne, hall, hback, hn⟩

/-- There are only digits and blanks in a numeral. -/
theorem IsNumeral.notMem {n : Nat} {c : CodePoint} (h : t.IsNumeral n) (hblank : isBlank c = false)
    (hdigit : isDigit c = false) : c ∉ t := by
  obtain ⟨front, digits, back, rfl, hfront, -, hdigits, hback, -⟩ := h
  have hnot {p : CodePoint → Bool} {u : Text} (hu : u.all p) (hc : p c = false) : c ∉ u :=
    fun hmem => Bool.eq_false_iff.1 hc (List.all_eq_true.1 hu c hmem)
  simp only [List.mem_append, not_or]
  exact ⟨hnot hfront hblank, hnot hdigits hdigit, hnot hback hblank⟩

/-- A text is split into the digits before and after a slash one after the other. -/
theorem splitFraction?_eq_some {num den : Text} : splitFraction? t = some (num, den) ↔
    ∃ slash after back : Text, (trimStart t).span isDigit = (num, slash) ∧
      trimStart slash = ('/' : CodePoint) :: after ∧ (trimStart after).span isDigit = (den, back) ∧
      num ≠ [] ∧ den ≠ [] ∧ back.allBlank := by
  unfold splitFraction?
  dsimp only
  constructor
  · intro h
    split at h
    next after hslash =>
      split_ifs at h with hparts
      cases h
      simp only [Bool.or_eq_true, List.isEmpty_iff, Bool.not_eq_true', not_or,
        Bool.not_eq_false] at hparts
      exact ⟨_, after, _, rfl, hslash, rfl, hparts.1.1, hparts.1.2, hparts.2⟩
    next => cases h
  · rintro ⟨slash, after, back, hnum, hslash, hden, hne, hne', hback⟩
    simp only [hnum, hslash, hden]
    simp [hne, hne', hback]

/-- A fraction is split into its digits. -/
theorem isFraction_iff {n d : Nat} : t.IsFraction n d ↔
    ∃ num den, splitFraction? t = some (num, den) ∧ numeral num = n ∧ numeral den = d := by
  constructor
  · rintro ⟨num, den, rfl, ⟨front, digits, back, rfl, hfront, hne, hall, hback, hn⟩, hden⟩
    obtain ⟨digits', back', hspan', hne', hback', hd⟩ := isNumeral_iff.1 hden
    -- The first digits end at a blank or at the slash.
    have hslash : ∀ c ∈ (back ++ ('/' : CodePoint) :: den).head?, isDigit c = false := by
      cases back with
      | nil =>
        rintro c ⟨⟩
        decide +kernel
      | cons b back => exact head_allBlank (t := b :: back) hback
    have hspan : (trimStart (front ++ (digits ++ back) ++ ('/' : CodePoint) :: den)).span isDigit =
        (digits, back ++ ('/' : CodePoint) :: den) := by
      refine (span_trimStart hne).2 ⟨front, ?_, hfront, hall, hslash⟩
      simp only [List.append_assoc]
    have hafter := (trimStart_eq_cons (t := back ++ ('/' : CodePoint) :: den) rfl).2
      ⟨back, rfl, hback⟩
    exact ⟨digits, digits', splitFraction?_eq_some.2
      ⟨_, den, back', hspan, hafter, hspan', hne, hne', hback'⟩, hn, hd⟩
  · rintro ⟨num, den, h, hn, hd⟩
    obtain ⟨slash, after, back', hspan, hafter, hspan', hne, hne', hback'⟩ :=
      splitFraction?_eq_some.1 h
    obtain ⟨front, rfl, hfront, hall, -⟩ := (span_trimStart hne).1 hspan
    obtain ⟨back, rfl, hback⟩ := (trimStart_eq_cons rfl).1 hafter
    refine ⟨front ++ (num ++ back), after, ?_,
      ⟨front, num, back, rfl, hfront, hne, hall, hback, hn⟩,
      isNumeral_iff.2 ⟨den, back', hspan', hne', hback', hd⟩⟩
    simp only [List.append_assoc]

/-- A ratio is not negative. -/
theorem IsRatio.nonneg {q : Rat} (h : t.IsRatio q) : 0 ≤ q := by
  obtain ⟨n, d, -, -, rfl⟩ := h
  positivity

end Text

namespace Header

variable {t : Text}

/-- A field is read as a ratio if and only if it is one. -/
theorem readRat_eq_ok {q : Rat} : readRat t = .ok q ↔ t.IsRatio q := by
  rw [readRat, mapError_eq_ok]
  unfold readFraction
  constructor
  · intro h
    split at h
    next => cases h
    next num den hsplit =>
      split_ifs at h with hzero
      cases h
      exact ⟨_, _, Text.isFraction_iff.2 ⟨num, den, hsplit, rfl, rfl⟩, hzero,
        Rat.mkRat_eq_div _ _⟩
  · rintro ⟨n, d, hfraction, hzero, rfl⟩
    obtain ⟨num, den, hsplit, rfl, rfl⟩ := Text.isFraction_iff.1 hfraction
    rw [hsplit]
    dsimp only
    rw [if_neg hzero, Rat.mkRat_eq_div]
    rfl

/-- A field is one ratio only. -/
theorem isRatio_unique {q r : Rat} (hq : t.IsRatio q) (hr : t.IsRatio r) :
    q = r :=
  Except.ok.inj ((readRat_eq_ok.2 hq).symm.trans (readRat_eq_ok.2 hr))

/-- There is no tempo mark without an equals sign on the first line. -/
theorem splitTempo?_of_notMem (h : ('=' : CodePoint) ∉ t.takeWhile Text.inLine) :
    splitTempo? t = none := by
  have hall : (t.takeWhile Text.inLine).reverse.takeWhile (fun c : CodePoint => c != '=') =
      (t.takeWhile Text.inLine).reverse := by
    rw [List.takeWhile_eq_self_iff]
    intro c hc
    rw [bne_iff_ne]
    rintro rfl
    exact h (List.mem_reverse.1 hc)
  unfold splitTempo?
  simp only [hall, List.reverse_reverse, if_true]

/-- The last equals sign of the first line. -/
theorem exists_lastEquals (h : ('=' : CodePoint) ∈ t.takeWhile Text.inLine) :
    ∃ beat number : Text, t = beat ++ ('=' : CodePoint) :: number ∧ beat.all Text.inLine ∧
      ('=' : CodePoint) ∉ number.takeWhile Text.inLine := by
  -- It is the first one from the end.
  obtain ⟨after, before, hline, hafter⟩ := List.eq_append_cons_of_mem (List.mem_reverse.2 h)
  have hline : t.takeWhile Text.inLine = before.reverse ++ ('=' : CodePoint) :: after.reverse := by
    rw [← List.reverse_reverse (t.takeWhile Text.inLine), hline]
    simp
  have hall : (before.reverse ++ ('=' : CodePoint) :: after.reverse).all Text.inLine := by
    rw [← hline]
    exact List.all_takeWhile
  rw [List.all_append, List.all_cons, Bool.and_eq_true, Bool.and_eq_true] at hall
  have hrest : (t.dropWhile Text.inLine).takeWhile Text.inLine = [] := by
    cases hdrop : t.dropWhile Text.inLine with
    | nil => rfl
    | cons c rest =>
      have hc := Rule.head_dropWhile (p := Text.inLine) (t := t) c (by rw [hdrop]; rfl)
      exact List.takeWhile_cons_of_neg (Bool.eq_false_iff.1 hc)
  refine ⟨before.reverse, after.reverse ++ t.dropWhile Text.inLine, ?_, hall.1, ?_⟩
  · rw [← List.cons_append, ← List.append_assoc, ← hline, List.takeWhile_append_dropWhile]
  · rw [List.takeWhile_append_of_pos (List.all_eq_true.1 hall.2.2), hrest, List.append_nil]
    exact fun hmem => hafter (List.mem_reverse.1 hmem)

/-- A tempo mark is split at the last equals sign of the first line. -/
theorem splitTempo?_append {beat number : Text} (hbeat : beat.all Text.inLine)
    (hlast : ('=' : CodePoint) ∉ number.takeWhile Text.inLine) :
    splitTempo? (beat ++ ('=' : CodePoint) :: number) =
      let (digits, rest) := (Text.trimStart number).span isDigit
      if digits.isEmpty || !Text.allBlank rest then none
      else some (beat, Text.numeral digits) := by
  -- The beat has no newline, so the equals sign and what follows are on the first line too.
  have hline : (beat ++ ('=' : CodePoint) :: number).takeWhile Text.inLine =
      beat ++ ('=' : CodePoint) :: number.takeWhile Text.inLine := by
    rw [List.takeWhile_append_of_pos (List.all_eq_true.1 hbeat), List.takeWhile_cons_of_pos rfl]
  have hcount : (beat ++ ('=' : CodePoint) :: number.takeWhile Text.inLine).reverse.takeWhile
      (fun c : CodePoint => c != '=') = (number.takeWhile Text.inLine).reverse := by
    rw [List.reverse_append, List.reverse_cons, List.append_assoc, List.takeWhile_append_of_pos]
    · rw [List.singleton_append, List.takeWhile_cons_of_neg (by decide), List.append_nil]
    · intro c hc
      rw [bne_iff_ne]
      rintro rfl
      exact hlast (List.mem_reverse.1 hc)
  have hfront : (beat ++ ('=' : CodePoint) :: number.takeWhile Text.inLine).take
      ((beat ++ ('=' : CodePoint) :: number.takeWhile Text.inLine).length -
        (number.takeWhile Text.inLine).length - 1) = beat := by
    rw [List.length_append, List.length_cons, Nat.add_sub_assoc (Nat.le_succ _),
      Nat.succ_sub (Nat.le_refl _), Nat.sub_self, Nat.add_sub_cancel, List.take_left]
  have hback : number.takeWhile Text.inLine ++ (beat ++ ('=' : CodePoint) :: number).drop
      (beat ++ ('=' : CodePoint) :: number.takeWhile Text.inLine).length = number := by
    rw [List.length_append, List.length_cons, List.drop_length_add_append, List.drop_succ_cons]
    exact List.prefix_iff_eq_append.1 (List.takeWhile_prefix _)
  have hne : (number.takeWhile Text.inLine).length ≠
      (beat ++ ('=' : CodePoint) :: number.takeWhile Text.inLine).length := by
    rw [List.length_append, List.length_cons]
    omega
  unfold splitTempo?
  simp only [hline, hcount, List.reverse_reverse, if_neg hne, hfront, hback]

/-- A tempo mark is split into its beat and its number. -/
theorem splitTempo?_eq_some {beat : Text} {count : Nat} : splitTempo? t = some (beat, count) ↔
    ∃ number : Text, t = beat ++ ('=' : CodePoint) :: number ∧ beat.all Text.inLine ∧
      number.IsNumeral count := by
  constructor
  · intro h
    by_cases hmem : ('=' : CodePoint) ∈ t.takeWhile Text.inLine
    · obtain ⟨beat', number, rfl, hbeat, hlast⟩ := exists_lastEquals hmem
      rw [splitTempo?_append hbeat hlast] at h
      dsimp only at h
      split_ifs at h with hparts
      cases h
      simp only [Bool.or_eq_true, List.isEmpty_iff, Bool.not_eq_true', not_or,
        Bool.not_eq_false] at hparts
      exact ⟨number, rfl, hbeat, Text.isNumeral_iff.2 ⟨_, _, rfl, hparts.1, hparts.2, rfl⟩⟩
    · rw [splitTempo?_of_notMem hmem] at h
      cases h
  · rintro ⟨number, rfl, hbeat, hnumber⟩
    obtain ⟨digits, back, hspan, hne, hback, hcount⟩ := Text.isNumeral_iff.1 hnumber
    -- There is no equals sign in a numeral, so this is the last one.
    rw [splitTempo?_append hbeat fun hmem =>
      hnumber.notMem rfl (by decide +kernel) (List.takeWhile_subset _ hmem)]
    simp only [hspan]
    simp [hne, hback, hcount]

/-- A text is a tempo mark if and only if it is split into one. -/
theorem isTempo_iff {q : Rat} {count : Nat} : t.IsTempo q count ↔
    ∃ beat, splitTempo? t = some (beat, count) ∧ readRat beat = .ok q := by
  simp only [splitTempo?_eq_some, readRat_eq_ok]
  constructor
  · rintro ⟨beat, number, ht, hline, hbeat, hnumber⟩
    exact ⟨beat, ⟨number, ht, hline, hnumber⟩, hbeat⟩
  · rintro ⟨beat, ⟨number, ht, hline, hnumber⟩, hbeat⟩
    exact ⟨beat, number, ht, hline, hbeat, hnumber⟩

end Header

/-! ## Keys -/

namespace Key

/-- The list of keys is complete. -/
theorem mem_all (k : Key) : k ∈ all := by
  obtain ⟨mode, place⟩ := k
  cases mode
  · exact List.mem_append_left _ (List.mem_map_of_mem (List.mem_finRange place))
  · exact List.mem_append_right _ (List.mem_map_of_mem (List.mem_finRange place))

example : all.length = 30 := rfl

/-- No two keys have the same name. -/
theorem name_injective : Function.Injective name := by
  have hnames : ∀ k ∈ all, ∀ l ∈ all, k.name = l.name → k = l := by decide +kernel
  exact fun k l => hnames k k.mem_all l l.mem_all

/-- A text is read as a key if and only if it is its name, with blanks around it. -/
theorem read_eq_ok {t : Text} {k : Key} : read t = .ok k ↔ k.name = Text.trim t := by
  unfold read ofName?
  constructor
  · intro h
    split at h
    next l hfind =>
      cases h
      have hname := List.find?_some hfind
      exact eq_of_beq hname
    next => cases h
  · intro h
    split
    next l hfind =>
      have hname := List.find?_some hfind
      rw [name_injective ((eq_of_beq hname).trans h.symm)]
    next hnone => exact absurd (beq_iff_eq.2 h) (List.find?_eq_none.1 hnone k k.mem_all)

end Key

end SingAlong

import SingAlong.Proofs.FieldTexts

/-!
# The texts of length suffixes

Which texts are read as the length suffix of a note or rest, and as which factor. `Text.IsSuffix`
lists the six forms of a suffix. The reader accepts them, with blanks around their parts, and one
form more: two numerals with nothing but blanks between them, of which it drops the second
(`Text.IsNumeralPair`). All other texts are refused (`readSuffix_texts`).

Which parts a text is split into is decided by its shape (`LengthSuffix.ofText?_eq_some`), in terms
of the digits on one side of the slash, with the blanks around them (`Text.IsSide`).
-/

namespace SingAlong

namespace Text

/-- A length suffix, and the factor that it stands for. There may be blanks around its parts. -/
inductive IsSuffix : Text → Rat → Prop where
  | empty {t : Text} (ht : t.allBlank) : IsSuffix t 1
  | half {num den : Text} (hnum : num.allBlank) (hden : den.allBlank) :
    IsSuffix (num ++ ('/' : CodePoint) :: den) (1 / 2)
  | part {num den : Text} {d : Nat} (hnum : num.allBlank) (hden : den.IsNumeral d) (hd : d ≠ 0) :
    IsSuffix (num ++ ('/' : CodePoint) :: den) (1 / d)
  | multiple {t : Text} {n : Nat} (ht : t.IsNumeral n) : IsSuffix t n
  | halves {num den : Text} {n : Nat} (hnum : num.IsNumeral n) (hden : den.allBlank) :
    IsSuffix (num ++ ('/' : CodePoint) :: den) (n / 2)
  | ratio {num den : Text} {n d : Nat} (hnum : num.IsNumeral n) (hden : den.IsNumeral d)
    (hd : d ≠ 0) : IsSuffix (num ++ ('/' : CodePoint) :: den) (n / d)

/-- A suffix that divides by zero: the digits after its slash are the number zero. -/
def IsZeroSuffix (t : Text) : Prop :=
  ∃ num den : Text, t = num ++ ('/' : CodePoint) :: den ∧
    (num.allBlank ∨ ∃ n, num.IsNumeral n) ∧ den.IsNumeral 0

/-- Two numerals with blanks between them, by the number of the first. -/
def IsNumeralPair (t : Text) (n : Nat) : Prop :=
  ∃ (first second : Text) (c : CodePoint) (m : Nat), t = first ++ c :: second ∧ isBlank c ∧
    first.IsNumeral n ∧ second.IsNumeral m

/-! ## The sides of a suffix -/

/-- The digits on one side of the slash, if there are any, with the blanks around them. -/
def IsSide (t digits : Text) : Prop :=
  ∃ front back : Text, t = front ++ (digits ++ back) ∧ front.allBlank ∧ digits.all isDigit ∧
    back.allBlank

section Side

variable {t digits rest : Text}

/-- A side without digits is blank. -/
theorem isSide_nil : t.IsSide [] ↔ t.allBlank := by
  constructor
  · rintro ⟨front, back, rfl, hfront, -, hback⟩
    rw [List.nil_append, allBlank, List.all_append, Bool.and_eq_true]
    exact ⟨hfront, hback⟩
  · intro h
    exact ⟨t, [], (List.append_nil t).symm, h, rfl, rfl⟩

/-- A side with digits is a numeral. -/
theorem isNumeral_iff_isSide {n : Nat} :
    t.IsNumeral n ↔ ∃ digits, t.IsSide digits ∧ digits ≠ [] ∧ numeral digits = n := by
  constructor
  · rintro ⟨front, digits, back, ht, hfront, hne, hdigits, hback, hn⟩
    exact ⟨digits, ⟨front, back, ht, hfront, hdigits, hback⟩, hne, hn⟩
  · rintro ⟨digits, ⟨front, back, ht, hfront, hdigits, hback⟩, hne, hn⟩
    exact ⟨front, digits, back, ht, hfront, hne, hdigits, hback, hn⟩

/-- The digits of a side are its own when there are no blanks. -/
theorem isSide_self (h : t.all isDigit) : t.IsSide t :=
  ⟨[], [], (List.append_nil t).symm, rfl, h, rfl⟩

/-- Nothing is left of blanks. -/
theorem allBlank_iff : t.allBlank ↔ trimStart t = [] :=
  List.all_eq_true.trans List.dropWhile_eq_nil_iff.symm

/-- Blanks are dropped up to the first other character. -/
theorem trimStart_append (ht : t.allBlank) (hrest : ∀ c ∈ rest.head?, isBlank c = false) :
    trimStart (t ++ rest) = rest := by
  cases rest with
  | nil =>
    rw [List.append_nil]
    exact allBlank_iff.1 ht
  | cons c rest => exact (trimStart_eq_cons (hrest c rfl)).2 ⟨t, rfl, ht⟩

/-- The digits of a side are split from the blanks before them and from what follows the side, which
neither is blank nor begins with a digit. -/
theorem IsSide.span (h : t.IsSide digits)
    (hrest : ∀ c ∈ rest.head?, isBlank c = false ∧ isDigit c = false) :
    ∃ back : Text, (trimStart (t ++ rest)).span isDigit = (digits, back) ∧
      trimStart back = rest := by
  obtain ⟨front, back, rfl, hfront, hdigits, hback⟩ := h
  have hblank : ∀ c ∈ rest.head?, isBlank c = false := fun c hc => (hrest c hc).1
  by_cases hne : digits = []
  · -- All blanks are in front of the digits that are missing.
    have hall : (front ++ back).allBlank := by
      rw [allBlank, List.all_append, Bool.and_eq_true]
      exact ⟨hfront, hback⟩
    subst hne
    rw [List.nil_append, trimStart_append hall hblank]
    exact ⟨rest, span_eq_iff.2 ⟨rfl, rfl, fun c hc => (hrest c hc).2⟩,
      trimStart_append (t := []) rfl hblank⟩
  · refine ⟨back ++ rest, (span_trimStart hne).2 ⟨front, ?_, hfront, hdigits, ?_⟩,
      trimStart_append hback hblank⟩
    · rw [List.append_assoc, List.append_assoc]
    · intro c hc
      cases back with
      | nil => exact (hrest c hc).2
      | cons b back => exact head_allBlank hback c hc

/-- The digits that are split off are those of a side. What follows the side is not blank, and it
begins with a digit only when the side has digits of its own and ends with blanks. -/
theorem exists_side (t : Text) : ∃ digits back side rest : Text,
    (trimStart t).span isDigit = (digits, back) ∧ trimStart back = rest ∧ t = side ++ rest ∧
      side.IsSide digits ∧ ∀ c ∈ rest.head?, isBlank c = false ∧ (isDigit c → digits ≠ [] ∧
        ∃ (first gap : Text) (b : CodePoint), side = first ++ b :: gap ∧ isBlank b ∧ gap.allBlank ∧
          first.IsSide digits) := by
  obtain ⟨digits, back, hspan⟩ : ∃ digits back, (trimStart t).span isDigit = (digits, back) :=
    ⟨_, _, rfl⟩
  obtain ⟨htrim, hdigits, hback⟩ := span_eq_iff.1 hspan
  have hfront : t = t.takeWhile isBlank ++ trimStart t := List.takeWhile_append_dropWhile.symm
  have hgap : back = back.takeWhile isBlank ++ trimStart back :=
    List.takeWhile_append_dropWhile.symm
  have hblank : allBlank (t.takeWhile isBlank) := List.all_takeWhile
  have hrest : ∀ c ∈ (trimStart back).head?, isBlank c = false := Rule.head_dropWhile
  refine ⟨digits, back, t.takeWhile isBlank ++ (digits ++ back.takeWhile isBlank), trimStart back,
    hspan, rfl, ?_, ⟨_, _, rfl, hblank, hdigits, List.all_takeWhile⟩, fun c hc => ⟨hrest c hc, ?_⟩⟩
  · rw [List.append_assoc, List.append_assoc, ← hgap, ← htrim, ← hfront]
  · -- Between the digits and a digit there must be a blank, since all digits are split off.
    intro hdigit
    cases hgap' : back.takeWhile isBlank with
    | nil =>
      rw [hgap', List.nil_append] at hgap
      rw [← hgap] at hc
      exact absurd hdigit (Bool.eq_false_iff.1 (hback c hc))
    | cons b gap =>
      have hall : (b :: gap).all isBlank := hgap' ▸ List.all_takeWhile
      rw [List.all_cons, Bool.and_eq_true] at hall
      refine ⟨?_, t.takeWhile isBlank ++ digits, gap, b, (List.append_assoc _ _ _).symm, hall.1,
        hall.2, _, [], by rw [List.append_nil], hblank, hdigits, rfl⟩
      -- Without digits all blanks have been dropped before.
      rintro rfl
      rw [hgap', List.cons_append] at hgap
      have hhead := Rule.head_dropWhile (p := isBlank) (t := t) b
      change b ∈ (trimStart t).head? → _ at hhead
      rw [htrim, List.nil_append, hgap] at hhead
      rw [hhead rfl] at hall
      exact absurd hall.1 Bool.false_ne_true

end Side

end Text

/-! ## Splitting a suffix -/

namespace LengthSuffix

/-- The texts that are split into these parts. Without a slash there are digits on one side only,
unless there are blanks between two numerals. -/
inductive Spelled : LengthSuffix → Text → Prop where
  | single {t num : Text} (ht : t.IsSide num) : Spelled ⟨num, false, []⟩ t
  | pair {first second num den : Text} {c : CodePoint} (hfirst : first.IsSide num)
    (hc : isBlank c) (hsecond : second.IsSide den) (hnum : num ≠ []) (hden : den ≠ []) :
    Spelled ⟨num, false, den⟩ (first ++ c :: second)
  | slash {left right num den : Text} (hleft : left.IsSide num) (hright : right.IsSide den) :
    Spelled ⟨num, true, den⟩ (left ++ ('/' : CodePoint) :: right)

variable {t : Text} {s : LengthSuffix}

/-- A text with a slash after the digits is split there. -/
theorem ofText?_of_slash {num back after den rest : Text}
    (hnum : (Text.trimStart t).span isDigit = (num, back))
    (hslash : Text.trimStart back = ('/' : CodePoint) :: after)
    (hden : (Text.trimStart after).span isDigit = (den, rest)) :
    ofText? t = if Text.allBlank rest then some ⟨num, true, den⟩ else none := by
  unfold ofText?
  simp only [hnum, hslash, hden]

/-- A text without a slash after the digits is split after the blanks there. -/
theorem ofText?_of_noSlash {num back den rest : Text}
    (hnum : (Text.trimStart t).span isDigit = (num, back))
    (hslash : ∀ after, Text.trimStart back ≠ ('/' : CodePoint) :: after)
    (hden : (Text.trimStart back).span isDigit = (den, rest)) :
    ofText? t = if Text.allBlank rest then some ⟨num, false, den⟩ else none := by
  unfold ofText?
  simp only [hnum, hden]

/-- A text with these parts is split into them. -/
theorem Spelled.ofText? (h : s.Spelled t) : ofText? t = some s := by
  -- Nothing follows the last side.
  have hlast {right den : Text} (hright : right.IsSide den) :
      ∃ rest : Text, (Text.trimStart right).span isDigit = (den, rest) ∧ rest.allBlank := by
    have hnil : ∀ c ∈ ([] : Text).head?, isBlank c = false ∧ isDigit c = false := nofun
    obtain ⟨rest, hspan, hrest⟩ := hright.span hnil
    rw [List.append_nil] at hspan
    exact ⟨rest, hspan, Text.allBlank_iff.2 hrest⟩
  have hslash (right : Text) : ∀ c ∈ (('/' : CodePoint) :: right).head?,
      isBlank c = false ∧ isDigit c = false := by
    rintro c ⟨⟩
    decide +kernel
  cases h with
  | single ht =>
    obtain ⟨rest, hspan, hrest⟩ := hlast ht
    have htrim := Text.allBlank_iff.1 hrest
    rw [ofText?_of_noSlash hspan (by rw [htrim]; exact fun _ => nofun) (by rw [htrim])]
    rfl
  | @pair first second num den c hfirst hc hsecond hnum hden =>
    obtain ⟨front, back, rfl, hfront, hdigits, hback⟩ := hfirst
    obtain ⟨front', back', rfl, hfront', hdigits', hback'⟩ := hsecond
    -- All blanks between the numerals are dropped.
    have hgap : Text.allBlank (back ++ c :: front') := by
      simp only [Text.allBlank, List.all_append, List.all_cons, Bool.and_eq_true]
      exact ⟨hback, hc, hfront'⟩
    have hhead : ∀ b ∈ (den ++ back').head?, isDigit b := by
      intro b hb
      rw [List.head?_append_of_ne_nil _ hden] at hb
      exact List.all_eq_true.1 hdigits' b (List.mem_of_mem_head? hb)
    have htrim : Text.trimStart (back ++ c :: front' ++ (den ++ back')) = den ++ back' :=
      Text.trimStart_append hgap fun b hb => isBlank_of_isDigit (hhead b hb)
    have hspan : (Text.trimStart (front ++ (num ++ back) ++ c :: (front' ++ (den ++ back')))).span
        isDigit = (num, back ++ c :: front' ++ (den ++ back')) := by
      refine (Text.span_trimStart hnum).2 ⟨front, by simp, hfront, hdigits, fun b hb => ?_⟩
      refine Text.head_allBlank hgap b ?_
      rwa [List.head?_append_of_ne_nil _ (by simp)] at hb
    have hspan' : (den ++ back' : Text).span isDigit = (den, back') :=
      Text.span_eq_iff.2 ⟨rfl, hdigits', Text.head_allBlank hback'⟩
    rw [ofText?_of_noSlash hspan, if_pos hback']
    · intro after hafter
      rw [htrim] at hafter
      exact absurd (hhead _ (by rw [hafter]; rfl)) (by decide +kernel)
    · rw [htrim, hspan']
  | @slash left right num den hleft hright =>
    obtain ⟨back, hspan, hback⟩ := hleft.span (hslash right)
    obtain ⟨rest, hspan', hrest⟩ := hlast hright
    rw [ofText?_of_slash hspan hback hspan', if_pos hrest]

/-- A text is split into parts only when it has them. -/
theorem spelled_of_ofText? (h : LengthSuffix.ofText? t = some s) : s.Spelled t := by
  obtain ⟨num, back, side, rest, hnum, hrest, rfl, hside, hhead⟩ := Text.exists_side t
  by_cases hslash : ∃ after, rest = ('/' : CodePoint) :: after
  · obtain ⟨after, rfl⟩ := hslash
    obtain ⟨den, back', side', rest', hden, hrest', rfl, hside', -⟩ := Text.exists_side after
    rw [ofText?_of_slash hnum hrest hden] at h
    split_ifs at h with hblank
    cases h
    obtain rfl : rest' = [] := hrest'.symm.trans (Text.allBlank_iff.1 hblank)
    rw [List.append_nil]
    exact .slash hside hside'
  · obtain ⟨den, back', side', rest', hden, hrest', rfl, hside', -⟩ := Text.exists_side rest
    have htrim : Text.trimStart (side' ++ rest') = side' ++ rest' :=
      Text.trimStart_append (t := []) rfl fun c hc => (hhead c hc).1
    rw [htrim] at hden
    have hnone (after : Text) : Text.trimStart back ≠ ('/' : CodePoint) :: after := by
      rw [hrest]
      exact fun h => hslash ⟨after, h⟩
    rw [ofText?_of_noSlash hnum hnone (hrest ▸ hden)] at h
    split_ifs at h with hblank
    cases h
    obtain rfl : rest' = [] := hrest'.symm.trans (Text.allBlank_iff.1 hblank)
    rw [List.append_nil] at htrim hhead ⊢
    rcases eq_or_ne den [] with rfl | hne
    · obtain rfl : side' = [] := htrim.symm.trans (Text.allBlank_iff.1 (Text.isSide_nil.1 hside'))
      rw [List.append_nil]
      exact .single hside
    · -- What follows the first side begins with a digit, so there are blanks before it.
      obtain ⟨front', back', rfl, hfront', hdigits', hback'⟩ := hside'
      obtain rfl : front' = [] := by
        cases front' with
        | nil => rfl
        | cons c front' =>
          rw [Text.allBlank, List.all_cons, Bool.and_eq_true, (hhead c rfl).1] at hfront'
          exact absurd hfront'.1 Bool.false_ne_true
      obtain ⟨c, digits, rfl⟩ := List.exists_cons_of_ne_nil hne
      have hc : isDigit c := List.all_eq_true.1 hdigits' c List.mem_cons_self
      obtain ⟨hnum', first, gap, b, rfl, hb, hgap, hfirst⟩ := (hhead c rfl).2 hc
      rw [List.append_assoc, List.cons_append]
      exact .pair hfirst hb ⟨gap, back', rfl, hgap, hdigits', hback'⟩ hnum' hne

/-- The texts that are split into some parts. -/
theorem ofText?_eq_some : LengthSuffix.ofText? t = some s ↔ s.Spelled t :=
  ⟨spelled_of_ofText?, Spelled.ofText?⟩

end LengthSuffix

/-! ## Reading a suffix -/

section Results

variable {t : Text}

/-- A text is read as a factor, or it is refused because it divides by zero or is no length
suffix. -/
theorem readSuffix_result (t : Text) : (∃ q, readSuffix t = .ok q) ∨
    readSuffix t = .error (.zeroDenominator t) ∨ readSuffix t = .error (.invalidLength t) := by
  unfold readSuffix
  split
  next => exact .inr (.inr rfl)
  next =>
    split
    next => exact .inr (.inl rfl)
    next q _ => exact .inl ⟨q, rfl⟩

/-- A text is read as the factor of its parts. -/
theorem readSuffix_eq_ok {q : Rat} :
    readSuffix t = .ok q ↔ ∃ s : LengthSuffix, s.Spelled t ∧ s.factor? = some q := by
  simp only [← LengthSuffix.ofText?_eq_some]
  unfold readSuffix
  cases LengthSuffix.ofText? t with
  | none => simp
  | some s => cases hfactor : s.factor? <;> simp [hfactor]

/-- A text divides by zero when its parts have no factor. -/
theorem readSuffix_eq_zeroDenominator :
    readSuffix t = .error (.zeroDenominator t) ↔
      ∃ s : LengthSuffix, s.Spelled t ∧ s.factor? = none := by
  simp only [← LengthSuffix.ofText?_eq_some]
  unfold readSuffix
  cases LengthSuffix.ofText? t with
  | none => simp
  | some s => cases hfactor : s.factor? <;> simp [hfactor]

end Results

/-- The number of one side of the slash: that of its digits, or the one that a blank side stands
for. -/
def Text.IsOperand (blank : Nat) (t : Text) (n : Nat) : Prop :=
  t.allBlank ∧ n = blank ∨ t.IsNumeral n

section Reading

variable {t : Text} {q : Rat}

/-- The number that the digits of a side are read as. -/
def sideValue (blank : Nat) (digits : Text) : Nat :=
  if digits.isEmpty then blank else Text.numeral digits

/-- The number of a side is read from its digits. -/
theorem isOperand_iff {blank n : Nat} :
    t.IsOperand blank n ↔ ∃ digits, t.IsSide digits ∧ sideValue blank digits = n := by
  unfold Text.IsOperand sideValue
  constructor
  · rintro (⟨ht, rfl⟩ | ht)
    · exact ⟨[], Text.isSide_nil.2 ht, rfl⟩
    · obtain ⟨digits, hside, hne, hn⟩ := Text.isNumeral_iff_isSide.1 ht
      exact ⟨digits, hside, by rwa [if_neg (by rwa [List.isEmpty_iff])]⟩
  · rintro ⟨digits, hside, hn⟩
    split_ifs at hn with hempty
    · rw [List.isEmpty_iff] at hempty
      exact .inl ⟨Text.isSide_nil.1 (hempty ▸ hside), hn.symm⟩
    · rw [List.isEmpty_iff] at hempty
      exact .inr (Text.isNumeral_iff_isSide.2 ⟨digits, hside, hempty, hn⟩)

/-- A length suffix is one number, or two with a slash between them. -/
theorem isSuffix_iff : t.IsSuffix q ↔ (∃ n : Nat, t.IsOperand 1 n ∧ q = n) ∨
    ∃ (num den : Text) (n d : Nat), t = num ++ ('/' : CodePoint) :: den ∧ num.IsOperand 1 n ∧
      den.IsOperand 2 d ∧ d ≠ 0 ∧ q = n / d := by
  constructor
  · intro h
    cases h with
    | empty ht => exact .inl ⟨1, .inl ⟨ht, rfl⟩, Nat.cast_one.symm⟩
    | multiple ht => exact .inl ⟨_, .inr ht, rfl⟩
    | half hnum hden =>
      exact .inr ⟨_, _, 1, 2, rfl, .inl ⟨hnum, rfl⟩, .inl ⟨hden, rfl⟩, two_ne_zero, by norm_num⟩
    | part hnum hden hd =>
      exact .inr ⟨_, _, 1, _, rfl, .inl ⟨hnum, rfl⟩, .inr hden, hd, by norm_num⟩
    | halves hnum hden =>
      exact .inr ⟨_, _, _, 2, rfl, .inr hnum, .inl ⟨hden, rfl⟩, two_ne_zero, by norm_num⟩
    | ratio hnum hden hd => exact .inr ⟨_, _, _, _, rfl, .inr hnum, .inr hden, hd, rfl⟩
  · rintro (⟨n, ⟨ht, rfl⟩ | ht, rfl⟩ | ⟨num, den, n, d, rfl, ⟨hnum, rfl⟩ | hnum, hden, hd, rfl⟩)
    · rw [Nat.cast_one]
      exact .empty ht
    · exact .multiple ht
    · rw [Nat.cast_one]
      obtain ⟨hden, rfl⟩ | hden := hden
      · exact .half hnum hden
      · exact .part hnum hden hd
    · obtain ⟨hden, rfl⟩ | hden := hden
      · exact .halves hnum hden
      · exact .ratio hnum hden hd

/-- The factor of the parts of a suffix is the ratio of the two numbers, or the first number when
there is no slash. -/
theorem LengthSuffix.factor?_eq (s : LengthSuffix) : s.factor? =
    if s.slash then
      if sideValue 2 s.denominator = 0 then none
      else some (sideValue 1 s.numerator / sideValue 2 s.denominator : Rat)
    else some (sideValue 1 s.numerator : Rat) := by
  unfold factor? sideValue
  dsimp only
  split_ifs <;> simp [Rat.mkRat_eq_div]

/-- The digits of a side that are there are its number. -/
theorem sideValue_of_ne_nil (blank : Nat) {digits : Text} (h : digits ≠ []) :
    sideValue blank digits = Text.numeral digits :=
  if_neg (mt List.isEmpty_iff.1 h)

/-- The parts of a text give its factor as a suffix, or the first of two numerals. -/
theorem exists_factor : (∃ s : LengthSuffix, s.Spelled t ∧ s.factor? = some q) ↔
    t.IsSuffix q ∨ ∃ n : Nat, t.IsNumeralPair n ∧ q = n := by
  rw [isSuffix_iff]
  simp only [isOperand_iff, LengthSuffix.factor?_eq]
  constructor
  · rintro ⟨s, hspelled, hfactor⟩
    cases hspelled with
    | single ht =>
      cases hfactor
      exact .inl (.inl ⟨_, ⟨_, ht, rfl⟩, rfl⟩)
    | pair hfirst hc hsecond hnum hden =>
      cases hfactor
      have hvalue := Text.isNumeral_iff_isSide.2
        ⟨_, hfirst, hnum, (sideValue_of_ne_nil 1 hnum).symm⟩
      have hdropped := Text.isNumeral_iff_isSide.2 ⟨_, hsecond, hden, rfl⟩
      exact .inr ⟨_, ⟨_, _, _, _, rfl, hc, hvalue, hdropped⟩, rfl⟩
    | slash hleft hright =>
      rw [if_pos rfl] at hfactor
      split_ifs at hfactor with hzero
      cases hfactor
      exact .inl (.inr ⟨_, _, _, _, rfl, ⟨_, hleft, rfl⟩, ⟨_, hright, rfl⟩, hzero, rfl⟩)
  · rintro ((⟨n, ⟨digits, ht, rfl⟩, rfl⟩ |
      ⟨left, right, n, d, rfl, ⟨num, hleft, rfl⟩, ⟨den, hright, rfl⟩, hd, rfl⟩) |
      ⟨n, ⟨first, second, c, m, rfl, hc, hfirst, hsecond⟩, rfl⟩)
    · exact ⟨_, .single ht, rfl⟩
    · refine ⟨_, .slash hleft hright, ?_⟩
      rw [if_pos rfl, if_neg hd]
    · obtain ⟨num, hnum, hne, rfl⟩ := Text.isNumeral_iff_isSide.1 hfirst
      obtain ⟨den, hden, hne', -⟩ := Text.isNumeral_iff_isSide.1 hsecond
      refine ⟨_, .pair hnum hc hden hne hne', ?_⟩
      rw [if_neg Bool.false_ne_true, sideValue_of_ne_nil 1 hne]

/-- The parts of a text have no factor when it divides by zero. -/
theorem exists_noFactor :
    (∃ s : LengthSuffix, s.Spelled t ∧ s.factor? = none) ↔ t.IsZeroSuffix := by
  simp only [LengthSuffix.factor?_eq]
  constructor
  · rintro ⟨s, hspelled, hfactor⟩
    cases hspelled with
    | single ht => cases hfactor
    | pair hfirst hc hsecond hnum hden => cases hfactor
    | slash hleft hright =>
      rw [if_pos rfl] at hfactor
      split_ifs at hfactor with hzero
      have hnum : Text.IsOperand 1 _ _ := isOperand_iff.2 ⟨_, hleft, rfl⟩
      refine ⟨_, _, rfl, hnum.imp And.left fun h => ⟨_, h⟩, ?_⟩
      obtain ⟨-, htwo⟩ | hnumeral := isOperand_iff.2 ⟨_, hright, hzero⟩
      · cases htwo
      · exact hnumeral
  · rintro ⟨left, right, rfl, hleft, hright⟩
    obtain ⟨n, hoperand⟩ : ∃ n, left.IsOperand 1 n := by
      rcases hleft with hblank | ⟨n, hn⟩
      · exact ⟨1, .inl ⟨hblank, rfl⟩⟩
      · exact ⟨n, .inr hn⟩
    obtain ⟨num, hnum, -⟩ := isOperand_iff.1 hoperand
    obtain ⟨den, hden, hzero⟩ := isOperand_iff.1 (Or.inr hright : right.IsOperand 2 0)
    refine ⟨_, .slash hnum hden, ?_⟩
    rw [if_pos rfl, if_pos hzero]

/-- A text is read as a length suffix when it has one of the six forms, with blanks around its
parts, and then as the factor that this form stands for. Two numerals with blanks between them are
read as well, as the first of the two. A suffix whose denominator is the number zero is refused, as
is every other text. -/
theorem readSuffix_texts (t : Text) :
    (∀ q, readSuffix t = .ok q ↔ t.IsSuffix q ∨ ∃ n : Nat, t.IsNumeralPair n ∧ q = n) ∧
      (readSuffix t = .error (.zeroDenominator t) ↔ t.IsZeroSuffix) ∧
      (readSuffix t = .error (.invalidLength t) ↔
        ¬t.IsZeroSuffix ∧ ∀ q, ¬t.IsSuffix q ∧ ∀ n, ¬t.IsNumeralPair n) := by
  have hok (q : Rat) := readSuffix_eq_ok.trans (exists_factor (t := t) (q := q))
  have hzero := readSuffix_eq_zeroDenominator.trans (exists_noFactor (t := t))
  refine ⟨hok, hzero, fun h => ⟨fun hz => ?_, fun q => ⟨fun hs => ?_, fun n hn => ?_⟩⟩, ?_⟩
  · rw [hzero.2 hz] at h
    cases h
  · rw [(hok q).2 (.inl hs)] at h
    cases h
  · rw [(hok n).2 (.inr ⟨n, hn, rfl⟩)] at h
    cases h
  · rintro ⟨hz, hs⟩
    rcases readSuffix_result t with ⟨q, hq⟩ | h | h
    · obtain hsuffix | ⟨n, hn, -⟩ := (hok q).1 hq
      · exact absurd hsuffix (hs q).1
      · exact absurd hn ((hs q).2 n)
    · exact absurd (hzero.1 h) hz
    · exact h

/-- Two numerals with a blank between them are read, though they are no length suffix. -/
theorem readSuffix_numeralPair :
    readSuffix "3 4".text = .ok 3 ∧ ∀ q, ¬("3 4".text).IsSuffix q := by
  refine ⟨by decide +kernel, fun q h => ?_⟩
  rcases isSuffix_iff.1 h with ⟨n, ⟨hblank, -⟩ | hnumeral, -⟩ | ⟨num, den, n, d, ht, -⟩
  · exact absurd hblank (by decide +kernel)
  · obtain ⟨digits, back, hspan, -, hback, -⟩ := Text.isNumeral_iff.1 hnumeral
    have hsplit : (Text.trimStart "3 4".text).span isDigit =
        ("3".text, " 4".text) := by
      decide +kernel
    obtain ⟨-, rfl⟩ := Prod.mk.inj (hspan.symm.trans hsplit)
    exact absurd hback (by decide +kernel)
  · have hslash : ('/' : CodePoint) ∈ "3 4".text := ht ▸ List.mem_append_right _ List.mem_cons_self
    exact absurd hslash (by decide +kernel)

end Reading

end SingAlong

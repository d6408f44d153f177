import Mathlib.Algebra.Order.Field.Power
import Mathlib.Algebra.Order.Field.Rat
import Mathlib.Data.Nat.Log
import Mathlib.Order.WithBot
import Mathlib.Tactic.Linarith
import Mathlib.Tactic.NormNum
import Mathlib.Tactic.Positivity
import Mathlib.Tactic.Ring
import SingAlong.Beats

/-!
# Rounding to double precision

Beats that are not exact are rounded, each time that a length is added to them. Rounding keeps the
order of fractions (`Binary64.ofRat_mono`), and what is rounded once is not changed by rounding it
again (`Binary64.place_ofRat_idem`). So a number that is not negative, added to a rounded one, does
not lead back (`Binary64.le_add`), and beats that lengths are added to never fall below the nearest
number to the beat they started from (`Beats.add?_atLeast`).

`Binary64.Rounds` says what a fraction is rounded to, apart from how it is computed: the multiple of
a power of two that is nearest (`IsNearest`), where the power leaves 53 binary digits
(`Binary64.Fits`). `Binary64.place_ofRat` says that this is what the computation gives, up to the
infinities for what is too large and the sign.
-/

namespace SingAlong

/-! ## Rounding to natural numbers -/

/-- The natural number is nearest to the fraction, and it is even if another one is as near. -/
structure IsNearest (x : Rat) (n : Nat) : Prop where
  below : n - 1 / 2 ≤ x
  above : x ≤ n + 1 / 2
  even : x = n - 1 / 2 ∨ x = n + 1 / 2 → n % 2 = 0

/-- Rounding to the nearest natural number keeps the order. -/
theorem IsNearest.mono {x y : Rat} {m n : Nat} (hm : IsNearest x m) (hn : IsNearest y n)
    (h : x ≤ y) : m ≤ n := by
  by_contra hlt
  have hnext : ((n + 1 : Nat) : Rat) ≤ m := Nat.cast_le.2 (not_le.1 hlt)
  push_cast at hnext
  -- Then both fractions stand half-way between the two numbers, which are not both even.
  have hbelow := hm.below
  have habove := hn.above
  have hx : x = m - 1 / 2 := by linarith
  have hy : y = n + 1 / 2 := by linarith
  have heven := hm.even (.inl hx)
  have heven' := hn.even (.inr hy)
  have hstep : m = n + 1 := by
    have : (m : Rat) = (n + 1 : Nat) := by push_cast; linarith
    exact_mod_cast this
  omega

/-- A natural number is nearest to itself. -/
theorem isNearest_self (n : Nat) : IsNearest n n where
  below := by linarith
  above := by linarith
  even h := by rcases h with h | h <;> linarith

/-- No other natural number is nearest to a natural number. -/
theorem IsNearest.eq {m n : Nat} (h : IsNearest n m) : m = n :=
  le_antisymm (h.mono (isNearest_self n) le_rfl) ((isNearest_self n).mono h le_rfl)

/-- A rounded quotient is nearest to the quotient. -/
theorem isNearest_roundDiv (a : Nat) {b : Nat} (hb : 0 < b) : IsNearest (a / b) (roundDiv a b) := by
  have hb' : (0 : Rat) < b := Nat.cast_pos.2 hb
  -- The quotient is what the division gives and the part of `b` that is left over.
  have hsplit : (a : Rat) / b = (a / b : Nat) + (a % b : Nat) / b := by
    rw [div_eq_iff hb'.ne', add_mul, div_mul_cancel₀ _ hb'.ne']
    exact_mod_cast (Nat.div_add_mod' a b).symm
  have hdown : 2 * (a % b) < b ↔ ((a % b : Nat) : Rat) / b < 1 / 2 := by
    rw [← Nat.cast_lt (α := Rat), div_lt_iff₀ hb']
    push_cast
    constructor <;> intro h <;> linarith
  have hup : b < 2 * (a % b) ↔ 1 / 2 < ((a % b : Nat) : Rat) / b := by
    rw [← Nat.cast_lt (α := Rat), lt_div_iff₀ hb']
    push_cast
    constructor <;> intro h <;> linarith
  have hzero : 0 ≤ ((a % b : Nat) : Rat) / b := by positivity
  have hone : ((a % b : Nat) : Rat) / b < 1 :=
    (div_lt_one hb').2 (Nat.cast_lt.2 (Nat.mod_lt a hb))
  rw [hsplit]
  unfold roundDiv
  dsimp only
  generalize ((a % b : Nat) : Rat) / b = t at *
  split_ifs with h h'
  · have := hdown.1 h
    exact ⟨by linarith, by linarith, by rintro (h | h) <;> linarith⟩
  · have := hup.1 h'
    constructor
    · push_cast
      linarith
    · push_cast
      linarith
    · push_cast
      rintro (h | h) <;> linarith
  · have hmiddle : t = 1 / 2 := le_antisymm (not_lt.1 (hup.not.1 h')) (not_lt.1 (hdown.not.1 h))
    subst hmiddle
    rcases Nat.mod_two_eq_zero_or_one (a / b) with heven | hodd
    · rw [heven, Nat.add_zero]
      exact ⟨by linarith, by linarith, fun _ => heven⟩
    · rw [hodd]
      constructor
      · push_cast
        linarith
      · push_cast
        linarith
      · intro _
        omega

/-! ## Exponents -/

/-- A power of two as a fraction. -/
theorem powerFraction_two (e : Int) : 0 < (powerFraction 2 e).1 ∧ 0 < (powerFraction 2 e).2 ∧
    ((powerFraction 2 e).1 : Rat) / (powerFraction 2 e).2 = 2 ^ e := by
  unfold powerFraction
  split_ifs with he
  · obtain ⟨n, rfl⟩ := Int.eq_ofNat_of_zero_le he
    refine ⟨Nat.pow_pos two_pos, one_pos, ?_⟩
    simp
  · obtain ⟨n, hn⟩ := Int.eq_ofNat_of_zero_le (neg_nonneg.2 (not_le.1 he).le)
    obtain rfl : e = -n := by omega
    refine ⟨one_pos, Nat.pow_pos two_pos, ?_⟩
    simp

namespace Binary64

/-- The exponent leaves at most 53 binary digits of the fraction before the point, and as many
unless it is the least one. -/
structure Fits (x : Rat) (e : Int) : Prop where
  least : minExponent ≤ e
  lt : x < 2 ^ (53 + e)
  le : minExponent < e → 2 ^ (52 + e) ≤ x

/-- Powers of two are positive. -/
theorem two_zpow_pos (e : Int) : (0 : Rat) < 2 ^ e :=
  zpow_pos two_pos e

/-- Powers of two are ordered like their exponents. -/
theorem two_zpow_le {e f : Int} (h : e ≤ f) : (2 : Rat) ^ e ≤ 2 ^ f :=
  zpow_le_zpow_right₀ one_le_two h

/-- A power of two times another one. -/
theorem two_pow_mul (k : Nat) (e : Int) : ((2 ^ k : Nat) : Rat) * 2 ^ e = 2 ^ (k + e) := by
  rw [Nat.cast_pow, Nat.cast_ofNat, zpow_add₀ two_ne_zero, zpow_natCast]

/-- A greater fraction has no smaller exponent. -/
theorem Fits.mono {x y : Rat} {e f : Int} (he : Fits x e) (hf : Fits y f) (h : x ≤ y) :
    e ≤ f := by
  by_contra hlt
  have hmin := hf.least
  have hx := he.le (by omega)
  have hpow : (2 : Rat) ^ (53 + f) ≤ 2 ^ (52 + e) := two_zpow_le (by omega)
  have hy := hf.lt
  linarith

/-- An exponent fits if it is not too small. -/
theorem fits_max {x : Rat} {e : Int} (hlt : x < 2 ^ (53 + e)) (hle : 2 ^ (52 + e) ≤ x) :
    Fits x (max minExponent e) where
  least := le_max_left _ _
  lt := hlt.trans_le (two_zpow_le (add_le_add_right (le_max_right _ _) 53))
  le h := by rwa [max_eq_right ((lt_max_iff.1 h).resolve_left (lt_irrefl _)).le]

/-- The numbers of digits of two numbers leave two powers of two that a quotient is between. -/
theorem quotient_bounds {num den : Nat} (hnum : 0 < num) (hden : 0 < den) :
    (2 : Rat) ^ (num.log2 - den.log2 - 1 : Int) ≤ num / den ∧
      (num : Rat) / den < 2 ^ (num.log2 - den.log2 + 1 : Int) := by
  have hden' : (0 : Rat) < den := Nat.cast_pos.2 hden
  have hpow (a : Int) (n k : Nat) (h : a + n = k) : (2 : Rat) ^ a * 2 ^ n = 2 ^ k := by
    rw [← zpow_natCast, ← zpow_natCast, ← zpow_add₀ two_ne_zero, h]
  constructor
  · have hn : ((2 ^ num.log2 : Nat) : Rat) ≤ num := Nat.cast_le.2 (Nat.log2_self_le hnum.ne')
    have hd : (den : Rat) ≤ (2 ^ (den.log2 + 1) : Nat) := Nat.cast_le.2 Nat.lt_log2_self.le
    push_cast at hn hd
    rw [le_div_iff₀ hden']
    calc (2 : Rat) ^ (num.log2 - den.log2 - 1 : Int) * den
        ≤ 2 ^ (num.log2 - den.log2 - 1 : Int) * 2 ^ (den.log2 + 1) := by gcongr
      _ = 2 ^ num.log2 := hpow _ _ _ (by push_cast; ring)
      _ ≤ num := hn
  · have hn : (num : Rat) < (2 ^ (num.log2 + 1) : Nat) := Nat.cast_lt.2 Nat.lt_log2_self
    have hd : ((2 ^ den.log2 : Nat) : Rat) ≤ den := Nat.cast_le.2 (Nat.log2_self_le hden.ne')
    push_cast at hn hd
    rw [div_lt_iff₀ hden']
    calc (num : Rat) < 2 ^ (num.log2 + 1) := hn
      _ = 2 ^ (num.log2 - den.log2 + 1 : Int) * 2 ^ den.log2 :=
        (hpow _ _ _ (by push_cast; ring)).symm
      _ ≤ 2 ^ (num.log2 - den.log2 + 1 : Int) * den := by gcongr

/-- The exponent that is found for a quotient fits it. -/
theorem fits_fitExponent {num den : Nat} (hnum : 0 < num) (hden : 0 < den) :
    Fits (num / den) (fitExponent num den) := by
  obtain ⟨hbelow, habove⟩ := quotient_bounds hnum hden
  have hlow : (num.log2 - den.log2 - 1 : Int) = 52 + (num.log2 - den.log2 - 53) := by ring
  have hhigh : (num.log2 - den.log2 + 1 : Int) = 53 + (num.log2 - den.log2 - 53 + 1) := by ring
  rw [hlow] at hbelow
  rw [hhigh] at habove
  unfold fitExponent
  dsimp only
  generalize (num.log2 - den.log2 - 53 : Int) = low at *
  have hcompare : num * (powerFraction 2 low).2 < Nat.pow 2 53 * (den * (powerFraction 2 low).1) ↔
      (num : Rat) / den < 2 ^ (53 + low) := by
    obtain ⟨-, hdown, hpower⟩ := powerFraction_two low
    have hden' : (0 : Rat) < den := Nat.cast_pos.2 hden
    have hdown' : (0 : Rat) < (powerFraction 2 low).2 := Nat.cast_pos.2 hdown
    rw [zpow_add₀ two_ne_zero, ← hpower, mul_div_assoc', div_lt_div_iff₀ hden' hdown',
      ← Nat.cast_lt (α := Rat), Nat.pow_eq]
    push_cast
    norm_num [mul_comm, mul_left_comm, mul_assoc]
  split_ifs with h
  · exact fits_max (hcompare.1 h) hbelow
  · have hnext : 52 + (low + 1) = 53 + low := by ring
    exact fits_max habove (hnext ▸ not_lt.1 (hcompare.not.1 h))

/-! ## Rounding to double precision -/

/-- A fraction that is not negative is rounded to this value: a multiple of the power of two with
the exponent that fits it. -/
def Rounds (x v : Rat) : Prop :=
  ∃ (m : Nat) (e : Int), Fits x e ∧ IsNearest (x / 2 ^ e) m ∧ v = m * 2 ^ e

/-- There are at most 53 digits before the point. -/
theorem Fits.nearest_le {x : Rat} {e : Int} {m : Nat} (he : Fits x e)
    (hm : IsNearest (x / 2 ^ e) m) : m ≤ 2 ^ 53 := by
  refine hm.mono (isNearest_self _) ?_
  rw [div_le_iff₀ (two_zpow_pos e), two_pow_mul]
  exact he.lt.le

/-- There are 53 of them when the exponent is not the least one. -/
theorem Fits.le_nearest {x : Rat} {e : Int} {m : Nat} (he : Fits x e)
    (hm : IsNearest (x / 2 ^ e) m) (hleast : minExponent < e) : 2 ^ 52 ≤ m := by
  refine (isNearest_self _).mono hm ?_
  rw [le_div_iff₀ (two_zpow_pos e), two_pow_mul]
  exact he.le hleast

/-- Rounding keeps the order. -/
theorem Rounds.mono {x y v w : Rat} (hv : Rounds x v) (hw : Rounds y w) (h : x ≤ y) :
    v ≤ w := by
  obtain ⟨m, e, he, hm, rfl⟩ := hv
  obtain ⟨n, f, hf, hn, rfl⟩ := hw
  have hpos := two_zpow_pos e
  rcases (he.mono hf h).eq_or_lt with rfl | hlt
  · have hmn := hm.mono hn (div_le_div_of_nonneg_right h hpos.le)
    exact mul_le_mul_of_nonneg_right (Nat.cast_le.2 hmn) hpos.le
  · -- With different exponents, there is a power of two between the fractions.
    have hm53 := he.nearest_le hm
    have hn52 := hf.le_nearest hn (he.least.trans_lt hlt)
    calc (m : Rat) * 2 ^ e ≤ (2 ^ 53 : Nat) * 2 ^ e := by gcongr
      _ = 2 ^ (53 + e) := two_pow_mul 53 e
      _ ≤ 2 ^ (52 + f) := two_zpow_le (by omega)
      _ = (2 ^ 52 : Nat) * 2 ^ f := (two_pow_mul 52 f).symm
      _ ≤ n * 2 ^ f := by gcongr

/-- A fraction with few digits is not changed by rounding. -/
theorem Rounds.eq {m : Nat} {e : Int} {v : Rat} (hm : m < 2 ^ 53) (he : minExponent ≤ e)
    (h : Rounds (m * 2 ^ e) v) : v = m * 2 ^ e := by
  obtain ⟨n, f, hf, hn, rfl⟩ := h
  have hfe : f ≤ e := by
    by_contra hlt
    have hle := hf.le (by omega)
    have hpow : (2 : Rat) ^ (53 + e) ≤ 2 ^ (52 + f) := two_zpow_le (by omega)
    have hm' : (m : Rat) * 2 ^ e < 2 ^ (53 + e) :=
      (mul_lt_mul_of_pos_right (Nat.cast_lt.2 hm) (two_zpow_pos e)).trans_eq (two_pow_mul 53 e)
    linarith
  -- The exponent that fits is no greater, so that the fraction is a multiple of its power of two.
  obtain ⟨k, hk⟩ := Int.eq_ofNat_of_zero_le (sub_nonneg.2 hfe)
  have hwhole : (m : Rat) * 2 ^ e = (m * 2 ^ k : Nat) * 2 ^ f := by
    obtain rfl : e = k + f := by omega
    rw [← two_pow_mul, ← mul_assoc, ← Nat.cast_mul]
  rw [hwhole, mul_div_cancel_right₀ _ (two_zpow_pos f).ne'] at hn
  rw [hn.eq, hwhole]

/-- What a fraction is rounded to is not negative. -/
theorem Rounds.nonneg {x v : Rat} (h : Rounds x v) : 0 ≤ v := by
  obtain ⟨m, e, -, -, rfl⟩ := h
  exact mul_nonneg m.cast_nonneg (two_zpow_pos e).le

/-- Rounding to a greater number of digits gives a power of two, with fewer digits and a greater
exponent. -/
theorem carried_eq (e : Int) : ((2 ^ 53 : Nat) : Rat) * 2 ^ e = (2 ^ 52 : Nat) * 2 ^ (e + 1) := by
  rw [two_pow_mul, two_pow_mul]
  congr 1
  push_cast
  ring

/-- What is rounded once is not changed by rounding it again. -/
theorem Rounds.idem {x v w : Rat} (h : Rounds x v) (h' : Rounds v w) : w = v := by
  obtain ⟨m, e, he, hm, rfl⟩ := h
  rcases (he.nearest_le hm).eq_or_lt with rfl | hlt
  · rw [carried_eq] at h' ⊢
    exact h'.eq (by norm_num) (he.least.trans (Int.le_add_one le_rfl))
  · exact h'.eq hlt he.least

/-! ## The order of double-precision numbers -/

/-- The fraction with its sign. -/
theorem scaled_eq (negative : Bool) (m : Nat) (e : Int) :
    scaled negative m e = if negative then -(m * 2 ^ e : Rat) else m * 2 ^ e := by
  obtain ⟨-, -, hpower⟩ := powerFraction_two e
  have hmagnitude : mkRat (m * (powerFraction 2 e).1 : Nat) (powerFraction 2 e).2 = m * 2 ^ e := by
    rw [Rat.mkRat_eq_div, ← hpower]
    push_cast
    ring
  unfold scaled
  dsimp only
  rw [hmagnitude]

/-- A place in the order of the numbers: a fraction, between two infinities. -/
abbrev Place :=
  WithBot (WithTop Rat)

/-- The place of a fraction. -/
def Place.at (v : Rat) : Place :=
  (v : WithTop Rat)

/-- The places of fractions are ordered like these. -/
theorem Place.at_le_at {v w : Rat} : Place.at v ≤ Place.at w ↔ v ≤ w :=
  WithBot.coe_le_coe.trans WithTop.coe_le_coe

/-- The place of a number. What is undefined has none. -/
def place : Binary64 → Option Place
  | .finite negative m e => some (.at (scaled negative m e))
  | .infinite negative => some (if negative then ⊥ else ⊤)
  | .undefined => none

/-- The order of the numbers. -/
def le (x y : Binary64) : Prop :=
  ∃ v ∈ x.place, ∃ w ∈ y.place, v ≤ w

/-- Numbers are ordered transitively. -/
theorem le.trans {x y z : Binary64} (h : x.le y) (h' : y.le z) : x.le z := by
  obtain ⟨v, hv, w, hw, hvw⟩ := h
  obtain ⟨w', hw', u, hu, hwu⟩ := h'
  cases hw.symm.trans hw'
  exact ⟨v, hv, u, hu, hvw.trans hwu⟩

/-- The least fraction that is too large for a number. -/
def limit : Rat :=
  2 ^ (53 + maxExponent)

/-- The place of a rounded fraction, which is an infinity when the fraction is too large. -/
def limited (v : Rat) : Place :=
  if limit ≤ v then ⊤ else if v ≤ -limit then ⊥ else .at v

/-- Limiting keeps the order. -/
theorem limited_mono {v w : Rat} (h : v ≤ w) : limited v ≤ limited w := by
  unfold limited
  by_cases hw : limit ≤ w
  · rw [if_pos hw]
    exact le_top
  · rw [if_neg hw, if_neg fun hv => hw (hv.trans h)]
    by_cases hv : v ≤ -limit
    · rw [if_pos hv]
      exact bot_le
    · rw [if_neg hv, if_neg fun hw => hv (h.trans hw)]
      exact Place.at_le_at.2 h

/-- A fraction has a place of its own when it is limited to one. -/
theorem limited_eq_at {v w : Rat} (h : limited v = .at w) : v = w := by
  unfold limited at h
  split_ifs at h
  · cases h
  · cases h
  · exact WithTop.coe_inj.1 (WithBot.coe_inj.1 h)

/-- A fraction with 53 digits is too large when its exponent is. -/
theorem limit_le_iff {m : Nat} {e : Int} (hm : m < 2 ^ 53)
    (hnormal : maxExponent < e → 2 ^ 52 ≤ m) :
    limit ≤ m * 2 ^ e ↔ maxExponent < e := by
  unfold limit
  constructor
  · intro h
    by_contra hle
    have hlt : (m : Rat) * 2 ^ e < 2 ^ (53 + e) :=
      (mul_lt_mul_of_pos_right (Nat.cast_lt.2 hm) (two_zpow_pos e)).trans_eq (two_pow_mul 53 e)
    have hpow : (2 : Rat) ^ (53 + e) ≤ 2 ^ (53 + maxExponent) := two_zpow_le (by omega)
    linarith
  · intro h
    calc (2 : Rat) ^ (53 + maxExponent) ≤ 2 ^ (52 + e) := two_zpow_le (by omega)
      _ = (2 ^ 52 : Nat) * 2 ^ e := (two_pow_mul 52 e).symm
      _ ≤ m * 2 ^ e := by
        have := hnormal h
        gcongr

/-- A fraction is too large with either sign. -/
theorem limited_signed (negative : Bool) {v : Rat} (hv : 0 ≤ v) :
    limited (if negative then -v else v) =
      if limit ≤ v then if negative then ⊥ else ⊤ else .at (if negative then -v else v) := by
  have hlimit : 0 < limit := two_zpow_pos _
  unfold limited
  cases negative
  · have hlow : ¬v ≤ -limit := by linarith
    simp only [Bool.false_eq_true, if_false, hlow]
  · have hhigh : ¬limit ≤ -v := by linarith
    simp only [if_true, hhigh, if_false, neg_le_neg_iff]

/-- The place of a number with 53 digits, which is infinite when its exponent is too large. -/
theorem place_normal (negative : Bool) {m : Nat} {e : Int} (hm : m < 2 ^ 53)
    (hnormal : maxExponent < e → 2 ^ 52 ≤ m) :
    (if maxExponent < e then infinite negative else finite negative m e).place =
      some (limited (if negative then -(m * 2 ^ e : Rat) else m * 2 ^ e)) := by
  rw [limited_signed negative (mul_nonneg m.cast_nonneg (two_zpow_pos e).le),
    if_congr (limit_le_iff hm hnormal) rfl rfl]
  split_ifs with h hneg hneg
  · rw [place, if_pos hneg]
  · rw [place, if_neg hneg]
  · rw [place, scaled_eq, if_pos hneg]
  · rw [place, scaled_eq, if_neg hneg]

/-- A quotient is rounded, and the place of the number is that of the rounded quotient with the
sign. -/
theorem place_ofMagnitude (negative : Bool) (num : Nat) {den : Nat} (hden : 0 < den) :
    ∃ v, Rounds (num / den) v ∧
      (ofMagnitude negative num den).place = some (limited (if negative then -v else v)) := by
  unfold ofMagnitude
  rcases Nat.eq_zero_or_pos num with rfl | hnum
  · have hzero := @place_normal negative 0 minExponent (by norm_num) fun h => absurd h (by decide)
    refine ⟨(0 : Nat) * 2 ^ minExponent, ⟨0, minExponent, ?_, ?_, rfl⟩, hzero⟩
    · rw [Nat.cast_zero, zero_div]
      exact ⟨le_rfl, two_zpow_pos _, fun h => absurd h (lt_irrefl _)⟩
    · rw [Nat.cast_zero, zero_div, zero_div]
      exact isNearest_self 0
  rw [if_neg hnum.ne']
  dsimp only
  have hfits := fits_fitExponent hnum hden
  generalize fitExponent num den = e at *
  have hnearest : IsNearest (num / den / 2 ^ e)
      (roundDiv (num * (powerFraction 2 e).2) (den * (powerFraction 2 e).1)) := by
    obtain ⟨hup, -, hpower⟩ := powerFraction_two e
    rw [← hpower, div_div_div_eq, ← Nat.cast_mul, ← Nat.cast_mul]
    exact isNearest_roundDiv _ (Nat.mul_pos hden hup)
  generalize roundDiv (num * (powerFraction 2 e).2) (den * (powerFraction 2 e).1) = m at *
  refine ⟨m * 2 ^ e, ⟨m, e, hfits, hnearest, rfl⟩, ?_⟩
  by_cases hcarry : m = Nat.pow 2 53
  · subst hcarry
    rw [if_pos rfl]
    exact (place_normal negative (by norm_num) fun _ => le_rfl).trans (by rw [← carried_eq]; rfl)
  · rw [if_neg hcarry]
    refine place_normal negative (lt_of_le_of_ne (hfits.nearest_le hnearest) hcarry) fun hmax => ?_
    exact hfits.le_nearest hnearest ((by decide : minExponent < maxExponent).trans hmax)

/-- The place of a rounded fraction is that of what it is rounded to. -/
theorem place_ofRat (q : Rat) :
    ∃ v, Rounds |q| v ∧ (ofRat q).place = some (limited (if q < 0 then -v else v)) := by
  obtain ⟨v, hv, hplace⟩ := place_ofMagnitude (decide (q < 0)) q.num.natAbs q.den_pos
  have habs : ((q.num.natAbs : Nat) : Rat) / q.den = |q| := by
    rw [Rat.abs_def, Rat.divInt_eq_div]
    rfl
  simp only [decide_eq_true_iff] at hplace
  exact ⟨v, habs ▸ hv, hplace⟩

/-- Rounding to a number keeps the order. -/
theorem ofRat_mono {p q : Rat} (h : p ≤ q) : (ofRat p).le (ofRat q) := by
  obtain ⟨v, hv, hp⟩ := place_ofRat p
  obtain ⟨w, hw, hq⟩ := place_ofRat q
  refine ⟨_, hp, _, hq, limited_mono ?_⟩
  split_ifs with hpneg hqneg hqneg
  · -- Of two negative fractions, the smaller one has the greater magnitude.
    rw [abs_of_neg hpneg] at hv
    rw [abs_of_neg hqneg] at hw
    exact neg_le_neg (hw.mono hv (neg_le_neg h))
  · exact (neg_nonpos.2 hv.nonneg).trans hw.nonneg
  · exact absurd (h.trans_lt hqneg) hpneg
  · rw [abs_of_nonneg (not_lt.1 hpneg)] at hv
    rw [abs_of_nonneg (not_lt.1 hqneg)] at hw
    exact hv.mono hw h

/-- The fraction that a rounded one stands for is rounded to the same place. -/
theorem place_ofRat_idem {q w : Rat} (h : (ofRat q).place = some (.at w)) :
    (ofRat w).place = some (.at w) := by
  obtain ⟨v, hv, hq⟩ := place_ofRat q
  obtain rfl := limited_eq_at (Option.some.inj (hq.symm.trans h))
  obtain ⟨v', hv', hw⟩ := place_ofRat (if q < 0 then -v else v)
  have habs : |if q < 0 then -v else v| = v := by
    split_ifs
    · rw [abs_neg, abs_of_nonneg hv.nonneg]
    · exact abs_of_nonneg hv.nonneg
  rw [habs] at hv'
  obtain rfl := hv.idem hv'
  rw [hw, ← h, hq]
  -- Both have the same sign, unless the fraction is zero.
  have hsign : (if (if q < 0 then -v' else v') < 0 then -v' else v') =
      if q < 0 then -v' else v' := by
    have := hv.nonneg
    split_ifs <;> linarith
  rw [hsign]

/-- The number has the place of a rounded fraction. -/
def IsRounded (x : Binary64) : Prop :=
  ∃ q, x.place = (ofRat q).place

/-- A rounded fraction plus a number that is not negative is rounded, and it is not before the
fraction. -/
theorem le_add {x y : Binary64} {u : Rat} (hx : x.IsRounded) (hy : y.toRat? = some u)
    (hu : 0 ≤ u) : x.le (x.add y) ∧ (x.add y).IsRounded := by
  obtain ⟨q, hq⟩ := hx
  obtain ⟨v, -, hv⟩ := place_ofRat q
  cases y with
  | infinite t => cases hy
  | undefined => cases hy
  | finite t n f =>
    cases Option.some.inj hy
    cases x with
    | undefined => cases hq.trans hv
    | infinite s => exact ⟨⟨_, rfl, _, rfl, le_rfl⟩, q, hq⟩
    | finite s m e =>
      have hround := place_ofRat_idem (hq.symm.trans rfl)
      rw [add]
      split_ifs with hzero
      · have hsum : place (finite (s && t) 0 minExponent) = some (.at 0) := by
          rw [place, scaled_eq]
          simp
        refine ⟨⟨_, rfl, _, hsum, Place.at_le_at.2 (by linarith)⟩, 0, ?_⟩
        rw [hsum]
        decide +kernel
      · obtain ⟨a, ha, b, hb, hab⟩ := ofRat_mono (le_add_of_nonneg_right hu :
          scaled s m e ≤ scaled s m e + scaled t n f)
        rw [hround] at ha
        exact ⟨⟨a, ha, b, hb, hab⟩, _, rfl⟩

/-- The nearest number to a fraction is what it is rounded to. -/
theorem nearest?_eq_some {q : Rat} {x : Binary64} (h : nearest? q = some x) :
    ofRat q = x ∧ ∃ w, x.toRat? = some w := by
  unfold nearest? at h
  split at h
  next hfinite =>
    cases h
    exact ⟨hfinite, _, rfl⟩
  next => cases h

/-- The nearest number to a fraction that is not negative is not negative. -/
theorem nearest?_nonneg {q : Rat} {x : Binary64} (hq : 0 ≤ q) (h : nearest? q = some x) :
    ∃ u, x.toRat? = some u ∧ 0 ≤ u := by
  obtain ⟨rfl, w, hw⟩ := nearest?_eq_some h
  refine ⟨w, hw, ?_⟩
  obtain ⟨v, hv, hplace⟩ := place_ofRat q
  rw [if_neg (not_lt.2 hq)] at hplace
  cases hx : ofRat q with
  | finite s m e =>
    rw [hx] at hw hplace
    obtain rfl := limited_eq_at (Option.some.inj hplace).symm
    cases hw
    exact hv.nonneg
  | infinite s => cases hx ▸ hw
  | undefined => cases hx ▸ hw

end Binary64

/-! ## Beats -/

namespace Beats

/-- The fraction that the beats are, unless they are too many. -/
def toRat? : Beats → Option Rat
  | .exact q => some q
  | .double x => x.toRat?

/-- The beats are a fraction that is not negative. -/
def Nonneg (length : Beats) : Prop :=
  ∃ u, length.toRat? = some u ∧ 0 ≤ u

/-- The beat is not before another one, which is rounded if this one is. -/
def AtLeast (b : Rat) : Beats → Prop
  | .exact q => b ≤ q
  | .double x => (Binary64.ofRat b).le x

/-- The beats are exact, or what a fraction is rounded to. -/
def IsRounded : Beats → Prop
  | .exact _ => True
  | .double x => x.IsRounded

variable {beat length next : Beats} {b : Rat}

/-- The nearest number to a beat is not before what is not after the beat. -/
theorem nearest?_atLeast (hb : beat.AtLeast b) (hr : beat.IsRounded) {x : Binary64}
    (h : beat.nearest? = some x) : (Binary64.ofRat b).le x ∧ x.IsRounded := by
  cases beat with
  | exact q =>
    obtain ⟨rfl, -⟩ := Binary64.nearest?_eq_some h
    exact ⟨Binary64.ofRat_mono hb, q, rfl⟩
  | double y =>
    cases h
    exact ⟨hb, hr⟩

/-- The nearest number to a length that is not negative is not negative. -/
theorem nearest?_nonneg (hl : length.Nonneg) {y : Binary64}
    (h : length.nearest? = some y) : ∃ u, y.toRat? = some u ∧ 0 ≤ u := by
  cases length with
  | exact q =>
    obtain ⟨u, hu, hnonneg⟩ := hl
    cases hu
    exact Binary64.nearest?_nonneg hnonneg h
  | double x =>
    cases h
    exact hl

/-- A sum is exact, or the rounded sum of the nearest numbers. -/
theorem add?_eq_some (h : beat.add? length = some next) :
    (∃ p q, beat = .exact p ∧ length = .exact q ∧ next = .exact (p + q)) ∨
      ∃ x y, beat.nearest? = some x ∧ length.nearest? = some y ∧ next = .double (x.add y) := by
  have hrounded (h : (do return Beats.double ((← beat.nearest?).add (← length.nearest?))) =
      some next) :
      ∃ x y, beat.nearest? = some x ∧ length.nearest? = some y ∧ next = .double (x.add y) := by
    obtain ⟨x, hx, h⟩ := Option.bind_eq_some_iff.1 h
    obtain ⟨y, hy, h⟩ := Option.bind_eq_some_iff.1 h
    exact ⟨x, y, hx, hy, (Option.some.inj h).symm⟩
  unfold add? at h
  split at h
  next p q => exact .inl ⟨p, q, rfl, rfl, (Option.some.inj h).symm⟩
  next => exact .inr (hrounded h)

/-- Where a length can be added once, it can be added again. -/
theorem add?_again (h : beat.add? length = some next) : ∃ later, next.add? length = some later := by
  rcases add?_eq_some h with ⟨p, q, rfl, rfl, rfl⟩ | ⟨x, y, -, hy, rfl⟩
  · exact ⟨_, rfl⟩
  · refine ⟨.double ((x.add y).add y), ?_⟩
    change (length.nearest?.bind fun y' => some (double ((x.add y).add y'))) = _
    rw [hy]
    rfl

/-- A length that is not negative does not lead back before a beat. -/
theorem add?_atLeast (hb : beat.AtLeast b) (hr : beat.IsRounded) (hl : length.Nonneg)
    (h : beat.add? length = some next) :
    next.AtLeast b ∧ next.IsRounded := by
  rcases add?_eq_some h with ⟨p, q, rfl, rfl, rfl⟩ | ⟨x, y, hx, hy, rfl⟩
  · obtain ⟨u, hu, hnonneg⟩ := hl
    cases hu
    exact ⟨le_add_of_le_of_nonneg hb hnonneg, trivial⟩
  · obtain ⟨hle, hisRounded⟩ := nearest?_atLeast hb hr hx
    obtain ⟨u, hu, hnonneg⟩ := nearest?_nonneg hl hy
    obtain ⟨hadd, hsum⟩ := Binary64.le_add hisRounded hu hnonneg
    exact ⟨hle.trans hadd, hsum⟩

end Beats

/-- The parts of a length that is not negative are not negative. -/
theorem Length.part?_nonneg {l : Length} (hl : 0 ≤ l.value) {n : Nat} {part : Beats}
    (h : l.part? n = some part) : part.Nonneg := by
  have hpart : 0 ≤ l.value / n := div_nonneg hl n.cast_nonneg
  cases l with
  | whole k =>
    obtain ⟨x, hx, h⟩ := Option.map_eq_some_iff.1 h
    cases h
    exact Binary64.nearest?_nonneg hpart hx
  | fraction q =>
    cases h
    exact ⟨_, rfl, hpart⟩

end SingAlong

import SingAlong.Decimal.Binary64
import SingAlong.Text.Basic

/-!
# The shortest decimal that reads back

A double-precision number is written with the fewest digits that are read back as the same number;
of two decimals with that many digits the nearer is taken, and of two equally near ones the even.
The decimals that are read back as `m * 2 ^ e` form an interval around it, so that of each length
only the two neighbours of the number on the decimal grid have to be tried.
-/

namespace SingAlong

namespace Binary64

/-- A number `value / unit` with the decimals that are read back as it: those between
`low / unit` and `high / unit`, ends included when `closed` holds. -/
structure ReadBack where
  value : Nat
  low : Nat
  high : Nat
  unit : Nat
  closed : Bool

/-- The interval around `m * 2 ^ e`: half of the distance to each neighbour. The neighbour below a
power of two is nearer, unless the exponent is the least. -/
def ReadBack.of (m : Nat) (e : Int) : ReadBack :=
  let (up, down) := powerFraction 2 (e - 2)
  let below := if m = Nat.pow 2 52 ∧ minExponent < e then 1 else 2
  ⟨4 * m * up, (4 * m - below) * up, (4 * m + 2) * up, down, m % 2 = 0⟩

/-- Is the decimal `digits * 10 ^ power` read back as the number? -/
def ReadBack.holds (r : ReadBack) (power : Int) (digits : Nat) : Bool :=
  let (up, down) := powerFraction 10 power
  let x := digits * up * r.unit
  if r.closed then r.low * down ≤ x && x ≤ r.high * down
  else r.low * down < x && x < r.high * down

/-- The exponent of the power of ten next above the number. -/
def ReadBack.ceiling (r : ReadBack) : Int :=
  let guess : Int := (Text.ofNat r.value).length - (Text.ofNat r.unit).length
  let (up, down) := powerFraction 10 guess
  if r.value * down < r.unit * up then guess else guess + 1

/-- The better of the two neighbours on the grid of the multiples of `10 ^ power`, if one is read
back: the nearer one, and the even one when they are equally near. -/
def ReadBack.onGrid? (r : ReadBack) (power : Int) : Option Nat :=
  let (up, down) := powerFraction 10 power
  let step := r.unit * up
  let f := r.value * down / step
  let rest := r.value * down % step
  match r.holds power f, r.holds power (f + 1) with
  | true, true =>
    some (if 2 * rest < step then f else if step < 2 * rest then f + 1 else f + f % 2)
  | true, false => some f
  | false, true => some (f + 1)
  | false, false => none

/-- The digits and the power of ten of the shortest decimal; seventeen digits are always enough. -/
def shortest (m : Nat) (e : Int) : Nat × Int :=
  let r := ReadBack.of m e
  let found := (List.range 17).findSome? fun (n : Nat) =>
    let power := r.ceiling - (n + 1)
    (r.onGrid? power).map fun digits => (digits, power)
  found.getD (0, 0)

end Binary64

/-- Where a layout changes between digits around a point and an exponent: the least exponent
that is written without one, the least above it that is written with one again, and the least
number of digits in an exponent. -/
structure DecimalLayout where
  firstPlain : Int
  endPlain : Int
  exponentDigits : Nat

namespace DecimalLayout

/-- An exponent with its sign, filled with zeros at the front. -/
def exponent (layout : DecimalLayout) (e : Int) : Text :=
  let digits := Text.ofNat e.natAbs
  (if e < 0 then "e-".text else "e+".text) ++
    Text.replicate (layout.exponentDigits - digits.length) '0' ++ digits

/-- Digits around a decimal point that stands after the first `point` of them; there is at least
one digit on each side. -/
def plain (digits : Text) (point : Int) : Text :=
  if point ≤ 0 then "0.".text ++ Text.replicate (-point).toNat '0' ++ digits
  else if digits.length ≤ point.toNat then
    digits ++ Text.replicate (point.toNat - digits.length) '0' ++ ".0".text
  else digits.take point.toNat ++ ".".text ++ digits.drop point.toNat

/-- One digit before the point, which is left out when no digit follows, and an exponent. -/
def scientific (layout : DecimalLayout) (digits : Text) (point : Int) : Text :=
  let fraction := digits.drop 1
  digits.take 1 ++ (if fraction.isEmpty then [] else ".".text ++ fraction) ++
    layout.exponent (point - 1)

/-- Writes the digits with a decimal point after the first `point` of them. -/
def write (layout : DecimalLayout) (digits : Text) (point : Int) : Text :=
  if layout.firstPlain ≤ point - 1 ∧ point - 1 < layout.endPlain then plain digits point
  else layout.scientific digits point

/-- Numbers from `0.0001` up to `10 ^ 16` are written without exponent, others with at least two
digits in the exponent. -/
def standard : DecimalLayout :=
  ⟨-4, 16, 2⟩

end DecimalLayout

namespace Binary64

/-- The shortest decimal, laid out, with its sign. -/
def text : Binary64 → Text
  | .finite negative m e =>
    let magnitude :=
      if m = 0 then "0.0".text
      else
        let (digits, power) := shortest m e
        let numeral := Text.ofNat digits
        let kept := (numeral.reverse.dropWhile fun c : CodePoint => c == '0').reverse
        DecimalLayout.standard.write kept (numeral.length + power)
    if negative then '-' :: magnitude else magnitude
  | .infinite negative => if negative then "-inf".text else "inf".text
  | .undefined => "nan".text

end Binary64

/-- A fraction written as the decimal of the nearest double-precision number; there is none when
the fraction is too large for one. -/
def decimal? (q : Rat) : Option Text :=
  (Binary64.nearest? q).map Binary64.text

end SingAlong

/-!
# Double-precision numbers

A fraction is rounded once, to the nearest double-precision number and to the even neighbour when
two are equally near; sums, products and quotients round the exact result in the same way. All of it
is exact arithmetic on natural numbers.
-/

namespace SingAlong

/-- The quotient `a / b` rounded to the nearest natural number, a half to the even neighbour. -/
def roundDiv (a b : Nat) : Nat :=
  let q := a / b
  let r := a % b
  if 2 * r < b then q else if b < 2 * r then q + 1 else q + q % 2

/-- The power `base ^ e` as a fraction: its numerator and denominator. -/
def powerFraction (base : Nat) (e : Int) : Nat × Nat :=
  if 0 ≤ e then (base.pow e.toNat, 1) else (1, base.pow (-e).toNat)

/-- A double-precision number: `significand * 2 ^ exponent` with a sign, an infinity, or the
undefined result of an operation without one. Zero has two signs. -/
inductive Binary64 where
  | finite (negative : Bool) (significand : Nat) (exponent : Int)
  | infinite (negative : Bool)
  | undefined
  deriving DecidableEq, Repr

namespace Binary64

/-- The least exponent of a double-precision number. -/
def minExponent : Int :=
  -1074

/-- The greatest exponent of a double-precision number. -/
def maxExponent : Int :=
  971

/-- The exponent that leaves 53 binary digits of `num / den` before the point, but not one below the
least. -/
def fitExponent (num den : Nat) : Int :=
  let low : Int := num.log2 - den.log2 - 53
  let (up, down) := powerFraction 2 low
  max minExponent (if num * down < Nat.pow 2 53 * (den * up) then low else low + 1)

/-- Rounds `num / den`, which is not negative, to the digits before the point, and gives it a
sign. -/
def ofMagnitude (negative : Bool) (num den : Nat) : Binary64 :=
  if num = 0 then .finite negative 0 minExponent
  else
    let e := fitExponent num den
    let (up, down) := powerFraction 2 e
    let m := roundDiv (num * down) (den * up)
    let (m, e) := if m = Nat.pow 2 53 then (Nat.pow 2 52, e + 1) else (m, e)
    if maxExponent < e then .infinite negative else .finite negative m e

/-- The nearest double-precision number; infinite when the fraction is too large. -/
def ofRat (q : Rat) : Binary64 :=
  ofMagnitude (decide (q < 0)) q.num.natAbs q.den

/-- The nearest double-precision number, if the fraction is not too large for one. -/
def nearest? (q : Rat) : Option Binary64 :=
  match ofRat q with
  | .finite s m e => some (.finite s m e)
  | _ => none

/-- The fraction `m * 2 ^ e`, with a sign. -/
def scaled (negative : Bool) (m : Nat) (e : Int) : Rat :=
  let (up, down) := powerFraction 2 e
  let magnitude := mkRat (m * up : Nat) down
  if negative then -magnitude else magnitude

/-- The fraction that a finite number stands for. -/
def toRat? : Binary64 → Option Rat
  | .finite negative m e => some (scaled negative m e)
  | _ => none

/-- The sum, rounded. A sum that is zero is negative only when both numbers are. -/
def add : Binary64 → Binary64 → Binary64
  | .finite s m e, .finite t n f =>
    let sum := scaled s m e + scaled t n f
    if sum = 0 then .finite (s && t) 0 minExponent else ofRat sum
  | .infinite s, .infinite t => if s = t then .infinite s else .undefined
  | .undefined, _ | _, .undefined => .undefined
  | .infinite s, _ | _, .infinite s => .infinite s

/-- The product, rounded. -/
def mul : Binary64 → Binary64 → Binary64
  | .finite s m e, .finite t n f =>
    let (up, down) := powerFraction 2 (e + f)
    ofMagnitude (s != t) (m * n * up) down
  | .finite s m _, .infinite t => if m = 0 then .undefined else .infinite (s != t)
  | .infinite s, .finite t n _ => if n = 0 then .undefined else .infinite (s != t)
  | .infinite s, .infinite t => .infinite (s != t)
  | .undefined, _ => .undefined
  | _, .undefined => .undefined

/-- The quotient, rounded; there is none when the divisor is zero. -/
def div? : Binary64 → Binary64 → Option Binary64
  | a, .finite t n f =>
    if n = 0 then none
    else match a with
      | .finite s m e =>
        let (up, down) := powerFraction 2 (e - f)
        some (ofMagnitude (s != t) (m * up) (n * down))
      | .infinite s => some (.infinite (s != t))
      | .undefined => some .undefined
  | .finite s _ _, .infinite t => some (.finite (s != t) 0 minExponent)
  | _, _ => some .undefined

/-- The fraction that the nearest double-precision number stands for; one that is too large for a
double-precision number is left alone. -/
def rounded (q : Rat) : Rat :=
  (ofRat q).toRat?.getD q

end Binary64

end SingAlong

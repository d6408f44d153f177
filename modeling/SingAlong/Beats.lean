import SingAlong.Decimal.Binary64
import SingAlong.Length

/-!
# Beats

Playing counts in beats, and a beat takes the time of a whole note. Beats are exact fractions as
long as lengths are added. The equal parts of a whole length are double-precision numbers, and so
are the beats that they are added to.
-/

namespace SingAlong

/-- A number of beats: an exact fraction or a double-precision number. -/
inductive Beats where
  | exact (q : Rat)
  | double (x : Binary64)
  deriving DecidableEq, Repr

namespace Beats

/-- The nearest double-precision number, if the beats are not too many for one. -/
def nearest? : Beats → Option Binary64
  | .exact q => Binary64.nearest? q
  | .double x => some x

/-- The sum, exact for two fractions and else rounded. There is none when a fraction is too large to
be rounded. -/
def add? : Beats → Beats → Option Beats
  | .exact p, .exact q => some (.exact (p + q))
  | a, b => do return .double ((← a.nearest?).add (← b.nearest?))

end Beats

/-- One of `n` equal parts of a length. The part of a whole length is rounded; there is none when it
is too large for that. -/
def Length.part? (n : Nat) : Length → Option Beats
  | .whole k => (Binary64.nearest? (k / n)).map .double
  | .fraction q => some (.exact (q / n))

end SingAlong

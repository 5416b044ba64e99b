/-
The arithmetic that metrics need, as a parameter.

Summaries and snapshots are written once over a `Scalar`. The running program uses binary64 numbers; statements that
read the arithmetic as exact use any ordered field instead, with the same definitions.
-/
namespace MetricSurvey

/-- numbers that can be summed, compared and tested for being finite -/
class Scalar (R : Type) extends Zero R, One R, Add R, Sub R, Mul R, Div R, Min R, Max R, LT R, LE R, NatCast R where
  isFinite : R → Bool
  decLt : DecidableLT R
  decLe : DecidableLE R

namespace Scalar

instance (priority := low) {R : Type} [Scalar R] (x y : R) : Decidable (x < y) := Scalar.decLt x y
instance (priority := low) {R : Type} [Scalar R] (x y : R) : Decidable (x ≤ y) := Scalar.decLe x y

end Scalar

end MetricSurvey

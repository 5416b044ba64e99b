/-
Distributions: a summary of samples that can be merged.

A distribution keeps five numbers of a non-empty multiset of samples: how many, the least, the greatest, the sum and the
sum of squares. Mean and standard deviation are read off them. A distribution that somebody else computed is taken over
only if it could be one (`isAdmissible`).
-/
import MetricSurvey.Number.Decimal

namespace MetricSurvey

structure Distribution (R : Type) where
  weight : R
  least : R
  greatest : R
  sum : R
  sumSq : R
deriving DecidableEq

namespace Distribution

variable {R : Type} [Scalar R]

/-- the distribution of one sample -/
def ofSample (v : R) : Distribution R := ⟨1, v, v, v, v * v⟩

/-- add one sample -/
def addSample (d : Distribution R) (v : R) : Distribution R :=
  ⟨d.weight + 1, min d.least v, max d.greatest v, d.sum + v, d.sumSq + v * v⟩

/-- add all samples of another distribution -/
def merge (d e : Distribution R) : Distribution R :=
  ⟨d.weight + e.weight, min d.least e.least, max d.greatest e.greatest, d.sum + e.sum, d.sumSq + e.sumSq⟩

/-- the five numbers in the order in which they are written -/
def parts (d : Distribution R) : List R := [d.weight, d.least, d.greatest, d.sum, d.sumSq]

/-- whether five numbers can be a distribution: all finite, a positive weight, and the least not above the greatest -/
def isAdmissible (d : Distribution R) : Bool :=
  d.parts.all Scalar.isFinite && !decide (d.weight ≤ 0) && !decide (d.greatest < d.least)

/-- five numbers from elsewhere, if they can be a distribution -/
def accepted? (d : Distribution R) : Option (Distribution R) := if d.isAdmissible then some d else none

/-- numbers in the order in which they are written, if they are five and can be a distribution -/
def ofParts? : List R → Option (Distribution R)
  | [weight, least, greatest, sum, sumSq] => accepted? ⟨weight, least, greatest, sum, sumSq⟩
  | _ => none

def mean (d : Distribution R) : R := d.sum / d.weight

/-- the variance before rounding errors are cut off at zero -/
def spread (d : Distribution R) : R := d.sumSq / d.weight - d.mean * d.mean

/-- the variance: a spread that rounding made negative, or that is no number, counts as zero -/
def variance (d : Distribution R) : R := if 0 < d.spread then d.spread else 0

/-- the standard deviation -/
def deviation (d : Distribution Binary64) : Binary64 := d.variance.sqrt

/-- the one-line text of a distribution -/
def text (d : Distribution Binary64) : String :=
  "Distribution: mean: " ++ Decimal.fixed 5 d.mean ++ ", sd: " ++ Decimal.fixed 5 d.deviation ++ ", min/max: "
    ++ Decimal.fixed 5 d.least ++ "/" ++ Decimal.fixed 5 d.greatest
    ++ " (weight " ++ Decimal.Layout.plain.text d.weight ++ ")"

end Distribution

end MetricSurvey

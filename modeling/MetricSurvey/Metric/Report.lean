/-
Reports: what one client says about one survey.

A report carries raw samples, counts and finished distributions, each under a metric name.
-/
import MetricSurvey.Metric.Distribution

namespace MetricSurvey

/-- surveys are named by the second in which they were asked -/
abbrev SurveyTime := Int64

/-- something reported under a metric name -/
structure Named (α : Type) where
  name : String
  value : α
deriving DecidableEq

structure Report (R : Type) where
  time : SurveyTime
  values : List (Named R) := []
  counts : List (Named R) := []
  dists : List (Named (Distribution R)) := []
deriving DecidableEq

namespace Report

variable {R : Type}

/-- a single count -/
def ofCount (time : SurveyTime) (name : String) (n : R) : Report R := { time, counts := [⟨name, n⟩] }

/-- a single sample -/
def ofValue (time : SurveyTime) (name : String) (v : R) : Report R := { time, values := [⟨name, v⟩] }

def isEmpty (r : Report R) : Bool := r.values.isEmpty && r.counts.isEmpty && r.dists.isEmpty

end Report

end MetricSurvey

/-
Registries: the metrics that one client keeps between reports.

- a count reports its last value;
- a rate reports how much it grew since the report before;
- samples report the distribution of what was recorded since the report before;
- a probe is read when the report is made, and reported as a count.

`report` answers for the whole registry at once and starts the next period.
-/
import MetricSurvey.Metric.Key
import MetricSurvey.Metric.Report

namespace MetricSurvey

/-- a growing number: where it stands, and where it stood at the last report -/
structure Rate (R : Type) where
  current : R
  reported : R
deriving DecidableEq

/-- the metrics of a client; `P` is what a probe is known by -/
structure Registry (R P : Type) where
  probes : Table MetricKey P
  counts : Table MetricKey R
  rates : Table MetricKey (Rate R)
  dists : Table MetricKey (Distribution R)

namespace Registry

variable {R P : Type} [Scalar R]

def empty : Registry R P := ⟨∅, ∅, ∅, ∅⟩

instance : Inhabited (Registry R P) := ⟨empty⟩

/-- read `probe` at every report from now on -/
def addProbe (g : Registry R P) (k : MetricKey) (probe : P) : Registry R P :=
  { g with probes := g.probes.insert k probe }

/-- put another probe in the place of the one under this key, if there is one -/
def changeProbe (g : Registry R P) (k : MetricKey) (probe : P) : Registry R P :=
  { g with probes := g.probes.modify k fun _ => probe }

def setCount (g : Registry R P) (k : MetricKey) (v : R) : Registry R P := { g with counts := g.counts.insert k v }

def setCounts (g : Registry R P) (cs : List (MetricKey × R)) : Registry R P :=
  cs.foldl (fun g c => g.setCount c.1 c.2) g

/-- note where a growing number stands -/
def setRate (g : Registry R P) (k : MetricKey) (v : R) : Registry R P :=
  { g with rates := g.rates.alter k fun old => some ⟨v, (old.map Rate.reported).getD 0⟩ }

def addSample (g : Registry R P) (k : MetricKey) (v : R) : Registry R P :=
  { g with dists := g.dists.alter k fun
      | some d => some (d.addSample v)
      | none => some (.ofSample v) }

def addSamples (g : Registry R P) (l : List (MetricKey × List R)) : Registry R P :=
  l.foldl (fun g e => e.2.foldl (fun g v => g.addSample e.1 v) g) g

/-- what a table reports, in key order -/
def named {ν α : Type} (f : ν → α) (t : Table MetricKey ν) : List (Named α) :=
  t.toList.map fun e => ⟨e.1.text, f e.2⟩

/-- the report for `time`, with probes read by `read`, and the registry of the next period -/
def report (g : Registry R P) (read : P → R) (time : SurveyTime) : Report R × Registry R P :=
  ({ time
     counts := named read g.probes ++ named id g.counts ++ named (fun r => r.current - r.reported) g.rates
     dists := named id g.dists },
   { g with
     rates := g.rates.mapValues fun _ r => ⟨r.current, r.current⟩
     dists := ∅ })

end Registry

end MetricSurvey

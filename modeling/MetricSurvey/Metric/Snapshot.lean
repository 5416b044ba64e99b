/-
Snapshots: everything reported for one survey, merged.

Counts under one key are summed, samples and distributions under one key are merged. A distribution that cannot be one is
rejected and leaves the snapshot as it was. The `empty` mark is dropped by the first thing that is added.
-/
import MetricSurvey.Metric.Key
import MetricSurvey.Metric.Report

namespace MetricSurvey

structure Snapshot (R : Type) where
  time : SurveyTime
  counters : Table MetricKey R
  dists : Table MetricKey (Distribution R)
  empty : Bool
deriving DecidableEq

namespace Snapshot

variable {R : Type} [Scalar R]

def new (time : SurveyTime) : Snapshot R := ⟨time, ∅, ∅, true⟩

def counter (s : Snapshot R) (name : String) : Option R := s.counters.get? ⟨name⟩

def dist (s : Snapshot R) (name : String) : Option (Distribution R) := s.dists.get? ⟨name⟩

/-- add to the counter of this name, which starts from zero -/
def addCount (s : Snapshot R) (c : Named R) : Snapshot R :=
  { s with
    empty := false
    counters := s.counters.alter ⟨c.name⟩ fun old => some (old.getD 0 + c.value) }

/-- add a sample to the distribution of this name -/
def addValue (s : Snapshot R) (v : Named R) : Snapshot R :=
  { s with
    empty := false
    dists := s.dists.alter ⟨v.name⟩ fun
      | some d => some (d.addSample v.value)
      | none => some (.ofSample v.value) }

/-- merge a distribution into the one of this name; the answer says whether it was taken -/
def addDist (s : Snapshot R) (d : Named (Distribution R)) : Snapshot R × Bool :=
  match d.value.accepted? with
  | none => (s, false)
  | some e =>
    ({ s with
      empty := false
      dists := s.dists.alter ⟨d.name⟩ fun
        | some old => some (old.merge e)
        | none => some e }, true)

/-- add the distributions one after another, counting those rejected -/
def addDists (s : Snapshot R) (ds : List (Named (Distribution R))) : Snapshot R × Nat :=
  ds.foldl (fun acc d =>
    let (s', taken) := acc.1.addDist d
    (s', if taken then acc.2 else acc.2 + 1)) (s, 0)

/-- merge a report: samples, then counts, then distributions; the number says how many distributions were rejected -/
def merge (s : Snapshot R) (r : Report R) : Snapshot R × Nat :=
  (r.counts.foldl addCount (r.values.foldl addValue s)).addDists r.dists

/-- a snapshot of these reports alone -/
def ofReports (time : SurveyTime) (rs : List (Report R)) : Snapshot R :=
  rs.foldl (fun s r => (s.merge r).1) (new time)

end Snapshot

end MetricSurvey

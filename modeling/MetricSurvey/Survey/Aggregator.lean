/-
The aggregator: it owns the one open snapshot.

- A new survey time opens a snapshot; one that was still open and holds anything leaves before it.
- A report is merged if its snapshot is open, and counted as late otherwise.
- A completion lets the snapshot of that time leave, whether or not it holds anything.
- `flush` lets an open snapshot leave if it holds anything.

The table of shapes remembers, for every metric of a snapshot that left, whether it was last a counter or a distribution.
-/
import MetricSurvey.Metric.Snapshot

namespace MetricSurvey

/-- what the aggregator is told -/
inductive AggregatorEvent (R : Type) where
  | opened (time : SurveyTime)
  | fragment (report : Report R)
  | completed (time : SurveyTime)
deriving DecidableEq

inductive Shape where
  | counter
  | distribution
deriving DecidableEq

structure Aggregator (R : Type) where
  current : Option (Snapshot R)
  shapes : Table MetricKey Shape
  late : Nat

namespace Aggregator

variable {R : Type} [Scalar R]

def new : Aggregator R := ⟨none, ∅, 0⟩

/-- the time of the open snapshot -/
def openTime (a : Aggregator R) : Option SurveyTime := a.current.map Snapshot.time

/-- the shapes after a snapshot has left; a distribution hides a counter of the same name -/
def noteShapes (t : Table MetricKey Shape) (s : Snapshot R) : Table MetricKey Shape :=
  let t := s.counters.keys.foldl (fun t k => t.insert k .counter) t
  s.dists.keys.foldl (fun t k => t.insert k .distribution) t

/-- let the snapshot `s` leave -/
def emit (a : Aggregator R) (s : Snapshot R) : Aggregator R × Option (Snapshot R) :=
  ({ a with shapes := noteShapes a.shapes s }, some s)

/-- let `s` leave if it holds anything -/
def emitFilled (a : Aggregator R) : Option (Snapshot R) → Aggregator R × Option (Snapshot R)
  | some s => if s.empty then (a, none) else a.emit s
  | none => (a, none)

/-- handle one event; at most one snapshot leaves -/
def step (a : Aggregator R) : AggregatorEvent R → Aggregator R × Option (Snapshot R)
  | .opened time =>
    if a.openTime = some time then (a, none)
    else { a with current := some (.new time) }.emitFilled a.current
  | .fragment report =>
    match a.current with
    | some s =>
      if s.time = report.time then ({ a with current := some (s.merge report).1 }, none)
      else ({ a with late := a.late + 1 }, none)
    | none => ({ a with late := a.late + 1 }, none)
  | .completed time =>
    match a.current with
    | some s => if s.time = time then { a with current := none }.emit s else (a, none)
    | none => (a, none)

/-- let the open snapshot leave if it holds anything -/
def flush (a : Aggregator R) : Aggregator R × Option (Snapshot R) := { a with current := none }.emitFilled a.current

/-- handle events in order; the snapshots that leave are listed in order -/
def run (a : Aggregator R) (es : List (AggregatorEvent R)) : Aggregator R × List (Snapshot R) :=
  es.foldl (fun acc e =>
    let (a', out) := acc.1.step e
    (a', acc.2 ++ out.toList)) (a, [])

end Aggregator

end MetricSurvey

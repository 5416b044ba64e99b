/-
A ticker on the boundaries of a period: it ticks at `:00`, `:10`, `:20` of everybody's clock.

The first tick comes at the next boundary. A tick that nobody waits for in time comes at once when somebody waits, and the
ticks that were missed meanwhile are left out: the next one comes on the boundary after that. Each tick gives the survey
time nearest to the clock.
-/
import MetricSurvey.Time.Clock

namespace MetricSurvey

structure Ticker where
  period : Duration
  /-- when the next tick is due, counted from the start -/
  deadline : Duration
deriving DecidableEq

namespace Ticker

/-- a tick that comes no later than this does not count as missed -/
def slack : Duration := .ofMillis 5

/-- a ticker that starts at a reading of the clock -/
def new (period : Duration) (start : Reading) : Ticker :=
  let period := max period (.ofMillis 1)
  let p := period.millis % Nat.pow 2 64
  ⟨period, .ofMillis (p - start.ms.toNat % p)⟩

/-- Wait from a moment on: the moment of the tick, and the ticker after it. Moments are counted from the start. -/
def tick (k : Ticker) (waiting : Duration) : Duration × Ticker :=
  let now := max waiting k.deadline
  let late := now.nanos - k.deadline.nanos
  let next := if slack.nanos < late then now.nanos + k.period.nanos - late % k.period.nanos
    else k.deadline.nanos + k.period.nanos
  (now, { k with deadline := ⟨next⟩ })

/-- the survey time of a tick at a moment, by a clock that moves along from a reading -/
def timeAt (k : Ticker) (start : Reading) (moment : Duration) : Int64 := align (start.plus moment) k.period

end Ticker

end MetricSurvey

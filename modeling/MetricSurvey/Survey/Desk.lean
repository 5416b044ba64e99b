/-
A coordinator at its desk: with a clock, a scheduler for its timeouts, and the tray into which fired timeouts fall.

Time moves only when told to. A timeout that fires is put into the tray if the way there is open, and is handled later, in
order.
-/
import MetricSurvey.Survey.Coordinator
import MetricSurvey.Time.Scheduler

namespace MetricSurvey

structure Desk (P : Type) where
  coordinator : Coordinator P
  now : Reading
  timers : Scheduler SurveyTime
  /-- timeouts that have fired and wait to be handled -/
  tray : List SurveyTime
  /-- whether a timeout that fires still reaches the tray -/
  trayOpen : Bool
  /-- how long a survey waits for answers -/
  patience : Duration

namespace Desk

variable {P : Type}

def new (start : Reading) (patience : Duration) : Desk P := ⟨.new, start, .new, [], true, patience⟩

/-- let the coordinator handle an input now; its timeouts go to the scheduler -/
def handle (accepts : P → Bool) (d : Desk P) (i : CoordinatorInput P) : Desk P × Coordinator.Effects P :=
  let (coordinator, es) := Coordinator.step ⟨d.now, accepts⟩ d.coordinator i
  ({ d with
      coordinator
      timers := (es.filterMap CoordinatorEffect.timeout?).foldl (fun s time => s.schedule d.patience time) d.timers },
    es)

/-- move the scheduler on; fired timeouts fall into the tray -/
def elapse (d : Desk P) (by_ : Duration) : Desk P × Nat :=
  let (timers, fired) := d.timers.advance by_
  ({ d with timers, tray := if d.trayOpen then d.tray ++ fired else d.tray }, fired.length)

/-- handle what lies in the tray -/
def clearTray (accepts : P → Bool) (d : Desk P) : Desk P × Coordinator.Effects P :=
  d.tray.foldl (fun acc time =>
    let (d', es) := acc.1.handle accepts (.timeout time)
    (d', acc.2 ++ es)) ({ d with tray := [] }, [])

end Desk

end MetricSurvey

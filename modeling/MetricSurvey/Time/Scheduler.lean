/-
A scheduler that is moved by hand.

A task scheduled for later waits until time has been moved to its deadline. `advance` moves time and hands out the tasks
that are due, by deadline, and in scheduling order where deadlines are equal. What a task schedules while it runs waits at
least for the next advance.

The time that has gone by and the deadlines are sums of durations. `schedule` and `advance` take them to stay within
`Duration.longest`.
-/
import MetricSurvey.Time.Duration

namespace MetricSurvey

structure Scheduler (τ : Type) where
  elapsed : Duration
  /-- deadlines and tasks in scheduling order -/
  pending : List (Duration × τ)

namespace Scheduler

variable {τ : Type}

def new : Scheduler τ := ⟨.zero, []⟩

/-- let a task wait for a duration from now -/
def schedule (s : Scheduler τ) (after : Duration) (task : τ) : Scheduler τ :=
  { s with pending := s.pending ++ [(s.elapsed + after, task)] }

/-- move time on; the tasks that became due are taken out, in the order in which they run -/
def advance (s : Scheduler τ) (by_ : Duration) : Scheduler τ × List τ :=
  let now := s.elapsed + by_
  let (due, later) := s.pending.partition fun e => decide (e.1 ≤ now)
  (⟨now, later⟩, (due.mergeSort fun a b => decide (a.1 ≤ b.1)).map Prod.snd)

/-- move time on and run what became due; `follow` says what a task schedules while it runs -/
def advanceRunning (follow : τ → List (Duration × τ)) (s : Scheduler τ) (by_ : Duration) : Scheduler τ × List τ :=
  let (s, due) := s.advance by_
  (due.foldl (fun s t => (follow t).foldl (fun s e => s.schedule e.1 e.2) s) s, due)

end Scheduler

end MetricSurvey

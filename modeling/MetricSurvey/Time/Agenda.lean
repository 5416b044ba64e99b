/-
Agendas: tasks that go on until all of them wait, on a clock that then moves to the next deadline.

A task that was ready first goes first, and goes on until it waits. No time passes while anybody can go on.
-/
import MetricSurvey.Time.Duration

namespace MetricSurvey

structure Agenda (σ τ : Type) where
  /-- everybody, in the order in which those line up who become ready together -/
  tasks : σ → List τ
  /-- one move of a task, if it does not wait -/
  move : σ → τ → Option σ
  now : σ → Duration
  /-- the moments at which something will go on by itself -/
  deadlines : σ → List Duration
  /-- move the clock to a later moment -/
  jump : σ → Duration → σ

namespace Agenda

variable {σ τ : Type} [DecidableEq τ]

/-- the line of those that are ready; who has become ready goes to its end -/
def lineUp (a : Agenda σ τ) (s : σ) (line : List τ) : List τ :=
  line ++ (a.tasks s).filter fun t => !line.contains t && (a.move s t).isSome

/-- at most so many moves, or until everybody waits -/
def settleWithin (a : Agenda σ τ) : Nat → List τ → σ → σ
  | 0, _, s => s
  | n + 1, line, s =>
    match a.lineUp s line with
    | [] => s
    | t :: rest =>
      match a.move s t with
      | some s' => settleWithin a n (t :: rest) s'
      | none => settleWithin a n rest s

/-- more moves than anything takes that comes to rest -/
def bound : Nat := 1000000

def settle (a : Agenda σ τ) (s : σ) : σ := a.settleWithin bound [] s

/-- the next moment at which something will go on by itself, up to a last one -/
def nextMoment (a : Agenda σ τ) (s : σ) (last : Duration) : Duration :=
  ((a.deadlines s).filter fun d => decide (a.now s < d)).foldl min last

/-- settle, then go from moment to moment up to the last one; the number bounds the moments -/
def advanceWithin (a : Agenda σ τ) : Nat → σ → (last : Duration) → σ
  | 0, s, _ => s
  | n + 1, s, last =>
    let s := a.settle s
    if last ≤ a.now s then s else advanceWithin a n (a.jump s (a.nextMoment s last)) last

/-- let time pass -/
def advance (a : Agenda σ τ) (s : σ) (by_ : Duration) : σ := a.advanceWithin bound s (a.now s + by_)

end Agenda

end MetricSurvey

/-
The scheduler that is moved by hand: what waits, and what fires.

- `mem_advance`: what fires when time moves on is what waits with a deadline that has come.
- `mem_pending_advance`: what waits on is the rest.
- `scheduleEach_eq`, `scheduleAll_eq`: what is scheduled waits behind what waits already, for durations from now.
- `advanceRunning_eq`: what tasks schedule while they run is scheduled at the time that was reached.
- `advance_of_sorted`: where no deadline comes before one that was scheduled earlier, tasks fire in scheduling order.
-/
import Mathlib.Tactic
import MetricSurvey.Time.Scheduler

namespace MetricSurvey

namespace Duration

theorem le_refl (a : Duration) : a ≤ a := Nat.le_refl a.nanos

theorem le_add_right (a b : Duration) : a ≤ a + b := Nat.le_add_right a.nanos b.nanos

theorem le_trans {a b c : Duration} (h : a ≤ b) (h' : b ≤ c) : a ≤ c := Nat.le_trans h h'

theorem add_le_add {a b c d : Duration} (h : a ≤ b) (h' : c ≤ d) : a + c ≤ b + d := Nat.add_le_add h h'

end Duration

namespace Scheduler

variable {τ : Type}

/-! ## Time moves on -/

/-- what waits on when time moves on -/
theorem mem_pending_advance {s : Scheduler τ} {by_ : Duration} {e : Duration × τ} :
    e ∈ (s.advance by_).1.pending ↔ e ∈ s.pending ∧ ¬ e.1 ≤ s.elapsed + by_ := by
  simp [advance, List.partition_eq_filter_filter]

/-- **What fires when time moves on.** -/
theorem mem_advance {s : Scheduler τ} {by_ : Duration} {task : τ} :
    task ∈ (s.advance by_).2 ↔ ∃ deadline, (deadline, task) ∈ s.pending ∧ deadline ≤ s.elapsed + by_ := by
  simp [advance, List.partition_eq_filter_filter, List.mem_mergeSort]

/-! ## Scheduling -/

/-- let tasks wait, each for its own duration from now -/
def scheduleEach (s : Scheduler τ) (entries : List (Duration × τ)) : Scheduler τ :=
  entries.foldl (fun s e => s.schedule e.1 e.2) s

theorem scheduleEach_eq (s : Scheduler τ) (entries : List (Duration × τ)) :
    s.scheduleEach entries = ⟨s.elapsed, s.pending ++ entries.map fun e => (s.elapsed + e.1, e.2)⟩ := by
  induction entries generalizing s with
  | nil => simp [scheduleEach]
  | cons e entries ih =>
    have hrest := ih (s.schedule e.1 e.2)
    rw [List.map_cons, List.append_cons]
    exact hrest

/-- what tasks schedule while they run waits behind all that waits already -/
theorem advanceRunning_eq (follow : τ → List (Duration × τ)) (s : Scheduler τ) (by_ : Duration) :
    s.advanceRunning follow by_ = ((s.advance by_).1.scheduleEach ((s.advance by_).2.flatMap follow), (s.advance by_).2) := by
  unfold advanceRunning scheduleEach
  dsimp only
  rw [List.foldl_flatMap]

/-- let tasks wait for the same duration -/
def scheduleAll (s : Scheduler τ) (after : Duration) (tasks : List τ) : Scheduler τ :=
  tasks.foldl (fun s task => s.schedule after task) s

theorem scheduleAll_eq (s : Scheduler τ) (after : Duration) (tasks : List τ) :
    s.scheduleAll after tasks = ⟨s.elapsed, s.pending ++ tasks.map fun task => (s.elapsed + after, task)⟩ := by
  have heach : s.scheduleAll after tasks = s.scheduleEach (tasks.map fun task => (after, task)) := by
    rw [scheduleEach, List.foldl_map, scheduleAll]
  rw [heach, scheduleEach_eq, List.map_map]
  rfl

theorem elapsed_scheduleAll (s : Scheduler τ) (after : Duration) (tasks : List τ) :
    (s.scheduleAll after tasks).elapsed = s.elapsed := by
  rw [scheduleAll_eq]

theorem pending_scheduleAll (s : Scheduler τ) (after : Duration) (tasks : List τ) :
    (s.scheduleAll after tasks).pending = s.pending ++ tasks.map fun task => (s.elapsed + after, task) := by
  rw [scheduleAll_eq]

/-! ## In order -/

/-- move time on and take out the tasks that became due, in scheduling order -/
def advanceInOrder (s : Scheduler τ) (by_ : Duration) : Scheduler τ × List τ :=
  (⟨s.elapsed + by_, s.pending.filter fun e => !decide (e.1 ≤ s.elapsed + by_)⟩,
    (s.pending.filter fun e => decide (e.1 ≤ s.elapsed + by_)).map Prod.snd)

theorem advance_of_sorted {s : Scheduler τ} (h : s.pending.Pairwise fun a b => a.1 ≤ b.1) (by_ : Duration) :
    s.advance by_ = s.advanceInOrder by_ := by
  have hdue : (s.pending.filter fun e => decide (e.1 ≤ s.elapsed + by_)).mergeSort (fun a b => decide (a.1 ≤ b.1)) =
      s.pending.filter fun e => decide (e.1 ≤ s.elapsed + by_) := by
    refine List.mergeSort_of_pairwise ?_
    exact (h.sublist List.filter_sublist).imp fun hab => decide_eq_true hab
  simp only [advance, advanceInOrder, List.partition_eq_filter_filter, Function.comp_def]
  rw [hdue]

end Scheduler

end MetricSurvey

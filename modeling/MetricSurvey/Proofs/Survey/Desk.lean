/-
A coordinator at its desk, move by move: inputs that are handled, timeouts that fire and wait in the tray, and time.

- `armed_step`: an input arms one timeout if it opens a survey that is still open after it, and else none.
- `coordinator_run`: a run of a desk is a run of its coordinator over what was handled.
- `pending_step`, `tray_step`: what waits in the scheduler and lies in the tray after a move.
- `run_inOrder`: timeouts fire in the order in which they were armed.
-/
import MetricSurvey.Proofs.Survey.Steps
import MetricSurvey.Proofs.Time.Scheduler
import MetricSurvey.Survey.Desk

namespace MetricSurvey

variable {P : Type}

/-! ## Armed timeouts -/

namespace Coordinator

variable {c : Coordinator P}

/-- the survey times for which these effects arm a timeout -/
def armed (es : Effects P) : List SurveyTime := es.filterMap CoordinatorEffect.timeout?

@[simp] theorem armed_append (es es' : Effects P) : armed (es ++ es') = armed es ++ armed es' := List.filterMap_append

@[simp] theorem armed_cons (e : CoordinatorEffect P) (es : Effects P) : armed (e :: es) = e.timeout?.toList ++ armed es := by
  cases e <;> rfl

@[simp] theorem armed_nil : armed ([] : Effects P) = [] := rfl

@[simp] theorem armed_removeClient (c : Coordinator P) (id : ClientId) : armed (c.removeClient id).2 = [] := by
  simp only [removeClient, armed_append]
  cases c.clients.get? id <;> simp [armed, List.filterMap_map, Function.comp_def, CoordinatorEffect.timeout?]

theorem armed_removeClients (c : Coordinator P) (ids : List ClientId) : armed (c.removeClients ids).2 = [] := by
  induction ids generalizing c with
  | nil => rfl
  | cons id ids ih =>
    rw [removeClients_cons]
    simp only [armed_append, armed_removeClient, ih, List.append_nil]

/-- **What a step arms**: the timeout of the survey that it opens, if that is still open after it. -/
theorem armed_step (s : Surroundings P) (c : Coordinator P) (i : CoordinatorInput P) :
    armed (step s c i).2 = ((c.opens i).filter fun t => ((step s c i).1.book.get? t).isSome).toList := by
  cases i with
  | register id peer =>
    simp only [step, register]
    split <;> rfl
  | setTags id tags => rfl
  | sessionEnded id =>
    simp only [step, sessionEnded]
    split
    · rfl
    · exact armed_removeClient c id
  | removeClient id => exact armed_removeClient c id
  | tick time =>
    have hoverdue : armed (c.overdue time) = [] := by
      rw [overdue]
      split_ifs <;> rfl
    cases ho : c.opens (.tick time) with
    | none =>
      simp only [step, tick_of_opens_none ho, armed_cons, hoverdue]
      rfl
    | some t =>
      obtain rfl : t = time := (opens_tick_eq_some.1 ho).1
      have hrequests : armed (c.clients.toList.map fun e => CoordinatorEffect.request e.2.peer t) = [] := by
        simp [armed, List.filterMap_map, Function.comp_def, CoordinatorEffect.timeout?]
      simp only [step, tick_of_opens ho, List.cons_append, armed_cons, armed_append, hoverdue, hrequests,
        armed_removeClients]
      split_ifs with hopen <;> simp [hopen, Option.filter, CoordinatorEffect.timeout?, tellCount]
  | complete id time =>
    simp only [step, complete]
    split
    · rename_i closed _
      cases closed <;> rfl
    · rfl
  | timeout time =>
    simp only [step, timeout]
    split <;> rfl
  | shutdown => simp [step, shutdown, armed, List.filterMap_map, Function.comp_def, CoordinatorEffect.timeout?, opens]

end Coordinator

/-! ## Moves -/

namespace Desk

open Coordinator

/-- what can happen at a desk -/
inductive Move (P : Type) where
  /-- an input is handled; `accepts` says which peers take a request then -/
  | handle (accepts : P → Bool) (i : CoordinatorInput P)
  /-- the timeout on top of the tray is handled -/
  | next (accepts : P → Bool)
  /-- the scheduler moves on -/
  | elapse (by_ : Duration)
  /-- the clock shows something else -/
  | clock (reading : Reading)
  /-- timeouts that fire from now on do not reach the tray -/
  | shut

/-- whether a move handles what lies in the tray -/
def Move.isNext : Move P → Bool
  | .next _ => true
  | _ => false

/-- what the coordinator handles in a move -/
def input? (d : Desk P) : Move P → Option (Surroundings P × CoordinatorInput P)
  | .handle accepts i => some (⟨d.now, accepts⟩, i)
  | .next accepts => d.tray.head?.map fun time => (⟨d.now, accepts⟩, .timeout time)
  | _ => none

def step (d : Desk P) : Move P → Desk P
  | .handle accepts i => (d.handle accepts i).1
  | .next accepts =>
    match d.tray with
    | [] => d
    | time :: rest => ({ d with tray := rest }.handle accepts (.timeout time)).1
  | .elapse by_ => (d.elapse by_).1
  | .clock reading => { d with now := reading }
  | .shut => { d with trayOpen := false }

def run (d : Desk P) (ms : List (Move P)) : Desk P := ms.foldl step d

variable {d : Desk P}

@[simp] theorem run_nil (d : Desk P) : d.run [] = d := rfl

@[simp] theorem run_cons (d : Desk P) (m : Move P) (ms : List (Move P)) : d.run (m :: ms) = (d.step m).run ms := rfl

theorem run_append (d : Desk P) (ms ms' : List (Move P)) : d.run (ms ++ ms') = (d.run ms).run ms' := List.foldl_append

theorem run_snoc (d : Desk P) (ms : List (Move P)) (m : Move P) : d.run (ms ++ [m]) = (d.run ms).step m :=
  run_append d ms [m]

/-- the survey that a move opens -/
def opens (d : Desk P) (m : Move P) : Option SurveyTime := (d.input? m).bind fun i => d.coordinator.opens i.2

/-- the times of the surveys that a run opens, in order -/
def opened (d : Desk P) : List (Move P) → List SurveyTime
  | [] => []
  | m :: ms => (d.opens m).toList ++ opened (d.step m) ms

theorem opened_snoc (d : Desk P) (ms : List (Move P)) (m : Move P) :
    d.opened (ms ++ [m]) = d.opened ms ++ ((d.run ms).opens m).toList := by
  induction ms generalizing d with
  | nil => simp [opened]
  | cons m' ms ih => simp only [List.cons_append, opened, ih, run_cons, List.append_assoc]

/-! ## What a move changes -/

theorem coordinator_handle (accepts : P → Bool) (d : Desk P) (i : CoordinatorInput P) :
    (d.handle accepts i).1.coordinator = (Coordinator.step ⟨d.now, accepts⟩ d.coordinator i).1 := rfl

theorem timers_handle (accepts : P → Bool) (d : Desk P) (i : CoordinatorInput P) : (d.handle accepts i).1.timers =
    d.timers.scheduleAll d.patience (armed (Coordinator.step ⟨d.now, accepts⟩ d.coordinator i).2) := rfl

/-- the coordinator handles what there is to handle -/
theorem coordinator_step (d : Desk P) (m : Move P) :
    (d.step m).coordinator = ((d.input? m).elim d.coordinator fun i => (Coordinator.step i.1 d.coordinator i.2).1) := by
  cases m with
  | next accepts =>
    cases htray : d.tray with
    | nil => simp [step, input?, htray]
    | cons time rest => simp [step, input?, htray, coordinator_handle]
  | _ => rfl

/-- a move arms the timeout of the survey that it opens, if that is still open after it -/
theorem timers_step (d : Desk P) {m : Move P} (hm : ∀ by_, m ≠ .elapse by_) : (d.step m).timers =
    d.timers.scheduleAll d.patience ((d.opens m).filter fun t => ((d.step m).coordinator.book.get? t).isSome).toList := by
  cases m with
  | handle accepts i =>
    show (d.handle accepts i).1.timers = _
    rw [timers_handle, armed_step]
    rfl
  | next accepts =>
    cases htray : d.tray with
    | nil =>
      simp only [step, htray, opens, input?, List.head?_nil, Option.map_none, Option.bind_none]
      rfl
    | cons time rest =>
      simp only [step, htray, timers_handle, armed_step, opens, input?, List.head?_cons, Option.map_some, Option.bind_some,
        Coordinator.opens]
      rfl
  | elapse by_ => exact absurd rfl (hm by_)
  | clock reading => rfl
  | shut => rfl

theorem pending_step (d : Desk P) {m : Move P} (hm : ∀ by_, m ≠ .elapse by_) : (d.step m).timers.pending =
    d.timers.pending ++ ((d.opens m).filter fun t => ((d.step m).coordinator.book.get? t).isSome).toList.map
      fun time => (d.timers.elapsed + d.patience, time) := by
  rw [timers_step d hm, Scheduler.pending_scheduleAll]

theorem elapsed_step (d : Desk P) {m : Move P} (hm : ∀ by_, m ≠ .elapse by_) :
    (d.step m).timers.elapsed = d.timers.elapsed := by
  rw [timers_step d hm, Scheduler.elapsed_scheduleAll]

@[simp] theorem patience_step (d : Desk P) (m : Move P) : (d.step m).patience = d.patience := by
  cases m with
  | next accepts =>
    simp only [step]
    split <;> rfl
  | _ => rfl

theorem patience_run (d : Desk P) (ms : List (Move P)) : (d.run ms).patience = d.patience := by
  induction ms generalizing d with
  | nil => rfl
  | cons m ms ih => rw [run_cons, ih, patience_step]

/-- the tray that is shut stays shut -/
theorem trayOpen_of_step {m : Move P} (h : (d.step m).trayOpen = true) : d.trayOpen = true := by
  cases m with
  | next accepts =>
    simp only [step] at h
    split at h <;> exact h
  | shut => cases h
  | _ => exact h

/-- the timeouts that fall into the tray in a move -/
def arrivals (d : Desk P) : Move P → List SurveyTime
  | .elapse by_ => if d.trayOpen then (d.timers.advance by_).2 else []
  | _ => []

/-- **The tray after a move**: its top is taken off to be handled, and what fires falls in behind the rest. -/
theorem tray_step (d : Desk P) (m : Move P) :
    (d.step m).tray = d.tray.drop (if m.isNext then 1 else 0) ++ d.arrivals m := by
  cases m with
  | next accepts =>
    cases htray : d.tray with
    | nil => simp [step, htray, arrivals]
    | cons time rest =>
      simp only [step, htray, arrivals, List.append_nil]
      rfl
  | elapse by_ =>
    have hfallen : (d.step (.elapse by_)).tray =
        if d.trayOpen then d.tray ++ (d.timers.advance by_).2 else d.tray := rfl
    rw [hfallen, arrivals]
    cases hopen : d.trayOpen <;> simp [Move.isNext]
  | _ => exact (List.append_nil _).symm

/-- a survey that is open after a move was open before it or is opened by it -/
theorem isSome_of_step (hd : d.coordinator.book.WellFormed) {m : Move P} {time : SurveyTime}
    (h : ((d.step m).coordinator.book.get? time).isSome = true) :
    (∀ s, d.input? m ≠ some (s, .timeout time)) ∧
      (d.opens m = some time ∨ (d.coordinator.book.get? time).isSome = true) := by
  rw [coordinator_step] at h
  rw [opens]
  cases hi : d.input? m with
  | none =>
    rw [hi] at h
    exact ⟨by simp, Or.inr h⟩
  | some i =>
    rw [hi] at h
    obtain ⟨ht, ho⟩ := Coordinator.isSome_of_step hd h
    refine ⟨?_, ho⟩
    intro s hs
    cases hs
    exact ht rfl

/-- time does not go back -/
theorem elapsed_le_step (d : Desk P) (m : Move P) : d.timers.elapsed ≤ (d.step m).timers.elapsed := by
  by_cases hm : ∃ by_, m = .elapse by_
  · obtain ⟨by_, rfl⟩ := hm
    exact Duration.le_add_right _ _
  · rw [elapsed_step d (not_exists.1 hm)]
    exact Duration.le_refl _

theorem elapsed_le_run (d : Desk P) (ms : List (Move P)) : d.timers.elapsed ≤ (d.run ms).timers.elapsed := by
  induction ms generalizing d with
  | nil => exact Duration.le_refl _
  | cons m ms ih => exact Duration.le_trans (elapsed_le_step d m) (ih _)

/-- what the coordinator handles in a run -/
def inputs (d : Desk P) : List (Move P) → List (Surroundings P × CoordinatorInput P)
  | [] => []
  | m :: ms => (d.input? m).toList ++ inputs (d.step m) ms

/-- **A run of a desk is a run of its coordinator.** -/
theorem coordinator_run (d : Desk P) (ms : List (Move P)) :
    (d.run ms).coordinator = (Coordinator.run d.coordinator (d.inputs ms)).1 := by
  induction ms generalizing d with
  | nil => rfl
  | cons m ms ih =>
    rw [run_cons, ih, coordinator_step, inputs, Coordinator.run_append]
    cases d.input? m <;> rfl

theorem wellFormed_step (hd : d.coordinator.book.WellFormed) (m : Move P) : (d.step m).coordinator.book.WellFormed := by
  rw [coordinator_step]
  cases d.input? m with
  | none => exact hd
  | some i => exact Coordinator.wellFormed_step hd i.1 i.2

theorem wellFormed_run_new (start : Reading) (patience : Duration) (ms : List (Move P)) :
    ((new start patience).run ms).coordinator.book.WellFormed := by
  rw [coordinator_run]
  exact Coordinator.wellFormed_run_new _

/-! ## The order of timeouts -/

/-- no timeout is due before one that was armed earlier, and none later than a patience from now -/
structure InOrder (d : Desk P) : Prop where
  sorted : d.timers.pending.Pairwise fun a b => a.1 ≤ b.1
  due : ∀ e ∈ d.timers.pending, e.1 ≤ d.timers.elapsed + d.patience

theorem InOrder.step (h : d.InOrder) (m : Move P) : (d.step m).InOrder := by
  by_cases he : ∃ by_, m = .elapse by_
  · obtain ⟨by_, rfl⟩ := he
    have hpending : (d.step (.elapse by_)).timers.pending = (d.timers.advanceInOrder by_).1.pending := by
      rw [← Scheduler.advance_of_sorted h.sorted]
      rfl
    constructor
    · rw [hpending]
      exact h.sorted.sublist List.filter_sublist
    · intro e hin
      have hdue := h.due e (Scheduler.mem_pending_advance.1 hin).1
      exact Duration.le_trans hdue (Duration.add_le_add (elapsed_le_step d _) (Duration.le_refl _))
  · rw [not_exists] at he
    constructor
    · rw [pending_step d he, List.pairwise_append]
      refine ⟨h.sorted, ?_, ?_⟩
      · cases (d.opens m).filter fun t => ((d.step m).coordinator.book.get? t).isSome <;> simp
      · intro a ha b hb
        obtain ⟨t, -, rfl⟩ := List.mem_map.1 hb
        exact h.due a ha
    · intro e hin
      rw [elapsed_step d he, patience_step]
      rw [pending_step d he] at hin
      rcases List.mem_append.1 hin with hin | hin
      · exact h.due e hin
      · obtain ⟨t, -, rfl⟩ := List.mem_map.1 hin
        exact Duration.le_refl _

/-- a move, where timeouts fire in the order in which they were armed -/
def stepInOrder (d : Desk P) : Move P → Desk P
  | .elapse by_ =>
    let (timers, fired) := d.timers.advanceInOrder by_
    { d with timers, tray := if d.trayOpen then d.tray ++ fired else d.tray }
  | m => d.step m

theorem step_eq_stepInOrder (h : d.InOrder) (m : Move P) : d.step m = d.stepInOrder m := by
  cases m with
  | elapse by_ => simp only [step, elapse, stepInOrder, Scheduler.advance_of_sorted h.sorted]
  | _ => rfl

/-- **Timeouts fire in the order in which they were armed.** -/
theorem run_inOrder (start : Reading) (patience : Duration) (ms : List (Move P)) :
    (new start patience).run ms = ms.foldl stepInOrder (new start patience) := by
  have key : ∀ d : Desk P, d.InOrder → d.run ms = ms.foldl stepInOrder d := by
    induction ms with
    | nil => exact fun d _ => rfl
    | cons m ms ih =>
      intro d hd
      rw [run_cons, ih _ (hd.step m), step_eq_stepInOrder hd m]
      rfl
  apply key
  constructor
  · exact List.Pairwise.nil
  · intro e he
    cases he

end Desk

end MetricSurvey

/-
Reports of the coordinator: what it tells the aggregator of answers, of timeouts and of clients.

- `events_step_of_answer`, `events_tick`: what is told when an answer is taken, and by a tick.
- `reports_step`: a tick reports the timeouts since they were last reported and the clients of the survey that it opens, a
  taken answer reports its latency, and nothing else reports anything.
- `sampled_run`, `counted_run`: so the latencies that a run tells are those of the answers taken, and its counts of timeouts
  are those that were still to be reported when a tick came.
- `openTime_at_counts`: what a tick counts finds the snapshot of its time open, whatever sessions put in between.
-/
import MetricSurvey.Proofs.Survey.Emission

namespace MetricSurvey

variable {P R : Type}

/-! ## Reports -/

namespace Report

/-- what a report counts under a name, with its survey time -/
def counted (name : String) (r : Report R) : List (SurveyTime × R) :=
  (r.counts.filter fun c => c.name = name).map fun c => (r.time, c.value)

/-- what a report samples under a name, with its survey time -/
def sampled (name : String) (r : Report R) : List (SurveyTime × R) :=
  (r.values.filter fun v => v.name = name).map fun v => (r.time, v.value)

theorem counted_ofCount (name : String) (time : SurveyTime) (n : R) : (ofCount time name n).counted name = [(time, n)] := by
  simp [counted, ofCount]

theorem counted_ofCount_of_ne {name other : String} (h : other ≠ name) (time : SurveyTime) (n : R) :
    (ofCount time other n).counted name = [] := by
  simp [counted, ofCount, h]

@[simp] theorem counted_ofValue (name other : String) (time : SurveyTime) (v : R) :
    (ofValue time other v).counted name = [] := rfl

@[simp] theorem sampled_ofCount (name other : String) (time : SurveyTime) (n : R) :
    (ofCount time other n).sampled name = [] := rfl

theorem sampled_ofValue (name : String) (time : SurveyTime) (v : R) : (ofValue time name v).sampled name = [(time, v)] := by
  simp [sampled, ofValue]

end Report

namespace AggregatorEvent

def report? : AggregatorEvent R → Option (Report R)
  | .fragment r => some r
  | _ => none

/-- the reports in these events -/
def reports (es : List (AggregatorEvent R)) : List (Report R) := es.filterMap report?

@[simp] theorem reports_nil : reports ([] : List (AggregatorEvent R)) = [] := rfl

@[simp] theorem reports_append (es es' : List (AggregatorEvent R)) : reports (es ++ es') = reports es ++ reports es' :=
  List.filterMap_append

@[simp] theorem reports_cons (e : AggregatorEvent R) (es : List (AggregatorEvent R)) :
    reports (e :: es) = e.report?.toList ++ reports es := by
  cases e <;> rfl

@[simp] theorem reports_map_completed (ts : List SurveyTime) : reports (ts.map (completed (R := R))) = [] := by
  simp [reports, List.filterMap_map, Function.comp_def, report?]

@[simp] theorem reports_map_fragment (rs : List (Report R)) : reports (rs.map fragment) = rs := by
  simp [reports, List.filterMap_map, Function.comp_def, report?]

end AggregatorEvent

/-- an answer that was taken -/
structure Answer where
  client : ClientId
  time : SurveyTime
  latency : Duration
  /-- nobody else owed one -/
  last : Bool
deriving DecidableEq

/-- how an answer is reported -/
def Answer.report (a : Answer) : Report Binary64 :=
  .ofValue a.time Coordinator.latencyMetric (.ofNat a.latency.millis)

namespace Coordinator

open AggregatorEvent

variable {c : Coordinator P}

/-! ## Answers -/

/-- the answer that an input is, if it is taken -/
def answer? (s : Surroundings P) (c : Coordinator P) : CoordinatorInput P → Option Answer
  | .complete id time =>
    match (c.book.complete id time s.now).2 with
    | .recorded latency closed => some ⟨id, time, latency, closed⟩
    | _ => none
  | _ => none

/-- an answer is taken if it is owed -/
theorem answer?_complete (s : Surroundings P) (c : Coordinator P) (id : ClientId) (time : SurveyTime) :
    c.answer? s (.complete id time) = ((c.book.get? time).filter fun sv => sv.owes id).map fun sv =>
      ⟨id, time, s.now.since sv.started, (sv.release id).isDone⟩ := by
  cases hs : c.book.get? time with
  | none => simp [answer?, SurveyBook.complete_of_none hs]
  | some sv =>
    cases ho : sv.owes id with
    | false => simp [answer?, SurveyBook.complete_of_not_owes hs ho, Option.filter, ho]
    | true => simp [answer?, SurveyBook.complete_of_owes hs ho, Option.filter, ho]

theorem answer?_eq_some {s : Surroundings P} {i : CoordinatorInput P} {a : Answer} :
    c.answer? s i = some a ↔
      i = .complete a.client a.time ∧ (c.book.complete a.client a.time s.now).2 = .recorded a.latency a.last := by
  constructor
  · intro h
    cases i with
    | complete id time =>
      simp only [answer?] at h
      split at h
      · rename_i latency closed heq
        cases h
        exact ⟨rfl, heq⟩
      · cases h
    | _ => simp [answer?] at h
  · rintro ⟨rfl, h⟩
    simp only [answer?, h]

/-- the latency of an answer is told first, and then the completion that it brings -/
theorem events_step_of_answer {s : Surroundings P} {i : CoordinatorInput P} {a : Answer} (h : c.answer? s i = some a) :
    events (step s c i).2 = .fragment a.report :: if a.last then [.completed a.time] else [] := by
  obtain ⟨rfl, hrec⟩ := answer?_eq_some.1 h
  exact complete_of_recorded hrec

theorem events_complete_of_none {s : Surroundings P} {id : ClientId} {time : SurveyTime}
    (h : c.answer? s (.complete id time) = none) : events (complete s.now c id time).2 = [] := by
  unfold complete
  split
  · rename_i book latency closed heq
    simp [answer?, heq] at h
  · rfl

/-! ## What a step reports -/

/-- the count of timeouts that a tick reports -/
def timeoutsReport (c : Coordinator P) (time : SurveyTime) : Report Binary64 :=
  .ofCount time timeoutsMetric (.ofNat c.unreportedTimeouts)

/-- what a tick reports: the timeouts since they were last reported, and the clients of the survey that it opens -/
def tickReports (c : Coordinator P) (time : SurveyTime) : List (Report Binary64) :=
  (if 0 < c.unreportedTimeouts then [c.timeoutsReport time] else [])
    ++ if (c.opens (.tick time)).isSome then [c.clientsReport time] else []

theorem events_overdue (c : Coordinator P) (time : SurveyTime) :
    events (c.overdue time) = (if 0 < c.unreportedTimeouts then [c.timeoutsReport time] else []).map .fragment := by
  rw [overdue]
  split_ifs <;> rfl

theorem events_removeClients (c : Coordinator P) (ids : List ClientId) :
    events (c.removeClients ids).2 = (completions (events (c.removeClients ids).2)).map .completed := by
  induction ids generalizing c with
  | nil => rfl
  | cons id ids ih =>
    rw [removeClients_cons]
    dsimp only
    rw [events_append, events_removeClient, completions_append, completions_map_completed, List.map_append, ← ih]

/-- **What a tick tells**: that its time has begun, what it reports, and then the surveys that it completes. -/
theorem events_tick (s : Surroundings P) (c : Coordinator P) (time : SurveyTime) :
    ∃ done : List SurveyTime, events (tick s c time).2 =
      .opened time :: (c.tickReports time).map .fragment ++ done.map .completed := by
  cases ho : c.opens (.tick time) with
  | none =>
    refine ⟨[], ?_⟩
    rw [tick_of_opens_none ho, events_cons, events_overdue, tickReports, ho]
    simp [CoordinatorEffect.event?]
  | some t =>
    obtain rfl : t = time := (opens_tick_eq_some.1 ho).1
    refine ⟨completions (events ((c.surveying s t).removeClients (c.refusing s.accepts)).2), ?_⟩
    rw [events_tick_of_opens ho, ← events_removeClients, events_overdue, tickReports, ho]
    simp [clientsReport]

/-- what a step reports -/
def stepReports (s : Surroundings P) (c : Coordinator P) : CoordinatorInput P → List (Report Binary64)
  | .tick time => c.tickReports time
  | i => (c.answer? s i).toList.map Answer.report

theorem reports_step (s : Surroundings P) (c : Coordinator P) (i : CoordinatorInput P) :
    reports (events (step s c i).2) = c.stepReports s i := by
  cases i with
  | register id peer => simp [step, events_register, stepReports, answer?]
  | setTags id tags => rfl
  | sessionEnded id =>
    simp only [step, sessionEnded]
    split
    · rfl
    · simp [events_removeClient, stepReports, answer?]
  | removeClient id => simp [step, events_removeClient, stepReports, answer?]
  | tick time =>
    obtain ⟨done, hdone⟩ := events_tick s c time
    simp only [step, hdone, List.cons_append, reports_cons, reports_append, reports_map_fragment, reports_map_completed]
    simp [report?, stepReports]
  | complete id time =>
    cases ha : c.answer? s (.complete id time) with
    | none => simp [step, events_complete_of_none ha, stepReports, ha]
    | some a =>
      rw [events_step_of_answer ha]
      simp only [stepReports, ha]
      split_ifs <;> rfl
  | timeout time =>
    simp only [step, timeout]
    split <;> rfl
  | shutdown => simp [step, shutdown, events, List.filterMap_map, Function.comp_def, CoordinatorEffect.event?,
      stepReports, answer?]

/-! ## What a run reports -/

/-- the answers that a run takes, in order -/
def answers (c : Coordinator P) : List (Surroundings P × CoordinatorInput P) → List Answer
  | [] => []
  | i :: is => (c.answer? i.1 i.2).toList ++ answers (step i.1 c i.2).1 is

/-- the counts of timeouts that the ticks of a run report, each with the time of its tick -/
def reportedTimeouts (c : Coordinator P) : List (Surroundings P × CoordinatorInput P) → List (SurveyTime × Nat)
  | [] => []
  | i :: is => (i.2.tick?.filter fun _ => decide (0 < c.unreportedTimeouts)).toList.map (fun t => (t, c.unreportedTimeouts))
      ++ reportedTimeouts (step i.1 c i.2).1 is

theorem counted_step (s : Surroundings P) (c : Coordinator P) (i : CoordinatorInput P) :
    (reports (events (step s c i).2)).flatMap (Report.counted timeoutsMetric) =
      (i.tick?.filter fun _ => decide (0 < c.unreportedTimeouts)).toList.map fun t => (t, .ofNat c.unreportedTimeouts) := by
  rw [reports_step]
  cases i with
  | tick time =>
    have hclients : (c.clientsReport time).counted timeoutsMetric = [] :=
      Report.counted_ofCount_of_ne (by decide) time _
    have htimeouts : (c.timeoutsReport time).counted timeoutsMetric = [(time, .ofNat c.unreportedTimeouts)] :=
      Report.counted_ofCount _ time _
    simp only [stepReports, tickReports, CoordinatorInput.tick?]
    by_cases hn : 0 < c.unreportedTimeouts <;> by_cases ho : (c.opens (.tick time)).isSome = true <;>
      simp [hn, ho, hclients, htimeouts, Option.filter]
  | complete id time =>
    simp only [stepReports, CoordinatorInput.tick?]
    cases c.answer? s (.complete id time) <;> simp [Answer.report]
  | _ => rfl

theorem sampled_step (s : Surroundings P) (c : Coordinator P) (i : CoordinatorInput P) :
    (reports (events (step s c i).2)).flatMap (Report.sampled latencyMetric) =
      (c.answer? s i).toList.map fun a => (a.time, .ofNat a.latency.millis) := by
  rw [reports_step]
  cases i with
  | tick time =>
    simp only [stepReports, tickReports]
    split_ifs <;> simp [timeoutsReport, clientsReport, answer?]
  | complete id time =>
    simp only [stepReports]
    cases c.answer? s (.complete id time) <;> simp [Answer.report, Report.sampled_ofValue]
  | _ => rfl

/-- the counts of timeouts that are told are those that are reported -/
theorem counted_run (c : Coordinator P) (is : List (Surroundings P × CoordinatorInput P)) :
    (reports (events (run c is).2)).flatMap (Report.counted timeoutsMetric) =
      (c.reportedTimeouts is).map fun p => (p.1, .ofNat p.2) := by
  induction is generalizing c with
  | nil => rfl
  | cons i is ih =>
    simp only [run_cons, events_append, reports_append, List.flatMap_append, counted_step, ih, reportedTimeouts,
      List.map_append, List.map_map, Function.comp_def]

/-- one latency is told for every answer that is taken -/
theorem sampled_run (c : Coordinator P) (is : List (Surroundings P × CoordinatorInput P)) :
    (reports (events (run c is).2)).flatMap (Report.sampled latencyMetric) =
      (c.answers is).map fun a => (a.time, .ofNat a.latency.millis) := by
  induction is generalizing c with
  | nil => rfl
  | cons i is ih =>
    simp only [run_cons, events_append, reports_append, List.flatMap_append, sampled_step, ih, answers, List.map_append]

/-! ## Counts come in time -/

/-- what a tick counts comes after the beginning of its time, with nothing but reports in between -/
theorem counts_follow_opened_tick {s : Surroundings P} {time : SurveyTime} {r : Report Binary64}
    {before after : List (AggregatorEvent Binary64)} (h : events (tick s c time).2 = before ++ .fragment r :: after) :
    ∃ between, before = .opened r.time :: between ∧ openings between = [] ∧ completions between = [] := by
  obtain ⟨done, hdone⟩ := events_tick s c time
  rw [hdone] at h
  have htime : r.time = time := by
    have hr : r ∈ reports (events (step s c (.tick time)).2) := by
      have hall : events (step s c (.tick time)).2 = before ++ .fragment r :: after := hdone.trans h
      rw [hall]
      simp [report?]
    rw [reports_step, stepReports, tickReports, List.mem_append] at hr
    rcases hr with hr | hr <;> split_ifs at hr
    · rw [List.mem_singleton.1 hr]; rfl
    · cases hr
    · rw [List.mem_singleton.1 hr]; rfl
    · cases hr
  cases before with
  | nil => cases h
  | cons e between =>
    rw [List.cons_append, List.cons_append, List.cons.injEq] at h
    obtain ⟨rfl, h⟩ := h
    refine ⟨between, by rw [htime], ?_⟩
    rcases append_eq_append_cons h with ⟨m, hm, -⟩ | ⟨m, -, hm⟩
    · obtain ⟨rs, rest, -, hrs, -⟩ := List.map_eq_append_iff.1 hm
      rw [← hrs]
      constructor
      · simp [openings, List.filterMap_map, Function.comp_def, opened?]
      · simp [completions, List.filterMap_map, Function.comp_def, completed?]
    · -- no report stands among the completions
      have hmem : AggregatorEvent.fragment r ∈ done.map (completed (R := Binary64)) := by rw [hm]; simp
      simp at hmem

theorem counts_follow_opened {is : List (Surroundings P × CoordinatorInput P)} {r : Report Binary64}
    {before after : List (AggregatorEvent Binary64)} (hr : r.counts ≠ [])
    (h : events (run c is).2 = before ++ .fragment r :: after) :
    ∃ earlier between, before = earlier ++ .opened r.time :: between ∧ openings between = [] ∧
      completions between = [] := by
  obtain ⟨earlier, s, i, later, mid, more, rfl, rfl, hstep⟩ := eq_append_of_told h
  have hmem : r ∈ reports (events (step s (run c earlier).1 i).2) := by
    rw [hstep]
    simp [report?]
  rw [reports_step] at hmem
  cases i with
  | tick time =>
    obtain ⟨between, rfl, hnone⟩ := counts_follow_opened_tick (show events (tick s _ time).2 = _ from hstep)
    exact ⟨_, between, rfl, hnone⟩
  | _ =>
    -- the only other report is that of an answer, which counts nothing
    obtain ⟨a, -, rfl⟩ := List.mem_map.1 hmem
    exact absurd rfl hr

/-- A time that has begun, and since which no other has begun and it was not completed, is open, whatever sessions put in. -/
theorem openTime_of_own {q : List Post} {time : SurveyTime} {earlier since : List (AggregatorEvent Binary64)}
    (hown : Post.own q = earlier ++ .opened time :: since) (hopen : openings since = []) (hdone : time ∉ completions since) :
    (Aggregator.run .new (q.map Post.event)).1.openTime = some time := by
  obtain ⟨qa, qb, rfl, -, hqb⟩ := Post.eq_append_of_own hown
  rw [List.map_append, List.map_cons, Aggregator.run_append, Aggregator.run_cons]
  refine Aggregator.openTime_run_of_not_closes (Aggregator.step_opened _ _).1 (Aggregator.closes_eq_false ?_ ?_)
  · rw [Post.openings_map_event, hqb, hopen]
  · rw [Post.completions_map_event, hqb]
    exact hdone

/-- Whatever sessions put in between, what a tick counts finds the snapshot of its time open. -/
theorem openTime_at_counts {is : List (Surroundings P × CoordinatorInput P)} {q₁ q₂ : List Post} {r : Report Binary64}
    (hq : Post.own (q₁ ++ .coordinator (.fragment r) :: q₂) <+: events (run new is).2) (hr : r.counts ≠ []) :
    (Aggregator.run .new (q₁.map Post.event)).1.openTime = some r.time := by
  obtain ⟨rest, hrest⟩ := hq
  rw [Post.own_append, Post.own_cons, List.append_assoc] at hrest
  obtain ⟨earlier, between, hown, hopen, hdone⟩ := counts_follow_opened hr hrest.symm
  exact openTime_of_own hown hopen (hdone ▸ List.not_mem_nil)

end Coordinator

end MetricSurvey

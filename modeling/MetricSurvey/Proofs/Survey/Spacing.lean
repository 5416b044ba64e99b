/-
Spacing: a configuration that is accepted keeps surveys from overlapping.

Time:
- `Paced`: how ticks have to come: an interval apart, and not before every timeout that has fired was handled.
- `OneTick`: what holds between ticks: whatever is open was opened by the last one, and awaits a timeout that is due a
  patience after it. As a patience is shorter than an interval, a tick that keeps its distance finds the book empty
  (`OneTick.isEmpty_book`), and so does every tick of a run (`OneTick.noOverlap`).

What the coordinator tells, when no survey is open at a tick (`NoOverlap`):
- `LastTick`: the last tick that was told of, and what was told since.
- `UnderSurvey`: that tick opened a survey, which has not been completed since.
- `underSurvey_of_completed`, `underSurvey_of_latency`: completions and latencies are told under their own survey.

What the aggregator makes of it, with reports of sessions put in anywhere:
- `nobody_or_open`: the snapshot that is open belongs to the last tick, and that found nobody, or its survey is open.
- `surveys_do_not_overlap`: the whole, from the configuration to the snapshots.
-/
import MetricSurvey.Config.Document
import MetricSurvey.Proofs.Survey.Patience
import MetricSurvey.Proofs.Survey.Reports

namespace MetricSurvey

variable {P : Type}

namespace SurveyBook

variable {b : SurveyBook}

theorem not_open_of_isEmpty (h : b.isEmpty = true) (time : SurveyTime) : ¬ (b.get? time).isSome = true := by
  rw [Bool.not_eq_true]
  exact Table.isEmpty_iff.1 h time

theorem inFlight_le_one (h : ∀ time other, (b.get? time).isSome = true → (b.get? other).isSome = true → time = other) :
    b.inFlight ≤ 1 := by
  have hall : ∀ time ∈ b.openTimes, ∀ other ∈ b.openTimes, time = other := by
    intro time ht other ho
    exact h time other (mem_openTimes.1 ht) (mem_openTimes.1 ho)
  have hnodup : b.openTimes.Nodup := Table.nodup_keys _
  rw [inFlight, Table.size_eq]
  change b.openTimes.length ≤ 1
  match hopen : b.openTimes with
  | [] => exact Nat.zero_le 1
  | [_] => exact Nat.le_refl 1
  | time :: other :: _ =>
    rw [hopen] at hall hnodup
    have heq : time = other := hall time (by simp) other (by simp)
    simp [heq] at hnodup

end SurveyBook

namespace Aggregator

open AggregatorEvent

/-- what is open where no time has begun was open before, and has not been completed -/
theorem openTime_of_no_openings {a : Aggregator Binary64} {es : List (AggregatorEvent Binary64)}
    {time : SurveyTime} (hnone : openings es = []) (h : (run a es).1.openTime = some time) :
    a.openTime = some time ∧ time ∉ completions es := by
  induction es generalizing a with
  | nil => exact ⟨h, List.not_mem_nil⟩
  | cons e es ih =>
    rw [openings_cons, List.append_eq_nil_iff] at hnone
    obtain ⟨hopen, hdone⟩ := ih hnone.2 (by rwa [run_cons] at h)
    cases e with
    | opened t => simp [opened?] at hnone
    | fragment r =>
      rw [(step_fragment a r).1] at hopen
      exact ⟨hopen, by simpa [completed?] using hdone⟩
    | completed t =>
      rw [(step_completed a t).1] at hopen
      split_ifs at hopen with ht
      refine ⟨hopen, ?_⟩
      have hne : time ≠ t := by
        rintro rfl
        exact ht hopen
      simpa [completed?, hne] using hdone

end Aggregator

/-! ## Ticks that come an interval apart -/

namespace Desk

variable {d : Desk P} {m : Move P} {last : Option Duration} {interval : Duration}

/-- whether a move handles a tick -/
def Move.isTick : Move P → Bool
  | .handle _ (.tick _) => true
  | _ => false

/-- Ticks come at least an interval after one another, and when one comes every timeout that has fired was handled.
`last` is what the scheduler showed at the last tick before. -/
def Paced (interval : Duration) : Option Duration → Desk P → List (Move P) → Prop
  | _, _, [] => True
  | last, d, m :: ms =>
    (m.isTick = true → d.tray = [] ∧ ∀ since ∈ last, since + interval ≤ d.timers.elapsed) ∧
      Paced interval (if m.isTick then some d.timers.elapsed else last) (d.step m) ms

instance decidablePaced (interval : Duration) :
    ∀ (last : Option Duration) (d : Desk P) (ms : List (Move P)), Decidable (Paced interval last d ms)
  | _, _, [] => .isTrue trivial
  | last, d, m :: ms =>
    have := decidablePaced interval (if m.isTick then some d.timers.elapsed else last) (d.step m) ms
    inferInstanceAs (Decidable
      ((m.isTick = true → d.tray = [] ∧ ∀ since ∈ last, since + interval ≤ d.timers.elapsed) ∧ _))

/-- only ticks open surveys -/
theorem isTick_of_opens {time : SurveyTime} (h : d.opens m = some time) : m.isTick = true := by
  obtain ⟨⟨s, i⟩, hi, ho⟩ := Option.bind_eq_some_iff.1 h
  obtain ⟨rfl, -⟩ := Coordinator.opens_eq_some.1 ho
  cases m with
  | handle accepts i =>
    cases hi
    rfl
  | next accepts =>
    obtain ⟨time, -, heq⟩ := Option.map_eq_some_iff.1 hi
    cases heq
  | _ => cases hi

/-- no timeout waits whose deadline has passed -/
theorem undue_step (h : ∀ e ∈ d.timers.pending, d.timers.elapsed ≤ e.1) (m : Move P) :
    ∀ e ∈ (d.step m).timers.pending, (d.step m).timers.elapsed ≤ e.1 := by
  rintro ⟨deadline, time⟩ he
  by_cases hm : ∃ by_, m = .elapse by_
  · obtain ⟨by_, rfl⟩ := hm
    exact Nat.le_of_not_le (Scheduler.mem_pending_advance.1 he).2
  · rw [elapsed_step d (not_exists.1 hm)]
    rcases mem_pending_of_step he with hold | ⟨-, rfl⟩
    · exact h _ hold
    · exact Duration.le_add_right _ _

/-- Between ticks, whatever is open was opened by the last tick and awaits a timeout that is due a patience after it. -/
structure OneTick (last : Option Duration) (d : Desk P) : Prop where
  wellFormed : d.coordinator.book.WellFormed
  undue : ∀ e ∈ d.timers.pending, d.timers.elapsed ≤ e.1
  awaits : ∀ time, (d.coordinator.book.get? time).isSome = true →
    ∃ since ∈ last, d.Awaits (since + d.patience) time
  single : ∀ time other, (d.coordinator.book.get? time).isSome = true →
    (d.coordinator.book.get? other).isSome = true → time = other

theorem OneTick.new (start : Reading) (patience : Duration) : OneTick none (new start patience : Desk P) where
  wellFormed := SurveyBook.wellFormed_empty
  undue := by simp [Desk.new, Scheduler.new]
  awaits time h := by cases h
  single time other h := by cases h

/-- **A tick that keeps its distance finds nothing open**, as every timeout armed by the one before has been handled. -/
theorem OneTick.isEmpty_book (h : OneTick last d) (hpatience : ¬ interval ≤ d.patience) (htray : d.tray = [])
    (hlast : ∀ since ∈ last, since + interval ≤ d.timers.elapsed) : d.coordinator.book.isEmpty = true := by
  refine Table.isEmpty_iff.2 ?_
  intro time
  by_contra hopen
  rw [Bool.not_eq_false] at hopen
  obtain ⟨since, hsince, hpending | hfired⟩ := h.awaits time hopen
  · -- the timeout would have been due before the interval was over
    have hlate : since + interval ≤ since + d.patience := Duration.le_trans (hlast since hsince) (h.undue _ hpending)
    exact hpatience (Nat.le_of_add_le_add_left hlate)
  · rw [htray] at hfired
    cases hfired

/-- what a tick that finds nothing open leaves open -/
theorem OneTick.tick (h : OneTick last d) (hempty : d.coordinator.book.isEmpty = true) (m : Move P) :
    OneTick (some d.timers.elapsed) (d.step m) := by
  have hopened : ∀ time, ((d.step m).coordinator.book.get? time).isSome = true → d.opens m = some time := by
    intro time hopen
    exact (isSome_of_step h.wellFormed hopen).2.resolve_right (SurveyBook.not_open_of_isEmpty hempty time)
  refine ⟨wellFormed_step h.wellFormed m, undue_step h.undue m, ?_, ?_⟩
  · intro time hopen
    rw [patience_step]
    exact ⟨d.timers.elapsed, rfl, Awaits.of_opens (hopened time hopen) hopen⟩
  · intro time other htime hother
    exact Option.some.inj ((hopened time htime).symm.trans (hopened other hother))

/-- other moves open nothing, and lose no timeout of what stays open -/
theorem OneTick.other (h : OneTick last d) (hm : m.isTick = false) (halive : (d.step m).trayOpen = true) :
    OneTick last (d.step m) := by
  have hold : ∀ time, ((d.step m).coordinator.book.get? time).isSome = true →
      (∀ s, d.input? m ≠ some (s, .timeout time)) ∧ (d.coordinator.book.get? time).isSome = true := by
    intro time hopen
    obtain ⟨htimeout, ho⟩ := isSome_of_step h.wellFormed hopen
    refine ⟨htimeout, ho.resolve_left ?_⟩
    intro hnew
    rw [isTick_of_opens hnew] at hm
    cases hm
  refine ⟨wellFormed_step h.wellFormed m, undue_step h.undue m, ?_, ?_⟩
  · intro time hopen
    obtain ⟨since, hsince, hawaits⟩ := h.awaits time (hold time hopen).2
    rw [patience_step]
    exact ⟨since, hsince, hawaits.step halive (hold time hopen).1⟩
  · intro time other htime hother
    exact h.single time other (hold time htime).2 (hold other hother).2

theorem trayOpen_of_run {ms : List (Move P)} (h : (d.run ms).trayOpen = true) : d.trayOpen = true := by
  induction ms generalizing d with
  | nil => exact h
  | cons m ms ih => exact trayOpen_of_step (ih h)

/-- **While ticks keep their distance, surveys do not overlap**: each finds the book empty, and no more than one survey is
ever open. -/
theorem OneTick.noOverlap (h : OneTick last d) {ms : List (Move P)} (hpaced : Paced interval last d ms)
    (hpatience : ¬ interval ≤ d.patience) (halive : (d.run ms).trayOpen = true) :
    (∀ (before : List (Move P)) (m : Move P) (after : List (Move P)), ms = before ++ m :: after → m.isTick = true →
      (d.run before).coordinator.book.isEmpty = true) ∧
    ∀ before : List (Move P), before <+: ms → (d.run before).coordinator.book.inFlight ≤ 1 := by
  induction ms generalizing d last with
  | nil =>
    constructor
    · intro before m after hms
      simp at hms
    · intro before hbefore
      rw [List.prefix_nil.1 hbefore]
      exact SurveyBook.inFlight_le_one h.single
  | cons m ms ih =>
    obtain ⟨hm, hrest⟩ := hpaced
    have hempty : m.isTick = true → d.coordinator.book.isEmpty = true := by
      intro htick
      exact h.isEmpty_book hpatience (hm htick).1 (hm htick).2
    have hnext : OneTick (if m.isTick then some d.timers.elapsed else last) (d.step m) := by
      cases htick : m.isTick with
      | true => exact h.tick (hempty htick) m
      | false => exact h.other htick (trayOpen_of_run halive)
    rw [← patience_step d m] at hpatience
    obtain ⟨hticks, hflight⟩ := ih hnext hrest hpatience halive
    constructor
    · intro before m' after hms htick
      cases before with
      | nil =>
        cases hms
        exact hempty htick
      | cons x before =>
        cases hms
        exact hticks before m' after rfl htick
    · intro before hbefore
      cases before with
      | nil => exact SurveyBook.inFlight_le_one h.single
      | cons x before =>
        obtain ⟨rfl, hsteps⟩ := List.cons_prefix_cons.1 hbefore
        exact hflight before hsteps

end Desk

/-! ## What is told while surveys do not overlap -/

namespace Coordinator

open AggregatorEvent

variable {c : Coordinator P} {s : Surroundings P} {i : CoordinatorInput P} {time : SurveyTime}
  {is : List (Surroundings P × CoordinatorInput P)} {told rest : List (AggregatorEvent Binary64)}

/-- that a time has begun is the first thing that its tick tells -/
theorem tick_of_opening (h : events (step s c i).2 = told ++ .opened time :: rest) : i = .tick time ∧ told = [] := by
  have hopenings := openings_step s c i
  rw [h, openings_append, openings_cons] at hopenings
  cases i with
  | tick t =>
    obtain ⟨done, hdone⟩ := events_tick s c t
    have hfirst : events (step s c (.tick t)).2 = .opened t :: (c.tickReports t).map .fragment ++ done.map .completed :=
      hdone
    cases told with
    | nil =>
      rw [hfirst] at h
      cases h
      exact ⟨rfl, rfl⟩
    | cons e told =>
      have he : e = .opened t := (List.cons.inj (h.symm.trans hfirst)).1
      simp [he, opened?, CoordinatorInput.tick?] at hopenings
  | _ => simp [opened?, CoordinatorInput.tick?] at hopenings

/-- a latency is the first thing that is told when an answer is taken -/
theorem answer_of_latency {r : Report Binary64} (h : events (step s c i).2 = told ++ .fragment r :: rest)
    (hr : r.sampled latencyMetric ≠ []) : ∃ a, c.answer? s i = some a ∧ r = a.report ∧ told = [] := by
  cases ha : c.answer? s i with
  | none =>
    have hsampled := sampled_step s c i
    rw [h, ha] at hsampled
    simp [report?, hr] at hsampled
  | some a =>
    rw [events_step_of_answer ha] at h
    cases told with
    | nil =>
      cases h
      exact ⟨a, rfl, rfl, rfl⟩
    | cons e told =>
      -- behind the latency stands at most a completion
      cases hlast : a.last <;> simp [hlast, List.singleton_eq_append_iff] at h

/-- the survey that a tick opened stays open until its completion is told -/
theorem isSome_of_not_completed {before after : List (Surroundings P × CoordinatorInput P)}
    (hopens : (run new before).1.opens (.tick time) = some time)
    (htold : events (run new (before ++ (s, .tick time) :: after)).2 = events (run new before).2 ++ rest)
    (hdone : time ∉ completions rest) :
    ((run new (before ++ (s, .tick time) :: after)).1.book.get? time).isSome = true := by
  have hbefore := balance_run before time
  have hnow := balance_run (before ++ (s, .tick time) :: after) time
  obtain ⟨-, -, hclosed⟩ := opens_tick_eq_some.1 hopens
  rw [htold, completions_append, List.count_append, List.count_eq_zero.2 hdone, opened_append, opened, hopens] at hnow
  simp only [List.count_append, Option.toList_some, List.count_singleton_self] at hnow
  rw [hclosed] at hbefore
  by_contra hn
  rw [Bool.not_eq_true] at hn
  rw [hn] at hnow
  simp only [Option.isSome_none, Bool.toNat_false] at hbefore hnow
  omega

/-- no survey is open when a tick comes -/
def NoOverlap (is : List (Surroundings P × CoordinatorInput P)) : Prop :=
  ∀ before s time after, is = before ++ (s, .tick time) :: after → (run new before).1.book.isEmpty = true

/-- Of what was told, the last tick was for `time`: the inputs `before` were handled until it came, and `since` was told
after it had told that its time has begun. -/
structure LastTick (is : List (Surroundings P × CoordinatorInput P)) (told : List (AggregatorEvent Binary64))
    (before : List (Surroundings P × CoordinatorInput P)) (time : SurveyTime)
    (since : List (AggregatorEvent Binary64)) : Prop where
  handled : ∃ s after, is = before ++ (s, .tick time) :: after
  told_eq : told = events (run new before).2 ++ .opened time :: since
  last : openings since = []

/-- the last tick opened a survey, which has not been completed since -/
def UnderSurvey (is : List (Surroundings P × CoordinatorInput P)) (told : List (AggregatorEvent Binary64))
    (time : SurveyTime) : Prop :=
  ∃ before since, LastTick is told before time since ∧ (run new before).1.opens (.tick time) = some time ∧
    time ∉ completions since

theorem LastTick.append {before : List (Surroundings P × CoordinatorInput P)} {since : List (AggregatorEvent Binary64)}
    (h : LastTick is told before time since) (js : List (Surroundings P × CoordinatorInput P)) :
    LastTick (is ++ js) told before time since := by
  obtain ⟨⟨s, after, rfl⟩, htold, hlast⟩ := h
  exact ⟨⟨s, after ++ js, by simp⟩, htold, hlast⟩

/-- if any time has begun, there was a last tick -/
theorem exists_lastTick (htold : told <+: events (run new is).2) (h : openings told ≠ []) :
    ∃ before time since, LastTick is told before time since := by
  obtain ⟨rest, hrest⟩ := htold
  have hsplit : ∃ pre time since, told = pre ++ .opened time :: since ∧ openings since = [] := by
    clear hrest
    induction told with
    | nil => exact absurd rfl h
    | cons e told ih =>
      by_cases hlater : openings told = []
      · cases e with
        | opened time => exact ⟨[], time, told, rfl, hlater⟩
        | _ => simp [opened?, hlater] at h
      · obtain ⟨pre, time, since, rfl, hsince⟩ := ih hlater
        exact ⟨e :: pre, time, since, rfl, hsince⟩
  obtain ⟨pre, time, since, rfl, hsince⟩ := hsplit
  rw [List.append_assoc, List.cons_append] at hrest
  obtain ⟨before, s, i, after, mid, more, rfl, rfl, hstep⟩ := eq_append_of_told hrest.symm
  obtain ⟨rfl, rfl⟩ := tick_of_opening hstep
  exact ⟨before, time, since, ⟨s, after, rfl⟩, by simp, hsince⟩

/-- **No tick comes between the opening of a survey and its completion**, so the tick that opened a survey that is not
completed is the last. -/
theorem OpenedBy.underSurvey (hapart : NoOverlap is) (h : OpenedBy is told time)
    (htold : told <+: events (run new is).2) : UnderSurvey is told time := by
  obtain ⟨before, s, after, between, rfl, hopens, -, rfl, hdone⟩ := h
  refine ⟨before, between, ⟨⟨s, after, rfl⟩, rfl, ?_⟩, hopens, hdone⟩
  by_contra hsome
  obtain ⟨next, hnext⟩ := List.exists_mem_of_ne_nil _ hsome
  obtain ⟨e, he, hopened⟩ := List.mem_filterMap.1 hnext
  obtain ⟨earlier, later, rfl⟩ := List.append_of_mem he
  obtain ⟨rest, hrest⟩ := htold
  rw [run_append, events_append, List.append_assoc, List.append_cancel_left_eq, List.cons_append, List.append_assoc,
    List.cons_append] at hrest
  cases e with
  | opened t =>
    -- the next tick comes after this one and finds the survey open
    have hagain : events (run (run new before).1 ((s, .tick time) :: after)).2 =
        (.opened time :: earlier) ++ .opened t :: (later ++ rest) := hrest.symm
    obtain ⟨mid, s', i, after', told, more, hsplit, htold, hstep⟩ := eq_append_of_told hagain
    obtain ⟨rfl, rfl⟩ := tick_of_opening hstep
    cases mid with
    | nil => simp at htold
    | cons i mid =>
      cases hsplit
      rw [completions_append, List.mem_append, not_or] at hdone
      have hsince : events (run new (before ++ (s, .tick time) :: mid)).2 =
          events (run new before).2 ++ .opened time :: earlier := by
        rw [run_append, events_append, htold, List.append_nil]
      have hopen : ((run new (before ++ (s, .tick time) :: mid)).1.book.get? time).isSome = true :=
        isSome_of_not_completed hopens hsince (by simpa [completed?] using hdone.1)
      have hempty := hapart (before ++ (s, .tick time) :: mid) s' t after' (by simp)
      exact SurveyBook.not_open_of_isEmpty hempty time hopen
  | _ => cases hopened

/-- **A completion is told under its own survey.** -/
theorem underSurvey_of_completed (hapart : NoOverlap is) (htold : told ++ [.completed time] <+: events (run new is).2) :
    UnderSurvey is told time := by
  obtain ⟨rest, hrest⟩ := htold
  rw [List.append_assoc, List.singleton_append] at hrest
  have hopened := (openedBy_run is time).2 told rest hrest.symm
  exact hopened.underSurvey hapart ⟨_, hrest⟩

/-- **So is the latency of every answer.** -/
theorem underSurvey_of_latency (hapart : NoOverlap is) {r : Report Binary64}
    (htold : told ++ [.fragment r] <+: events (run new is).2) (hr : r.sampled latencyMetric ≠ []) :
    UnderSurvey is told r.time := by
  obtain ⟨rest, hrest⟩ := htold
  rw [List.append_assoc, List.singleton_append] at hrest
  obtain ⟨before, s, i, after, mid, more, rfl, rfl, hstep⟩ := eq_append_of_told hrest.symm
  obtain ⟨a, ha, rfl, rfl⟩ := answer_of_latency hstep hr
  -- an answer is taken only while its survey is open
  have hopen : ((run new before).1.book.get? a.time).isSome = true := by
    obtain ⟨rfl, hrecorded⟩ := answer?_eq_some.1 ha
    obtain ⟨sv, hsv, -⟩ := (SurveyBook.complete_recorded_iff _ _ _ _).1 ⟨_, _, hrecorded⟩
    rw [hsv, Option.isSome_some]
  have hnone : a.time ∉ completions ([] : List (AggregatorEvent Binary64)) := List.not_mem_nil
  have hopened := ((openedBy_run before a.time).1 hopen).append ((s, i) :: after) hnone
  rw [List.append_nil] at hopened hrest ⊢
  exact hopened.underSurvey hapart ⟨_, hrest⟩

/-! ## What the aggregator makes of it -/

/-- **The snapshot that is open belongs to the last tick**, whatever sessions put in. -/
theorem lastTick_of_openTime {q : List Post} (hq : Post.own q <+: events (run new is).2)
    (hopen : (Aggregator.run .new (q.map Post.event)).1.openTime = some time) :
    ∃ before since, LastTick is (Post.own q) before time since ∧ time ∉ completions since := by
  have hbegun : openings (Post.own q) ≠ [] := by
    intro hnone
    rw [← Post.openings_map_event] at hnone
    cases (Aggregator.openTime_of_no_openings hnone hopen).1
  obtain ⟨before, t, since, hlast⟩ := exists_lastTick hq hbegun
  obtain ⟨q₁, q₂, rfl, -, hq₂⟩ := Post.eq_append_of_own hlast.told_eq
  rw [List.map_append, List.map_cons, Aggregator.run_append, Aggregator.run_cons] at hopen
  have hnone : openings (q₂.map Post.event) = [] := by rw [Post.openings_map_event, hq₂, hlast.last]
  obtain ⟨hstart, hdone⟩ := Aggregator.openTime_of_no_openings hnone hopen
  have ht : t = time := Option.some.inj ((Aggregator.step_opened _ t).1.symm.trans hstart)
  subst ht
  rw [Post.completions_map_event, hq₂] at hdone
  exact ⟨before, since, hlast, hdone⟩

/-- **When all that a run tells was handled**, a snapshot that is open belongs to the last tick, and either that tick found
nobody or its survey is open. -/
theorem nobody_or_open (hapart : NoOverlap is) {q : List Post} (hq : Post.own q = events (run new is).2)
    (hopen : (Aggregator.run .new (q.map Post.event)).1.openTime = some time) :
    ∃ before since, LastTick is (Post.own q) before time since ∧
      ((run new before).1.clients.isEmpty = true ∨ ((run new is).1.book.get? time).isSome = true) := by
  have hall : Post.own q <+: events (run new is).2 := by rw [hq]
  obtain ⟨before, since, hlast, hdone⟩ := lastTick_of_openTime hall hopen
  refine ⟨before, since, hlast, ?_⟩
  cases hnobody : (run new before).1.clients.isEmpty with
  | true => exact Or.inl rfl
  | false =>
    right
    obtain ⟨s, after, rfl⟩ := hlast.handled
    have hclosed : (run new before).1.book.get? time = none :=
      Option.not_isSome_iff_eq_none.1 (SurveyBook.not_open_of_isEmpty (hapart before s time after rfl) time)
    have hopens : (run new before).1.opens (.tick time) = some time := opens_tick_eq_some.2 ⟨rfl, hnobody, hclosed⟩
    refine isSome_of_not_completed hopens (hq.symm.trans hlast.told_eq) ?_
    simpa [completed?] using hdone

/-- a snapshot that a tick forces out belongs to the tick before it, and that found nobody -/
theorem nobody_of_forced (hapart : NoOverlap is) {q : List Post} {next : SurveyTime}
    (hq : Post.own q ++ [.opened next] <+: events (run new is).2)
    (hopen : (Aggregator.run .new (q.map Post.event)).1.openTime = some time) :
    ∃ before since, LastTick is (Post.own q) before time since ∧ (run new before).1.clients.isEmpty = true := by
  obtain ⟨rest, hrest⟩ := hq
  rw [List.append_assoc, List.singleton_append] at hrest
  obtain ⟨earlier, s, i, after, mid, more, rfl, hown, hstep⟩ := eq_append_of_told hrest.symm
  obtain ⟨rfl, rfl⟩ := tick_of_opening hstep
  rw [List.append_nil] at hown
  have hearlier : NoOverlap earlier := by
    rintro before s' t after' rfl
    exact hapart before s' t (after' ++ (s, .tick next) :: after) (by simp)
  obtain ⟨before, since, hlast, hnobody | hsurvey⟩ := nobody_or_open hearlier hown hopen
  · exact ⟨before, since, hlast.append _, hnobody⟩
  · -- the tick would have found this survey open
    have hempty := hapart earlier s next after rfl
    exact absurd hsurvey (SurveyBook.not_open_of_isEmpty hempty time)

theorem UnderSurvey.openTime {q : List Post} (h : UnderSurvey is (Post.own q) time) :
    (Aggregator.run .new (q.map Post.event)).1.openTime = some time := by
  obtain ⟨before, since, hlast, -, hdone⟩ := h
  exact openTime_of_own hlast.told_eq hlast.last hdone

/-- **A snapshot leaves by the completion of its survey**, or else a tick forces it out, and then its own tick found
nobody. -/
theorem leaving (hapart : NoOverlap is) {q : List Post} {p : Post} (hq : Post.own (q ++ [p]) <+: events (run new is).2)
    {snapshot : Snapshot Binary64} (h : ((Aggregator.run .new (q.map Post.event)).1.step p.event).2 = some snapshot) :
    p = .coordinator (.completed snapshot.time) ∧ UnderSurvey is (Post.own q) snapshot.time ∨
      ∃ next before since, p = .coordinator (.opened next) ∧ LastTick is (Post.own q) before snapshot.time since ∧
        (run new before).1.clients.isEmpty = true := by
  rw [Post.own_append] at hq
  cases p with
  | session j r =>
    rw [Post.event, (Aggregator.step_fragment _ r).2.2] at h
    cases h
  | coordinator e =>
    cases e with
    | opened next =>
      rw [Post.event, (Aggregator.step_opened _ next).2.2] at h
      split_ifs at h
      have hopen : (Aggregator.run .new (q.map Post.event)).1.openTime = some snapshot.time :=
        Option.map_eq_some_iff.2 ⟨snapshot, (Option.filter_eq_some_iff.1 h).1, rfl⟩
      obtain ⟨before, since, hlast, hnobody⟩ := nobody_of_forced hapart hq hopen
      exact Or.inr ⟨next, before, since, rfl, hlast, hnobody⟩
    | fragment r =>
      rw [Post.event, (Aggregator.step_fragment _ r).2.2] at h
      cases h
    | completed t =>
      rw [Post.event, (Aggregator.step_completed _ t).2.2] at h
      split_ifs at h with hopen
      obtain ⟨current, hcurrent, rfl⟩ := Option.map_eq_some_iff.1 hopen
      cases hcurrent.symm.trans h
      exact Or.inl ⟨rfl, underSurvey_of_completed hapart hq⟩

/-- **Every completion lets the snapshot of its survey leave.** -/
theorem leaves_of_completed (hapart : NoOverlap is) {q : List Post}
    (hq : Post.own (q ++ [.coordinator (.completed time)]) <+: events (run new is).2) :
    UnderSurvey is (Post.own q) time ∧ ∃ snapshot,
      ((Aggregator.run .new (q.map Post.event)).1.step (.completed time)).2 = some snapshot ∧ snapshot.time = time := by
  rw [Post.own_append] at hq
  have hsurvey := underSurvey_of_completed hapart hq
  obtain ⟨snapshot, hcurrent, htime⟩ := Option.map_eq_some_iff.1 hsurvey.openTime
  refine ⟨hsurvey, snapshot, ?_, htime⟩
  rw [(Aggregator.step_completed _ time).2.2, if_pos hsurvey.openTime, hcurrent]

/-- **Every latency is merged into the snapshot of its survey.** -/
theorem lands_of_latency (hapart : NoOverlap is) {q : List Post} {r : Report Binary64}
    (hq : Post.own (q ++ [.coordinator (.fragment r)]) <+: events (run new is).2) (hr : r.sampled latencyMetric ≠ []) :
    UnderSurvey is (Post.own q) r.time ∧ ∃ snapshot,
      (Aggregator.run .new (q.map Post.event)).1.current = some snapshot ∧ snapshot.time = r.time ∧
      ((Aggregator.run .new (q.map Post.event)).1.step (.fragment r)).1.current = some (snapshot.merge r).1 := by
  rw [Post.own_append] at hq
  have hsurvey := underSurvey_of_latency hapart hq hr
  obtain ⟨snapshot, hcurrent, htime⟩ := Option.map_eq_some_iff.1 hsurvey.openTime
  refine ⟨hsurvey, snapshot, hcurrent, htime, ?_⟩
  rw [(Aggregator.step_fragment _ r).2.1, hcurrent, Option.map_some, if_pos htime]

end Coordinator

/-! ## From the configuration to the snapshots -/

/-- an accepted configuration has surveys shorter than the interval between them -/
theorem ServerConfig.timeout_lt_interval {config : ServerConfig} (h : config.validate = .ok ()) :
    ¬ config.interval ≤ config.timeout := by
  intro hlong
  simp only [validate, fault?, if_pos hlong] at h
  split_ifs at h

namespace Desk

open Coordinator

/-- what is handled in a run is handled in one of its moves -/
theorem move_of_inputs {d : Desk P} {ms : List (Move P)} {earlier later : List (Surroundings P × CoordinatorInput P)}
    {i : Surroundings P × CoordinatorInput P} (h : d.inputs ms = earlier ++ i :: later) :
    ∃ before m after, ms = before ++ m :: after ∧ d.inputs before = earlier ∧ (d.run before).input? m = some i := by
  induction ms generalizing d earlier with
  | nil => simp [inputs] at h
  | cons m ms ih =>
    rw [inputs] at h
    rcases append_eq_append_cons h with ⟨more, hm, -⟩ | ⟨rest, rfl, hrest⟩
    · cases hi : d.input? m with
      | none => simp [hi] at hm
      | some j =>
        rw [hi, Option.toList_some, List.singleton_eq_append_iff] at hm
        simp only [List.cons.injEq, reduceCtorEq, and_false, or_false] at hm
        obtain ⟨rfl, rfl, -⟩ := hm
        exact ⟨[], m, ms, rfl, rfl, hi⟩
    · obtain ⟨before, m', after, rfl, rfl, hi⟩ := ih hrest
      exact ⟨m :: before, m', after, rfl, rfl, hi⟩

/-- what a desk sees of its ticks, its coordinator sees of them -/
theorem noOverlap_inputs {start : Reading} {patience : Duration} {ms : List (Move P)}
    (h : ∀ (before : List (Move P)) (m : Move P) (after : List (Move P)), ms = before ++ m :: after → m.isTick = true →
      ((new start patience).run before).coordinator.book.isEmpty = true) :
    NoOverlap ((new start patience).inputs ms) := by
  intro earlier s time later hinputs
  obtain ⟨before, m, after, rfl, rfl, hi⟩ := move_of_inputs hinputs
  have htick : m.isTick = true := by
    cases m with
    | handle accepts i =>
      cases hi
      rfl
    | next accepts =>
      obtain ⟨fired, -, heq⟩ := Option.map_eq_some_iff.1 hi
      cases heq
    | _ => cases hi
  have hempty := h before m after rfl htick
  rwa [coordinator_run] at hempty

/-- **A configuration that is accepted keeps surveys from overlapping.** Take any run with its timeout in which timeouts
reach the tray, ticks come at least its interval after one another, and no tick comes before every timeout that has fired
was handled.
- No survey is open when a tick comes, so there is never more than one.
- Whatever sessions report in between, a snapshot leaves the aggregator by the completion of its own survey, while that
  is the one of the last tick; a tick forces out only the snapshot of a last tick that found nobody registered.
- Every completion finds the snapshot of its survey and lets it leave, and every latency is merged into it.
- A flush after the run lets leave only the snapshot of a last tick that found nobody, or whose survey is still open. -/
theorem surveys_do_not_overlap {config : ServerConfig} (hvalid : config.validate = .ok ()) {start : Reading}
    {ms : List (Move P)} (halive : ((new start config.timeout).run ms).trayOpen = true)
    (hpaced : Paced config.interval none (new start config.timeout) ms) :
    let desk : Desk P := new start config.timeout
    let is := desk.inputs ms
    let told := events (Coordinator.run .new is).2
    (∀ (before : List (Move P)) (m : Move P) (after : List (Move P)), ms = before ++ m :: after → m.isTick = true →
      (desk.run before).coordinator.book.isEmpty = true) ∧
    (∀ before : List (Move P), before <+: ms → (desk.run before).coordinator.book.inFlight ≤ 1) ∧
    (∀ (q : List Post) (p : Post), Post.own (q ++ [p]) <+: told →
      let a := (Aggregator.run .new (q.map Post.event)).1
      (∀ snapshot, (a.step p.event).2 = some snapshot →
        p = .coordinator (.completed snapshot.time) ∧ UnderSurvey is (Post.own q) snapshot.time ∨
        ∃ next before since, p = .coordinator (.opened next) ∧ LastTick is (Post.own q) before snapshot.time since ∧
          (Coordinator.run .new before).1.clients.isEmpty = true) ∧
      (∀ time, p = .coordinator (.completed time) → UnderSurvey is (Post.own q) time ∧
        ∃ snapshot, (a.step p.event).2 = some snapshot ∧ snapshot.time = time) ∧
      (∀ r, p = .coordinator (.fragment r) → r.sampled latencyMetric ≠ [] → UnderSurvey is (Post.own q) r.time ∧
        ∃ snapshot, a.current = some snapshot ∧ snapshot.time = r.time ∧
          (a.step p.event).1.current = some (snapshot.merge r).1)) ∧
    (∀ q : List Post, Post.own q = told →
      ∀ snapshot, (Aggregator.run .new (q.map Post.event)).1.flush.2 = some snapshot →
        ∃ before since, LastTick is told before snapshot.time since ∧
          ((Coordinator.run .new before).1.clients.isEmpty = true ∨
            ((Coordinator.run .new is).1.book.get? snapshot.time).isSome = true)) := by
  intro desk is told
  obtain ⟨hticks, hflight⟩ := (OneTick.new start config.timeout).noOverlap hpaced
    (ServerConfig.timeout_lt_interval hvalid) halive
  have hapart : NoOverlap is := noOverlap_inputs hticks
  refine ⟨hticks, hflight, ?_, ?_⟩
  · intro q p hq a
    refine ⟨fun snapshot h => leaving hapart hq h, ?_, ?_⟩
    · rintro time rfl
      exact leaves_of_completed hapart hq
    · rintro r rfl hr
      exact lands_of_latency hapart hq hr
  · intro q hq snapshot h
    rw [Aggregator.flush_snd] at h
    have hopen : (Aggregator.run .new (q.map Post.event)).1.openTime = some snapshot.time :=
      Option.map_eq_some_iff.2 ⟨snapshot, (Option.filter_eq_some_iff.1 h).1, rfl⟩
    obtain ⟨before, since, hlast, hwhy⟩ := nobody_or_open hapart hq hopen
    rw [hq] at hlast
    exact ⟨before, since, hlast, hwhy⟩

/-- One survey is answered, the next times out, and its client is dropped. The third tick finds nobody, so the fourth forces
its snapshot out, which holds the count of timeouts. -/
theorem surveys_do_not_overlap_in_turn :
    let config : ServerConfig := {}
    let all : Nat → Bool := fun _ => true
    let ms : List (Move Nat) :=
      [.handle all (.register 1 10), .handle all (.tick 1000), .elapse (.ofMillis 400), .handle all (.complete 1 1000),
        .elapse (.ofMillis 9600), .next all, .handle all (.tick 1010), .elapse (.ofSecs 1), .next all,
        .handle all (.removeClient 1), .elapse (.ofSecs 9), .handle all (.tick 1020), .elapse (.ofSecs 10),
        .handle all (.tick 1030)]
    let desk := new ⟨0⟩ config.timeout
    let latency : Report Binary64 := .ofValue 1000 latencyMetric (.ofNat 0)
    let asked : List Post :=
      [.coordinator (.opened 1000), .session 0 (.ofCount 1000 "hits" (.ofNat 3)),
        .coordinator (.fragment (.ofCount 1000 clientsMetric (.ofNat 1)))]
    let waiting : List Post := asked ++
      [.coordinator (.fragment latency), .coordinator (.completed 1000), .coordinator (.opened 1010),
        .coordinator (.fragment (.ofCount 1010 clientsMetric (.ofNat 1)))]
    let alone : List Post := waiting ++
      [.coordinator (.completed 1010), .coordinator (.opened 1020),
        .coordinator (.fragment (.ofCount 1020 timeoutsMetric (.ofNat 1)))]
    let state (q : List Post) := (Aggregator.run .new (q.map Post.event)).1
    config.validate = .ok () ∧ (desk.run ms).trayOpen = true ∧ Paced config.interval none desk ms ∧
    (desk.run ms).coordinator.book.inFlight ≤ 1 ∧
    (∃ snapshot, (state asked).current = some snapshot ∧ snapshot.time = 1000 ∧
      ((state asked).step (.fragment latency)).1.current = some (snapshot.merge latency).1) ∧
    (∃ snapshot, ((state waiting).step (.completed 1010)).2 = some snapshot ∧ snapshot.time = 1010) ∧
    ∃ snapshot before since, ((state alone).step (.opened 1030)).2 = some snapshot ∧
      LastTick (desk.inputs ms) (Post.own alone) before snapshot.time since ∧
      (Coordinator.run .new before).1.clients.isEmpty = true := by
  intro config all ms desk latency asked waiting alone state
  have hvalid : config.validate = .ok () := by decide
  have halive : (desk.run ms).trayOpen = true := by decide +kernel
  have hpaced : Paced config.interval none desk ms := by decide +kernel
  obtain ⟨-, hflight, htold, -⟩ := surveys_do_not_overlap hvalid halive hpaced
  refine ⟨hvalid, halive, hpaced, ?_, ?_, ?_, ?_⟩
  · simp only [desk]
    exact hflight ms (List.prefix_refl ms)
  · obtain ⟨-, -, hlands⟩ := htold asked (.coordinator (.fragment latency)) (by decide +kernel)
    have hsampled : latency.sampled latencyMetric = [(1000, .ofNat 0)] := Report.sampled_ofValue latencyMetric 1000 _
    exact (hlands latency rfl (hsampled ▸ List.cons_ne_nil _ _)).2
  · obtain ⟨-, hleaves, -⟩ := htold waiting (.coordinator (.completed 1010)) (by decide +kernel)
    exact (hleaves 1010 rfl).2
  · obtain ⟨hforced, -, -⟩ := htold alone (.coordinator (.opened 1030)) (by decide +kernel)
    have hout : ((state alone).step (.opened 1030)).2.isSome = true := by decide +kernel
    obtain ⟨snapshot, hsnapshot⟩ := Option.isSome_iff_exists.1 hout
    rcases hforced snapshot hsnapshot with ⟨hp, -⟩ | ⟨next, before, since, -, hlast, hnobody⟩
    · cases hp
    · exact ⟨snapshot, before, since, hsnapshot, hlast, hnobody⟩

end Desk

end MetricSurvey

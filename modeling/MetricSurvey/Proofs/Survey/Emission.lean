/-
Emission: every tick that finds somebody registered lets one snapshot leave.

What is put into the tray of the aggregator is a merge of two things: the events of the coordinator, in their order, and
reports that sessions put in between, anywhere. So a queue is a list of `Post`s, and its `own?` part is what the coordinator
told.

- `fed_of_surveying`: the count of clients that a tick reports finds the snapshot open that this tick began, whatever the
  sessions put in before it.
- `completedFed`: a completion never comes for a snapshot that holds nothing.
- `one_snapshot_per_tick`: what leaves, by the ticks and the queue.
- `one_snapshot_per_tick_mixed`: the same for a run with a tick that finds nobody, an answer, a tick that forces a
  snapshot out, and a report that comes late.
-/
import MetricSurvey.Proofs.Survey.Completion
import MetricSurvey.Proofs.Survey.Snapshots

namespace MetricSurvey

/-- something that is put into the tray of the aggregator, and who put it there -/
inductive Post where
  | coordinator (e : AggregatorEvent Binary64)
  | session (i : Nat) (r : Report Binary64)
deriving DecidableEq

namespace Post

open AggregatorEvent

/-- what the aggregator is told -/
def event : Post → AggregatorEvent Binary64
  | coordinator e => e
  | session _ r => .fragment r

/-- what the coordinator told, if it was the coordinator -/
def own? : Post → Option (AggregatorEvent Binary64)
  | coordinator e => some e
  | session _ _ => none

/-- the part of a queue that the coordinator told -/
def own (q : List Post) : List (AggregatorEvent Binary64) := q.filterMap own?

@[simp] theorem own_nil : own [] = [] := rfl

@[simp] theorem own_append (q r : List Post) : own (q ++ r) = own q ++ own r := List.filterMap_append

@[simp] theorem own_cons (p : Post) (q : List Post) : own (p :: q) = p.own?.toList ++ own q := by
  cases p <;> rfl

theorem openings_map_event (q : List Post) : openings (q.map event) = openings (own q) := by
  induction q with
  | nil => rfl
  | cons p q ih => cases p <;> simp [event, own?, opened?, ih]

theorem completions_map_event (q : List Post) : completions (q.map event) = completions (own q) := by
  induction q with
  | nil => rfl
  | cons p q ih => cases p <;> simp [event, own?, completed?, ih]

/-- what the coordinator told has its place in the queue -/
theorem eq_append_of_own {q : List Post} {e : AggregatorEvent Binary64} {before after : List (AggregatorEvent Binary64)}
    (h : own q = before ++ e :: after) :
    ∃ q₁ q₂, q = q₁ ++ .coordinator e :: q₂ ∧ own q₁ = before ∧ own q₂ = after := by
  obtain ⟨q₁, q₂', rfl, h₁, h₂⟩ := List.filterMap_eq_append_iff.1 h
  obtain ⟨skipped, p, q₂, rfl, hskip, hp, h₂⟩ := List.filterMap_eq_cons_iff.1 h₂
  have hp' : p = .coordinator e := by
    cases p with
    | coordinator e' => cases hp; rfl
    | session i r => cases hp
  refine ⟨q₁ ++ skipped, q₂, by simp [hp'], ?_, h₂⟩
  rw [own_append, own, h₁, own, List.filterMap_eq_nil_iff.2 hskip, List.append_nil]

/-- the place in the queue where a time begins -/
theorem eq_append_of_opening {q : List Post} {time : SurveyTime} (h : time ∈ openings (own q)) :
    ∃ q₁ q₂, q = q₁ ++ .coordinator (.opened time) :: q₂ := by
  obtain ⟨e, he, ht⟩ := List.mem_filterMap.1 h
  obtain ⟨before, after, hown⟩ := List.append_of_mem he
  obtain ⟨q₁, q₂, hq, -⟩ := eq_append_of_own hown
  cases e with
  | opened t =>
    cases ht
    exact ⟨q₁, q₂, hq⟩
  | _ => cases ht

/-- a completion in the queue was told by the coordinator -/
theorem eq_append_of_completed {q : List Post} {time : SurveyTime} {before after : List (AggregatorEvent Binary64)}
    (h : q.map event = before ++ .completed time :: after) :
    ∃ q₁ q₂, q = q₁ ++ .coordinator (.completed time) :: q₂ ∧ q₁.map event = before := by
  obtain ⟨q₁, q₂', rfl, h₁, h₂⟩ := List.map_eq_append_iff.1 h
  obtain ⟨p, q₂, rfl, hp, -⟩ := List.map_eq_cons_iff.1 h₂
  have hp' : p = .coordinator (.completed time) := by
    cases p with
    | coordinator e => exact congrArg Post.coordinator hp
    | session i r => cases hp
  exact ⟨q₁, q₂, by rw [hp'], h₁⟩

end Post

namespace Coordinator

open AggregatorEvent

variable {P : Type}

/-- what has not been ticked is not open, and was not completed -/
theorem of_not_mem_ticks {is : List (Surroundings P × CoordinatorInput P)} {time : SurveyTime} (h : time ∉ ticks is) :
    (run new is).1.book.get? time = none ∧ time ∉ completions (events (run new is).2) := by
  have hbal := balance_run is time
  have hle := (opened_sublist new is).count_le time
  rw [List.count_eq_zero.2 h] at hle
  have hopen : ((run new is).1.book.get? time).isSome.toNat = 0 := by omega
  refine ⟨?_, List.count_eq_zero.1 (by omega)⟩
  cases hb : (run new is).1.book.get? time with
  | none => rfl
  | some sv => simp [hb] at hopen

/-- a time that is ticked once was not ticked before -/
theorem not_mem_ticks_before {before after : List (Surroundings P × CoordinatorInput P)} {s : Surroundings P}
    {time : SurveyTime} (hticks : (ticks (before ++ (s, .tick time) :: after)).Nodup) : time ∉ ticks before := by
  rw [ticks_append, ticks_cons] at hticks
  exact fun hm => (List.nodup_append.1 hticks).2.2 time hm time (by simp [CoordinatorInput.tick?]) rfl

/-- the count of clients that a tick reports -/
def clientsReport (c : Coordinator P) (time : SurveyTime) : Report Binary64 :=
  .ofCount time clientsMetric (.ofNat c.clients.size)

theorem carriesData_clientsReport (c : Coordinator P) (time : SurveyTime) :
    (c.clientsReport time).carriesData = true := rfl

/-- The count of clients feeds the snapshot that the tick began. Between the two the coordinator tells of nothing but
timeouts, and sessions cannot close a snapshot. -/
theorem fed_of_surveying {is : List (Surroundings P × CoordinatorInput P)} {time : SurveyTime} {q : List Post}
    {more : List (AggregatorEvent Binary64)} (hfresh : time ∉ ticks is)
    (hq : Post.own q = events (run new is).2 ++ .opened time :: events ((run new is).1.overdue time)
      ++ .fragment ((run new is).1.clientsReport time) :: more) :
    Aggregator.Fed (q.map Post.event) time := by
  obtain ⟨q₁, q₂, rfl, hq₁, -⟩ := Post.eq_append_of_own hq
  refine ⟨q₁.map Post.event, (run new is).1.clientsReport time, q₂.map Post.event, by simp [Post.event], rfl,
    carriesData_clientsReport _ _, ?_⟩
  have hlast : openings (q₁.map Post.event) = ticks is ++ [time] := by
    rw [Post.openings_map_event, hq₁, openings_append, openings_run, openings_cons, openings_overdue]
    rfl
  refine Aggregator.openTime_run_of_last Aggregator.new hlast ?_
  rw [Post.completions_map_event, hq₁, completions_append, completions_cons, completions_overdue]
  simpa [completed?] using (of_not_mem_ticks hfresh).2

/-- what the aggregator is told in all, around a tick that opens a survey -/
theorem events_run_surveying {before : List (Surroundings P × CoordinatorInput P)} {time : SurveyTime}
    (ho : (run new before).1.opens (.tick time) = some time) (s : Surroundings P)
    (after : List (Surroundings P × CoordinatorInput P)) :
    ∃ more, events (run new (before ++ (s, .tick time) :: after)).2 =
      events (run new before).2 ++ .opened time :: events ((run new before).1.overdue time)
        ++ .fragment ((run new before).1.clientsReport time) :: more := by
  refine ⟨events (((run new before).1.surveying s time).removeClients ((run new before).1.refusing s.accepts)).2
    ++ events (run (tick s (run new before).1 time).1 after).2, ?_⟩
  rw [run_append, run_cons, events_append, events_append,
    show step s (run new before).1 (.tick time) = tick s (run new before).1 time from rfl, events_tick_of_opens ho]
  simp only [List.append_assoc, List.cons_append]
  rfl

/-- **A completion never comes for a snapshot that holds nothing**, whatever part of a run the queue holds. It comes after
the count of clients which the tick that opened its survey has reported. -/
theorem completedFed {is : List (Surroundings P × CoordinatorInput P)} {queue : List Post}
    (hqueue : Post.own queue <+: events (run new is).2) (hticks : (ticks is).Nodup) :
    Aggregator.CompletedFed (queue.map Post.event) := by
  intro told time later h _
  obtain ⟨q₁, q₂, rfl, rfl⟩ := Post.eq_append_of_completed h
  obtain ⟨rest, hrest⟩ := hqueue
  have hown : events (run new is).2 = Post.own q₁ ++ .completed time :: (Post.own q₂ ++ rest) := by
    rw [← hrest, Post.own_append, Post.own_cons]
    simp [Post.own?]
  obtain ⟨before, s, after, between, rfl, ho, -, hq₁, hb⟩ := (openedBy_run is time).2 _ _ hown
  obtain ⟨more, hmore⟩ := events_run_surveying ho s after
  rw [hown, hq₁, List.append_assoc, List.append_assoc, List.append_cancel_left_eq, List.cons_append,
    List.cons_append, List.cons.injEq] at hmore
  have hfresh := not_mem_ticks_before hticks
  -- the completion does not stand among the timeouts, so it stands behind the count of clients
  rcases append_eq_append_cons hmore.2.symm with ⟨m, hm, -⟩ | ⟨m, hbetween, hm⟩
  · have := completions_overdue (run new before).1 time
    rw [hm] at this
    simp [completed?] at this
  · cases m with
    | nil => cases hm
    | cons e m =>
      cases hm
      have hown₁ : Post.own q₁ = events (run new before).2 ++ .opened time :: events ((run new before).1.overdue time)
          ++ .fragment ((run new before).1.clientsReport time) :: m := by
        rw [hq₁, hbetween]
        simp
      exact fed_of_surveying hfresh hown₁

/-- the snapshot of a survey that is still open was fed -/
theorem fed_of_open {is : List (Surroundings P × CoordinatorInput P)} {queue : List Post} {time : SurveyTime}
    (hqueue : Post.own queue = events (run new is).2) (hticks : (ticks is).Nodup)
    (hopen : ((run new is).1.book.get? time).isSome = true) : Aggregator.Fed (queue.map Post.event) time := by
  obtain ⟨before, s, after, -, rfl, ho, -⟩ := (openedBy_run is time).1 hopen
  obtain ⟨more, hmore⟩ := events_run_surveying ho s after
  exact fed_of_surveying (not_mem_ticks_before hticks) (hqueue.trans hmore)

/-- **One snapshot per surveyed tick.** Let the queue be what a run of the coordinator tells, with reports of sessions put
in anywhere, and let no time be ticked twice. When everything was handled and the aggregator was flushed,
- one snapshot has left for every tick that found somebody registered;
- for a tick that found nobody, one has left if some report added something to its snapshot, and else none;
- no others have left, none of them empty, and they left in the order of the ticks. -/
theorem one_snapshot_per_tick {is : List (Surroundings P × CoordinatorInput P)} {queue : List Post}
    (hqueue : Post.own queue = events (run new is).2) (hticks : (ticks is).Nodup) :
    let left := Aggregator.drain Aggregator.new (queue.map Post.event)
    (∀ before s time after, is = before ++ (s, .tick time) :: after → (run new before).1.clients.isEmpty = false →
      (left.map Snapshot.time).count time = 1) ∧
    (∀ before s time after, is = before ++ (s, .tick time) :: after → (run new before).1.clients.isEmpty = true →
      (left.map Snapshot.time).count time ≤ 1 ∧
        ((left.map Snapshot.time).count time = 1 ↔ Aggregator.Fed (queue.map Post.event) time)) ∧
    (∀ snapshot ∈ left, snapshot.time ∈ ticks is) ∧
    (∀ snapshot ∈ left, snapshot.empty = false) ∧
    (left.map Snapshot.time).Sublist (ticks is) := by
  intro left
  have hopenings : openings (queue.map Post.event) = ticks is := by
    rw [Post.openings_map_event, hqueue, openings_run]
  have hsub : (left.map Snapshot.time).Sublist (ticks is) := by
    have := Aggregator.times_drain_sublist (Aggregator.new (R := Binary64)) (queue.map Post.event)
    rwa [hopenings] at this
  have hall : Post.own queue <+: events (run new is).2 := hqueue ▸ List.prefix_refl _
  obtain ⟨hfilled, hfed⟩ := Aggregator.mem_times_drain (hopenings ▸ hticks) (completedFed hall hticks)
  have hone : ∀ time, (left.map Snapshot.time).count time = 1 ↔ Aggregator.Fed (queue.map Post.event) time := by
    intro time
    have hle := List.nodup_iff_count_le_one.1 (hsub.nodup hticks) time
    rw [← hfed, ← List.count_pos_iff]
    exact ⟨fun h => h ▸ Nat.one_pos, fun h => le_antisymm hle h⟩
  refine ⟨?_, ?_, fun snapshot hs => hsub.subset (List.mem_map_of_mem hs), hfilled, hsub⟩
  · rintro before s time after rfl hsomebody
    have hfresh := not_mem_ticks_before hticks
    have ho : (run new before).1.opens (.tick time) = some time :=
      opens_tick_eq_some.2 ⟨rfl, hsomebody, (of_not_mem_ticks hfresh).1⟩
    obtain ⟨more, hmore⟩ := events_run_surveying ho s after
    exact (hone time).2 (fed_of_surveying hfresh (hqueue.trans hmore))
  · rintro before s time after - -
    exact ⟨List.nodup_iff_count_le_one.1 (hsub.nodup hticks) time, hone time⟩

/-- A tick finds one client, who answers after a second tick has forced the first snapshot out; a third finds nobody, but a
session reports for it; a fourth finds nobody and nothing. -/
theorem one_snapshot_per_tick_mixed :
    let now : Surroundings Nat := ⟨⟨0⟩, fun _ => true⟩
    let is : List (Surroundings Nat × CoordinatorInput Nat) :=
      [(now, .register 1 10), (now, .tick 1000), (now, .tick 1010), (now, .complete 1 1000), (now, .removeClient 1),
        (now, .tick 1020), (now, .tick 1030)]
    let report (time : SurveyTime) : Report Binary64 := .ofCount time "hits" (.ofNat 3)
    let queue : List Post :=
      [.session 0 (report 1000), .coordinator (.opened 1000),
        .coordinator (.fragment (.ofCount 1000 clientsMetric (.ofNat 1))), .coordinator (.opened 1010),
        .coordinator (.fragment (.ofCount 1010 clientsMetric (.ofNat 1))), .session 0 (report 1000),
        .coordinator (.fragment (.ofValue 1000 latencyMetric (.ofNat 0))), .coordinator (.completed 1000),
        .coordinator (.completed 1010), .coordinator (.opened 1020), .session 0 (report 1020),
        .coordinator (.opened 1030)]
    let times := (Aggregator.drain Aggregator.new (queue.map Post.event)).map Snapshot.time
    Post.own queue = events (run new is).2 ∧ (ticks is).Nodup ∧ times.count 1000 = 1 ∧ times.count 1010 = 1 ∧
      (times.count 1020 = 1 ↔ Aggregator.Fed (queue.map Post.event) 1020) := by
  intro now is report queue times
  have hqueue : Post.own queue = events (run new is).2 := by decide
  have hticks : (ticks is).Nodup := by decide
  obtain ⟨hsome, hnobody, -⟩ := one_snapshot_per_tick hqueue hticks
  refine ⟨hqueue, hticks, hsome [(now, .register 1 10)] now 1000 _ rfl (by decide),
    hsome [(now, .register 1 10), (now, .tick 1000)] now 1010 _ rfl (by decide), ?_⟩
  exact (hnobody [(now, .register 1 10), (now, .tick 1000), (now, .tick 1010), (now, .complete 1 1000),
    (now, .removeClient 1)] now 1020 _ rfl (by decide)).2

end Coordinator

end MetricSurvey

/-
The aggregator: which snapshots leave, in what order, and what they hold.

`drain` is everything that leaves while events are handled and when the aggregator is flushed at last.

- `times_drain_sublist`: the times of the snapshots that leave are among those of which it was told that they begin, in
  that order.
- `mem_times_drain`: a snapshot leaves if and only if a report added something to it while it was open (`Fed`), as long as
  no completion comes for a snapshot that holds nothing; then no empty snapshot leaves.
- `openTime_run_of_last`: a time that was the last to begin, and was not completed, is the open one.
- `eq_foldl_merge_of_mem_drain`: an open snapshot that leaves holds what it held, and every report for its time that is
  handled before an event closes it, merged once each and in order.
-/
import MetricSurvey.Proofs.Survey.Steps

namespace MetricSurvey

variable {R : Type}

/-- whether merging a report adds anything: a sample, a count, or a distribution that is taken -/
def Report.carriesData [Scalar R] (r : Report R) : Bool :=
  !r.values.isEmpty || !r.counts.isEmpty || r.dists.any fun d => d.value.accepted?.isSome

/-! ## Merging -/

namespace Snapshot

variable [Scalar R]

theorem foldl_addValue (vs : List (Named R)) (s : Snapshot R) :
    (vs.foldl addValue s).time = s.time ∧ (vs.foldl addValue s).empty = (s.empty && vs.isEmpty) := by
  induction vs generalizing s with
  | nil => simp
  | cons v vs ih =>
    rw [List.foldl_cons, (ih _).1, (ih _).2]
    simp [addValue]

theorem foldl_addCount (cs : List (Named R)) (s : Snapshot R) :
    (cs.foldl addCount s).time = s.time ∧ (cs.foldl addCount s).empty = (s.empty && cs.isEmpty) := by
  induction cs generalizing s with
  | nil => simp
  | cons c cs ih =>
    rw [List.foldl_cons, (ih _).1, (ih _).2]
    simp [addCount]

theorem addDist_fst (s : Snapshot R) (d : Named (Distribution R)) :
    (s.addDist d).1.time = s.time ∧ (s.addDist d).1.empty = (s.empty && d.value.accepted?.isNone) := by
  unfold addDist
  cases d.value.accepted? <;> simp

/-- the snapshot with these distributions, and the number of those rejected -/
theorem addDists_cons (s : Snapshot R) (d : Named (Distribution R)) (ds : List (Named (Distribution R))) :
    (s.addDists (d :: ds)).1 = ((s.addDist d).1.addDists ds).1 := by
  suffices h : ∀ (s : Snapshot R) (n m : Nat), (ds.foldl (fun acc d =>
      ((acc.1.addDist d).1, if (acc.1.addDist d).2 then acc.2 else acc.2 + 1)) (s, n)).1 =
      (ds.foldl (fun acc d => ((acc.1.addDist d).1, if (acc.1.addDist d).2 then acc.2 else acc.2 + 1)) (s, m)).1 from
    h (s.addDist d).1 _ 0
  induction ds with
  | nil => intro s n m; rfl
  | cons e ds ih =>
    intro s n m
    rw [List.foldl_cons, List.foldl_cons]
    exact ih _ _ _

theorem addDists_fst (ds : List (Named (Distribution R))) (s : Snapshot R) :
    (s.addDists ds).1.time = s.time ∧
      (s.addDists ds).1.empty = (s.empty && !ds.any fun d => d.value.accepted?.isSome) := by
  induction ds generalizing s with
  | nil => simp [addDists]
  | cons d ds ih =>
    rw [addDists_cons, (ih _).1, (ih _).2, (addDist_fst s d).1, (addDist_fst s d).2, List.any_cons]
    cases d.value.accepted? <;> simp

@[simp] theorem time_merge (s : Snapshot R) (r : Report R) : (s.merge r).1.time = s.time := by
  rw [merge, (addDists_fst _ _).1, (foldl_addCount _ _).1, (foldl_addValue _ _).1]

/-- a snapshot is empty until a report adds something -/
theorem empty_merge (s : Snapshot R) (r : Report R) : (s.merge r).1.empty = (s.empty && !r.carriesData) := by
  rw [merge, (addDists_fst _ _).2, (foldl_addCount _ _).2, (foldl_addValue _ _).2, Report.carriesData]
  cases s.empty <;> cases r.values.isEmpty <;> cases r.counts.isEmpty <;> rfl

end Snapshot

namespace Aggregator

open AggregatorEvent

variable [Scalar R]

/-! ## Single events -/

theorem step_opened (a : Aggregator R) (time : SurveyTime) :
    (a.step (.opened time)).1.openTime = some time ∧
    (a.step (.opened time)).1.current = (if a.openTime = some time then a.current else some (.new time)) ∧
    (a.step (.opened time)).2 = if a.openTime = some time then none else a.current.filter fun s => !s.empty := by
  simp only [step]
  split_ifs with h
  · exact ⟨h, rfl, rfl⟩
  · cases hc : a.current with
    | none => exact ⟨rfl, rfl, rfl⟩
    | some s => cases he : s.empty <;> simp [emitFilled, emit, he, openTime, Snapshot.new, Option.filter]

theorem step_fragment (a : Aggregator R) (r : Report R) :
    (a.step (.fragment r)).1.openTime = a.openTime ∧
    (a.step (.fragment r)).1.current = a.current.map (fun s => if s.time = r.time then (s.merge r).1 else s) ∧
    (a.step (.fragment r)).2 = none := by
  simp only [step]
  cases hc : a.current with
  | none => simp [openTime, hc]
  | some s =>
    by_cases ht : s.time = r.time
    · simp [openTime, hc, ht]
    · simp [openTime, hc, ht]

/-- a report for the open time is not late -/
theorem late_step_fragment {a : Aggregator R} {r : Report R} (h : a.openTime = some r.time) :
    (a.step (.fragment r)).1.late = a.late := by
  obtain ⟨s, hcur, ht⟩ := Option.map_eq_some_iff.1 h
  simp only [step, hcur, if_pos ht]

theorem step_completed (a : Aggregator R) (time : SurveyTime) :
    (a.step (.completed time)).1.openTime = (if a.openTime = some time then none else a.openTime) ∧
    (a.step (.completed time)).1.current = (if a.openTime = some time then none else a.current) ∧
    (a.step (.completed time)).2 = if a.openTime = some time then a.current else none := by
  simp only [step]
  cases hc : a.current with
  | none => simp [openTime, hc]
  | some s =>
    by_cases ht : s.time = time
    · simp [openTime, hc, ht, emit]
    · simp [openTime, hc, ht]

omit [Scalar R] in
theorem flush_snd (a : Aggregator R) : a.flush.2 = a.current.filter fun s => !s.empty := by
  unfold flush
  cases a.current with
  | none => rfl
  | some s => cases he : s.empty <;> simp [emitFilled, emit, he, Option.filter]

/-! ## Runs -/

theorem run_eq_collect (a : Aggregator R) (es : List (AggregatorEvent R)) :
    run a es = collect (fun a e => ((a.step e).1, (a.step e).2.toList)) a es :=
  foldl_eq_collect (fun (a : Aggregator R) e => ((a.step e).1, (a.step e).2.toList)) a es

@[simp] theorem run_nil (a : Aggregator R) : run a [] = (a, []) := rfl

theorem run_cons (a : Aggregator R) (e : AggregatorEvent R) (es : List (AggregatorEvent R)) :
    run a (e :: es) = ((run (a.step e).1 es).1, (a.step e).2.toList ++ (run (a.step e).1 es).2) := by
  simp only [run_eq_collect, collect_cons]

theorem run_append (a : Aggregator R) (es fs : List (AggregatorEvent R)) :
    run a (es ++ fs) = ((run (run a es).1 fs).1, (run a es).2 ++ (run (run a es).1 fs).2) := by
  simp only [run_eq_collect, collect_append]

theorem run_snoc (a : Aggregator R) (es : List (AggregatorEvent R)) (e : AggregatorEvent R) :
    run a (es ++ [e]) = (((run a es).1.step e).1, (run a es).2 ++ ((run a es).1.step e).2.toList) := by
  simp only [run_eq_collect, collect_snoc]

/-- everything that leaves while events are handled, and at last -/
def drain (a : Aggregator R) (es : List (AggregatorEvent R)) : List (Snapshot R) :=
  (run a es).2 ++ (run a es).1.flush.2.toList

theorem drain_append (a : Aggregator R) (es fs : List (AggregatorEvent R)) :
    drain a (es ++ fs) = (run a es).2 ++ drain (run a es).1 fs := by
  simp only [drain, run_append, List.append_assoc]

theorem drain_cons (a : Aggregator R) (e : AggregatorEvent R) (es : List (AggregatorEvent R)) :
    drain a (e :: es) = (a.step e).2.toList ++ drain (a.step e).1 es := by
  simp only [drain, run_cons, List.append_assoc]

/-! ## The order of leaving -/

omit [Scalar R] in
theorem map_time_current (a : Aggregator R) : a.current.toList.map Snapshot.time = a.openTime.toList := by
  unfold openTime
  cases a.current <;> rfl

omit [Scalar R] in
theorem map_time_filter_sublist (a : Aggregator R) (p : Snapshot R → Bool) :
    ((a.current.filter p).toList.map Snapshot.time).Sublist a.openTime.toList := by
  rw [← map_time_current]
  cases a.current with
  | none => exact List.Sublist.refl _
  | some s => cases hp : p s <;> simp [Option.filter, hp]

theorem times_step_sublist (a : Aggregator R) (e : AggregatorEvent R) :
    ((a.step e).2.toList.map Snapshot.time ++ (a.step e).1.openTime.toList).Sublist
      (a.openTime.toList ++ e.opened?.toList) := by
  cases e with
  | opened time =>
    obtain ⟨hopen, -, hout⟩ := step_opened a time
    rw [hopen, hout]
    split_ifs
    · exact List.sublist_append_right _ _
    · exact (map_time_filter_sublist a _).append (List.Sublist.refl _)
  | fragment r =>
    obtain ⟨hopen, -, hout⟩ := step_fragment a r
    rw [hopen, hout]
    exact List.sublist_append_left _ _
  | completed time =>
    obtain ⟨hopen, -, hout⟩ := step_completed a time
    rw [hopen, hout]
    split_ifs
    · rw [map_time_current]
      exact List.Sublist.refl _
    · exact List.sublist_append_left _ _

/-- what has left and what is open began in this order -/
theorem times_run_sublist (a : Aggregator R) (es : List (AggregatorEvent R)) :
    ((run a es).2.map Snapshot.time ++ (run a es).1.openTime.toList).Sublist (a.openTime.toList ++ openings es) := by
  induction es generalizing a with
  | nil => simp
  | cons e es ih =>
    rw [run_cons]
    dsimp only
    have h := ((List.Sublist.refl _).append (ih (a.step e).1)).trans
      ((List.append_assoc _ _ _).symm ▸ (times_step_sublist a e).append (List.Sublist.refl (openings es)))
    rw [List.map_append, List.append_assoc, openings_cons, ← List.append_assoc a.openTime.toList]
    exact h

/-- **Snapshots leave in the order in which their times began**, and no others do. -/
theorem times_drain_sublist (a : Aggregator R) (es : List (AggregatorEvent R)) :
    ((drain a es).map Snapshot.time).Sublist (a.openTime.toList ++ openings es) := by
  refine List.Sublist.trans ?_ (times_run_sublist a es)
  rw [drain, List.map_append, flush_snd]
  exact (List.Sublist.refl _).append (map_time_filter_sublist _ _)

/-- the time that was the last to begin is open until it is completed -/
theorem openTime_run_of_last (a : Aggregator R) {es : List (AggregatorEvent R)} {ts : List SurveyTime}
    {time : SurveyTime} (hlast : openings es = ts ++ [time]) (hdone : time ∉ completions es) :
    (run a es).1.openTime = some time := by
  induction es using List.reverseRecOn with
  | nil => simp at hlast
  | append_singleton es e ih =>
    rw [run_snoc]
    dsimp only
    rw [openings_append] at hlast
    rw [completions_append, List.mem_append, not_or] at hdone
    cases e with
    | opened t =>
      obtain ⟨-, ht⟩ := List.append_inj' hlast rfl
      cases ht
      exact (step_opened _ _).1
    | fragment r =>
      rw [(step_fragment _ _).1]
      exact ih (by simpa [opened?] using hlast) hdone.1
    | completed t =>
      have hopen := ih (by simpa [opened?] using hlast) hdone.1
      have ht : t ≠ time := fun h => hdone.2 (by simp [completed?, h])
      rw [(step_completed _ _).1, hopen, if_neg (by simpa using Ne.symm ht)]

/-! ## Which snapshots leave -/

/-- a report added something to the snapshot of this time while it was open -/
def Fed (es : List (AggregatorEvent R)) (time : SurveyTime) : Prop :=
  ∃ before r after, es = before ++ .fragment r :: after ∧ r.time = time ∧ r.carriesData = true ∧
    (run new before).1.openTime = some time

theorem Fed.append {es : List (AggregatorEvent R)} {time : SurveyTime} (h : Fed es time)
    (fs : List (AggregatorEvent R)) : Fed (es ++ fs) time := by
  obtain ⟨before, r, after, rfl, hr⟩ := h
  exact ⟨before, r, after ++ fs, by simp, hr⟩

theorem fed_snoc {es : List (AggregatorEvent R)} {e : AggregatorEvent R} {time : SurveyTime} :
    Fed (es ++ [e]) time ↔ Fed es time ∨
      ∃ r, e = .fragment r ∧ r.time = time ∧ r.carriesData = true ∧ (run new es).1.openTime = some time := by
  constructor
  · rintro ⟨before, r, after, h, hr⟩
    rcases append_eq_append_cons h with ⟨m, he, -⟩ | ⟨m, rfl, he⟩
    · exact Or.inl ⟨before, r, m, he, hr⟩
    · cases m with
      | nil =>
        cases he
        rw [List.append_nil] at hr
        exact Or.inr ⟨r, rfl, hr⟩
      | cons x m => simp at he
  · rintro (h | ⟨r, rfl, hr⟩)
    · exact h.append [e]
    · exact ⟨es, r, [], rfl, hr⟩

/-- completions come for snapshots that hold something -/
def CompletedFed (es : List (AggregatorEvent R)) : Prop :=
  ∀ before time after, es = before ++ .completed time :: after → (run new before).1.openTime = some time →
    Fed before time

/-- what a run of the aggregator has done with the snapshots that were fed: each has left or is open, and no other has
left -/
structure Accounted (es : List (AggregatorEvent R)) : Prop where
  filled : ∀ s ∈ (run new es).2, s.empty = false
  fed_iff : ∀ time, Fed es time ↔ time ∈ (run new es).2.map Snapshot.time ∨
    ∃ s, (run new es).1.current = some s ∧ s.time = time ∧ s.empty = false

theorem accounted_nil : Accounted ([] : List (AggregatorEvent R)) where
  filled := by simp
  fed_iff time := by simp [Fed, new]

/-- a snapshot that is open has not left before, if no time begins twice -/
theorem not_mem_times_of_open {es : List (AggregatorEvent R)} (hn : (openings es).Nodup) {time : SurveyTime}
    (h : (run new es).1.openTime = some time) : time ∉ (run new es).2.map Snapshot.time := by
  have hsub := (times_run_sublist new es).nodup hn
  rw [h] at hsub
  exact fun hm => (List.nodup_append.1 hsub).2.2 time hm time (by simp) rfl

theorem Accounted.opened {es : List (AggregatorEvent R)} (h : Accounted es) (t : SurveyTime) :
    Accounted (es ++ [.opened t]) := by
  obtain ⟨-, hcur, hout⟩ := step_opened (run new es).1 t
  have hfed : ∀ time, Fed (es ++ [.opened t]) time ↔ Fed es time := fun time => by simp [fed_snoc]
  by_cases ho : (run new es).1.openTime = some t
  · rw [if_pos ho] at hcur hout
    constructor
    · rw [run_snoc, hout]
      simpa using h.filled
    · intro time
      rw [hfed, run_snoc, hcur, hout]
      simpa using h.fed_iff time
  · rw [if_neg ho] at hcur hout
    constructor
    · rw [run_snoc, hout]
      intro s hs
      rcases List.mem_append.1 hs with hs | hs
      · exact h.filled s hs
      · simpa using (Option.filter_eq_some_iff.1 (Option.mem_toList.1 hs)).2
    · intro time
      rw [hfed, h.fed_iff, run_snoc, hcur, hout]
      simp only [List.map_append, List.mem_append, Option.some.injEq, exists_eq_left', Snapshot.new, Bool.true_eq_false,
        and_false, or_false, List.mem_map, Option.mem_toList, Option.filter_eq_some_iff, Bool.not_eq_true', and_assoc]
      exact or_congr_right (exists_congr fun s => and_congr_right fun _ => and_comm)

theorem Accounted.fragment {es : List (AggregatorEvent R)} (h : Accounted es) (r : Report R) :
    Accounted (es ++ [.fragment r]) := by
  obtain ⟨-, hcur, hout⟩ := step_fragment (run new es).1 r
  constructor
  · rw [run_snoc, hout]
    simpa using h.filled
  · intro time
    rw [fed_snoc, h.fed_iff, run_snoc, hcur, hout, Option.toList_none, List.append_nil, or_assoc]
    refine or_congr_right ?_
    simp only [AggregatorEvent.fragment.injEq, exists_eq_left']
    cases hs : (run new es).1.current with
    | none => simp [openTime, hs]
    | some s =>
      by_cases ht : s.time = r.time
      · rw [openTime, hs, Option.map_some, Option.map_some, if_pos ht]
        simp only [Option.some.injEq, exists_eq_left', Snapshot.time_merge, Snapshot.empty_merge, ht]
        cases s.empty <;> cases r.carriesData <;> simp
      · rw [openTime, hs, Option.map_some, Option.map_some, if_neg ht]
        simp only [Option.some.injEq, exists_eq_left']
        refine or_iff_left ?_
        rintro ⟨rfl, -, he⟩
        exact ht he

theorem Accounted.completed {es : List (AggregatorEvent R)} (h : Accounted es) (hn : (openings es).Nodup)
    {t : SurveyTime} (hf : (run new es).1.openTime = some t → Fed es t) : Accounted (es ++ [.completed t]) := by
  obtain ⟨-, hcur, hout⟩ := step_completed (run new es).1 t
  have hfed : ∀ time, Fed (es ++ [.completed t]) time ↔ Fed es time := fun time => by simp [fed_snoc]
  by_cases ho : (run new es).1.openTime = some t
  · rw [if_pos ho] at hcur hout
    obtain ⟨s, hs, hst, hse⟩ := ((h.fed_iff t).1 (hf ho)).resolve_left (not_mem_times_of_open hn ho)
    rw [hs] at hout
    constructor
    · rw [run_snoc, hout]
      intro s' hs'
      rcases List.mem_append.1 hs' with hs' | hs'
      · exact h.filled s' hs'
      · rw [List.mem_singleton.1 hs']
        exact hse
    · intro time
      rw [hfed, h.fed_iff, run_snoc, hcur, hout, hs]
      simp only [Option.some.injEq, exists_eq_left', hse, and_true, Option.toList_some, List.map_append, List.map_cons,
        List.map_nil, List.mem_append, List.mem_singleton, reduceCtorEq, false_and, exists_false, or_false]
      rw [eq_comm (a := time)]
  · rw [if_neg ho] at hcur hout
    constructor
    · rw [run_snoc, hout]
      simpa using h.filled
    · intro time
      rw [hfed, run_snoc, hcur, hout]
      simpa using h.fed_iff time

theorem accounted_run {es : List (AggregatorEvent R)} (hn : (openings es).Nodup) (hf : CompletedFed es) :
    Accounted es := by
  induction es using List.reverseRecOn with
  | nil => exact accounted_nil
  | append_singleton es e ih =>
    rw [openings_append] at hn
    have h := ih (List.nodup_append.1 hn).1 fun before time after he => hf before time (after ++ [e]) (by simp [he])
    cases e with
    | opened t => exact h.opened t
    | fragment r => exact h.fragment r
    | completed t => exact h.completed (List.nodup_append.1 hn).1 (hf es t [] rfl)

/-- **A snapshot leaves if and only if it was fed**, and then it is not empty. -/
theorem mem_times_drain {es : List (AggregatorEvent R)} (hn : (openings es).Nodup) (hf : CompletedFed es) :
    (∀ s ∈ drain new es, s.empty = false) ∧ ∀ time, time ∈ (drain new es).map Snapshot.time ↔ Fed es time := by
  have h := accounted_run hn hf
  have hflush : ∀ s, s ∈ (run new es).1.flush.2.toList ↔ (run new es).1.current = some s ∧ s.empty = false := fun s => by
    rw [flush_snd, Option.mem_toList, Option.filter_eq_some_iff, Bool.not_eq_true']
  constructor
  · intro s hs
    rcases List.mem_append.1 hs with hs | hs
    · exact h.filled s hs
    · exact ((hflush s).1 hs).2
  · intro time
    rw [h.fed_iff, drain, List.map_append, List.mem_append, List.mem_map (l := (run new es).1.flush.2.toList)]
    simp only [hflush, and_assoc]
    tauto

/-! ## What they hold -/

/-- the report of an event, if it is for this survey time -/
def reportFor? (time : SurveyTime) : AggregatorEvent R → Option (Report R)
  | .fragment r => if r.time = time then some r else none
  | _ => none

/-- the reports for a survey time -/
def reportsFor (time : SurveyTime) (es : List (AggregatorEvent R)) : List (Report R) := es.filterMap (reportFor? time)

/-- whether an event closes the snapshot of this time, if that is open -/
def closes (time : SurveyTime) : AggregatorEvent R → Bool
  | .opened t => t ≠ time
  | .fragment _ => false
  | .completed t => t = time

omit [Scalar R] in
/-- nothing closes a snapshot where no time begins and its own is not completed -/
theorem closes_eq_false {time : SurveyTime} {es : List (AggregatorEvent R)} (ho : openings es = [])
    (hc : time ∉ completions es) : ∀ e ∈ es, closes time e = false := by
  intro e he
  cases e with
  | opened t =>
    have hm : t ∈ openings es := List.mem_filterMap.2 ⟨.opened t, he, rfl⟩
    rw [ho] at hm
    cases hm
  | fragment r => rfl
  | completed t =>
    have hm : t ∈ completions es := List.mem_filterMap.2 ⟨.completed t, he, rfl⟩
    have hne : t ≠ time := fun h => hc (h ▸ hm)
    simpa [closes] using hne

/-- a time stays open until an event closes it -/
theorem openTime_run_of_not_closes {a : Aggregator R} {time : SurveyTime} (h : a.openTime = some time)
    {es : List (AggregatorEvent R)} (hes : ∀ e ∈ es, closes time e = false) : (run a es).1.openTime = some time := by
  induction es generalizing a with
  | nil => exact h
  | cons e es ih =>
    rw [run_cons]
    refine ih ?_ fun x hx => hes x (List.mem_cons_of_mem e hx)
    have he := hes e List.mem_cons_self
    cases e with
    | opened t =>
      have ht : t = time := by simpa [closes] using he
      rw [ht]
      exact (step_opened a time).1
    | fragment r => exact (step_fragment a r).1.trans h
    | completed t =>
      have ht : time ≠ t := fun ht => by simp [closes, ht] at he
      rw [(step_completed a t).1, h, if_neg (by simpa using ht)]

/-- the reports for a survey time that come before its snapshot is closed -/
def reportsInTime (time : SurveyTime) (es : List (AggregatorEvent R)) : List (Report R) :=
  reportsFor time (es.takeWhile fun e => !closes time e)

omit [Scalar R] in
theorem reportsInTime_append {time : SurveyTime} {es : List (AggregatorEvent R)}
    (h : ∀ e ∈ es, closes time e = false) (fs : List (AggregatorEvent R)) :
    reportsInTime time (es ++ fs) = reportsFor time es ++ reportsInTime time fs := by
  rw [reportsInTime, List.takeWhile_append_of_pos (by simpa using h), reportsFor, List.filterMap_append]
  rfl

omit [Scalar R] in
theorem reportsInTime_cons {time : SurveyTime} {e : AggregatorEvent R} (h : closes time e = false)
    (es : List (AggregatorEvent R)) :
    reportsInTime time (e :: es) = (reportFor? time e).toList ++ reportsInTime time es := by
  rw [reportsInTime, List.takeWhile_cons_of_pos (by simp [h]), reportsFor, List.filterMap_cons]
  cases reportFor? time e <;> rfl

omit [Scalar R] in
theorem reportsInTime_cons_of_closes {time : SurveyTime} {e : AggregatorEvent R} (h : closes time e = true)
    (es : List (AggregatorEvent R)) : reportsInTime time (e :: es) = [] := by
  rw [reportsInTime, List.takeWhile_cons_of_neg (by simp [h])]
  rfl

/-- what has closed does not leave again -/
theorem not_mem_times_drain {a : Aggregator R} {time : SurveyTime} {es : List (AggregatorEvent R)}
    (hopen : a.openTime ≠ some time) (h : time ∉ openings es) : time ∉ (drain a es).map Snapshot.time := by
  intro hm
  rcases List.mem_append.1 ((times_drain_sublist a es).subset hm) with ho | ho
  · exact hopen (Option.mem_toList.1 ho)
  · exact h ho

/-- **An open snapshot that leaves holds every report that comes in time**, once and in order. -/
theorem eq_foldl_merge_of_mem_drain {a : Aggregator R} {s₀ : Snapshot R} (hcur : a.current = some s₀)
    {es : List (AggregatorEvent R)} (hfresh : s₀.time ∉ openings es) {s : Snapshot R} (hs : s ∈ drain a es)
    (ht : s.time = s₀.time) : s = (reportsInTime s₀.time es).foldl (fun s r => (s.merge r).1) s₀ := by
  have hopen : ∀ {a : Aggregator R} {s₀ : Snapshot R}, a.current = some s₀ → a.openTime = some s₀.time :=
    fun h => by rw [openTime, h]; rfl
  induction es generalizing a s₀ with
  | nil =>
    rw [drain, run_nil, List.nil_append, flush_snd, hcur, Option.mem_toList] at hs
    exact (Option.some.inj (Option.filter_eq_some_iff.1 hs).1).symm
  | cons e es ih =>
    rw [openings_cons, List.mem_append, not_or] at hfresh
    rw [drain_cons, List.mem_append] at hs
    cases e with
    | opened t =>
      have hne : t ≠ s₀.time := by simpa [opened?, eq_comm] using hfresh.1
      obtain ⟨hopen', -, hout⟩ := step_opened a t
      rw [reportsInTime_cons_of_closes (by simpa [closes] using hne)]
      rcases hs with hs | hs
      · rw [hout, hopen hcur, if_neg (by simpa using hne.symm), hcur, Option.mem_toList] at hs
        exact (Option.some.inj (Option.filter_eq_some_iff.1 hs).1).symm
      · refine absurd (List.mem_map_of_mem hs) (not_mem_times_drain ?_ (ht ▸ hfresh.2))
        rw [hopen', ht]
        simpa using hne
    | fragment r =>
      obtain ⟨-, hcur', hout⟩ := step_fragment a r
      rw [hout, Option.toList_none, or_iff_right List.not_mem_nil] at hs
      rw [hcur, Option.map_some] at hcur'
      rw [reportsInTime_cons rfl, reportFor?]
      by_cases hr : r.time = s₀.time
      · rw [if_pos hr.symm] at hcur'
        have := ih hcur' (by simpa using hfresh.2) hs (by simpa using ht)
        rw [if_pos hr, Option.toList_some, List.singleton_append, List.foldl_cons]
        rwa [Snapshot.time_merge] at this
      · rw [if_neg (Ne.symm hr)] at hcur'
        rw [if_neg hr, Option.toList_none, List.nil_append]
        exact ih hcur' hfresh.2 hs ht
    | completed t =>
      obtain ⟨hopen', hcur', hout⟩ := step_completed a t
      rw [hopen hcur] at hopen' hcur' hout
      by_cases hc : s₀.time = t
      · rw [if_pos (by rw [hc])] at hopen' hout
        rw [reportsInTime_cons_of_closes (by simp [closes, hc])]
        rcases hs with hs | hs
        · rw [hout, hcur, Option.mem_toList] at hs
          exact (Option.some.inj hs).symm
        · refine absurd (List.mem_map_of_mem hs) (not_mem_times_drain ?_ (ht ▸ hfresh.2))
          rw [hopen']
          exact Option.some_ne_none _ ∘ Eq.symm
      · have hne : some s₀.time ≠ some t := by simpa using hc
        rw [if_neg hne] at hcur' hout
        rw [hout, Option.toList_none, or_iff_right List.not_mem_nil] at hs
        rw [reportsInTime_cons (by simpa [closes] using Ne.symm hc)]
        exact ih (hcur'.trans hcur) hfresh.2 hs ht

/-- **A snapshot that leaves is made of the reports that came in time since it began.** -/
theorem eq_ofReports_of_mem_drain {before es : List (AggregatorEvent R)} {time : SurveyTime}
    (hn : (openings (before ++ .opened time :: es)).Nodup) {s : Snapshot R}
    (hs : s ∈ drain new (before ++ .opened time :: es)) (ht : s.time = time) :
    s = .ofReports time (reportsInTime time es) := by
  rw [List.append_cons] at hn hs
  have hopen : (run new (before ++ [.opened time])).1.openTime = some time := by
    rw [run_snoc]
    exact (step_opened _ _).1
  have hbefore : (run new before).1.openTime ≠ some time := by
    intro ho
    have hm := (times_run_sublist new before).subset (List.mem_append_right _ (Option.mem_toList.2 ho))
    rw [openings_append, openings_append, openings_cons] at hn
    exact (List.nodup_append.1 (List.nodup_append.1 hn).1).2.2 time hm time (by simp [opened?]) rfl
  have hcur : (run new (before ++ [.opened time])).1.current = some (.new time) := by
    rw [run_snoc]
    dsimp only
    rw [(step_opened _ _).2.1, if_neg hbefore]
  rw [openings_append] at hn
  rw [drain_append, List.mem_append] at hs
  rcases hs with hs | hs
  · have hout := not_mem_times_of_open (List.nodup_append.1 hn).1 hopen
    exact absurd (List.mem_map.2 ⟨s, hs, ht⟩) hout
  · refine eq_foldl_merge_of_mem_drain hcur (fun hm => ?_) hs ht
    exact (List.nodup_append.1 hn).2.2 time (by simp [opened?]) time hm rfl

/-- the same around one report that comes in time -/
theorem eq_ofReports_around {before earlier later : List (AggregatorEvent R)} {r : Report R}
    (hn : (openings (before ++ .opened r.time :: earlier ++ .fragment r :: later)).Nodup)
    (hearlier : ∀ e ∈ earlier, closes r.time e = false) {s : Snapshot R}
    (hs : s ∈ drain new (before ++ .opened r.time :: earlier ++ .fragment r :: later)) (ht : s.time = r.time) :
    s = .ofReports r.time (reportsFor r.time earlier ++ r :: reportsInTime r.time later) := by
  rw [List.append_assoc, List.cons_append] at hn hs
  rw [eq_ofReports_of_mem_drain hn hs ht, reportsInTime_append hearlier, reportsInTime_cons rfl, reportFor?, if_pos rfl]
  rfl

end Aggregator

end MetricSurvey

/-
Windows: what the aggregator does, read off the log of what it was asked.

A window is the stretch of a log from an event that begins a time which is not open, up to the first input that closes it:
another time begins, its own is completed, or the aggregator is flushed. `windows` cuts a log into them by looking for these
inputs alone; what they hold and what leaves of them needs no aggregator either.

- `Cut`, `cut_windows`: a window begins where its time is not open, nothing inside closes it, and what comes behind it does.
- `Cut.located`: every place in a log is inside a window, or outside of all.
- `Cut.outcome`: the snapshots that leave, and the number of reports that come late, by the windows.
- `nothing_lost_or_duplicated`: one account of every snapshot and every report.
-/
import Mathlib.Data.List.TakeWhile
import MetricSurvey.Proofs.Survey.Snapshots

namespace MetricSurvey

variable {R : Type}

/-- what is asked of an aggregator: to handle an event, or to let go of what it holds -/
inductive AggregatorInput (R : Type) where
  | event (e : AggregatorEvent R)
  | flush
deriving DecidableEq

namespace AggregatorInput

/-- whether an input closes the snapshot of this time, if that is open -/
def closes (time : SurveyTime) : AggregatorInput R → Bool
  | event e => Aggregator.closes time e
  | flush => true

/-- the time that begins -/
def opened? : AggregatorInput R → Option SurveyTime
  | event e => e.opened?
  | flush => none

def report? : AggregatorInput R → Option (Report R)
  | event (.fragment r) => some r
  | _ => none

/-- the report of an input, if it is for this time -/
def reportFor? (time : SurveyTime) : AggregatorInput R → Option (Report R)
  | event e => Aggregator.reportFor? time e
  | flush => none

/-- the reports in a log -/
def reports (log : List (AggregatorInput R)) : List (Report R) := log.filterMap report?

/-- the reports in a log that are for this time -/
def timely (time : SurveyTime) (log : List (AggregatorInput R)) : List (Report R) := log.filterMap (reportFor? time)

@[simp] theorem closes_opened {time t : SurveyTime} : (event (.opened t) : AggregatorInput R).closes time = true ↔ t ≠ time := by
  simp [closes, Aggregator.closes]

@[simp] theorem closes_fragment {time : SurveyTime} {r : Report R} : (event (.fragment r)).closes time = false := rfl

@[simp] theorem closes_completed {time t : SurveyTime} :
    (event (.completed t) : AggregatorInput R).closes time = true ↔ t = time := by
  simp [closes, Aggregator.closes]

theorem reports_cons (i : AggregatorInput R) (log : List (AggregatorInput R)) :
    reports (i :: log) = i.report?.toList ++ reports log := by
  rw [reports, List.filterMap_cons]
  cases i.report? <;> rfl

theorem timely_cons (time : SurveyTime) (i : AggregatorInput R) (log : List (AggregatorInput R)) :
    timely time (i :: log) = (i.reportFor? time).toList ++ timely time log := by
  rw [timely, List.filterMap_cons]
  cases i.reportFor? time <;> rfl

theorem reports_append (log more : List (AggregatorInput R)) : reports (log ++ more) = reports log ++ reports more :=
  List.filterMap_append

end AggregatorInput

open AggregatorInput

/-! ## Windows of a log -/

/-- a window in a log: what comes before it, the time that begins it, what is inside, and all from the input on that closes
it; nothing comes after a window that is still open -/
structure Window (R : Type) where
  before : List (AggregatorInput R)
  time : SurveyTime
  inside : List (AggregatorInput R)
  after : List (AggregatorInput R)

namespace Window

/-- the log up to the input that closes the window -/
def upTo (w : Window R) : List (AggregatorInput R) := w.before ++ .event (.opened w.time) :: w.inside

/-- the reports inside that are for its time -/
def merged (w : Window R) : List (Report R) := timely w.time w.inside

/-- whether the next report after `earlier` is inside and for its time -/
def Holds (w : Window R) (earlier : List (AggregatorInput R)) (r : Report R) : Prop :=
  w.time = r.time ∧ ∃ front rear, w.inside = front ++ .event (.fragment r) :: rear ∧
    earlier = w.before ++ .event (.opened w.time) :: front

variable [Scalar R]

/-- a new snapshot with these reports merged into it in order -/
def content (w : Window R) : Snapshot R := .ofReports w.time w.merged

/-- what leaves when `i` closes a snapshot: a completion lets it leave anyway, all else only if it holds anything -/
def emission (i : AggregatorInput R) (s : Snapshot R) : Option (Snapshot R) :=
  match i with
  | .event (.completed _) => some s
  | _ => if s.empty then none else some s

/-- what leaves of a window -/
def leaving (w : Window R) : Option (Snapshot R) := w.after.head?.bind fun i => emission i w.content

end Window

open Window

/-- the windows of a log behind `before`, where nothing is open that its first input does not close -/
def windowsFrom (before : List (AggregatorInput R)) : List (AggregatorInput R) → List (Window R)
  | [] => []
  | .event (.opened time) :: rest =>
    let inside := rest.takeWhile fun i => !i.closes time
    let after := rest.dropWhile fun i => !i.closes time
    ⟨before, time, inside, after⟩ :: windowsFrom (before ++ .event (.opened time) :: inside) after
  | i :: rest => windowsFrom (before ++ [i]) rest
termination_by log => log.length
decreasing_by
  · exact Nat.lt_succ_of_le (List.length_dropWhile_le _ _)
  · exact Nat.lt_succ_self _

/-- the windows of a log -/
def windows (log : List (AggregatorInput R)) : List (Window R) := windowsFrom [] log

namespace Aggregator

variable [Scalar R]

/-- handle what is asked; at most one snapshot leaves -/
def handle (a : Aggregator R) : AggregatorInput R → Aggregator R × Option (Snapshot R)
  | .event e => a.step e
  | .flush => a.flush

/-- handle a log; the snapshots that leave are listed in order -/
def handleAll (a : Aggregator R) (log : List (AggregatorInput R)) : Aggregator R × List (Snapshot R) :=
  collect (fun a i => ((a.handle i).1, (a.handle i).2.toList)) a log

theorem handleAll_cons (a : Aggregator R) (i : AggregatorInput R) (log : List (AggregatorInput R)) :
    handleAll a (i :: log) =
      ((handleAll (a.handle i).1 log).1, (a.handle i).2.toList ++ (handleAll (a.handle i).1 log).2) := rfl

theorem handleAll_append (a : Aggregator R) (log more : List (AggregatorInput R)) : handleAll a (log ++ more) =
    ((handleAll (handleAll a log).1 more).1, (handleAll a log).2 ++ (handleAll (handleAll a log).1 more).2) :=
  collect_append _ a log more

theorem handleAll_snoc (a : Aggregator R) (log : List (AggregatorInput R)) (i : AggregatorInput R) :
    (handleAll a (log ++ [i])).1 = ((handleAll a log).1.handle i).1 := by
  rw [handleAll_append]
  rfl

/-! ## Single inputs -/

variable {a : Aggregator R} {s : Snapshot R} {i : AggregatorInput R}

omit [Scalar R] in
theorem openTime_of_current (h : a.current = some s) : a.openTime = some s.time := by
  rw [openTime, h]
  rfl

theorem handle_opened_of_open {time : SurveyTime} (h : a.openTime = some time) :
    a.handle (.event (.opened time)) = (a, none) := by
  simp only [handle, step, if_pos h]

theorem handle_fragment_of_open {r : Report R} (hcur : a.current = some s) (h : s.time = r.time) :
    a.handle (.event (.fragment r)) = ({ a with current := some (s.merge r).1 }, none) := by
  simp only [handle, step, hcur, if_pos h]

/-- a report whose time is not open is counted as late, and that is all -/
theorem handle_late {r : Report R} (h : a.openTime ≠ some r.time) :
    a.handle (.event (.fragment r)) = ({ a with late := a.late + 1 }, none) := by
  simp only [handle, step]
  cases hcur : a.current with
  | none => rfl
  | some s =>
    rw [openTime_of_current hcur, ne_eq, Option.some.injEq] at h
    simp only [if_neg h]

theorem handle_completed_of_ne {time : SurveyTime} (h : a.openTime ≠ some time) :
    a.handle (.event (.completed time)) = (a, none) := by
  simp only [handle, step]
  cases hcur : a.current with
  | none => rfl
  | some s =>
    rw [openTime_of_current hcur, ne_eq, Option.some.injEq] at h
    simp only [if_neg h]

/-- an input that does not close the open snapshot merges its report if it is for it, and counts it as late if not -/
theorem handle_inside (hcur : a.current = some s) (h : i.closes s.time = false) :
    (a.handle i).1.current = some ((i.reportFor? s.time).toList.foldl (fun s r => (s.merge r).1) s) ∧
    (a.handle i).2 = none ∧
    (i.reportFor? s.time).toList.length + (a.handle i).1.late = a.late + i.report?.toList.length := by
  have hopen := openTime_of_current hcur
  cases i with
  | flush => cases h
  | event e =>
    cases e with
    | opened t =>
      have ht : s.time = t := by
        by_contra hne
        rw [closes_opened.2 (Ne.symm hne)] at h
        cases h
      rw [handle_opened_of_open (hopen.trans (congrArg some ht))]
      exact ⟨hcur, rfl, Nat.zero_add _⟩
    | fragment r =>
      by_cases ht : s.time = r.time
      · have hfor : (AggregatorInput.event (.fragment r)).reportFor? s.time = some r := if_pos ht.symm
        rw [handle_fragment_of_open hcur ht, hfor]
        exact ⟨rfl, rfl, Nat.add_comm _ _⟩
      · have hfor : (AggregatorInput.event (.fragment r)).reportFor? s.time = none := if_neg (Ne.symm ht)
        have hlate : a.openTime ≠ some r.time := by
          rw [hopen]
          exact fun heq => ht (Option.some.inj heq)
        rw [handle_late hlate, hfor]
        exact ⟨hcur, rfl, Nat.zero_add _⟩
    | completed t =>
      have ht : a.openTime ≠ some t := by
        intro ht
        rw [hopen] at ht
        rw [closes_completed.2 (Option.some.inj ht).symm] at h
        cases h
      rw [handle_completed_of_ne ht]
      exact ⟨hcur, rfl, Nat.zero_add _⟩

/-- nothing is open that the next input does not close -/
def Outside (a : Aggregator R) (rest : List (AggregatorInput R)) : Prop :=
  ∀ s ∈ a.current, ∀ i ∈ rest.head?, i.closes s.time = true

/-- what the next input lets leave -/
def due (a : Aggregator R) (rest : List (AggregatorInput R)) : Option (Snapshot R) :=
  rest.head?.bind fun i => a.current.bind (emission i)

/-- where a time begins that is not open, what was open is closed -/
theorem handle_opened {time : SurveyTime} (h : a.openTime ≠ some time) (rest : List (AggregatorInput R)) :
    (a.handle (.event (.opened time))).1.current = some (.new time) ∧
    (a.handle (.event (.opened time))).2 = a.due (.event (.opened time) :: rest) ∧
    (a.handle (.event (.opened time))).1.late = a.late := by
  simp only [handle, step, if_neg h, due, List.head?_cons, Option.bind_some]
  cases hcur : a.current with
  | none => exact ⟨rfl, rfl, rfl⟩
  | some s => cases he : s.empty <;> simp [emitFilled, emit, emission, he]

/-- any other input outside of windows leaves nothing open -/
theorem handle_outside {rest : List (AggregatorInput R)} (h : a.Outside (i :: rest)) (hi : i.opened? = none) :
    (a.handle i).1.current = none ∧ (a.handle i).2 = a.due (i :: rest) ∧
    (a.handle i).1.late = a.late + i.report?.toList.length := by
  unfold due
  rw [List.head?_cons, Option.bind_some]
  cases hcur : a.current with
  | none =>
    cases i with
    | flush => simp [handle, flush, emitFilled, hcur, report?]
    | event e =>
      cases e with
      | opened t => cases hi
      | fragment r => simp [handle, step, hcur, report?]
      | completed t => simp [handle, step, hcur, report?]
  | some s =>
    have hcloses : i.closes s.time = true := h s hcur i rfl
    cases i with
    | flush => cases he : s.empty <;> simp [handle, flush, emitFilled, emit, emission, hcur, he, report?]
    | event e =>
      cases e with
      | opened t => cases hi
      | fragment r => cases hcloses
      | completed t =>
        obtain rfl : t = s.time := closes_completed.1 hcloses
        simp [handle, step, hcur, emit, emission, report?]

/-! ## Inside a window -/

theorem handleAll_inside {inside : List (AggregatorInput R)} (hcur : a.current = some s)
    (h : ∀ i ∈ inside, i.closes s.time = false) :
    (handleAll a inside).1.current = some ((timely s.time inside).foldl (fun s r => (s.merge r).1) s) ∧
    (handleAll a inside).2 = [] ∧
    (timely s.time inside).length + (handleAll a inside).1.late = a.late + (reports inside).length := by
  induction inside generalizing a s with
  | nil => exact ⟨hcur, rfl, Nat.zero_add _⟩
  | cons i inside ih =>
    obtain ⟨hcur', hout, hlate⟩ := handle_inside hcur (h i List.mem_cons_self)
    have htime : ((i.reportFor? s.time).toList.foldl (fun s r => (s.merge r).1) s).time = s.time := by
      cases i.reportFor? s.time with
      | none => rfl
      | some r => exact Snapshot.time_merge s r
    obtain ⟨hcurs, houts, hlates⟩ := ih hcur' (by rw [htime]; exact fun j hj => h j (List.mem_cons_of_mem i hj))
    rw [htime] at hcurs hlates
    rw [handleAll_cons, timely_cons, reports_cons]
    refine ⟨?_, ?_, ?_⟩
    · rw [List.foldl_append]
      exact hcurs
    · rw [hout, houts]
      rfl
    · rw [List.length_append, List.length_append]
      dsimp only
      omega

/-! ## Cutting a log -/

omit [Scalar R] in
theorem windowsFrom_opened (before rest : List (AggregatorInput R)) (time : SurveyTime) :
    ∃ inside after, rest = inside ++ after ∧ (∀ i ∈ inside, i.closes time = false) ∧
      (∀ i ∈ after.head?, i.closes time = true) ∧ after.length ≤ rest.length ∧
      windowsFrom before (.event (.opened time) :: rest) =
        ⟨before, time, inside, after⟩ :: windowsFrom (before ++ .event (.opened time) :: inside) after := by
  refine ⟨_, _, List.takeWhile_append_dropWhile.symm, ?_, ?_, List.length_dropWhile_le _ _, by rw [windowsFrom]⟩
  · intro i hi
    simpa using List.mem_takeWhile_imp hi
  · intro i hi
    rw [← List.find?_eq_head?_dropWhile_not] at hi
    exact List.find?_some hi

omit [Scalar R] in
theorem windowsFrom_cons {before : List (AggregatorInput R)} (h : i.opened? = none) (rest : List (AggregatorInput R)) :
    windowsFrom before (i :: rest) = windowsFrom (before ++ [i]) rest := by
  cases i with
  | flush => rw [windowsFrom]; simp
  | event e =>
    cases e with
    | opened t => cases h
    | _ => rw [windowsFrom]; simp

/-- a window of a log, which begins where its time is not open and goes on until something closes it -/
structure WindowOf (log : List (AggregatorInput R)) (w : Window R) : Prop where
  log_eq : w.upTo ++ w.after = log
  begins : (handleAll new w.before).1.openTime ≠ some w.time
  stays : ∀ i ∈ w.inside, i.closes w.time = false
  ends : ∀ i ∈ w.after.head?, i.closes w.time = true

/-- a log behind `before` is cut into windows and the inputs outside of them -/
inductive Cut : List (AggregatorInput R) → List (AggregatorInput R) → List (Window R) → Prop where
  | nil (before : List (AggregatorInput R)) : Cut before [] []
  | window {w : Window R} {ws : List (Window R)} (begins : (handleAll new w.before).1.openTime ≠ some w.time)
      (stays : ∀ i ∈ w.inside, i.closes w.time = false) (ends : ∀ i ∈ w.after.head?, i.closes w.time = true)
      (rest : Cut w.upTo w.after ws) : Cut w.before (.event (.opened w.time) :: (w.inside ++ w.after)) (w :: ws)
  | outside {before rest : List (AggregatorInput R)} {i : AggregatorInput R} {ws : List (Window R)}
      (h : (handleAll new before).1.Outside (i :: rest)) (hi : i.opened? = none) (more : Cut (before ++ [i]) rest ws) :
      Cut before (i :: rest) ws

/-- what is open inside a window is its snapshot, with the reports for its time that have come -/
theorem current_handleAll {before inside : List (AggregatorInput R)} {time : SurveyTime}
    (begins : (handleAll new before).1.openTime ≠ some time) (stays : ∀ i ∈ inside, i.closes time = false) :
    (handleAll (new : Aggregator R) (before ++ .event (.opened time) :: inside)).1.current =
      some (.ofReports time (timely time inside)) := by
  rw [handleAll_append, handleAll_cons]
  exact (handleAll_inside (handle_opened begins []).1 stays).1

theorem openTime_handleAll {before inside : List (AggregatorInput R)} {time : SurveyTime}
    (begins : (handleAll new before).1.openTime ≠ some time) (stays : ∀ i ∈ inside, i.closes time = false) :
    (handleAll (new : Aggregator R) (before ++ .event (.opened time) :: inside)).1.openTime = some time := by
  have htime : (Snapshot.ofReports time (timely time inside)).time = time := by
    unfold Snapshot.ofReports
    generalize timely time inside = rs
    induction rs using List.reverseRecOn with
    | nil => rfl
    | append_singleton rs r ih =>
      rw [List.foldl_append, List.foldl_cons, List.foldl_nil, Snapshot.time_merge, ih]
  rw [openTime_of_current (current_handleAll begins stays), htime]

/-- **`windowsFrom` cuts a log**, since it looks for the inputs that close what is open. -/
theorem cut (before rest : List (AggregatorInput R)) (h : (handleAll new before).1.Outside rest) :
    Cut before rest (windowsFrom before rest) := by
  induction hn : rest.length using Nat.strong_induction_on generalizing before rest with
  | _ n ih =>
    cases rest with
    | nil =>
      rw [windowsFrom]
      exact .nil before
    | cons i rest =>
      rw [List.length_cons] at hn
      cases hi : i.opened? with
      | none =>
        rw [windowsFrom_cons hi]
        refine .outside h hi (ih rest.length (by omega) _ rest ?_ rfl)
        intro s hs
        rw [handleAll_snoc, (handle_outside h hi).1] at hs
        cases hs
      | some time =>
        obtain rfl : i = .event (.opened time) := by
          cases i with
          | flush => cases hi
          | event e =>
            cases e with
            | opened t => cases hi; rfl
            | _ => cases hi
        have begins : (handleAll new before).1.openTime ≠ some time := by
          intro hopen
          obtain ⟨s, hs, rfl⟩ := Option.map_eq_some_iff.1 hopen
          exact closes_opened.1 (h s hs _ rfl) rfl
        obtain ⟨inside, after, rfl, stays, ends, hlength, hwindows⟩ := windowsFrom_opened before rest time
        rw [hwindows]
        refine .window (w := ⟨before, time, inside, after⟩) begins stays ends (ih after.length (by omega) _ after ?_ rfl)
        intro s hs j hj
        have hopen : (handleAll new (before ++ .event (.opened time) :: inside)).1.openTime = some time :=
          openTime_handleAll begins stays
        obtain rfl : s.time = time := Option.some.inj ((openTime_of_current hs).symm.trans hopen)
        exact ends j hj

theorem cut_windows (log : List (AggregatorInput R)) : Cut [] log (windows log) :=
  cut [] log fun s hs => by cases hs

namespace Cut

variable {before rest : List (AggregatorInput R)} {ws : List (Window R)}

theorem windowOf (h : Cut before rest ws) : ∀ w ∈ ws, WindowOf (before ++ rest) w := by
  induction h with
  | nil before => exact fun w hw => absurd hw List.not_mem_nil
  | @window w ws begins stays ends rest ih =>
    have hlog : w.upTo ++ w.after = w.before ++ (.event (.opened w.time) :: (w.inside ++ w.after)) := by
      unfold upTo
      rw [List.append_assoc, List.cons_append]
    intro w' hw'
    rcases List.mem_cons.1 hw' with rfl | hw'
    · exact ⟨hlog, begins, stays, ends⟩
    · rw [← hlog]
      exact ih w' hw'
  | @outside before rest i ws h hi more ih =>
    intro w hw
    rw [List.append_cons]
    exact ih w hw

/-- **Every place in a log** is outside of all windows, where the rest of the log is cut by the rest of them, or it is
inside of one. -/
theorem located (h : Cut before rest ws) {front rear : List (AggregatorInput R)} (hrest : rest = front ++ rear) :
    (∃ ws', Cut (before ++ front) rear ws' ∧ ws' ⊆ ws) ∨
      ∃ w ∈ ws, ∃ head i tail, w.inside = head ++ i :: tail ∧ rear = i :: (tail ++ w.after) ∧
        before ++ front = w.before ++ .event (.opened w.time) :: head := by
  induction h generalizing front with
  | nil before =>
    obtain ⟨rfl, rfl⟩ := List.nil_eq_append_iff.1 hrest
    rw [List.append_nil]
    exact .inl ⟨[], .nil before, List.Subset.refl _⟩
  | @window w ws begins stays ends rest ih =>
    cases front with
    | nil =>
      rw [List.nil_append] at hrest
      rw [List.append_nil, ← hrest]
      exact .inl ⟨w :: ws, .window begins stays ends rest, List.Subset.refl _⟩
    | cons i front =>
      rw [List.cons_append, List.cons.injEq] at hrest
      obtain ⟨rfl, hrest⟩ := hrest
      rcases List.append_eq_append_iff.1 hrest with ⟨m, rfl, hafter⟩ | ⟨m, hinside, rfl⟩
      · -- behind the window
        have hplace : w.before ++ (.event (.opened w.time) :: (w.inside ++ m)) = w.upTo ++ m := by
          unfold upTo
          rw [List.append_assoc, List.cons_append]
        rw [hplace]
        rcases ih hafter with ⟨ws', hcut, hsub⟩ | ⟨w', hw', hin⟩
        · exact .inl ⟨ws', hcut, List.subset_cons_of_subset w hsub⟩
        · exact .inr ⟨w', List.mem_cons_of_mem w hw', hin⟩
      · cases m with
        | nil =>
          rw [List.append_nil] at hinside
          rw [← hinside]
          exact .inl ⟨ws, rest, List.subset_cons_self w ws⟩
        | cons j m => exact .inr ⟨w, List.mem_cons_self, front, j, m, hinside, rfl, rfl⟩
  | @outside before rest i ws h hi more ih =>
    cases front with
    | nil =>
      rw [List.nil_append] at hrest
      rw [List.append_nil, ← hrest]
      exact .inl ⟨ws, .outside h hi more, List.Subset.refl _⟩
    | cons j front =>
      rw [List.cons_append, List.cons.injEq] at hrest
      obtain ⟨rfl, hrest⟩ := hrest
      rw [List.append_cons]
      exact ih hrest

/-- a log that is cut starts outside of all windows -/
theorem closes_head (h : Cut before rest ws) : (handleAll new before).1.Outside rest := by
  cases h with
  | nil before =>
    intro s hs i hi
    cases hi
  | @window w ws begins stays ends rest =>
    intro s hs i hi
    cases hi
    refine closes_opened.2 ?_
    rintro ht
    rw [ht] at begins
    exact begins (openTime_of_current hs)
  | outside h hi more => exact h

/-- **What leaves, and how many reports come late**, by the windows. -/
theorem outcome (h : Cut before rest ws) :
    (handleAll (handleAll new before).1 rest).2 = ((handleAll new before).1.due rest).toList ++ ws.filterMap leaving ∧
    (ws.map fun w => w.merged.length).sum + (handleAll (handleAll new before).1 rest).1.late =
      (handleAll new before).1.late + (reports rest).length := by
  induction h with
  | nil before => exact ⟨rfl, Nat.zero_add _⟩
  | @window w ws begins stays ends rest ih =>
    obtain ⟨hcur, hout, hlate⟩ := handle_opened begins (w.inside ++ w.after)
    obtain ⟨hcurs, houts, hlates⟩ := handleAll_inside hcur stays
    have hupTo : (handleAll new w.upTo).1 =
        (handleAll ((handleAll new w.before).1.handle (.event (.opened w.time))).1 w.inside).1 := by
      unfold upTo
      rw [handleAll_append, handleAll_cons]
    have hleaving : (handleAll new w.upTo).1.due w.after = w.leaving := by
      unfold due leaving content merged
      rw [hupTo, hcurs]
      rfl
    rw [hupTo] at ih hleaving
    obtain ⟨ihout, ihlate⟩ := ih
    rw [handleAll_cons, handleAll_append, List.filterMap_cons, List.map_cons, List.sum_cons, reports_cons, reports_append]
    dsimp only
    constructor
    · rw [hout, houts, ihout, hleaving]
      cases w.leaving <;> rfl
    · rw [hlate] at hlates
      have hmerged : w.merged.length = (timely (Snapshot.new (R := R) w.time).time w.inside).length := rfl
      rw [List.length_append, List.length_append]
      change w.merged.length + _ + _ = _ + (0 + _)
      omega
  | @outside before rest i ws h hi more ih =>
    obtain ⟨hcur, hout, hlate⟩ := handle_outside h hi
    rw [handleAll_snoc] at ih
    obtain ⟨ihout, ihlate⟩ := ih
    have hdue : ((handleAll new before).1.handle i).1.due rest = none := by
      unfold due
      rw [hcur]
      cases rest.head? <;> rfl
    rw [handleAll_cons, reports_cons]
    dsimp only
    constructor
    · rw [hout, ihout, hdue]
      rfl
    · rw [List.length_append]
      omega

end Cut

/-! ## The account of a log -/

variable {log : List (AggregatorInput R)}

/-- everywhere inside a window its time is open, and the next input does not close it -/
theorem WindowOf.open_inside {w : Window R} (h : WindowOf log w) {front rear : List (AggregatorInput R)}
    {i : AggregatorInput R} (hinside : w.inside = front ++ i :: rear) :
    (handleAll new (w.before ++ .event (.opened w.time) :: front)).1.openTime = some w.time ∧
      i.closes w.time = false := by
  have hfront : ∀ j ∈ front, j.closes w.time = false := by
    intro j hj
    exact h.stays j (hinside ▸ List.mem_append_left _ hj)
  exact ⟨openTime_handleAll h.begins hfront, h.stays i (hinside ▸ List.mem_append_right _ List.mem_cons_self)⟩

/-- where a time begins that is not open, a window begins -/
theorem window_of_begins {earlier later : List (AggregatorInput R)} {time : SurveyTime}
    (hlog : log = earlier ++ .event (.opened time) :: later) (h : (handleAll new earlier).1.openTime ≠ some time) :
    ∃ w ∈ windows log, w.before = earlier ∧ w.time = time := by
  rcases (cut_windows log).located hlog with ⟨ws', hcut, hsub⟩ | ⟨w, hw, head, i, tail, hinside, hrear, hplace⟩
  · cases hcut with
    | @window w ws begins stays ends rest => exact ⟨w, hsub List.mem_cons_self, rfl, rfl⟩
    | outside houtside hi more => cases hi
  · -- inside of a window its time is open, and no other begins
    obtain ⟨hopen, hstays⟩ := ((cut_windows log).windowOf w hw).open_inside hinside
    rw [List.cons.injEq] at hrear
    obtain ⟨rfl, -⟩ := hrear
    rw [← hplace, List.nil_append] at hopen
    have hsame : time = w.time := by
      by_contra hother
      rw [closes_opened.2 hother] at hstays
      cases hstays
    rw [hsame] at h
    exact absurd hopen h

/-- a report is inside a window of its time if and only if that time is open -/
theorem holds_iff_open {earlier later : List (AggregatorInput R)} {r : Report R}
    (hlog : log = earlier ++ .event (.fragment r) :: later) :
    (∃ w ∈ windows log, w.Holds earlier r) ↔ (handleAll new earlier).1.openTime = some r.time := by
  constructor
  · rintro ⟨w, hw, htime, front, rear, hinside, rfl⟩
    rw [← htime]
    exact (((cut_windows log).windowOf w hw).open_inside hinside).1
  · intro hopen
    rcases (cut_windows log).located hlog with ⟨ws', hcut, -⟩ | ⟨w, hw, head, i, tail, hinside, hrear, hplace⟩
    · -- outside of all windows a report finds nothing open
      obtain ⟨s, hs, -⟩ := Option.map_eq_some_iff.1 hopen
      have hcloses := hcut.closes_head s hs _ rfl
      rw [closes_fragment] at hcloses
      cases hcloses
    · obtain ⟨hin, -⟩ := ((cut_windows log).windowOf w hw).open_inside hinside
      rw [List.cons.injEq] at hrear
      obtain ⟨rfl, -⟩ := hrear
      rw [List.nil_append] at hplace
      rw [← hplace, hopen, Option.some.injEq] at hin
      exact ⟨w, hw, hin.symm, head, tail, hinside, hplace⟩

/-- what leaves where a window is closed is what leaves of it -/
theorem handle_closing {w : Window R} (h : WindowOf log w) {i : AggregatorInput R} (hi : i ∈ w.after.head?) :
    ((handleAll new w.upTo).1.handle i).2 = w.leaving := by
  have hcur : (handleAll new w.upTo).1.current = some w.content := current_handleAll h.begins h.stays
  have hopen : (handleAll new w.upTo).1.openTime = some w.time := openTime_handleAll h.begins h.stays
  have hcloses := h.ends i hi
  have hdue : (handleAll new w.upTo).1.due [i] = w.leaving := by
    unfold due leaving
    rw [hcur, Option.mem_def.1 hi]
    rfl
  rw [← hdue]
  cases hbegin : i.opened? with
  | none =>
    refine (handle_outside ?_ hbegin).2.1
    intro s hs j hj
    obtain rfl : i = j := Option.some.inj hj
    have htime : s.time = w.time := Option.some.inj ((openTime_of_current hs).symm.trans hopen)
    rw [htime]
    exact hcloses
  | some time =>
    cases i with
    | flush => cases hbegin
    | event e =>
      cases e with
      | opened t =>
        refine (handle_opened ?_ []).2.1
        rw [hopen]
        intro ht
        exact closes_opened.1 hcloses (Option.some.inj ht).symm
      | _ => cases hbegin

/-- **Nothing is lost or duplicated.** Whatever a new aggregator is asked, cut the log into windows.
- They begin where a time begins that is not open, and go on up to the first input that closes it. Where a window is closed
its snapshot leaves: after a completion anyway, and otherwise if it holds anything. It is a new snapshot with the reports
inside that are for its time, merged once each and in order.
- No other snapshots leave.
- A report that is inside a window of its time is not late; any other is counted as late, and nothing else changes.
- Reports are merged or late, as many as there are. -/
theorem nothing_lost_or_duplicated (log : List (AggregatorInput R)) :
    (∀ w ∈ windows log, WindowOf log w ∧ ∀ i ∈ w.after.head?, ((handleAll new w.upTo).1.handle i).2 =
      emission i (w.merged.foldl (fun s r => (s.merge r).1) (.new w.time))) ∧
    (∀ earlier time later, log = earlier ++ .event (.opened time) :: later →
      (handleAll new earlier).1.openTime ≠ some time → ∃ w ∈ windows log, w.before = earlier ∧ w.time = time) ∧
    (handleAll new log).2 = (windows log).filterMap leaving ∧
    (∀ earlier r later, log = earlier ++ .event (.fragment r) :: later →
      let a : Aggregator R := (handleAll new earlier).1
      ((∃ w ∈ windows log, w.Holds earlier r) → (a.handle (.event (.fragment r))).1.late = a.late) ∧
      ((¬ ∃ w ∈ windows log, w.Holds earlier r) →
        a.handle (.event (.fragment r)) = ({ a with late := a.late + 1 }, none))) ∧
    ((windows log).map fun w => w.merged.length).sum + (handleAll (new : Aggregator R) log).1.late =
      (reports log).length := by
  have hcut := cut_windows log
  obtain ⟨hleft, hcount⟩ := hcut.outcome
  refine ⟨?_, ?_, ?_, ?_, ?_⟩
  · intro w hw
    have hof := hcut.windowOf w hw
    refine ⟨hof, ?_⟩
    intro i hi
    rw [handle_closing hof hi]
    unfold leaving
    rw [Option.mem_def.1 hi]
    rfl
  · intro earlier time later hlog h
    exact window_of_begins hlog h
  · have hnothing : (handleAll (new : Aggregator R) []).1.due log = none := by
      unfold due
      cases log.head? <;> rfl
    rw [hnothing] at hleft
    exact hleft
  · intro earlier r later hlog a
    rw [holds_iff_open hlog]
    exact ⟨fun h => late_step_fragment h, fun h => handle_late h⟩
  · exact hcount.trans (Nat.zero_add _)

end Aggregator

end MetricSurvey

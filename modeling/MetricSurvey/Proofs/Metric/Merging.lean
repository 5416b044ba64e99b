/-
Merging reports into a snapshot, with exact numbers.

A snapshot is two tables of amounts: counters, and distributions, which are added by merging them. Merging a report adds
the report's entries to both.

- `merge_eq`: what merging one report makes of a snapshot, and how many distributions it rejects.
- `mergeAll_eq_merge`: merging reports one after another is merging one report that has all their entries.
- `merge_congr`: the order of a report's entries does not matter.
- `mergeAll_order_and_grouping`: neither the order of the reports nor the way their entries are spread over reports
  matters, for the snapshot and for the number of distributions rejected.
-/
import MetricSurvey.Proofs.Metric.Amounts
import MetricSurvey.Proofs.Metric.Distribution
import MetricSurvey.Proofs.Survey.Snapshots

namespace MetricSurvey

/-! ## What a report adds -/

namespace Report

variable {R : Type}

/-- the counts of a report, each under its key -/
def keyedCounts (r : Report R) : List (MetricKey × R) := r.counts.map fun c => (⟨c.name⟩, c.value)

/-- the samples of a report and the distributions that are taken, each under its key -/
def keyedDists [Scalar R] (r : Report R) : List (MetricKey × Distribution R) :=
  r.values.map (fun v => (⟨v.name⟩, .ofSample v.value)) ++
    r.dists.filterMap fun d => d.value.accepted?.map fun e => (⟨d.name⟩, e)

/-- how many distributions of a report are rejected -/
def refused [Scalar R] (r : Report R) : Nat := r.dists.countP fun d => d.value.accepted?.isNone

/-- one report with the entries of two -/
def append (r r' : Report R) : Report R where
  time := r'.time
  values := r.values ++ r'.values
  counts := r.counts ++ r'.counts
  dists := r.dists ++ r'.dists

/-- one report with the entries of all these -/
def joined (time : SurveyTime) (rs : List (Report R)) : Report R where
  time := time
  values := rs.flatMap values
  counts := rs.flatMap counts
  dists := rs.flatMap dists

theorem joined_cons (time : SurveyTime) (r : Report R) (rs : List (Report R)) :
    joined time (r :: rs) = r.append (joined time rs) := rfl

theorem keyedCounts_append (r r' : Report R) : (r.append r').keyedCounts = r.keyedCounts ++ r'.keyedCounts :=
  List.map_append

theorem keyedDists_append [Scalar R] (r r' : Report R) :
    (r.append r').keyedDists.Perm (r.keyedDists ++ r'.keyedDists) := by
  unfold keyedDists append
  dsimp only
  rw [List.map_append, List.filterMap_append, List.append_assoc, List.append_assoc]
  -- the samples of the second report stand before the distributions of the first
  refine List.Perm.append_left _ ?_
  rw [← List.append_assoc, ← List.append_assoc]
  exact List.perm_append_comm.append_right _

theorem refused_append [Scalar R] (r r' : Report R) : (r.append r').refused = r.refused + r'.refused :=
  List.countP_append

theorem carriesData_append [Scalar R] (r r' : Report R) :
    (r.append r').carriesData = (r.carriesData || r'.carriesData) := by
  have hempty : ∀ {α : Type} (l m : List α), (l ++ m).isEmpty = (l.isEmpty && m.isEmpty) := by
    intro α l m
    cases l <;> rfl
  simp only [carriesData, append, hempty, List.any_append, Bool.not_and]
  ac_rfl

/-- two lists of reports with the same entries, in whatever order and however spread -/
structure SameEntries (rs rs' : List (Report R)) : Prop where
  values : (rs.flatMap Report.values).Perm (rs'.flatMap Report.values)
  counts : (rs.flatMap Report.counts).Perm (rs'.flatMap Report.counts)
  dists : (rs.flatMap Report.dists).Perm (rs'.flatMap Report.dists)

/-- reports in another order have the same entries -/
theorem SameEntries.of_perm {rs rs' : List (Report R)} (h : rs.Perm rs') : SameEntries rs rs' where
  values := h.flatMap_right _
  counts := h.flatMap_right _
  dists := h.flatMap_right _

end Report

namespace Snapshot

/-! ## Merging one report -/

theorem addCount_eq (s : Snapshot Exact) (c : Named Exact) :
    s.addCount c = { s with empty := false, counters := s.counters.add ⟨c.name⟩ c.value } := by
  have hfun : (fun old : Option Exact => some (old.getD 0 + c.value)) =
      fun old => some (old.elim c.value (· + c.value)) := by
    funext old
    cases old with
    | none => exact congrArg some (zero_add c.value)
    | some n => rfl
  rw [addCount, hfun, Table.add]

theorem addValue_eq (s : Snapshot Exact) (v : Named Exact) :
    s.addValue v = { s with empty := false, dists := s.dists.add ⟨v.name⟩ (.ofSample v.value) } := by
  unfold addValue Table.add
  congr 2
  funext old
  cases old <;> rfl

theorem addDist_eq (s : Snapshot Exact) (d : Named (Distribution Exact)) :
    s.addDist d = match d.value.accepted? with
      | none => (s, false)
      | some e => ({ s with empty := false, dists := s.dists.add ⟨d.name⟩ e }, true) := by
  unfold addDist Table.add
  cases d.value.accepted? with
  | none => rfl
  | some e =>
    dsimp only
    congr 3
    funext old
    cases old <;> rfl

theorem tables_foldl_addValue (vs : List (Named Exact)) (s : Snapshot Exact) :
    (vs.foldl addValue s).counters = s.counters ∧
      (vs.foldl addValue s).dists = s.dists.addAll (vs.map fun v => (⟨v.name⟩, .ofSample v.value)) := by
  induction vs generalizing s with
  | nil => exact ⟨rfl, rfl⟩
  | cons v vs ih =>
    rw [List.foldl_cons, (ih _).1, (ih _).2, addValue_eq]
    exact ⟨rfl, rfl⟩

theorem tables_foldl_addCount (cs : List (Named Exact)) (s : Snapshot Exact) :
    (cs.foldl addCount s).counters = s.counters.addAll (cs.map fun c => (⟨c.name⟩, c.value)) ∧
      (cs.foldl addCount s).dists = s.dists := by
  induction cs generalizing s with
  | nil => exact ⟨rfl, rfl⟩
  | cons c cs ih =>
    rw [List.foldl_cons, (ih _).1, (ih _).2, addCount_eq]
    exact ⟨rfl, rfl⟩

theorem tables_addDists (ds : List (Named (Distribution Exact))) (s : Snapshot Exact) :
    (s.addDists ds).1.counters = s.counters ∧
      (s.addDists ds).1.dists =
        s.dists.addAll (ds.filterMap fun d => d.value.accepted?.map fun e => (⟨d.name⟩, e)) := by
  induction ds generalizing s with
  | nil => exact ⟨rfl, rfl⟩
  | cons d ds ih =>
    rw [addDists_cons, (ih _).1, (ih _).2, addDist_eq, List.filterMap_cons]
    cases d.value.accepted? with
    | none => exact ⟨rfl, rfl⟩
    | some e => exact ⟨rfl, rfl⟩

/-- the number of distributions rejected does not depend on the snapshot -/
theorem addDists_snd {R : Type} [Scalar R] (s : Snapshot R) (ds : List (Named (Distribution R))) :
    (s.addDists ds).2 = ds.countP fun d => d.value.accepted?.isNone := by
  suffices h : ∀ (s : Snapshot R) (n : Nat), (ds.foldl (fun acc d =>
      ((acc.1.addDist d).1, if (acc.1.addDist d).2 then acc.2 else acc.2 + 1)) (s, n)).2 =
      n + ds.countP fun d => d.value.accepted?.isNone from (h s 0).trans (Nat.zero_add _)
  induction ds with
  | nil => intro s n; rfl
  | cons d ds ih =>
    intro s n
    rw [List.foldl_cons, ih, List.countP_cons]
    unfold addDist
    cases d.value.accepted? with
    | none => exact (Nat.add_right_comm n 1 _).trans (Nat.add_assoc n _ 1)
    | some e => rfl

/-- **Merging a report** adds its counts and its distributions to what the snapshot holds. -/
theorem merge_eq (s : Snapshot Exact) (r : Report Exact) :
    s.merge r = (⟨s.time, s.counters.addAll r.keyedCounts, s.dists.addAll r.keyedDists,
      s.empty && !r.carriesData⟩, r.refused) := by
  have hcounters : (s.merge r).1.counters = s.counters.addAll r.keyedCounts := by
    rw [merge, (tables_addDists _ _).1, (tables_foldl_addCount _ _).1, (tables_foldl_addValue _ _).1]
    rfl
  have hdists : (s.merge r).1.dists = s.dists.addAll r.keyedDists := by
    rw [merge, (tables_addDists _ _).2, (tables_foldl_addCount _ _).2, (tables_foldl_addValue _ _).2, Report.keyedDists,
      Table.addAll_append]
  have hrefused : (s.merge r).2 = r.refused := addDists_snd _ _
  have htime := time_merge s r
  have hempty := empty_merge s r
  revert hcounters hdists hrefused htime hempty
  generalize s.merge r = m
  obtain ⟨⟨time, counters, dists, empty⟩, refused⟩ := m
  rintro rfl rfl rfl rfl rfl
  rfl

/-! ## Merging many -/

/-- merge reports one after another; the number says how many distributions were rejected -/
def mergeAll {R : Type} [Scalar R] (s : Snapshot R) (rs : List (Report R)) : Snapshot R × Nat :=
  rs.foldl (fun acc r => ((acc.1.merge r).1, acc.2 + (acc.1.merge r).2)) (s, 0)

theorem mergeAll_cons {R : Type} [Scalar R] (s : Snapshot R) (r : Report R) (rs : List (Report R)) :
    s.mergeAll (r :: rs) = (((s.merge r).1.mergeAll rs).1, (s.merge r).2 + ((s.merge r).1.mergeAll rs).2) := by
  suffices h : ∀ (s : Snapshot R) (n : Nat), rs.foldl (fun acc r => ((acc.1.merge r).1, acc.2 + (acc.1.merge r).2))
      (s, n) = ((s.mergeAll rs).1, n + (s.mergeAll rs).2) by
    rw [mergeAll, List.foldl_cons, h, Nat.zero_add]
  induction rs with
  | nil => intro s n; rfl
  | cons r rs ih =>
    intro s n
    unfold mergeAll
    rw [List.foldl_cons, List.foldl_cons, ih, ih, Nat.zero_add, Nat.add_assoc]

/-- the distributions rejected are those of the single reports -/
theorem mergeAll_snd {R : Type} [Scalar R] (s : Snapshot R) (rs : List (Report R)) :
    (s.mergeAll rs).2 = (rs.map Report.refused).sum := by
  induction rs generalizing s with
  | nil => rfl
  | cons r rs ih => rw [mergeAll_cons, ih, List.map_cons, List.sum_cons, merge, addDists_snd, Report.refused]

/-- under each key, the distributions of all reports are added -/
theorem amount_mergeAll (s : Snapshot Exact) (rs : List (Report Exact)) (k : MetricKey) :
    (s.mergeAll rs).1.dists.amount k = s.dists.amount k + Table.total k (rs.flatMap Report.keyedDists) := by
  induction rs generalizing s with
  | nil => exact (add_zero _).symm
  | cons r rs ih =>
    rw [mergeAll_cons, ih, merge_eq, Table.amount_addAll, List.flatMap_cons, Table.total_append, add_assoc]

/-- the order of a report's entries does not matter -/
theorem merge_congr (s : Snapshot Exact) {r r' : Report Exact} (hv : r.values.Perm r'.values)
    (hc : r.counts.Perm r'.counts) (hd : r.dists.Perm r'.dists) : s.merge r = s.merge r' := by
  have hcounts : r.keyedCounts.Perm r'.keyedCounts := hc.map _
  have hdists : r.keyedDists.Perm r'.keyedDists := (hv.map _).append (hd.filterMap _)
  have hdata : r.carriesData = r'.carriesData := by
    rw [Report.carriesData, Report.carriesData, hv.isEmpty_eq, hc.isEmpty_eq, hd.any_eq]
  have hrefused : r.refused = r'.refused := hd.countP_eq _
  rw [merge_eq, merge_eq, Table.addAll_perm _ hcounts, Table.addAll_perm _ hdists, hdata, hrefused]

/-- merging two reports is merging one with the entries of both -/
theorem merge_append (s : Snapshot Exact) (r r' : Report Exact) :
    s.merge (r.append r') = (((s.merge r).1.merge r').1, (s.merge r).2 + ((s.merge r).1.merge r').2) := by
  rw [merge_eq, merge_eq s r, merge_eq, Report.keyedCounts_append, Report.carriesData_append, Report.refused_append,
    Table.addAll_perm _ (Report.keyedDists_append r r'), Table.addAll_append, Table.addAll_append, Bool.not_or,
    Bool.and_assoc]

/-- **Merging reports one after another is merging one report** that has all their entries. -/
theorem mergeAll_eq_merge (s : Snapshot Exact) (time : SurveyTime) (rs : List (Report Exact)) :
    s.mergeAll rs = s.merge (.joined time rs) := by
  induction rs generalizing s with
  | nil =>
    rw [merge_eq]
    cases s with
    | mk t counters dists empty => cases empty <;> rfl
  | cons r rs ih => rw [mergeAll_cons, Report.joined_cons, merge_append, ih]

/-- **Order and grouping do not matter.** The same reports in another order, and reports among which the same entries are
spread in any way, make the same snapshot, and the same number of distributions is rejected. -/
theorem mergeAll_order_and_grouping (time : SurveyTime) (rs : List (Report Exact)) :
    (∀ shuffled, rs.Perm shuffled → mergeAll (new time) shuffled = mergeAll (new time) rs) ∧
      ∀ regrouped, Report.SameEntries rs regrouped → mergeAll (new time) regrouped = mergeAll (new time) rs := by
  have regroup : ∀ regrouped, Report.SameEntries rs regrouped →
      mergeAll (new time) regrouped = mergeAll (new time) rs := by
    intro regrouped h
    rw [mergeAll_eq_merge _ time, mergeAll_eq_merge _ time]
    exact (merge_congr _ h.values h.counts h.dists).symm
  exact ⟨fun shuffled h => regroup shuffled (.of_perm h), regroup⟩

/-- two samples, a count, a distribution and five numbers that are none: an infinite greatest value -/
def mixedReport : Report Exact where
  time := 1000
  values := [⟨"rtt", .finite 3⟩, ⟨"rtt", .finite 1⟩]
  counts := [⟨"ok", .finite 2⟩]
  dists := [⟨"rtt", ⟨.finite 2, .finite 5, .finite 7, .finite 12, .finite 74⟩⟩,
    ⟨"rtt", ⟨.finite 1, .finite 0, .infinite false, .finite 0, .finite 0⟩⟩]

/-- two counts and five numbers that are no distribution: a weight of zero -/
def countingReport : Report Exact where
  time := 1000
  counts := [⟨"ok", .finite (1 / 2)⟩, ⟨"rtt", .finite 4⟩]
  dists := [⟨"idle", ⟨.finite 0, .finite 0, .finite 0, .finite 0, .finite 0⟩⟩]

/-- the entries of both, spread over three reports -/
def spreadReports : List (Report Exact) :=
  [{ time := 1000, values := [⟨"rtt", .finite 1⟩], dists := countingReport.dists },
    { time := 1000, counts := [⟨"rtt", .finite 4⟩, ⟨"ok", .finite 2⟩], dists := mixedReport.dists.reverse },
    { time := 1000, values := [⟨"rtt", .finite 3⟩], counts := [⟨"ok", .finite (1 / 2)⟩] }]

theorem mergeAll_order_and_grouping_spread :
    [mixedReport, countingReport].Perm [countingReport, mixedReport] ∧
      Report.SameEntries [mixedReport, countingReport] spreadReports ∧
      mergeAll (new 1000) [countingReport, mixedReport] = mergeAll (new 1000) [mixedReport, countingReport] ∧
      mergeAll (new 1000) spreadReports = mergeAll (new 1000) [mixedReport, countingReport] ∧
      (mergeAll (new 1000) [mixedReport, countingReport]).2 = 2 ∧
      (mergeAll (new 1000) [mixedReport, countingReport]).1.dist "rtt" =
        some ⟨.finite 4, .finite 1, .finite 7, .finite 16, .finite 84⟩ := by
  have hperm : [mixedReport, countingReport].Perm [countingReport, mixedReport] := .swap _ _ _
  have hspread : Report.SameEntries [mixedReport, countingReport] spreadReports :=
    ⟨by decide +kernel, by decide +kernel, by decide +kernel⟩
  exact ⟨hperm, hspread, (mergeAll_order_and_grouping 1000 _).1 _ hperm, (mergeAll_order_and_grouping 1000 _).2 _ hspread,
    by decide +kernel, by decide +kernel⟩

end Snapshot

end MetricSurvey

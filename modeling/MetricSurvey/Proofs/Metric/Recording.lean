/-
Recording: the calls that a client makes on its registry between reports.

All of them are one type, `Recording`, and each names what it puts under which key: probes, counts, rates and samples. It
puts these into the four tables of the registry, one after another, and does nothing else (`record_eq`). Of the samples, a
registry keeps for every key the distribution of what was recorded since the last report, and a report carries all that was
kept (`keyedDists_report`).
-/
import MetricSurvey.Metric.Registry
import MetricSurvey.Proofs.Metric.Merging

namespace MetricSurvey

variable {R P : Type}

/-- a call that records something -/
inductive Recording (R P : Type)
  | probe (k : MetricKey) (probe : P)
  | count (k : MetricKey) (v : R)
  | counts (cs : List (MetricKey × R))
  | rate (k : MetricKey) (v : R)
  | sample (k : MetricKey) (v : R)
  | samples (l : List (MetricKey × List R))

namespace Recording

/-- the probes that a call names -/
def probed : Recording R P → List (MetricKey × P)
  | .probe k p => [(k, p)]
  | _ => []

/-- the counts that a call names, in order -/
def counted : Recording R P → List (MetricKey × R)
  | .count k v => [(k, v)]
  | .counts cs => cs
  | _ => []

/-- the growing numbers that a call names -/
def rated : Recording R P → List (MetricKey × R)
  | .rate k v => [(k, v)]
  | _ => []

/-- the samples that a call names, in order -/
def sampled : Recording R P → List (MetricKey × R)
  | .sample k v => [(k, v)]
  | .samples l => l.flatMap fun e => e.2.map fun v => (e.1, v)
  | _ => []

end Recording

/-- a growing number that stands at `v` now -/
def Rate.moved [Scalar R] (v : R) (old : Option (Rate R)) : Rate R := ⟨v, (old.map Rate.reported).getD 0⟩

/-- each sample as the distribution of it alone -/
def singletons [Scalar R] (l : List (MetricKey × R)) : List (MetricKey × Distribution R) :=
  l.map fun e => (e.1, .ofSample e.2)

theorem singletons_append [Scalar R] (l m : List (MetricKey × R)) : singletons (l ++ m) = singletons l ++ singletons m :=
  List.map_append

namespace Registry

variable [Scalar R]

def record (g : Registry R P) : Recording R P → Registry R P
  | .probe k probe => g.addProbe k probe
  | .count k v => g.setCount k v
  | .counts cs => g.setCounts cs
  | .rate k v => g.setRate k v
  | .sample k v => g.addSample k v
  | .samples l => g.addSamples l

omit [Scalar R] in
theorem setCounts_eq (g : Registry R P) (cs : List (MetricKey × R)) :
    g.setCounts cs = { g with counts := g.counts.insertAll cs } := by
  unfold setCounts
  induction cs generalizing g with
  | nil => rfl
  | cons c cs ih => exact ih (g.setCount c.1 c.2)

theorem addSample_eq (g : Registry R P) (k : MetricKey) (v : R) :
    g.addSample k v = { g with dists := g.dists.add k (.ofSample v) } := by
  unfold addSample Table.add
  congr 2
  funext old
  cases old <;> rfl

theorem foldl_addSample_eq (g : Registry R P) (k : MetricKey) (vs : List R) :
    vs.foldl (fun g v => g.addSample k v) g =
      { g with dists := g.dists.addAll (singletons (vs.map fun v => (k, v))) } := by
  induction vs generalizing g with
  | nil => rfl
  | cons v vs ih =>
    rw [List.foldl_cons, ih, addSample_eq]
    rfl

theorem addSamples_eq (g : Registry R P) (l : List (MetricKey × List R)) :
    g.addSamples l =
      { g with dists := g.dists.addAll (singletons (l.flatMap fun e => e.2.map fun v => (e.1, v))) } := by
  unfold addSamples
  induction l generalizing g with
  | nil => rfl
  | cons e l ih =>
    rw [List.foldl_cons, ih, foldl_addSample_eq, List.flatMap_cons, singletons_append, Table.addAll_append]

/-- **A call puts what it names into the tables**, and does nothing else. -/
theorem record_eq (g : Registry R P) (r : Recording R P) : g.record r =
    { probes := g.probes.insertAll r.probed
      counts := g.counts.insertAll r.counted
      rates := r.rated.foldl (fun t e => t.alter e.1 fun old => some (Rate.moved e.2 old)) g.rates
      dists := g.dists.addAll (singletons r.sampled) } := by
  cases r with
  | probe k probe => rfl
  | count k v => rfl
  | counts cs => exact setCounts_eq g cs
  | rate k v => rfl
  | sample k v => exact addSample_eq g k v
  | samples l => exact addSamples_eq g l

/-- a growing number that moves keeps where it stood at the last report -/
theorem get?_foldl_moved (l : List (MetricKey × R)) (t : Table MetricKey (Rate R)) (k : MetricKey) :
    (l.foldl (fun t e => t.alter e.1 fun old => some (Rate.moved e.2 old)) t).get? k =
      ((Table.under k l).getLast?.map fun v => Rate.moved v (t.get? k)).or (t.get? k) := by
  induction l generalizing t with
  | nil => rfl
  | cons e l ih =>
    rw [List.foldl_cons, ih, Table.under_cons]
    by_cases hk : e.1 = k
    · subst hk
      rw [Table.get?_alter_self, if_pos rfl, List.getLast?_cons]
      cases (Table.under e.1 l).getLast? <;> rfl
    · rw [Table.get?_alter_of_ne t (Ne.symm hk), if_neg hk]

theorem dists_record (g : Registry R P) (r : Recording R P) :
    (g.record r).dists = g.dists.addAll (singletons r.sampled) := by
  rw [record_eq]

/-- **A report carries all that was kept**, and nothing in it is rejected, if what was kept can be distributions. -/
theorem keyedDists_report (g : Registry R P) (read : P → R) (time : SurveyTime)
    (hg : ∀ e ∈ g.dists.toList, e.2.isAdmissible = true) :
    (g.report read time).1.keyedDists = g.dists.toList ∧ (g.report read time).1.refused = 0 := by
  have hdists : (g.report read time).1.dists = g.dists.toList.map fun e => ⟨e.1.text, e.2⟩ := rfl
  constructor
  · have hkeep : ∀ e ∈ g.dists.toList,
        (e.2.accepted?.map fun d => ((⟨e.1.text⟩ : MetricKey), d)) = some e := by
      intro e he
      rw [Distribution.accepted?_eq_some (hg e he)]
      rfl
    show ([] : List (MetricKey × Distribution R)) ++ _ = _
    rw [List.nil_append, hdists, List.filterMap_map]
    exact (List.filterMap_congr hkeep).trans List.filterMap_some
  · rw [Report.refused, hdists, List.countP_map, List.countP_eq_zero]
    intro e he
    simp [Distribution.accepted?_eq_some (hg e he)]

end Registry

end MetricSurvey

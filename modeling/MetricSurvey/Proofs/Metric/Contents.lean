/-
Contents: which keys a snapshot holds.

A key is among the counters when a count was added under it, and among the distributions when a sample was, or a
distribution that was taken. Nothing that is added later takes a key away, and a distribution that is rejected brings none.

- `contains_addCount`, `contains_addValue`, `contains_addDist`: what one entry adds.
- `contains_merge`: what a report adds (`Report.CountsTo`, `Report.SamplesTo`).
- `contains_ofReports`: the keys of a snapshot that was made of reports.
-/
import MetricSurvey.Proofs.Runs
import MetricSurvey.Proofs.Table
import MetricSurvey.Proofs.Survey.Snapshots

namespace MetricSurvey

variable {R : Type}

namespace Report

/-- whether some count of a report is for this key -/
def CountsTo (r : Report R) (k : MetricKey) : Prop := ∃ c ∈ r.counts, c.name = k.text

/-- whether some sample of a report, or some distribution that is taken, is for this key -/
def SamplesTo [Scalar R] (r : Report R) (k : MetricKey) : Prop :=
  (∃ v ∈ r.values, v.name = k.text) ∨ ∃ d ∈ r.dists, d.name = k.text ∧ d.value.accepted?.isSome = true

end Report

theorem MetricKey.eq_mk_iff {k : MetricKey} {name : String} : k = ⟨name⟩ ↔ name = k.text := by
  cases k
  rw [MetricKey.mk.injEq, eq_comm]

namespace Snapshot

variable [Scalar R]

/-! ## Single entries -/

theorem contains_addCount (s : Snapshot R) (c : Named R) (k : MetricKey) :
    ((s.addCount c).counters.contains k = true ↔ c.name = k.text ∨ s.counters.contains k = true) ∧
      (s.addCount c).dists = s.dists := by
  refine ⟨?_, rfl⟩
  rw [← MetricKey.eq_mk_iff]
  exact Table.contains_alter s.counters ⟨c.name⟩ k fun _ => rfl

theorem contains_addValue (s : Snapshot R) (v : Named R) (k : MetricKey) :
    (s.addValue v).counters = s.counters ∧
      ((s.addValue v).dists.contains k = true ↔ v.name = k.text ∨ s.dists.contains k = true) := by
  refine ⟨rfl, ?_⟩
  rw [← MetricKey.eq_mk_iff]
  refine Table.contains_alter s.dists ⟨v.name⟩ k ?_
  intro old
  cases old <;> rfl

/-- a distribution that is rejected brings no key -/
theorem contains_addDist (s : Snapshot R) (d : Named (Distribution R)) (k : MetricKey) :
    (s.addDist d).1.counters = s.counters ∧ ((s.addDist d).1.dists.contains k = true ↔
      (d.name = k.text ∧ d.value.accepted?.isSome = true) ∨ s.dists.contains k = true) := by
  unfold addDist
  cases d.value.accepted? with
  | none => simp
  | some e =>
    refine ⟨rfl, ?_⟩
    rw [Option.isSome_some, and_iff_left rfl, ← MetricKey.eq_mk_iff]
    refine Table.contains_alter s.dists ⟨d.name⟩ k ?_
    intro old
    cases old <;> rfl

/-! ## Reports -/

/-- adding distributions one after another, without counting those rejected -/
theorem addDists_eq_foldl (s : Snapshot R) (ds : List (Named (Distribution R))) :
    (s.addDists ds).1 = ds.foldl (fun s d => (s.addDist d).1) s := by
  induction ds generalizing s with
  | nil => rfl
  | cons d ds ih => rw [addDists_cons, ih, List.foldl_cons]

/-- **What a report adds**: its counts to the counters, its samples and what is taken of its distributions to those. -/
theorem contains_merge (s : Snapshot R) (r : Report R) (k : MetricKey) :
    ((s.merge r).1.counters.contains k = true ↔ r.CountsTo k ∨ s.counters.contains k = true) ∧
      ((s.merge r).1.dists.contains k = true ↔ r.SamplesTo k ∨ s.dists.contains k = true) := by
  rw [merge, addDists_eq_foldl]
  constructor
  · have hcounts := foldl_iff (p := fun s : Snapshot R => s.counters.contains k = true) (q := fun c => c.name = k.text)
      fun s c => (contains_addCount s c k).1
    rw [foldl_unchanged (g := counters) fun s d => (contains_addDist s d k).1, hcounts,
      foldl_unchanged (g := counters) fun s v => (contains_addValue s v k).1]
    rfl
  · have hvalues := foldl_iff (p := fun s : Snapshot R => s.dists.contains k = true) (q := fun v => v.name = k.text)
      fun s v => (contains_addValue s v k).2
    have hdists := foldl_iff (p := fun s : Snapshot R => s.dists.contains k = true)
      (q := fun d => d.name = k.text ∧ d.value.accepted?.isSome = true) fun s d => (contains_addDist s d k).2
    rw [hdists, foldl_unchanged (g := dists) fun s c => (contains_addCount s c k).2, hvalues, ← or_assoc,
      or_comm (a := ∃ d ∈ r.dists, _)]
    rfl

/-- **The keys of a snapshot** are those that its reports count or sample. -/
theorem contains_ofReports (time : SurveyTime) (rs : List (Report R)) (k : MetricKey) :
    ((ofReports time rs).counters.contains k = true ↔ ∃ r ∈ rs, r.CountsTo k) ∧
      ((ofReports time rs).dists.contains k = true ↔ ∃ r ∈ rs, r.SamplesTo k) := by
  have hcounters := foldl_iff (p := fun s : Snapshot R => s.counters.contains k = true) (q := fun r => r.CountsTo k)
    fun s r => (contains_merge s r k).1
  have hdists := foldl_iff (p := fun s : Snapshot R => s.dists.contains k = true) (q := fun r => r.SamplesTo k)
    fun s r => (contains_merge s r k).2
  unfold ofReports
  rw [hcounters, hdists]
  exact ⟨or_iff_left Bool.false_ne_true, or_iff_left Bool.false_ne_true⟩

end Snapshot

end MetricSurvey

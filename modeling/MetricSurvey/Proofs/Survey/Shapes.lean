/-
Shapes: the table of shapes follows the snapshots that left.

Whatever an aggregator is asked, the table is told from the snapshots that have left so far and from nothing else. The last
of them that holds a key decides: a distribution hides a counter of the same name, in one snapshot and from one to the next.

- `Snapshot.shape?`: the shape of a key in one snapshot; `get?_noteShapes`: what a snapshot that leaves does to the table.
- `shapes_handle`, `shapes_handleAll`: all three ways out go by the same rule, so a run does what the snapshots that leave
  do one after another.
- `get?_shapes_handleAll`: what the table answers after a run.
- `shapes_follow_emissions`: the table, the snapshots that left, and the reports that they were made of.
-/
import MetricSurvey.Proofs.Metric.Contents
import MetricSurvey.Proofs.Survey.Windows

namespace MetricSurvey

variable {R : Type}

/-! ## One snapshot -/

namespace Snapshot

/-- whether a snapshot holds a key -/
def Holds (s : Snapshot R) (k : MetricKey) : Prop := s.counters.contains k = true ∨ s.dists.contains k = true

instance (s : Snapshot R) (k : MetricKey) : Decidable (s.Holds k) :=
  inferInstanceAs (Decidable (s.counters.contains k = true ∨ s.dists.contains k = true))

/-- the shape of a key that a snapshot holds -/
def shapeOf (s : Snapshot R) (k : MetricKey) : Shape := if s.dists.contains k then .distribution else .counter

/-- the shape of a key in a snapshot, if it holds the key -/
def shape? (s : Snapshot R) (k : MetricKey) : Option Shape :=
  if s.dists.contains k then some .distribution else if s.counters.contains k then some .counter else none

theorem shape?_of_holds {s : Snapshot R} {k : MetricKey} (h : s.Holds k) : s.shape? k = some (s.shapeOf k) := by
  unfold shape? shapeOf
  rcases h with hc | hd
  · rw [if_pos hc]
    split_ifs <;> rfl
  · rw [if_pos hd, if_pos hd]

theorem shape?_of_not_holds {s : Snapshot R} {k : MetricKey} (h : ¬ s.Holds k) : s.shape? k = none := by
  unfold Holds at h
  rw [not_or] at h
  rw [shape?, if_neg h.2, if_neg h.1]

theorem isSome_shape? (s : Snapshot R) (k : MetricKey) : (s.shape? k).isSome = true ↔ s.Holds k := by
  by_cases h : s.Holds k
  · simp [shape?_of_holds h, h]
  · simp [shape?_of_not_holds h, h]

end Snapshot

namespace Aggregator

/-- **What a snapshot that leaves does to the table**: its keys get the shapes that they have in it, the others keep
theirs. -/
theorem get?_noteShapes (t : Table MetricKey Shape) (s : Snapshot R) (k : MetricKey) :
    (noteShapes t s).get? k = (s.shape? k).or (t.get? k) := by
  have hdist : s.dists.contains k = true ↔ k ∈ s.dists.keys := Table.contains_iff
  have hcounter : s.counters.contains k = true ↔ k ∈ s.counters.keys := Table.contains_iff
  unfold noteShapes Snapshot.shape?
  rw [Table.get?_foldl_insert, Table.get?_foldl_insert]
  simp only [hdist, hcounter]
  split_ifs <;> rfl

variable [Scalar R]

/-! ## Runs -/

/-- **Whatever is asked, the table learns from what leaves** and from nothing else. -/
theorem shapes_handle (a : Aggregator R) (i : AggregatorInput R) :
    (a.handle i).1.shapes = (a.handle i).2.toList.foldl noteShapes a.shapes := by
  have hfilled : ∀ (b : Aggregator R) (current : Option (Snapshot R)),
      (b.emitFilled current).1.shapes = (b.emitFilled current).2.toList.foldl noteShapes b.shapes := by
    intro b current
    cases current with
    | none => rfl
    | some s => cases he : s.empty <;> simp [emitFilled, emit, he]
  cases i with
  | flush => exact hfilled { a with current := none } a.current
  | event e =>
    cases e with
    | opened time =>
      by_cases h : a.openTime = some time
      · rw [handle_opened_of_open h]
        rfl
      · simp only [handle, step, if_neg h]
        exact hfilled { a with current := some (.new time) } a.current
    | fragment r =>
      by_cases h : a.openTime = some r.time
      · obtain ⟨s, hcur, ht⟩ := Option.map_eq_some_iff.1 h
        rw [handle_fragment_of_open hcur ht]
        rfl
      · rw [handle_late h]
        rfl
    | completed time =>
      by_cases h : a.openTime = some time
      · obtain ⟨s, hcur, ht⟩ := Option.map_eq_some_iff.1 h
        simp only [handle, step, hcur, if_pos ht]
        rfl
      · rw [handle_completed_of_ne h]
        rfl

theorem shapes_handleAll (a : Aggregator R) (log : List (AggregatorInput R)) :
    (handleAll a log).1.shapes = (handleAll a log).2.foldl noteShapes a.shapes := by
  induction log generalizing a with
  | nil => rfl
  | cons i log ih =>
    rw [handleAll_cons]
    dsimp only
    rw [ih, shapes_handle, List.foldl_append]

omit [Scalar R] in
theorem get?_foldl_noteShapes (left : List (Snapshot R)) (t : Table MetricKey Shape) (k : MetricKey) :
    (left.foldl noteShapes t).get? k = (left.filterMap fun s => s.shape? k).getLast?.or (t.get? k) := by
  induction left generalizing t with
  | nil => rfl
  | cons s left ih =>
    rw [List.foldl_cons, ih, get?_noteShapes, List.filterMap_cons]
    cases s.shape? k with
    | none => rfl
    | some shape =>
      rw [List.getLast?_cons]
      cases (left.filterMap fun s => s.shape? k).getLast? <;> rfl

/-- **What the table answers** is the shape in the last snapshot that left and holds the key. -/
theorem get?_shapes_handleAll (log : List (AggregatorInput R)) (k : MetricKey) :
    (handleAll (new : Aggregator R) log).1.shapes.get? k =
      ((handleAll (new : Aggregator R) log).2.filterMap fun s => s.shape? k).getLast? := by
  rw [shapes_handleAll, get?_foldl_noteShapes]
  exact Option.or_none

/-! ## What the snapshots are made of -/

/-- what leaves is what leaves of the windows -/
theorem left_eq_windows (log : List (AggregatorInput R)) :
    (handleAll (new : Aggregator R) log).2 = (windows log).filterMap Window.leaving := by
  have hnothing : (handleAll (new : Aggregator R) []).1.due log = none := by
    unfold due
    cases log.head? <;> rfl
  have hleft := (cut_windows log).outcome.1
  rw [hnothing] at hleft
  exact hleft

omit [Scalar R] in
/-- what leaves of a snapshot is that snapshot -/
theorem eq_of_emission {i : AggregatorInput R} {s t : Snapshot R} (h : Window.emission i s = some t) : t = s := by
  unfold Window.emission at h
  split at h
  · exact (Option.some.inj h).symm
  · split at h
    · cases h
    · exact (Option.some.inj h).symm

/-- what leaves of a window was made of the reports that it merged -/
theorem eq_content_of_leaving {w : Window R} {s : Snapshot R} (h : w.leaving = some s) : s = .ofReports w.time w.merged := by
  obtain ⟨i, -, hi⟩ := Option.bind_eq_some_iff.1 h
  exact eq_of_emission hi

/-- **The shapes follow the snapshots that left.** Whatever a new aggregator is asked, flushes among it:
- the table has an entry for a key if and only if a snapshot that has left holds the key;
- the last of them that holds it decides: the entry is a distribution if the key is among its distributions, also if it is
  among its counters, and else a counter;
- while nothing leaves nothing changes in the table, so reports never show in it by themselves, be they late or in time, and
  neither does a snapshot that is open or is dropped;
- what leaves is what leaves of the windows, and a key is in it if a report that was merged there counts or samples it; a
  distribution that is rejected is none of its samples. -/
theorem shapes_follow_emissions (log : List (AggregatorInput R)) :
    let a : Aggregator R := (handleAll new log).1
    let left : List (Snapshot R) := (handleAll new log).2
    (∀ k, a.shapes.contains k = true ↔ ∃ s ∈ left, s.Holds k) ∧
    (∀ k earlier s later, left = earlier ++ s :: later → s.Holds k → (∀ t ∈ later, ¬ t.Holds k) →
      a.shapes.get? k = some (if s.dists.contains k then .distribution else .counter)) ∧
    (∀ i, (a.handle i).2 = none → (a.handle i).1.shapes = a.shapes) ∧
    left = (windows log).filterMap Window.leaving ∧
    ∀ w ∈ windows log, ∀ s ∈ w.leaving, ∀ k,
      (s.counters.contains k = true ↔ ∃ r ∈ w.merged, r.CountsTo k) ∧
      (s.dists.contains k = true ↔ ∃ r ∈ w.merged, r.SamplesTo k) := by
  intro a left
  refine ⟨?_, ?_, ?_, left_eq_windows log, ?_⟩
  · intro k
    rw [Table.contains, get?_shapes_handleAll, List.getLast?_isSome, ← List.length_pos_iff,
      List.length_pos_iff_exists_mem]
    constructor
    · rintro ⟨shape, hshape⟩
      obtain ⟨s, hs, hsk⟩ := List.mem_filterMap.1 hshape
      exact ⟨s, hs, (s.isSome_shape? k).1 (Option.isSome_iff_exists.2 ⟨shape, hsk⟩)⟩
    · rintro ⟨s, hs, hk⟩
      exact ⟨s.shapeOf k, List.mem_filterMap.2 ⟨s, hs, Snapshot.shape?_of_holds hk⟩⟩
  · intro k earlier s later hleft hk hlater
    have hnone : later.filterMap (fun t => t.shape? k) = [] := by
      rw [List.filterMap_eq_nil_iff]
      exact fun t ht => Snapshot.shape?_of_not_holds (hlater t ht)
    have hlast : (left.filterMap fun t => t.shape? k) = earlier.filterMap (fun t => t.shape? k) ++ [s.shapeOf k] := by
      rw [hleft, List.filterMap_append, List.filterMap_cons, Snapshot.shape?_of_holds hk, hnone]
    rw [get?_shapes_handleAll, hlast, List.getLast?_concat]
    rfl
  · intro i hi
    rw [shapes_handle, hi]
    rfl
  · intro w _ s hs k
    rw [eq_content_of_leaving hs]
    exact Snapshot.contains_ofReports w.time w.merged k

/-- The first snapshot is completed, with a counter, a distribution, and one that is rejected. The second is forced out by
the next time: the counter is both now, and the distribution a counter; a report for the first comes late. The third is
flushed, the fourth is dropped, and the fifth is still open. -/
theorem shapes_follow_emissions_changing :
    let refused : Report Binary64 := { time := 1000, dists := [⟨"bad", ⟨0, 0, 0, 0, 0⟩⟩] }
    let first : List (Report Binary64) := [.ofCount 1000 "a" 1, .ofValue 1000 "b" 1, refused]
    let second : List (Report Binary64) := [.ofCount 1010 "a" 1, .ofValue 1010 "a" 1, .ofCount 1010 "b" 1]
    let third : List (Report Binary64) := [.ofCount 1020 "c" 1]
    let told (rs : List (Report Binary64)) : List (AggregatorInput Binary64) := rs.map fun r => .event (.fragment r)
    let log : List (AggregatorInput Binary64) :=
      .event (.opened 1000) :: told first ++ .event (.completed 1000) :: .event (.opened 1010) ::
        told [.ofCount 1000 "late" 1] ++ told second ++ .event (.opened 1020) :: told third ++ .flush ::
        .event (.opened 1030) :: .flush :: .event (.opened 1040) :: told [.ofCount 1040 "open" 1]
    let shapes := (handleAll new log).1.shapes
    (handleAll new log).2 = [.ofReports 1000 first, .ofReports 1010 second, .ofReports 1020 third] ∧
      shapes.get? ⟨"a"⟩ = some .distribution ∧ shapes.get? ⟨"b"⟩ = some .counter ∧ shapes.get? ⟨"c"⟩ = some .counter ∧
      ∀ name ∈ ["bad", "late", "open"], shapes.contains ⟨name⟩ ≠ true := by
  intro refused first second third told log shapes
  have hleft : (handleAll new log).2 = [.ofReports 1000 first, .ofReports 1010 second, .ofReports 1020 third] := by
    decide +kernel
  obtain ⟨hentry, hlast, -⟩ := shapes_follow_emissions log
  refine ⟨hleft, ?_, ?_, ?_, ?_⟩
  · exact (hlast ⟨"a"⟩ [.ofReports 1000 first] (.ofReports 1010 second) [.ofReports 1020 third] hleft (by decide +kernel)
      (by decide +kernel)).trans (by decide +kernel)
  · exact (hlast ⟨"b"⟩ [.ofReports 1000 first] (.ofReports 1010 second) [.ofReports 1020 third] hleft (by decide +kernel)
      (by decide +kernel)).trans (by decide +kernel)
  · exact (hlast ⟨"c"⟩ [.ofReports 1000 first, .ofReports 1010 second] (.ofReports 1020 third) [] hleft
      (by decide +kernel) (by decide +kernel)).trans (by decide +kernel)
  · intro name hname
    rw [ne_eq, hentry, hleft]
    revert name
    decide +kernel

end Aggregator

end MetricSurvey

/-
Snapshots that anything was called on: counts, samples, distributions and whole reports, in any order.

What a call adds to is told from the call alone (`CountsTo`, `SamplesTo`). The mark that a snapshot is empty is kept by hand
beside its tables; it is dropped by just those calls that add to a table, so it always says what the tables say.

- `merge_eq_foldl`: merging a report is making a call for each of its entries, without the distributions that are rejected.
- `empty_call`, `contains_call`: one call, seen from the mark and from the keys.
- `dists_foldl_call`: the distributions after any calls.
- `well_formed_after_calls`: the mark, the keys, rejections and stored distributions, after any calls on a new snapshot.
-/
import MetricSurvey.Proofs.Metric.Contents
import MetricSurvey.Proofs.Metric.Merging

namespace MetricSurvey

variable {R : Type}

/-- what is called on a snapshot -/
inductive SnapshotCall (R : Type)
  | count (c : Named R)
  | value (v : Named R)
  | dist (d : Named (Distribution R))
  | merge (r : Report R)

namespace SnapshotCall

/-- whether a call adds to the counter under this key -/
def CountsTo : SnapshotCall R → MetricKey → Prop
  | count c, k => c.name = k.text
  | merge r, k => r.CountsTo k
  | _, _ => False

/-- the samples that a call adds -/
def samples : SnapshotCall R → List R
  | value v => [v.value]
  | merge r => r.values.map Named.value
  | _ => []

variable [Scalar R]

/-- whether a call adds to the distribution under this key: a sample, or a distribution that is taken -/
def SamplesTo : SnapshotCall R → MetricKey → Prop
  | value v, k => v.name = k.text
  | dist d, k => d.name = k.text ∧ d.value.accepted?.isSome = true
  | merge r, k => r.SamplesTo k
  | _, _ => False

/-- the samples of a call and the distributions that are taken, each under its key -/
def keyedDists : SnapshotCall R → List (MetricKey × Distribution R)
  | value v => [(⟨v.name⟩, .ofSample v.value)]
  | dist d => (d.value.accepted?.map fun e => (⟨d.name⟩, e)).toList
  | merge r => r.keyedDists
  | count _ => []

end SnapshotCall

namespace Report

variable [Scalar R]

/-- one call for each entry of a report, in the order in which they are merged, without the distributions that are rejected -/
def taken (r : Report R) : List (SnapshotCall R) :=
  r.values.map .value ++ r.counts.map .count ++ (r.dists.filter fun d => d.value.accepted?.isSome).map .dist

/-- a report carries something if it adds under some key -/
theorem carriesData_iff (r : Report R) : r.carriesData = true ↔ ∃ k, r.CountsTo k ∨ r.SamplesTo k := by
  simp only [carriesData, Bool.or_eq_true, Bool.not_eq_true', List.isEmpty_eq_false_iff_exists_mem, List.any_eq_true]
  constructor
  · rintro ((⟨v, hv⟩ | ⟨c, hc⟩) | ⟨d, hd, htaken⟩)
    · exact ⟨⟨v.name⟩, .inr (.inl ⟨v, hv, rfl⟩)⟩
    · exact ⟨⟨c.name⟩, .inl ⟨c, hc, rfl⟩⟩
    · exact ⟨⟨d.name⟩, .inr (.inr ⟨d, hd, rfl, htaken⟩)⟩
  · rintro ⟨k, ⟨c, hc, -⟩ | ⟨v, hv, -⟩ | ⟨d, hd, -, htaken⟩⟩
    · exact .inl (.inr ⟨c, hc⟩)
    · exact .inl (.inl ⟨v, hv⟩)
    · exact .inr ⟨d, hd, htaken⟩

end Report

namespace Snapshot

section

variable [Scalar R]

/-- the snapshot after a call -/
def call (s : Snapshot R) : SnapshotCall R → Snapshot R
  | .count c => s.addCount c
  | .value v => s.addValue v
  | .dist d => (s.addDist d).1
  | .merge r => (s.merge r).1

/-! ## Rejections -/

theorem addDist_snd (s : Snapshot R) (d : Named (Distribution R)) : (s.addDist d).2 = d.value.accepted?.isSome := by
  unfold addDist
  cases d.value.accepted? <;> rfl

/-- a distribution that is rejected leaves the snapshot as it was -/
theorem addDist_of_rejected {s : Snapshot R} {d : Named (Distribution R)} (h : (s.addDist d).2 = false) :
    (s.addDist d).1 = s := by
  unfold addDist at h ⊢
  cases hd : d.value.accepted? with
  | none => rfl
  | some e =>
    rw [hd] at h
    cases h

/-- **Merging a report is making a call for each of its entries**, without the distributions that are rejected. -/
theorem merge_eq_foldl (s : Snapshot R) (r : Report R) : s.merge r = (r.taken.foldl call s, r.refused) := by
  have hskip : (fun (s : Snapshot R) d => (s.addDist d).1) =
      fun s d => if d.value.accepted?.isSome = true then (s.addDist d).1 else s := by
    funext s d
    split_ifs with h
    · rfl
    · rw [← addDist_snd s d, Bool.not_eq_true] at h
      exact addDist_of_rejected h
  have hfst : (s.merge r).1 = r.taken.foldl call s := by
    rw [merge, addDists_eq_foldl, hskip, Report.taken, List.foldl_append, List.foldl_append, List.foldl_map,
      List.foldl_map, List.foldl_map, List.foldl_filter]
    rfl
  exact Prod.ext hfst (addDists_snd _ _)

/-! ## Calls -/

/-- a call drops the mark just when it adds under some key -/
theorem empty_call (s : Snapshot R) (c : SnapshotCall R) :
    (s.call c).empty = false ↔ (∃ k, c.CountsTo k ∨ c.SamplesTo k) ∨ s.empty = false := by
  cases c with
  | count c => exact iff_of_true rfl (.inl ⟨⟨c.name⟩, .inl rfl⟩)
  | value v => exact iff_of_true rfl (.inl ⟨⟨v.name⟩, .inr rfl⟩)
  | dist d =>
    have hmark : (s.call (.dist d)).empty = (s.empty && d.value.accepted?.isNone) := (addDist_fst s d).2
    have hkey : (∃ k, (SnapshotCall.dist d).CountsTo k ∨ (SnapshotCall.dist d).SamplesTo k) ↔
        d.value.accepted?.isSome = true := by
      constructor
      · rintro ⟨k, hcount | ⟨-, htaken⟩⟩
        · exact hcount.elim
        · exact htaken
      · intro htaken
        exact ⟨⟨d.name⟩, .inr ⟨rfl, htaken⟩⟩
    rw [hmark, hkey]
    cases d.value.accepted? <;> simp
  | merge r =>
    have hmark : (s.call (.merge r)).empty = (s.empty && !r.carriesData) := empty_merge s r
    have hkey := r.carriesData_iff
    rw [hmark, Bool.and_eq_false_iff, Bool.not_eq_false', hkey, or_comm]
    rfl

/-- **What a call adds to**, and nothing else has a key. -/
theorem contains_call (s : Snapshot R) (c : SnapshotCall R) (k : MetricKey) :
    ((s.call c).counters.contains k = true ↔ c.CountsTo k ∨ s.counters.contains k = true) ∧
      ((s.call c).dists.contains k = true ↔ c.SamplesTo k ∨ s.dists.contains k = true) := by
  cases c with
  | count c => exact ⟨(contains_addCount s c k).1, (or_iff_right id).symm⟩
  | value v => exact ⟨(or_iff_right id).symm, (contains_addValue s v k).2⟩
  | dist d =>
    have hcounters : (s.call (.dist d)).counters = s.counters := (contains_addDist s d k).1
    rw [hcounters]
    exact ⟨(or_iff_right id).symm, (contains_addDist s d k).2⟩
  | merge r => exact contains_merge s r k

/-- the keys after any calls on a new snapshot -/
theorem contains_foldl_call (time : SurveyTime) (cs : List (SnapshotCall R)) (k : MetricKey) :
    ((cs.foldl call (new time)).counters.contains k = true ↔ ∃ c ∈ cs, c.CountsTo k) ∧
      ((cs.foldl call (new time)).dists.contains k = true ↔ ∃ c ∈ cs, c.SamplesTo k) := by
  have hcounters := foldl_iff (p := fun s : Snapshot R => s.counters.contains k = true) (q := fun c => c.CountsTo k)
    fun s c => (contains_call s c k).1
  have hdists := foldl_iff (p := fun s : Snapshot R => s.dists.contains k = true) (q := fun c => c.SamplesTo k)
    fun s c => (contains_call s c k).2
  rw [hcounters, hdists]
  exact ⟨or_iff_left Bool.false_ne_true, or_iff_left Bool.false_ne_true⟩

/-- the mark after any calls on a new snapshot -/
theorem empty_foldl_call (time : SurveyTime) (cs : List (SnapshotCall R)) :
    (cs.foldl call (new time)).empty = false ↔ ∃ c ∈ cs, ∃ k, c.CountsTo k ∨ c.SamplesTo k := by
  have hmark := foldl_iff (p := fun s : Snapshot R => s.empty = false)
    (q := fun c : SnapshotCall R => ∃ k, c.CountsTo k ∨ c.SamplesTo k) empty_call
  rw [hmark]
  exact or_iff_left Bool.noConfusion

end

/-! ## Exact distributions -/

theorem dists_call (s : Snapshot Exact) (c : SnapshotCall Exact) : (s.call c).dists = s.dists.addAll c.keyedDists := by
  cases c with
  | count c => rfl
  | value v => exact congrArg dists (addValue_eq s v)
  | dist d =>
    show (s.addDist d).1.dists = s.dists.addAll (d.value.accepted?.map fun e => (⟨d.name⟩, e)).toList
    rw [addDist_eq]
    cases d.value.accepted? <;> rfl
  | merge r => exact congrArg (fun m => m.1.dists) (merge_eq s r)

/-- **The distributions after any calls** are those that the calls add, under each key. -/
theorem dists_foldl_call (cs : List (SnapshotCall Exact)) (s : Snapshot Exact) :
    (cs.foldl call s).dists = s.dists.addAll (cs.flatMap SnapshotCall.keyedDists) := by
  induction cs generalizing s with
  | nil => rfl
  | cons c cs ih => rw [List.foldl_cons, ih, dists_call, List.flatMap_cons, Table.addAll_append]

end Snapshot

/-- what a call with finite samples adds can be a distribution -/
theorem SnapshotCall.isAdmissible_keyedDists {c : SnapshotCall Exact} (h : ∀ v ∈ c.samples, Scalar.isFinite v = true) :
    ∀ e ∈ c.keyedDists, e.2.isAdmissible = true := by
  cases c with
  | count c =>
    intro e he
    cases he
  | value v =>
    intro e he
    cases List.mem_singleton.1 he
    exact Distribution.isAdmissible_ofSample (h v.value List.mem_cons_self)
  | dist d =>
    intro e he
    obtain ⟨x, hx, rfl⟩ := Option.map_eq_some_iff.1 (Option.mem_toList.1 he)
    exact Distribution.isAdmissible_of_accepted? hx
  | merge r =>
    intro e he
    rcases List.mem_append.1 he with he | he
    · obtain ⟨v, hv, rfl⟩ := List.mem_map.1 he
      exact Distribution.isAdmissible_ofSample (h v.value (List.mem_map_of_mem hv))
    · obtain ⟨d, -, hd⟩ := List.mem_filterMap.1 he
      obtain ⟨x, hx, rfl⟩ := Option.map_eq_some_iff.1 hd
      exact Distribution.isAdmissible_of_accepted? hx

namespace Snapshot

/-! ## The law -/

/-- **Snapshots are well-formed.** After any calls on a new snapshot,

- it is marked empty if and only if it has no counter and no distribution;
- there is a counter under just those names that were counted, and a distribution under just those that had a sample or a
  distribution that was taken;
- a distribution that cannot be one is rejected, and leaves the snapshot exactly as it was;
- merging a report is making the calls for its entries one after another, without the distributions that are rejected, and
  the answer is how many those are;
- with exact numbers, and as long as all samples are finite, every distribution has a positive weight and a least value not
  above the greatest. -/
theorem well_formed_after_calls :
    (∀ {R : Type} [Scalar R] (time : SurveyTime) (cs : List (SnapshotCall R)),
      let s := cs.foldl call (new time)
      (s.empty = true ↔ s.counters.isEmpty = true ∧ s.dists.isEmpty = true) ∧
      (∀ k, (k ∈ s.counters.keys ↔ ∃ c ∈ cs, c.CountsTo k) ∧ (k ∈ s.dists.keys ↔ ∃ c ∈ cs, c.SamplesTo k)) ∧
      (∀ d, (s.addDist d).2 = d.value.isAdmissible ∧ ((s.addDist d).2 = false → (s.addDist d).1 = s)) ∧
      ∀ r, s.merge r = (r.taken.foldl call s, r.refused)) ∧
    ∀ (time : SurveyTime) (cs : List (SnapshotCall Exact)),
      (∀ c ∈ cs, ∀ v ∈ c.samples, Scalar.isFinite v = true) →
      ∀ e ∈ (cs.foldl call (new time)).dists.toList, 0 < e.2.weight ∧ e.2.least ≤ e.2.greatest := by
  constructor
  · intro R _ time cs s
    have hcounters : ∀ k, s.counters.contains k = true ↔ ∃ c ∈ cs, c.CountsTo k :=
      fun k => (contains_foldl_call time cs k).1
    have hdists : ∀ k, s.dists.contains k = true ↔ ∃ c ∈ cs, c.SamplesTo k :=
      fun k => (contains_foldl_call time cs k).2
    refine ⟨?_, ?_, ?_, merge_eq_foldl s⟩
    · rw [← not_iff_not, Bool.not_eq_true, not_and_or, Bool.not_eq_true, Bool.not_eq_true, empty_foldl_call,
        Table.isEmpty_eq_false_iff, Table.isEmpty_eq_false_iff, exists_congr hcounters, exists_congr hdists]
      constructor
      · rintro ⟨c, hc, k, hcount | hsample⟩
        · exact .inl ⟨k, c, hc, hcount⟩
        · exact .inr ⟨k, c, hc, hsample⟩
      · rintro (⟨k, c, hc, hcount⟩ | ⟨k, c, hc, hsample⟩)
        · exact ⟨c, hc, k, .inl hcount⟩
        · exact ⟨c, hc, k, .inr hsample⟩
    · intro k
      rw [← Table.contains_iff, ← Table.contains_iff]
      exact ⟨hcounters k, hdists k⟩
    · intro d
      rw [addDist_snd, Distribution.isSome_accepted?]
      exact ⟨rfl, fun h => addDist_of_rejected (by rw [addDist_snd, Distribution.isSome_accepted?, h])⟩
  · intro time cs hfinite e he
    rw [dists_foldl_call] at he
    have hadmissible : e.2.isAdmissible = true := by
      refine Table.forall_addAll (p := fun d => d.isAdmissible = true) Distribution.isAdmissible_add ?_ ?_ e he
      · intro x hx
        cases hx
      intro x hx
      obtain ⟨c, hc, hxc⟩ := List.mem_flatMap.1 hx
      exact SnapshotCall.isAdmissible_keyedDists (hfinite c hc) x hxc
    obtain ⟨weight, least, greatest, sum, sumSq, heq, hpos, hle⟩ := Distribution.isAdmissible_iff.1 hadmissible
    rw [heq, Exact.zero_def, Exact.finite_lt, Exact.finite_le]
    exact ⟨hpos, hle⟩

/-- a weight of zero, a report with an infinite greatest value in it, an infinite count, and a least value above the greatest -/
def troubledCalls : List (SnapshotCall Exact) :=
  [.dist ⟨"idle", ⟨.finite 0, .finite 0, .finite 0, .finite 0, .finite 0⟩⟩, .merge mixedReport,
    .count ⟨"load", .infinite false⟩, .dist ⟨"size", ⟨.finite 2, .finite 9, .finite 1, .finite 10, .finite 82⟩⟩,
    .value ⟨"rtt", .finite (-2)⟩]

theorem well_formed_after_calls_troubled :
    (∀ c ∈ troubledCalls, ∀ v ∈ c.samples, Scalar.isFinite v = true) ∧
      ((troubledCalls.take 1).foldl call (new 1000)).empty = true ∧
      (troubledCalls.foldl call (new 1000)).counters.keys = [⟨"load"⟩, ⟨"ok"⟩] ∧
      (troubledCalls.foldl call (new 1000)).dists.toList =
        [(⟨"rtt"⟩, ⟨.finite 5, .finite (-2), .finite 7, .finite 14, .finite 88⟩)] ∧
      ∀ e ∈ (troubledCalls.foldl call (new 1000)).dists.toList, 0 < e.2.weight ∧ e.2.least ≤ e.2.greatest := by
  have hfinite : ∀ c ∈ troubledCalls, ∀ v ∈ c.samples, Scalar.isFinite v = true := by decide +kernel
  refine ⟨hfinite, ?_, by decide +kernel, by decide +kernel, well_formed_after_calls.2 1000 troubledCalls hfinite⟩
  exact (well_formed_after_calls.1 1000 (troubledCalls.take 1)).1.2 ⟨by decide +kernel, by decide +kernel⟩

end Snapshot

end MetricSurvey

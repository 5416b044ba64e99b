/-
The algebra of distributions is the algebra of samples, with exact numbers.

A distribution is put together of single samples by adding samples and merging (`Built`), in any order and grouping. Behind
it stands the multiset of these samples.

- `dist_eq`: the five numbers are those of the multiset: how many samples, the least, the greatest, the sum and the sum of
  squares.
- `sum_squared_deviations`: the sum of squares about any point; about the mean, it is what the spread is made of.
- `algebra_of_samples`: so the order and the grouping do not matter, the mean lies between the extremes, and the spread is
  never negative, and zero just when all samples are equal.
-/
import Mathlib.Tactic
import MetricSurvey.Proofs.Metric.Distribution

namespace MetricSurvey

/-- a distribution put together of single samples -/
inductive Built
  | sample (v : ℚ)
  | add (d : Built) (v : ℚ)
  | merge (d e : Built)

namespace Built

/-- the distribution -/
def dist : Built → Distribution Exact
  | sample v => .ofSample (.finite v)
  | add d v => d.dist.addSample (.finite v)
  | merge d e => d.dist.merge e.dist

/-- the samples in it -/
def samples : Built → Multiset ℚ
  | sample v => {v}
  | add d v => v ::ₘ d.samples
  | merge d e => d.samples + e.samples

end Built

/-! ## Summaries -/

/-- the five numbers of a multiset -/
structure Summary (s : Multiset ℚ) (d : Distribution Exact) (least greatest : ℚ) : Prop where
  isLeast : IsLeast {x | x ∈ s} least
  isGreatest : IsGreatest {x | x ∈ s} greatest
  numbers : d = ⟨.finite (Multiset.card s), .finite least, .finite greatest, .finite s.sum,
    .finite (s.map fun x => x * x).sum⟩

namespace Summary

theorem sample (v : ℚ) : Summary {v} (.ofSample (.finite v)) v v where
  isLeast := by simp
  isGreatest := by simp
  numbers := by simp [Distribution.ofSample, Exact.one_def]

/-- **Merging adds the samples.** -/
theorem merge {s t : Multiset ℚ} {d e : Distribution Exact} {l l' g g' : ℚ} (hd : Summary s d l g)
    (he : Summary t e l' g') : Summary (s + t) (d.merge e) (min l l') (max g g') where
  isLeast := by
    have hunion : {x | x ∈ s + t} = {x | x ∈ s} ∪ {x | x ∈ t} := by
      ext x
      simp
    rw [hunion]
    exact hd.isLeast.union he.isLeast
  isGreatest := by
    have hunion : {x | x ∈ s + t} = {x | x ∈ s} ∪ {x | x ∈ t} := by
      ext x
      simp
    rw [hunion]
    exact hd.isGreatest.union he.isGreatest
  numbers := by
    rw [hd.numbers, he.numbers]
    simp [Distribution.merge]

variable {s : Multiset ℚ} {d e : Distribution Exact} {l l' g g' : ℚ}

/-- a multiset has one summary -/
theorem unique (hd : Summary s d l g) (he : Summary s e l' g') : d = e := by
  rw [hd.numbers, he.numbers, hd.isLeast.unique he.isLeast, hd.isGreatest.unique he.isGreatest]

theorem card_pos (h : Summary s d l g) : (0 : ℚ) < Multiset.card s := by
  rw [Nat.cast_pos]
  exact Multiset.card_pos_iff_exists_mem.2 ⟨l, h.isLeast.1⟩

theorem isAdmissible (h : Summary s d l g) : d.isAdmissible = true :=
  Distribution.isAdmissible_iff.2 ⟨_, _, _, _, _, h.numbers, h.card_pos, h.isLeast.2 h.isGreatest.1⟩

/-! ## The mean -/

theorem mean_eq (h : Summary s d l g) : d.mean = .finite (s.sum / Multiset.card s) := by
  rw [Distribution.mean, h.numbers]
  exact Exact.finite_div h.card_pos.ne' _

theorem least_le_mean (h : Summary s d l g) : l ≤ s.sum / Multiset.card s := by
  rw [le_div_iff₀ h.card_pos, mul_comm, ← nsmul_eq_mul]
  exact Multiset.card_nsmul_le_sum fun x hx => h.isLeast.2 hx

theorem mean_le_greatest (h : Summary s d l g) : s.sum / Multiset.card s ≤ g := by
  rw [div_le_iff₀ h.card_pos, mul_comm, ← nsmul_eq_mul]
  exact Multiset.sum_le_card_nsmul _ _ fun x hx => h.isGreatest.2 hx

end Summary

/-! ## The spread -/

/-- the squares about a point -/
theorem sum_squared_deviations (s : Multiset ℚ) (m : ℚ) :
    (s.map fun x => (x - m) * (x - m)).sum =
      (s.map fun x => x * x).sum - 2 * m * s.sum + Multiset.card s * (m * m) := by
  induction s using Multiset.induction_on with
  | empty => simp
  | cons x s ih =>
    simp only [Multiset.map_cons, Multiset.sum_cons, Multiset.card_cons, ih]
    push_cast
    ring

namespace Summary

variable {s : Multiset ℚ} {d : Distribution Exact} {l g : ℚ}

/-- **The spread is the mean of the squares about the mean.** -/
theorem spread_eq (h : Summary s d l g) : d.spread = .finite
    ((s.map fun x => (x - s.sum / Multiset.card s) * (x - s.sum / Multiset.card s)).sum / Multiset.card s) := by
  have hcard : (Multiset.card s : ℚ) ≠ 0 := h.card_pos.ne'
  have hsquares : (d.sumSq / d.weight : Exact) = .finite ((s.map fun x => x * x).sum / Multiset.card s) := by
    rw [h.numbers]
    exact Exact.finite_div hcard _
  rw [Distribution.spread, hsquares, h.mean_eq, Exact.finite_mul, Exact.finite_sub, sum_squared_deviations]
  congr 1
  field_simp
  ring

theorem squares_nonneg (s : Multiset ℚ) (m : ℚ) : ∀ x ∈ s.map fun x => (x - m) * (x - m), 0 ≤ x := by
  intro y hy
  obtain ⟨x, -, rfl⟩ := Multiset.mem_map.1 hy
  exact mul_self_nonneg (x - m)

theorem spread_nonneg (h : Summary s d l g) : (0 : Exact) ≤ d.spread := by
  rw [h.spread_eq, Exact.zero_def, Exact.finite_le]
  exact div_nonneg (Multiset.sum_nonneg (squares_nonneg s _)) h.card_pos.le

/-- **Without spread all samples are equal**, and only then. -/
theorem spread_eq_zero_iff (h : Summary s d l g) : d.spread = 0 ↔ ∀ x ∈ s, ∀ y ∈ s, x = y := by
  rw [h.spread_eq, Exact.zero_def, Exact.finite.injEq, div_eq_zero_iff, or_iff_left h.card_pos.ne']
  constructor
  · intro hzero x hx y hy
    have hall := Multiset.all_zero_of_le_zero_le_of_sum_eq_zero (squares_nonneg s _) hzero
    have hmean : ∀ z ∈ s, z = s.sum / Multiset.card s := fun z hz =>
      sub_eq_zero.1 (mul_self_eq_zero.1 (hall _ (Multiset.mem_map_of_mem _ hz)))
    rw [hmean x hx, hmean y hy]
  · intro hequal
    have hmean : s.sum / Multiset.card s = l := by
      have hsum : s = Multiset.replicate (Multiset.card s) l :=
        Multiset.eq_replicate.2 ⟨rfl, fun x hx => hequal x hx l h.isLeast.1⟩
      rw [hsum, Multiset.sum_replicate, Multiset.card_replicate, nsmul_eq_mul]
      exact mul_div_cancel_left₀ l h.card_pos.ne'
    refine Multiset.sum_eq_zero ?_
    intro y hy
    obtain ⟨x, hx, rfl⟩ := Multiset.mem_map.1 hy
    rw [hmean, hequal x hx l h.isLeast.1, sub_self, mul_zero]

/-- **The variance is the spread**: there is nothing to cut off. -/
theorem variance_eq (h : Summary s d l g) : d.variance = d.spread := by
  have hnonneg := h.spread_nonneg
  rw [Distribution.variance]
  rw [h.spread_eq, Exact.zero_def] at hnonneg ⊢
  rw [Exact.finite_le] at hnonneg
  split_ifs with hpos
  · rfl
  · rw [Exact.finite_lt, not_lt] at hpos
    rw [le_antisymm hpos hnonneg]

end Summary

/-! ## The law -/

namespace Built

/-- **The five numbers are those of the samples.** -/
theorem dist_eq (e : Built) : ∃ least greatest, Summary e.samples e.dist least greatest := by
  induction e with
  | sample v => exact ⟨v, v, .sample v⟩
  | add d v ih =>
    obtain ⟨l, g, h⟩ := ih
    have hadd := h.merge (.sample v)
    rw [add_comm, Multiset.singleton_add] at hadd
    exact ⟨_, _, hadd⟩
  | merge d e ihd ihe =>
    obtain ⟨l, g, hd⟩ := ihd
    obtain ⟨l', g', he⟩ := ihe
    exact ⟨_, _, hd.merge he⟩

end Built

/-- **The algebra of distributions is the algebra of samples.** Of a distribution put together of samples in any way:

- its numbers are how many samples there are, the least and the greatest, their sum and the sum of their squares;
- any other way to put the same samples together makes the same distribution;
- its five numbers are taken back as this distribution;
- the mean lies between the least and the greatest;
- the spread is not negative, it is zero just when all samples are equal, and so nothing of it is cut off. -/
theorem Built.algebra_of_samples (e : Built) :
    (∃ least greatest, IsLeast {x | x ∈ e.samples} least ∧ IsGreatest {x | x ∈ e.samples} greatest ∧
      e.dist = ⟨.finite (Multiset.card e.samples), .finite least, .finite greatest, .finite e.samples.sum,
        .finite (e.samples.map fun x => x * x).sum⟩) ∧
    (∀ e' : Built, e'.samples = e.samples → e'.dist = e.dist) ∧
    Distribution.ofParts? e.dist.parts = some e.dist ∧
    (e.dist.least ≤ e.dist.mean ∧ e.dist.mean ≤ e.dist.greatest) ∧
    (0 ≤ e.dist.spread ∧ (e.dist.spread = 0 ↔ ∀ x ∈ e.samples, ∀ y ∈ e.samples, x = y) ∧
      e.dist.variance = e.dist.spread) := by
  obtain ⟨l, g, h⟩ := e.dist_eq
  refine ⟨⟨l, g, h.isLeast, h.isGreatest, h.numbers⟩, ?_, ?_, ?_, h.spread_nonneg, h.spread_eq_zero_iff, h.variance_eq⟩
  · intro e' hsame
    obtain ⟨l', g', h'⟩ := e'.dist_eq
    rw [hsame] at h'
    exact h'.unique h
  · exact Distribution.accepted?_eq_some h.isAdmissible
  · rw [h.mean_eq, h.numbers, Exact.finite_le, Exact.finite_le]
    exact ⟨h.least_le_mean, h.mean_le_greatest⟩

/-- two groups, merged, against the same samples one by one -/
example : (Built.merge (.add (.sample 3) 1) (.sample 5)).dist = (Built.add (.add (.sample 5) 3) 1).dist := by
  decide +kernel

end MetricSurvey

/-
Distributions of exact samples.

- Distributions are added by merging them, and with exact numbers that is commutative and associative.
- `isAdmissible_iff`: five numbers can be a distribution if they are finite, the first is positive, and the least is not
  above the greatest.
- `isAdmissible_ofSample`, `isAdmissible_add`: what is made of finite samples can be a distribution.
-/
import MetricSurvey.Metric.Distribution
import MetricSurvey.Proofs.Number.Exact

namespace MetricSurvey.Distribution

/-! ## Merging as addition -/

section

variable {R : Type} [Scalar R]

instance : Add (Distribution R) := ⟨merge⟩

theorem add_def (d e : Distribution R) : d + e = d.merge e := rfl

end

/-- **Merging is commutative and associative.** -/
instance : AddCommSemigroup (Distribution Exact) where
  add_assoc d e f := by
    simp only [add_def, merge, add_assoc, Exact.lesser_assoc, Exact.greater_assoc]
  add_comm d e := by
    rw [add_def, add_def, merge, merge, add_comm d.weight, Exact.lesser_comm d.least, Exact.greater_comm d.greatest,
      add_comm d.sum, add_comm d.sumSq]

/-! ## What can be a distribution -/

theorem isAdmissible_iff {d : Distribution Exact} : d.isAdmissible = true ↔
    ∃ weight least greatest sum sumSq : ℚ,
      d = ⟨.finite weight, .finite least, .finite greatest, .finite sum, .finite sumSq⟩ ∧
        0 < weight ∧ least ≤ greatest := by
  obtain ⟨w, l, g, s, q⟩ := d
  simp only [isAdmissible, parts, List.all_cons, List.all_nil, Bool.and_true, Bool.and_eq_true, Bool.not_eq_true',
    decide_eq_false_iff_not, Exact.isFinite_iff, Exact.zero_def, mk.injEq]
  constructor
  · rintro ⟨⟨⟨⟨w, rfl⟩, ⟨l, rfl⟩, ⟨g, rfl⟩, ⟨s, rfl⟩, ⟨q, rfl⟩⟩, hpos⟩, hle⟩
    rw [Exact.finite_le, not_le] at hpos
    rw [Exact.finite_lt, not_lt] at hle
    exact ⟨w, l, g, s, q, ⟨rfl, rfl, rfl, rfl, rfl⟩, hpos, hle⟩
  · rintro ⟨w, l, g, s, q, ⟨rfl, rfl, rfl, rfl, rfl⟩, hpos, hle⟩
    rw [Exact.finite_le, not_le, Exact.finite_lt, not_lt]
    exact ⟨⟨⟨⟨w, rfl⟩, ⟨l, rfl⟩, ⟨g, rfl⟩, ⟨s, rfl⟩, ⟨q, rfl⟩⟩, hpos⟩, hle⟩

theorem isAdmissible_ofSample {v : Exact} (hv : Scalar.isFinite v = true) : (ofSample v).isAdmissible = true := by
  obtain ⟨q, rfl⟩ := Exact.isFinite_iff.1 hv
  refine isAdmissible_iff.2 ⟨1, q, q, q, q * q, ?_, one_pos, le_rfl⟩
  rw [ofSample, Exact.one_def, Exact.finite_mul]

/-- **What can be a distribution still can when another is added.** -/
theorem isAdmissible_add {d e : Distribution Exact} (hd : d.isAdmissible = true) (he : e.isAdmissible = true) :
    (d + e).isAdmissible = true := by
  obtain ⟨w, l, g, s, q, rfl, hw, hlg⟩ := isAdmissible_iff.1 hd
  obtain ⟨w', l', g', s', q', rfl, hw', hlg'⟩ := isAdmissible_iff.1 he
  refine isAdmissible_iff.2 ⟨w + w', min l l', max g g', s + s', q + q', ?_, add_pos hw hw', ?_⟩
  · simp only [add_def, merge, Exact.finite_add, Exact.min_finite, Exact.max_finite]
  · calc min l l' ≤ l := min_le_left l l'
      _ ≤ g := hlg
      _ ≤ max g g' := le_max_left g g'

section

variable {R : Type} [Scalar R] {d e : Distribution R}

theorem accepted?_eq_some (h : d.isAdmissible = true) : d.accepted? = some d :=
  if_pos h

theorem isSome_accepted? (d : Distribution R) : d.accepted?.isSome = d.isAdmissible := by
  unfold accepted?
  cases d.isAdmissible <;> rfl

theorem isAdmissible_of_accepted? (h : d.accepted? = some e) : e.isAdmissible = true := by
  unfold accepted? at h
  split_ifs at h with hd
  cases h
  exact hd

end

end MetricSurvey.Distribution

/-
Binary64 numbers: the rational numbers that they stand for.

- `value`: significand times a power of two, with the sign.
- `value_ofNat`: whole numbers below `2 ^ 53` are exact, so counts are not rounded.
-/
import Mathlib.Tactic
import MetricSurvey.Number.Binary64

namespace MetricSurvey.Binary64

/-- the number that a finite one stands for -/
def value (x : Binary64) : ℚ := (if x.isNegative then -1 else 1) * x.significand * (2 : ℚ) ^ x.exponent

theorem toNat_bits_ofMagnitude {mag : Nat} (h : mag < 2 ^ 63) : (ofMagnitude false mag).bits.toNat = mag := by
  simp only [ofMagnitude, Bool.false_eq_true, if_false, Nat.zero_add, UInt64.toNat_ofNat']
  exact Nat.mod_eq_of_lt (by omega)

theorem value_ofMagnitude {mag : Nat} (h : mag < 2 ^ 63) :
    (ofMagnitude false mag).value = significandOf mag * (2 : ℚ) ^ exponentOf mag := by
  have hmag : (ofMagnitude false mag).magnitude = mag := by
    rw [magnitude, toNat_bits_ofMagnitude h]
    exact Nat.mod_eq_of_lt h
  have hneg : (ofMagnitude false mag).isNegative = false := by
    rw [isNegative, toNat_bits_ofMagnitude h]
    simpa using h
  rw [value, significand, exponent, hmag, hneg]
  simp

/-- dividing by one needs no rounding -/
theorem divNearest_one (n : Nat) : divNearest n 1 = n := by
  simp [divNearest, Nat.mod_one]

/-- the count of a number below `2 ^ 53` has 53 bits -/
theorem unitExponent_one {n : Nat} (hpos : 0 < n) : unitExponent n 1 = max ((n.log2 : Int) - 52) (-1074) := by
  have hlow : 2 ^ n.log2 ≤ n := Nat.log2_self_le hpos.ne'
  have hgap : (n.log2 : Int) - Nat.log2 1 = Int.ofNat n.log2 := by
    rw [show Nat.log2 1 = 0 from rfl]
    simp
  simp only [unitExponent, hgap, Nat.pow_eq, Nat.one_mul, Nat.not_lt.2 hlow, decide_false]
  rfl

/-- a whole number below `2 ^ 53` fills 53 bits exactly -/
theorem roundRatio_one {n : Nat} (hpos : 0 < n) (hn : n < 2 ^ 53) :
    roundRatio n 1 = (n.log2 + 1022) * 2 ^ 52 + n * 2 ^ (52 - n.log2) ∧
      2 ^ 52 ≤ n * 2 ^ (52 - n.log2) ∧ n * 2 ^ (52 - n.log2) < 2 ^ 53 ∧ n.log2 ≤ 52 := by
  have hlog : n.log2 ≤ 52 := by
    have := (Nat.log2_lt hpos.ne').2 hn
    omega
  have hlow : 2 ^ 52 ≤ n * 2 ^ (52 - n.log2) := by
    calc 2 ^ 52 = 2 ^ n.log2 * 2 ^ (52 - n.log2) := by rw [← pow_add]; congr 1; omega
      _ ≤ n * 2 ^ (52 - n.log2) := Nat.mul_le_mul_right _ (Nat.log2_self_le hpos.ne')
  have hhigh : n * 2 ^ (52 - n.log2) < 2 ^ 53 := by
    calc n * 2 ^ (52 - n.log2) < 2 ^ (n.log2 + 1) * 2 ^ (52 - n.log2) :=
          Nat.mul_lt_mul_of_pos_right Nat.lt_log2_self (by positivity)
      _ = 2 ^ 53 := by rw [← pow_add]; congr 1; omega
  refine ⟨?_, hlow, hhigh, hlog⟩
  have hunit : unitExponent n 1 = (n.log2 : Int) - 52 := by
    rw [unitExponent_one hpos]
    omega
  have h1 : (-((n.log2 : Int) - 52)).toNat = 52 - n.log2 := by omega
  have h2 : ((n.log2 : Int) - 52).toNat = 0 := by omega
  have h3 : ((n.log2 : Int) - 52 + 1074).toNat = n.log2 + 1022 := by omega
  rw [roundRatio, if_neg hpos.ne', hunit]
  simp only [h1, h2, h3, Nat.pow_eq, Nat.pow_zero, Nat.mul_one, divNearest_one, infinityMagnitude]
  refine min_eq_left ?_
  omega

/-- **Whole numbers below `2 ^ 53` are exact.** -/
theorem value_ofNat {n : Nat} (hn : n < 2 ^ 53) : (ofNat n).value = n := by
  rcases Nat.eq_zero_or_pos n with rfl | hpos
  · rw [ofNat, ofRatio, value_ofMagnitude (by decide)]
    simp [roundRatio, significandOf]
  · obtain ⟨hround, hlow, hhigh, hlog⟩ := roundRatio_one hpos hn
    rw [ofNat, ofRatio, value_ofMagnitude (by omega), hround]
    set count := n * 2 ^ (52 - n.log2) with hcount
    have hsig : significandOf ((n.log2 + 1022) * 2 ^ 52 + count) = count := by
      simp only [significandOf, Nat.pow_eq]
      split_ifs <;> omega
    have hexp : exponentOf ((n.log2 + 1022) * 2 ^ 52 + count) = -((52 - n.log2 : Nat) : Int) := by
      simp only [exponentOf, Nat.pow_eq]
      split_ifs <;> omega
    rw [hsig, hexp, hcount, zpow_neg, zpow_natCast]
    push_cast
    field_simp

end MetricSurvey.Binary64

/-
Readings and boundaries, while the numbers have 64 bits.

- `toNat_ms_plus`: a clock that is moved on by a duration shows so many whole milliseconds more.
- `toInt_align`: what alignment computes, counted in seconds, without overflow.
- `Nearest.mono`, `Nearest.unique`: every time has one nearest boundary, and a later time has no earlier one.
- `align_rounds_to_nearest`: alignment gives the second of the nearest boundary; so it is monotone, goes along with whole
  periods, and makes up for readings that are a little early or late.
-/
import Mathlib.Tactic
import MetricSurvey.Time.Clock

namespace MetricSurvey

namespace Duration

theorem millis_ofSecs (s : Nat) : (ofSecs s).millis = s * 1000 := by
  unfold millis ofSecs
  dsimp only
  omega

theorem millis_ofMillis (ms : Nat) : (ofMillis ms).millis = ms := by
  unfold millis ofMillis
  exact Nat.mul_div_cancel ms (by decide)

theorem millis_mono {a b : Duration} (h : a ≤ b) : a.millis ≤ b.millis := Nat.div_le_div_right h

end Duration

namespace Reading

variable {r : Reading} {d : Duration}

theorem toNat_ms_plus (h : r.ms.toNat + d.millis < 2 ^ 64) : (r.plus d).ms.toNat = r.ms.toNat + d.millis := by
  unfold plus
  rw [Nat.pow_eq, Nat.mod_eq_of_lt (by omega), Nat.min_eq_left (by omega), UInt64.toNat_ofNat', Nat.mod_eq_of_lt h]

theorem toInt_secs (r : Reading) : r.secs.toInt = r.ms.toNat / 1000 := by
  have hsmall : r.ms.toNat < 2 ^ 64 := r.ms.toNat_lt
  have hsecs : (r.ms / 1000).toNat = r.ms.toNat / 1000 := UInt64.toNat_div _ _
  have hbits : (r.ms / 1000).toInt64.toInt = (r.ms / 1000).toNat := by
    apply BitVec.toInt_eq_toNat_of_lt
    show 2 * (r.ms / 1000).toNat < 2 ^ 64
    omega
  rw [secs, hbits, hsecs]
  rfl

end Reading

theorem toNat_periodMillis {seconds : Nat} (hpos : 1 ≤ seconds) (hsmall : seconds * 1000 < 2 ^ 64) :
    (periodMillis (.ofSecs seconds)).toNat = seconds * 1000 := by
  have hms : (UInt64.ofNat (Duration.ofSecs seconds).millis).toNat = seconds * 1000 := by
    rw [Duration.millis_ofSecs, UInt64.toNat_ofNat', Nat.mod_eq_of_lt hsmall]
  have hlarge : ¬ UInt64.ofNat (Duration.ofSecs seconds).millis ≤ 1 := by
    rw [UInt64.le_iff_toNat_le, hms]
    show ¬ seconds * 1000 ≤ 1
    omega
  show (if UInt64.ofNat (Duration.ofSecs seconds).millis ≤ 1 then 1 else _ : UInt64).toNat = _
  rw [if_neg hlarge, hms]

/-- Alignment computes a quotient rounded down half a period later, counted in seconds; nothing overflows. -/
theorem toInt_align {r : Reading} {seconds : Nat} (hpos : 1 ≤ seconds) (hsmall : seconds * 1000 < 2 ^ 64)
    (hfit : r.ms.toNat + seconds * 500 < 2 ^ 64) :
    (align r (.ofSecs seconds)).toInt = ((r.ms.toNat + seconds * 500) / (seconds * 1000) * seconds : Nat) := by
  have hperiod := toNat_periodMillis hpos hsmall
  have hhalf : (periodMillis (.ofSecs seconds) / 2).toNat = seconds * 500 := by
    rw [UInt64.toNat_div, hperiod]
    show seconds * 1000 / 2 = _
    omega
  have hsum : (r.ms + periodMillis (.ofSecs seconds) / 2).toNat = r.ms.toNat + seconds * 500 := by
    rw [UInt64.toNat_add, hhalf, Nat.mod_eq_of_lt hfit]
  have hboundary : ((r.ms + periodMillis (.ofSecs seconds) / 2) / periodMillis (.ofSecs seconds) *
      periodMillis (.ofSecs seconds)).toNat = (r.ms.toNat + seconds * 500) / (seconds * 1000) * (seconds * 1000) := by
    rw [UInt64.toNat_mul, UInt64.toNat_div, hsum, hperiod]
    exact Nat.mod_eq_of_lt ((Nat.div_mul_le_self _ _).trans_lt hfit)
  unfold align
  rw [Reading.toInt_secs]
  dsimp only
  rw [hboundary, ← Nat.mul_assoc]
  exact_mod_cast Nat.mul_div_cancel _ (by decide : 0 < 1000)

/-! ## The nearest boundary -/

/-- a boundary of a period of so many seconds, from half a period before which to half a period behind which a time lies;
in milliseconds -/
structure Nearest (seconds : Nat) (time boundary : Int) : Prop where
  dvd : (seconds * 1000 : Int) ∣ boundary
  le : boundary - seconds * 500 ≤ time
  lt : time < boundary + seconds * 500

namespace Nearest

variable {seconds : Nat} {t u m n : Int}

/-- **A later time has no earlier boundary.** Two boundaries less than a period apart are one. -/
theorem mono (h : Nearest seconds t m) (h' : Nearest seconds u n) (htu : t ≤ u) : m ≤ n := by
  obtain ⟨i, rfl⟩ := h.dvd
  obtain ⟨j, rfl⟩ := h'.dvd
  have hbelow : (seconds * 1000 : Int) * i < seconds * 1000 * (j + 1) := by
    have hleft := h.le
    have hright := h'.lt
    rw [Int.mul_add]
    omega
  have hij : i < j + 1 := Int.lt_of_mul_lt_mul_left hbelow (by omega)
  exact Int.mul_le_mul_of_nonneg_left (Int.le_of_lt_add_one hij) (by omega)

/-- **There is one nearest boundary.** -/
theorem unique (h : Nearest seconds t m) (h' : Nearest seconds t n) : m = n :=
  Int.le_antisymm (h.mono h' (Int.le_refl t)) (h'.mono h (Int.le_refl t))

/-- so many periods later the nearest boundary is so many periods later -/
theorem add_periods (h : Nearest seconds t m) (k : Int) :
    Nearest seconds (t + seconds * 1000 * k) (m + seconds * 1000 * k) where
  dvd := Int.dvd_add h.dvd (Int.dvd_mul_right _ k)
  le := by linarith [h.le]
  lt := by linarith [h.lt]

/-- a time off a boundary by less than half a period is nearest to it -/
theorem of_abs_lt (hdvd : (seconds * 1000 : Int) ∣ m) (h : |t - m| < seconds * 500) : Nearest seconds t m := by
  obtain ⟨hleft, hright⟩ := abs_lt.1 h
  exact ⟨hdvd, by linarith, by linarith⟩

/-- rounding down what lies half a period later -/
theorem div_mul (hpos : 1 ≤ seconds) (time : Nat) :
    Nearest seconds time ((time + seconds * 500) / (seconds * 1000) * (seconds * 1000) : Nat) where
  dvd := by exact_mod_cast Nat.dvd_mul_left _ _
  le := by
    have hfloor := Nat.div_mul_le_self (time + seconds * 500) (seconds * 1000)
    omega
  lt := by
    have hnext := Nat.lt_div_mul_add (a := time + seconds * 500) (b := seconds * 1000) (by omega)
    omega

end Nearest

/-- **Alignment gives the nearest boundary**, whose second is the survey time. -/
theorem nearest_align {r : Reading} {seconds : Nat} (hpos : 1 ≤ seconds) (hsmall : seconds * 1000 < 2 ^ 64)
    (hfit : r.ms.toNat + seconds * 500 < 2 ^ 64) :
    Nearest seconds r.ms.toNat ((align r (.ofSecs seconds)).toInt * 1000) := by
  have hnearest := Nearest.div_mul hpos r.ms.toNat
  rw [← Nat.mul_assoc] at hnearest
  rw [toInt_align hpos hsmall hfit]
  exact_mod_cast hnearest

/-- **Alignment rounds to the nearest boundary.** For a period of any whole number of seconds, and readings that do not come
within half a period of the last that there is:

- counted in milliseconds, the survey time of a reading is the one boundary `m` of the period for which the reading lies
  between `m` less half a period and `m` plus half a period, the upper end left out;
- a later reading has no earlier survey time;
- a reading so many periods later has a survey time exactly so many periods later;
- every reading that is off a boundary by less than half a period has the survey time of that boundary. -/
theorem align_rounds_to_nearest {seconds : Nat} (hpos : 1 ≤ seconds) (hsmall : seconds * 1000 < 2 ^ 64) :
    (∀ now : Reading, now.ms.toNat + seconds * 500 < 2 ^ 64 →
      ∀ m, Nearest seconds now.ms.toNat m ↔ m = (align now (.ofSecs seconds)).toInt * 1000) ∧
    (∀ now later : Reading, now.ms ≤ later.ms → later.ms.toNat + seconds * 500 < 2 ^ 64 →
      align now (.ofSecs seconds) ≤ align later (.ofSecs seconds)) ∧
    (∀ (now : Reading) (n : Nat), now.ms.toNat + n * (seconds * 1000) + seconds * 500 < 2 ^ 64 →
      (align (now.plus (.ofSecs (n * seconds))) (.ofSecs seconds)).toInt =
        (align now (.ofSecs seconds)).toInt + n * seconds) ∧
    (∀ (now : Reading) (m : Int), now.ms.toNat + seconds * 500 < 2 ^ 64 → (seconds * 1000 : Int) ∣ m →
      |(now.ms.toNat : Int) - m| < seconds * 500 → (align now (.ofSecs seconds)).toInt * 1000 = m) := by
  have hspec : ∀ now : Reading, now.ms.toNat + seconds * 500 < 2 ^ 64 →
      Nearest seconds now.ms.toNat ((align now (.ofSecs seconds)).toInt * 1000) := fun now => nearest_align hpos hsmall
  refine ⟨?_, ?_, ?_, ?_⟩
  · intro now hfit m
    constructor
    · intro hm
      exact hm.unique (hspec now hfit)
    · rintro rfl
      exact hspec now hfit
  · intro now later hle hfit
    have hms : now.ms.toNat ≤ later.ms.toNat := UInt64.le_iff_toNat_le.1 hle
    have hboundary := (hspec now (by omega)).mono (hspec later hfit) (Int.ofNat_le.2 hms)
    rw [Int64.le_iff_toInt_le]
    omega
  · intro now n hfit
    have hmillis : (Duration.ofSecs (n * seconds)).millis = n * (seconds * 1000) := by
      rw [Duration.millis_ofSecs, Nat.mul_assoc]
    have hclock : (now.plus (.ofSecs (n * seconds))).ms.toNat = now.ms.toNat + n * (seconds * 1000) := by
      rw [Reading.toNat_ms_plus (by omega), hmillis]
    have hlater := hspec (now.plus (.ofSecs (n * seconds))) (by rwa [hclock])
    have hshifted := (hspec now (by omega)).add_periods n
    have htime : ((now.plus (.ofSecs (n * seconds))).ms.toNat : Int) = now.ms.toNat + seconds * 1000 * n := by
      rw [hclock]
      push_cast
      ring
    rw [htime] at hlater
    have hsame := hlater.unique hshifted
    linarith
  · intro now m hfit hdvd hoff
    exact (hspec now hfit).unique (.of_abs_lt hdvd hoff)

/-- With a period of a day. The last reading at which nothing overflows belongs to the midnight before it, and so does the
reading half a day before that midnight; four in the morning of the first day goes along with that of a day long after. -/
theorem align_rounds_to_nearest_day :
    let day : Duration := .ofSecs 86400
    let halfway : Reading := ⟨18446744073614400000⟩
    let last : Reading := ⟨18446744073666351615⟩
    let early : Reading := ⟨14400000⟩
    let midnight : Int := 18446744073657600000
    last.ms.toNat + 86400 * 500 + 1 = 2 ^ 64 ∧ midnight - 86400 * 500 = halfway.ms.toNat ∧
      midnight = (align halfway day).toInt * 1000 ∧ align halfway day ≤ align last day ∧
      (align last day).toInt * 1000 = midnight ∧
      (align (early.plus (.ofSecs (213503982333 * 86400))) day).toInt = (align early day).toInt + 213503982333 * 86400 := by
  intro day halfway last early midnight
  have hlast : last.ms.toNat + 86400 * 500 + 1 = 2 ^ 64 := by decide
  have hhalfway : midnight - 86400 * 500 = halfway.ms.toNat := by decide
  have hdvd : ((86400 : Nat) * 1000 : Int) ∣ midnight := by decide
  obtain ⟨hone, hmono, hshift, hoff⟩ := @align_rounds_to_nearest 86400 (by decide) (by decide)
  refine ⟨hlast, hhalfway, ?_, ?_, ?_, ?_⟩
  · exact (hone halfway (by decide) midnight).1 ⟨hdvd, by decide, by decide⟩
  · exact hmono halfway last (by decide) (by decide)
  · exact hoff last midnight (by decide) hdvd (by decide)
  · exact hshift early 213503982333 (by decide)

end MetricSurvey

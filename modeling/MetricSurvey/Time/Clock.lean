/-
Clock readings: milliseconds since the epoch, in 64 bits.

Moving a clock wraps around, adding a duration to a reading saturates, and the time since a later reading is zero.
`align` gives the survey time nearest to a reading: a reading off a boundary by less than half a period belongs to it.
-/
import MetricSurvey.Time.Duration

namespace MetricSurvey

structure Reading where
  ms : UInt64
deriving DecidableEq, Inhabited

namespace Reading

/-- the reading at a second, or the last reading there is -/
def ofSecs (s : Nat) : Reading := ⟨UInt64.ofNat (min (s * 1000) (Nat.pow 2 64 - 1))⟩

/-- the second in which the reading lies -/
def secs (r : Reading) : Int64 := (r.ms / 1000).toInt64

/-- the time from an earlier reading to this one; none from a later one -/
def since (r earlier : Reading) : Duration := .ofMillis (r.ms.toNat - earlier.ms.toNat)

/-- the reading after a clock has been moved on -/
def advance (r : Reading) (by_ms : UInt64) : Reading := ⟨r.ms + by_ms⟩

/-- the reading a duration later; the whole milliseconds count modulo 64 bits, the sum stops at the last reading -/
def plus (r : Reading) (d : Duration) : Reading :=
  ⟨UInt64.ofNat (min (r.ms.toNat + d.millis % Nat.pow 2 64) (Nat.pow 2 64 - 1))⟩

end Reading

/-- a period in whole milliseconds of 64 bits, at least one -/
def periodMillis (period : Duration) : UInt64 := max (UInt64.ofNat period.millis) 1

/-- the multiple of the period nearest to a reading, in seconds -/
def align (now : Reading) (period : Duration) : Int64 :=
  let p := periodMillis period
  Reading.secs ⟨(now.ms + p / 2) / p * p⟩

end MetricSurvey

/-
Durations, counted in nanoseconds, and their text.

Durations are added without a limit: their sums are taken to stay within `Duration.longest`.

The text has the largest of the units s, ms, µs, ns that the duration fills, and as many decimals as it needs.
-/
import MetricSurvey.Number.Decimal

namespace MetricSurvey

structure Duration where
  nanos : Nat
deriving DecidableEq, Inhabited

namespace Duration

def ofMillis (ms : Nat) : Duration := ⟨ms * 1000000⟩
def ofSecs (s : Nat) : Duration := ⟨s * 1000000000⟩

/-- the longest duration: the seconds have 64 bits -/
def longest : Duration := ⟨(Nat.pow 2 64 - 1) * 1000000000 + 999999999⟩

def zero : Duration := ⟨0⟩

/-- whole seconds -/
def secs (d : Duration) : Nat := d.nanos / 1000000000
/-- nanoseconds beyond the whole seconds -/
def subsecNanos (d : Duration) : Nat := d.nanos % 1000000000
/-- whole milliseconds -/
def millis (d : Duration) : Nat := d.nanos / 1000000

instance : LE Duration := ⟨fun a b => a.nanos ≤ b.nanos⟩
instance : LT Duration := ⟨fun a b => a.nanos < b.nanos⟩
instance (a b : Duration) : Decidable (a ≤ b) := inferInstanceAs (Decidable (a.nanos ≤ b.nanos))
instance (a b : Duration) : Decidable (a < b) := inferInstanceAs (Decidable (a.nanos < b.nanos))
instance : Add Duration := ⟨fun a b => ⟨a.nanos + b.nanos⟩⟩
instance : Min Duration := ⟨fun a b => if a ≤ b then a else b⟩
instance : Max Duration := ⟨fun a b => if a ≤ b then b else a⟩

/-- a number of units with the decimals it needs -/
def amount (unit nanos : Nat) (suffix : String) : String :=
  let places := Decimal.digitCount unit - 1
  let decimals := ((Decimal.padded places (nanos % unit)).reverse.dropWhile (· == '0')).reverse
  String.ofList (Decimal.digits (nanos / unit) ++ (if decimals.isEmpty then [] else '.' :: decimals)) ++ suffix

def text (d : Duration) : String :=
  if 1000000000 ≤ d.nanos then amount 1000000000 d.nanos "s"
  else if 1000000 ≤ d.nanos then amount 1000000 d.nanos "ms"
  else if 1000 ≤ d.nanos then amount 1000 d.nanos "µs"
  else amount 1 d.nanos "ns"

end Duration

end MetricSurvey

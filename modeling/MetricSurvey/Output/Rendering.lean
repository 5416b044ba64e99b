/-
How a snapshot is written: as a heading with one line per metric, or as one JSON object.

The lines are sorted as texts, whether they stand for a counter or a distribution (`eq_lines_iff`). In JSON every number
looks like a fraction, and a number that is not finite is `null`.
-/
import MetricSurvey.Metric.Snapshot
import MetricSurvey.Text.Quoted

namespace MetricSurvey

namespace Snapshot

def heading (s : Snapshot Binary64) : String := "[output] (ts:" ++ toString s.time.toInt ++ ") Aggregated data:"

def counterLine (e : MetricKey × Binary64) : String := e.1.text ++ ": " ++ Decimal.Layout.plain.text e.2

def distLine (e : MetricKey × Distribution Binary64) : String := e.1.text ++ ": " ++ e.2.text

/-- one line per metric, sorted -/
def lines (s : Snapshot Binary64) : List String :=
  (s.counters.toList.map counterLine ++ s.dists.toList.map distLine).mergeSort fun a b => (compare a b).isLE

/-- there is one line for each counter and one for each distribution -/
theorem perm_lines (s : Snapshot Binary64) :
    s.lines.Perm (s.counters.toList.map counterLine ++ s.dists.toList.map distLine) :=
  List.mergeSort_perm _ _

/-- lines come in the order of texts -/
theorem pairwise_lines (s : Snapshot Binary64) : s.lines.Pairwise (· ≤ ·) := by
  have hle : ∀ a b : String, (compare a b).isLE = true ↔ a ≤ b :=
    fun _ _ => isLE_compareOfLessAndEq Std.le_antisymm Std.not_le fun _ _ => Std.le_total
  have hsorted : s.lines.Pairwise fun a b => (compare a b).isLE = true := by
    apply List.pairwise_mergeSort
    · intro a b c hab hbc
      exact Std.TransCmp.isLE_trans hab hbc
    · intro a b
      rw [Bool.or_eq_true, hle, hle]
      exact Std.le_total
  exact hsorted.imp (hle _ _).1

/-- **The lines of a snapshot** are one for each counter and one for each distribution, sorted. -/
theorem eq_lines_iff {s : Snapshot Binary64} {lines : List String} : lines = s.lines ↔
    lines.Pairwise (· ≤ ·) ∧ lines.Perm (s.counters.toList.map counterLine ++ s.dists.toList.map distLine) := by
  constructor
  · rintro rfl
    exact ⟨s.pairwise_lines, s.perm_lines⟩
  · rintro ⟨hsorted, hperm⟩
    have hsame : lines.Perm s.lines := hperm.trans s.perm_lines.symm
    exact hsame.eq_of_pairwise (fun _ _ _ _ => Std.le_antisymm) hsorted s.pairwise_lines

/-! ## JSON -/

def jsonNumber (x : Binary64) : String := if x.isFinite then Decimal.Layout.fraction.text x else "null"

/-- an object; the values are already written -/
def jsonObject (fields : List (String × String)) : String :=
  "\x7b" ++ ",".intercalate (fields.map fun f => Quoted.encode f.1 ++ ":" ++ f.2) ++ "\x7d"

def jsonBool (b : Bool) : String := if b then "true" else "false"

def jsonDist (d : Distribution Binary64) : String :=
  jsonObject [("N", jsonNumber d.weight), ("Min", jsonNumber d.least), ("Max", jsonNumber d.greatest),
    ("Sum", jsonNumber d.sum), ("SumSq", jsonNumber d.sumSq)]

def json (s : Snapshot Binary64) : String :=
  jsonObject [
    ("Timestamp", toString s.time.toInt),
    ("Counters", jsonObject (s.counters.toList.map fun e => (e.1.text, jsonNumber e.2))),
    ("Dists", jsonObject (s.dists.toList.map fun e => (e.1.text, jsonDist e.2))),
    ("Empty", jsonBool s.empty)]

end Snapshot

end MetricSurvey

/-
Decimal texts of binary64 numbers.

- `shortest` gives the fewest digits that read back as the number, and of those the nearest to it. For 1, 2, … 17 digits
  it tries the two neighbours of the exact value on the grid with that many digits; the first grid with a neighbour that
  reads back wins.
- A `Layout` says how such digits are written: where positional notation ends, whether whole numbers carry `.0`, and
  which of two equally near neighbours is taken.
- `fixed` writes a given number of places of the exact value, a half going to the even neighbour.
-/
import MetricSurvey.Number.Binary64

namespace MetricSurvey

namespace Decimal

/-- which of two equally near neighbours is taken -/
inductive Tie where
  | toEven
  | up
deriving DecidableEq

/-- `coefficient * 10 ^ exponent` -/
structure Scaled where
  coefficient : Nat
  exponent : Int
deriving DecidableEq

/-- the number of decimal digits, one for zero -/
def digitCount (n : Nat) : Nat := if n < 10 then 1 else digitCount (n / 10) + 1

/-- the largest power of ten that is at most `n / d`, for positive `n` and `d` -/
def leadingExponent (n d : Nat) : Int :=
  if d ≤ n then (digitCount (n / d) : Int) - 1 else -(digitCount ((d - 1) / n) : Int)

/-- drop zeros at the end of the coefficient -/
def Scaled.trim (s : Scaled) : Scaled :=
  if h : s.coefficient ≠ 0 ∧ s.coefficient % 10 = 0 then
    (Scaled.mk (s.coefficient / 10) (s.exponent + 1)).trim
  else s
termination_by s.coefficient
decreasing_by omega

/-- whether a decimal rounds to this magnitude -/
def Scaled.readsAs (s : Scaled) (mag : Nat) : Bool :=
  Binary64.roundRatio (s.coefficient * Nat.pow 10 s.exponent.toNat) (Nat.pow 10 (-s.exponent).toNat) == mag

/-- the nearer neighbour of `n / d` on the grid of step `10 ^ k`, among those that read back as `mag` -/
def nearestOnGrid (tie : Tie) (mag n d : Nat) (k : Int) : Option Scaled :=
  let num := n * Nat.pow 10 (-k).toNat
  let den := d * Nat.pow 10 k.toNat
  let low := num / den
  let rest := num % den
  let below : Scaled := ⟨low, k⟩
  let above : Scaled := ⟨low + 1, k⟩
  match below.readsAs mag, above.readsAs mag with
  | true, false => some below
  | false, true => some above
  | false, false => none
  | true, true =>
    if 2 * rest < den then some below
    else if den < 2 * rest then some above
    else match tie with
      | .up => some above
      | .toEven => some (if low % 2 = 0 then below else above)

/-- the fewest digits that read back as the magnitude `mag`, which is positive and finite -/
def shortest (tie : Tie) (mag : Nat) : Scaled :=
  let m := Binary64.significandOf mag
  let q := Binary64.exponentOf mag
  let n := m * Nat.pow 2 q.toNat
  let d := Nat.pow 2 (-q).toNat
  let p := leadingExponent n d
  match (List.range 17).findSome? fun i => nearestOnGrid tie mag n d (p - (i : Nat)) with
  | some s => s.trim
  | none => ⟨n / d, 0⟩

/-! ## Texts -/

def digits (n : Nat) : List Char := Nat.toDigits 10 n

/-- the digits of `n`, with zeros in front up to a width -/
def padded (width n : Nat) : List Char :=
  let ds := digits n
  List.replicate (width - ds.length) '0' ++ ds

/-- how the shortest digits of a number are written -/
structure Layout where
  /-- the range of leading exponents written without an exponent; no bound stands for everything -/
  positional : Option (Int × Int)
  /-- whether a whole number in positional notation ends in `.0` -/
  pointAfterWhole : Bool
  tie : Tie

namespace Layout

/-- Shortest digits, never an exponent, whole numbers bare; a tie goes up. -/
def plain : Layout := ⟨none, false, .up⟩

/-- Shortest digits that always look like a fraction: positional from `0.00001` to below `10^16`, otherwise an exponent
with its sign; a tie goes to the even digit. -/
def fraction : Layout := ⟨some (-5, 16), true, .toEven⟩

def isPositional (l : Layout) (leading : Int) : Bool :=
  match l.positional with
  | none => true
  | some (low, high) => decide (low ≤ leading) && decide (leading < high)

/-- positional notation of `c * 10^k` -/
def positionalText (l : Layout) (s : Scaled) : List Char :=
  if 0 ≤ s.exponent then
    digits s.coefficient ++ List.replicate (if s.coefficient = 0 then 0 else s.exponent.toNat) '0'
      ++ (if l.pointAfterWhole then ['.', '0'] else [])
  else
    let places := (-s.exponent).toNat
    let unit := Nat.pow 10 places
    digits (s.coefficient / unit) ++ '.' :: padded places (s.coefficient % unit)

/-- one digit, the others behind the point, and the exponent with its sign -/
def exponentText (s : Scaled) (leading : Int) : List Char :=
  let mantissa := match digits s.coefficient with
    | [] => []
    | [c] => [c]
    | c :: cs => c :: '.' :: cs
  mantissa ++ 'e' :: (if leading < 0 then '-' else '+') :: digits leading.natAbs

/-- the text of a magnitude -/
def magnitudeText (l : Layout) (mag : Nat) : List Char :=
  if mag = 0 then l.positionalText ⟨0, 0⟩ else
    let s := shortest l.tie mag
    let leading := s.exponent + digitCount s.coefficient - 1
    if l.isPositional leading then l.positionalText s else exponentText s leading

def text (l : Layout) (x : Binary64) : String :=
  if x.isNaN then "NaN" else
    let body := if x.isInfinite then ['i', 'n', 'f'] else l.magnitudeText x.magnitude
    String.ofList (if x.isNegative then '-' :: body else body)

end Layout

/-- the exact value to a fixed number of places, a half to the even neighbour -/
def fixed (places : Nat) (x : Binary64) : String :=
  if x.isNaN then "NaN" else
    let body :=
      if x.isInfinite then ['i', 'n', 'f'] else
        let q := x.exponent
        let count := Binary64.divNearest (x.significand * Nat.pow 2 q.toNat * Nat.pow 10 places) (Nat.pow 2 (-q).toNat)
        digits (count / Nat.pow 10 places) ++ '.' :: padded places (count % Nat.pow 10 places)
    String.ofList (if x.isNegative then '-' :: body else body)

end Decimal

end MetricSurvey

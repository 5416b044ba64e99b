/-
Binary64 numbers as their 64 bits, with the arithmetic done exactly and rounded once.

- A finite number is a sign, a significand `m` and an exponent `q`, and stands for `± m · 2^q`.
- `roundRatio n d` is the magnitude of the number nearest to `n / d`, a tie going to the even significand; the four
  operations and the square root form their exact result (or, for the root, enough of it) and call this one function.
- Equality is equality of bits, so a NaN keeps its payload and `-0` differs from `0`; `≤` and `<` compare values.
-/
import MetricSurvey.Number.Scalar

namespace MetricSurvey

structure Binary64 where
  bits : UInt64
deriving DecidableEq, Inhabited

namespace Binary64

/-! ## Fields -/

/-- the sign bit -/
def isNegative (x : Binary64) : Bool := decide (Nat.pow 2 63 ≤ x.bits.toNat)

/-- the bits below the sign; they grow with the magnitude -/
def magnitude (x : Binary64) : Nat := x.bits.toNat % Nat.pow 2 63

/-- the magnitude of infinity; above it are the NaNs -/
def infinityMagnitude : Nat := 0x7ff * Nat.pow 2 52

def isNaN (x : Binary64) : Bool := decide (infinityMagnitude < x.magnitude)
def isInfinite (x : Binary64) : Bool := decide (x.magnitude = infinityMagnitude)
def isFinite (x : Binary64) : Bool := decide (x.magnitude < infinityMagnitude)

/-- the significand of a finite magnitude -/
def significandOf (mag : Nat) : Nat := if mag < Nat.pow 2 52 then mag else Nat.pow 2 52 + mag % Nat.pow 2 52

/-- the exponent of a finite magnitude: the value is `significandOf mag * 2 ^ exponentOf mag` -/
def exponentOf (mag : Nat) : Int := if mag < Nat.pow 2 52 then -1074 else (mag / Nat.pow 2 52 : Nat) - 1075

def significand (x : Binary64) : Nat := significandOf x.magnitude
def exponent (x : Binary64) : Int := exponentOf x.magnitude

/-! ## Rounding -/

/-- `n / d` to the nearest integer, a half to the even neighbour -/
def divNearest (n d : Nat) : Nat :=
  let q := n / d
  let r := n % d
  if 2 * r < d then q else if d < 2 * r then q + 1 else q + q % 2

/-- the power of two by which `n / d` is counted before rounding: the count then has 53 bits, or fewer at the least
exponent -/
def unitExponent (n d : Nat) : Int :=
  let gap : Int := (Nat.log2 n : Int) - Nat.log2 d
  let below : Bool := match gap with
    | .ofNat g => decide (n < d * Nat.pow 2 g)
    | .negSucc g => decide (n * Nat.pow 2 (g + 1) < d)
  max (gap - (if below then 53 else 52)) (-1074)

/-- the magnitude nearest to `n / d`; infinity from half a unit above the largest finite one -/
def roundRatio (n d : Nat) : Nat :=
  if n = 0 then 0 else
    let e := unitExponent n d
    let count := divNearest (n * Nat.pow 2 (-e).toNat) (d * Nat.pow 2 e.toNat)
    min ((e + 1074).toNat * Nat.pow 2 52 + count) infinityMagnitude

/-- the number with this sign and magnitude -/
def ofMagnitude (negative : Bool) (mag : Nat) : Binary64 :=
  ⟨UInt64.ofNat ((if negative then Nat.pow 2 63 else 0) + mag)⟩

/-- the number nearest to `± n / d` -/
def ofRatio (negative : Bool) (n d : Nat) : Binary64 := ofMagnitude negative (roundRatio n d)

/-- the number nearest to `± m · 2^q` -/
def ofScaled (negative : Bool) (m : Nat) (q : Int) : Binary64 :=
  ofRatio negative (m * Nat.pow 2 q.toNat) (Nat.pow 2 (-q).toNat)

/-- the number nearest to `± m · 10^e` -/
def ofDecimal (negative : Bool) (m : Nat) (e : Int) : Binary64 :=
  ofRatio negative (m * Nat.pow 10 e.toNat) (Nat.pow 10 (-e).toNat)

def ofNat (n : Nat) : Binary64 := ofRatio false n 1

def ofInt (i : Int) : Binary64 := ofRatio (decide (i < 0)) i.natAbs 1

def zero (negative : Bool) : Binary64 := ofMagnitude negative 0
def infinity (negative : Bool) : Binary64 := ofMagnitude negative infinityMagnitude

/-- the NaN that an invalid operation gives -/
def nan : Binary64 := ⟨0xfff8000000000000⟩

/-- a NaN operand with its quiet bit set -/
def quiet (x : Binary64) : Binary64 := ⟨x.bits ||| 0x0008000000000000⟩

/-! ## Arithmetic -/

def neg (x : Binary64) : Binary64 := ⟨x.bits ^^^ 0x8000000000000000⟩

/-- `± significand`, counted in units of `2^q`, where `q` is at most the exponent -/
def countIn (x : Binary64) (q : Int) : Int :=
  let c : Nat := x.significand * Nat.pow 2 (x.exponent - q).toNat
  if x.isNegative then -(c : Int) else c

def add (x y : Binary64) : Binary64 :=
  if x.isNaN then quiet x
  else if y.isNaN then quiet y
  else if x.isInfinite then if y.isInfinite && x.isNegative != y.isNegative then nan else x
  else if y.isInfinite then y
  else
    let q := min x.exponent y.exponent
    let s := x.countIn q + y.countIn q
    if s = 0 then zero (x.isNegative && y.isNegative) else ofScaled (decide (s < 0)) s.natAbs q

def sub (x y : Binary64) : Binary64 := if y.isNaN then (if x.isNaN then quiet x else quiet y) else add x (neg y)

def mul (x y : Binary64) : Binary64 :=
  let negative := x.isNegative != y.isNegative
  if x.isNaN then quiet x
  else if y.isNaN then quiet y
  else if x.isInfinite || y.isInfinite then
    if x.magnitude = 0 || y.magnitude = 0 then nan else infinity negative
  else ofScaled negative (x.significand * y.significand) (x.exponent + y.exponent)

def div (x y : Binary64) : Binary64 :=
  let negative := x.isNegative != y.isNegative
  if x.isNaN then quiet x
  else if y.isNaN then quiet y
  else if x.isInfinite then if y.isInfinite then nan else infinity negative
  else if y.isInfinite then zero negative
  else if y.magnitude = 0 then if x.magnitude = 0 then nan else infinity negative
  else
    let q := x.exponent - y.exponent
    ofRatio negative (x.significand * Nat.pow 2 q.toNat) (y.significand * Nat.pow 2 (-q).toNat)

/-- the integer part of the square root -/
def floorRoot (n : Nat) : Nat :=
  if h : n = 0 then 0 else
    let r := 2 * floorRoot (n / 4)
    if (r + 1) * (r + 1) ≤ n then r + 1 else r
termination_by n
decreasing_by omega

/-- The root is taken of a significand stretched to at least 110 bits; a last bit records whether anything is left
over, so rounding sees on which side of a half the root lies. -/
def sqrt (x : Binary64) : Binary64 :=
  if x.isNaN then quiet x
  else if x.magnitude = 0 then x
  else if x.isNegative then nan
  else if x.isInfinite then x
  else
    let shift : Nat := 110 + (x.exponent % 2).toNat
    let n := x.significand * Nat.pow 2 shift
    let r := floorRoot n
    let rest := if r * r = n then 0 else 1
    ofScaled false (2 * r + rest) ((x.exponent - shift) / 2 - 1)

/-! ## Order -/

/-- an integer that grows with the value; both zeros have the key 0 -/
def orderKey (x : Binary64) : Int := if x.isNegative then -(x.magnitude : Int) else x.magnitude

def blt (x y : Binary64) : Bool := !x.isNaN && !y.isNaN && decide (x.orderKey < y.orderKey)
def ble (x y : Binary64) : Bool := !x.isNaN && !y.isNaN && decide (x.orderKey ≤ y.orderKey)

/-- the smaller operand; a NaN yields to the other operand, and of equal ones the first is taken -/
def minimum (x y : Binary64) : Binary64 := if x.isNaN || blt y x then y else x

/-- the larger operand; a NaN yields to the other operand, and of equal ones the first is taken -/
def maximum (x y : Binary64) : Binary64 := if x.isNaN || blt x y then y else x

instance : Scalar Binary64 where
  zero := zero false
  one := ofNat 1
  add := add
  sub := sub
  mul := mul
  div := div
  min := minimum
  max := maximum
  lt x y := blt x y = true
  le x y := ble x y = true
  natCast := ofNat
  isFinite := isFinite
  decLt x y := inferInstanceAs (Decidable (blt x y = true))
  decLe x y := inferInstanceAs (Decidable (ble x y = true))

/-! ## Narrower numbers -/

/-- the value of a 32-bit float; a NaN keeps its payload and becomes quiet -/
def ofBinary32 (bits : UInt32) : Binary64 :=
  let b := bits.toNat
  let negative := decide (Nat.pow 2 31 ≤ b)
  let field : Nat := b / Nat.pow 2 23 % Nat.pow 2 8
  let fraction := b % Nat.pow 2 23
  if field = 0xff then
    if fraction = 0 then infinity negative
    else quiet (ofMagnitude negative (infinityMagnitude + fraction * Nat.pow 2 29))
  else if field = 0 then ofScaled negative fraction (-149)
  else ofScaled negative (Nat.pow 2 23 + fraction) ((field : Int) - 150)

end Binary64

end MetricSurvey

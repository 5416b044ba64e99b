/-
Exact numbers: the arithmetic of metrics without rounding.

A statement that reads the arithmetic as exact is one over `Exact`: the finite numbers are the rationals, and nothing
overflows. What is not finite behaves as in binary64, so that a distribution with an infinite or invalid component can
be written down and be rejected. Zero has one sign here.

Addition is commutative and associative and has the neutral element zero, also on what is not finite, and so are the
lesser and the greater of two numbers. That is all that merging needs.
-/
import Mathlib.Tactic
import MetricSurvey.Number.Scalar

namespace MetricSurvey

inductive Exact
  | finite (q : ℚ)
  | infinite (negative : Bool)
  | nan
deriving DecidableEq

namespace Exact

/-! ## Arithmetic -/

def neg : Exact → Exact
  | finite q => finite (-q)
  | infinite s => infinite (!s)
  | nan => nan

/-- the sum; infinities of opposite signs have none -/
def add : Exact → Exact → Exact
  | finite p, finite q => finite (p + q)
  | nan, _ => nan
  | _, nan => nan
  | infinite s, infinite t => if s = t then infinite s else nan
  | infinite s, finite _ => infinite s
  | finite _, infinite t => infinite t

/-- an infinity times a finite number -/
def scaleInfinity (negative : Bool) (q : ℚ) : Exact := if q = 0 then nan else infinite (negative ^^ decide (q < 0))

def mul : Exact → Exact → Exact
  | finite p, finite q => finite (p * q)
  | nan, _ => nan
  | _, nan => nan
  | infinite s, infinite t => infinite (s ^^ t)
  | infinite s, finite q => scaleInfinity s q
  | finite p, infinite t => scaleInfinity t p

/-- the quotient; what is divided by zero is infinite, and zero by zero is invalid -/
def div : Exact → Exact → Exact
  | finite p, finite q => if q = 0 then scaleInfinity false p else finite (p / q)
  | nan, _ => nan
  | _, nan => nan
  | infinite _, infinite _ => nan
  | infinite s, finite q => infinite (s ^^ decide (q < 0))
  | finite _, infinite _ => finite 0

/-! ## Order -/

/-- nothing compares with what is invalid -/
def ble : Exact → Exact → Bool
  | nan, _ => false
  | _, nan => false
  | infinite true, _ => true
  | _, infinite false => true
  | finite p, finite q => decide (p ≤ q)
  | _, _ => false

/-- the lesser operand; an invalid one yields to the other -/
def lesser : Exact → Exact → Exact
  | nan, y => y
  | x, nan => x
  | finite p, finite q => finite (min p q)
  | infinite true, _ => infinite true
  | _, infinite true => infinite true
  | infinite false, y => y
  | x, infinite false => x

/-- the greater operand; an invalid one yields to the other -/
def greater : Exact → Exact → Exact
  | nan, y => y
  | x, nan => x
  | finite p, finite q => finite (max p q)
  | infinite false, _ => infinite false
  | _, infinite false => infinite false
  | infinite true, y => y
  | x, infinite true => x

def isFinite : Exact → Bool
  | finite _ => true
  | _ => false

instance : Scalar Exact where
  zero := finite 0
  one := finite 1
  add := add
  sub x y := add x (neg y)
  mul := mul
  div := div
  min := lesser
  max := greater
  lt x y := (ble x y && !ble y x) = true
  le x y := ble x y = true
  natCast n := finite n
  isFinite := isFinite
  decLt x y := inferInstanceAs (Decidable ((ble x y && !ble y x) = true))
  decLe x y := inferInstanceAs (Decidable (ble x y = true))

/-! ## Finite numbers -/

theorem zero_def : (0 : Exact) = finite 0 := rfl
theorem one_def : (1 : Exact) = finite 1 := rfl
@[simp] theorem finite_add (p q : ℚ) : finite p + finite q = finite (p + q) := rfl
@[simp] theorem finite_mul (p q : ℚ) : finite p * finite q = finite (p * q) := rfl

@[simp] theorem finite_sub (p q : ℚ) : finite p - finite q = finite (p - q) := by
  show finite (p + -q) = finite (p - q)
  rw [sub_eq_add_neg]

theorem finite_div {q : ℚ} (hq : q ≠ 0) (p : ℚ) : finite p / finite q = finite (p / q) := if_neg hq

@[simp] theorem min_finite (p q : ℚ) : min (finite p) (finite q) = finite (min p q) := rfl
@[simp] theorem max_finite (p q : ℚ) : max (finite p) (finite q) = finite (max p q) := rfl

@[simp] theorem finite_le (p q : ℚ) : finite p ≤ finite q ↔ p ≤ q := by
  show ble (finite p) (finite q) = true ↔ p ≤ q
  simp [ble]

@[simp] theorem finite_lt (p q : ℚ) : finite p < finite q ↔ p < q := by
  show (ble (finite p) (finite q) && !ble (finite q) (finite p)) = true ↔ p < q
  simp only [ble, Bool.and_eq_true, Bool.not_eq_true', decide_eq_true_eq, decide_eq_false_iff_not, not_le]
  exact ⟨And.right, fun h => ⟨h.le, h⟩⟩

theorem isFinite_iff {x : Exact} : Scalar.isFinite x = true ↔ ∃ q, x = finite q := by
  show isFinite x = true ↔ ∃ q, x = finite q
  cases x <;> simp [isFinite]

theorem isFinite_zero : Scalar.isFinite (0 : Exact) = true := rfl

/-- what finite numbers differ by leads from one to the other -/
theorem add_sub_cancel_of_isFinite {x y : Exact} (hx : Scalar.isFinite x = true) (hy : Scalar.isFinite y = true) :
    x + (y - x) = y := by
  obtain ⟨p, rfl⟩ := isFinite_iff.1 hx
  obtain ⟨q, rfl⟩ := isFinite_iff.1 hy
  rw [finite_sub, finite_add, add_sub_cancel]

/-! ## Laws -/

/-- **Addition is commutative and associative**, whatever the numbers. -/
instance : AddCommMonoid Exact where
  add_assoc x y z := by
    show add (add x y) z = add x (add y z)
    cases x <;> cases y <;> cases z <;> simp only [add, add_assoc] <;> split_ifs <;> simp_all
  zero_add x := by
    show add (finite 0) x = x
    cases x <;> simp [add]
  add_zero x := by
    show add x (finite 0) = x
    cases x <;> simp [add]
  add_comm x y := by
    show add x y = add y x
    cases x <;> cases y <;> simp only [add, add_comm]
    split_ifs <;> simp_all
  nsmul := nsmulRec

theorem lesser_comm (x y : Exact) : min x y = min y x := by
  show lesser x y = lesser y x
  rcases x with p | ⟨_ | _⟩ | _ <;> rcases y with q | ⟨_ | _⟩ | _ <;> simp [lesser, min_comm]

theorem lesser_assoc (x y z : Exact) : min (min x y) z = min x (min y z) := by
  show lesser (lesser x y) z = lesser x (lesser y z)
  rcases x with p | ⟨_ | _⟩ | _ <;> rcases y with q | ⟨_ | _⟩ | _ <;> rcases z with r | ⟨_ | _⟩ | _ <;>
    simp [lesser, min_assoc]

theorem greater_comm (x y : Exact) : max x y = max y x := by
  show greater x y = greater y x
  rcases x with p | ⟨_ | _⟩ | _ <;> rcases y with q | ⟨_ | _⟩ | _ <;> simp [greater, max_comm]

theorem greater_assoc (x y z : Exact) : max (max x y) z = max x (max y z) := by
  show greater (greater x y) z = greater x (greater y z)
  rcases x with p | ⟨_ | _⟩ | _ <;> rcases y with q | ⟨_ | _⟩ | _ <;> rcases z with r | ⟨_ | _⟩ | _ <;>
    simp [greater, max_assoc]

end Exact

end MetricSurvey

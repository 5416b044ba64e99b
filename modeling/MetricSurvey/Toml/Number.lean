/-
TOML numbers.

Digits may be set apart by single underscores. A whole number has no leading zeros and is read in 64 bits; it may also be
written to base sixteen, eight or two, and then has no sign. A number with a fraction or an exponent must not be so large
that the nearest binary double is infinite.
-/
import MetricSurvey.Number.Decimal
import MetricSurvey.Text.Scan
import MetricSurvey.Toml.Value

namespace MetricSurvey.Toml.Number

/-- the value of a digit to a base up to sixteen -/
def digit? (base : Nat) (c : Char) : Option Nat :=
  let v :=
    if '0' ≤ c ∧ c ≤ '9' then c.toNat - 48
    else if 'a' ≤ c ∧ c ≤ 'f' then c.toNat - 87
    else if 'A' ≤ c ∧ c ≤ 'F' then c.toNat - 55
    else base
  if v < base then some v else none

/-- digits behind a first one; an underscore must have a digit behind it -/
def moreDigits (base : Nat) : List Char → Option (List Nat × List Char)
  | [] => some ([], [])
  | '_' :: c :: rest =>
    match digit? base c with
    | none => none
    | some d =>
      match moreDigits base rest with
      | some (ds, left) => some (d :: ds, left)
      | none => none
  | c :: rest =>
    match digit? base c with
    | none => if c = '_' then none else some ([], c :: rest)
    | some d =>
      match moreDigits base rest with
      | some (ds, left) => some (d :: ds, left)
      | none => none

/-- at least one digit -/
def digits (base : Nat) : Scan (List Nat) := do
  let d ← Scan.ofOption (digit? base (← Scan.next))
  let ds ← moreDigits base
  pure (d :: ds)

/-- the number that digits spell -/
def ofDigits (base : Nat) (ds : List Nat) : Nat := ds.foldl (fun n d => n * base + d) 0

/-- digits without leading zeros: behind a zero nothing is taken -/
def wholeDigits : Scan (List Nat)
  | '0' :: rest => some ([0], rest)
  | s => digits 10 s

/-- whether a minus stands in front; a plus may stand there too -/
def sign : Scan Bool
  | '-' :: rest => some (true, rest)
  | '+' :: rest => some (false, rest)
  | s => some (false, s)

/-- a number within 64 bits -/
def bounded (i : Int) : Option Value :=
  if -(Nat.pow 2 63 : Int) ≤ i ∧ i < (Nat.pow 2 63 : Int) then some (.integer i) else none

def based (base : Nat) : Scan Value := do Scan.ofOption (bounded (ofDigits base (← digits base)))

/-- a whole number -/
def integer : Scan Value
  | '0' :: 'x' :: rest => based 16 rest
  | '0' :: 'o' :: rest => based 8 rest
  | '0' :: 'b' :: rest => based 2 rest
  | s => (do
      let negative ← sign
      let n := ofDigits 10 (← wholeDigits)
      Scan.ofOption (bounded (if negative then -(n : Int) else n)) : Scan Value) s

/-- Whether `m` times ten to the power `e` is nearer to infinity than to any finite double. Far from the bound the number
of digits decides. -/
def tooLarge (m : Nat) (e : Int) : Bool :=
  if m = 0 then false
  else
    let places := (Decimal.digitCount m : Int) + e
    if 310 < places then true
    else if places < 300 then false
    else if 0 ≤ e then (Nat.pow 2 54 - 1) * Nat.pow 2 970 ≤ m * Nat.pow 10 e.toNat
    else (Nat.pow 2 54 - 1) * Nat.pow 2 970 * Nat.pow 10 (-e).toNat ≤ m

/-- the digits behind a point; none without a point -/
def fraction : Scan (Option (List Nat))
  | '.' :: rest => (some <$> digits 10 : Scan (Option (List Nat))) rest
  | s => some (none, s)

/-- the number behind an `e`; none without one -/
def exponent : Scan (Option Int) := fun s =>
  match s with
  | c :: rest =>
    if c = 'e' ∨ c = 'E' then (do
      let negative ← sign
      let n := ofDigits 10 (← digits 10)
      pure (some (if negative then -(n : Int) else n)) : Scan (Option Int)) rest
    else some (none, s)
  | [] => some (none, s)

/-- a number with a fraction, an exponent, or both -/
def decimal : Scan Value := do
  let negative ← sign
  let whole ← wholeDigits
  let part ← fraction
  let power ← exponent
  Scan.check (part.isSome || power.isSome)
  let places := part.getD []
  Scan.check (negative || !tooLarge (ofDigits 10 (whole ++ places)) (power.getD 0 - places.length))
  pure .real

/-- an infinity, or what is no number -/
def special : Scan Value := do
  let _ ← sign
  Scan.orElse (Scan.chars ['i', 'n', 'f']) (Scan.chars ['n', 'a', 'n'])
  pure .real

/-- any number -/
def read : Scan Value := Scan.orElse decimal (Scan.orElse special integer)

end MetricSurvey.Toml.Number

/-
Hexadecimal digits, in lower case.
-/
namespace MetricSurvey.Hexadecimal

/-- the digit for a value below 16 -/
def digit (n : Nat) : Char := if n < 10 then Char.ofNat (48 + n) else Char.ofNat (87 + n)

/-- the two digits of a byte -/
def byte (n : Nat) : List Char := [digit (n / 16), digit (n % 16)]

end MetricSurvey.Hexadecimal

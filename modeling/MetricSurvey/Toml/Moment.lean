/-
Dates and times of day, and whether there is such a day and such a time.
-/
import MetricSurvey.Text.Scan
import MetricSurvey.Toml.Value

namespace MetricSurvey.Toml.Moment

/-- a number of exactly so many decimal digits -/
def number (width : Nat) : Scan Nat := do
  let cs ← Scan.times Char.isDigit width
  pure (cs.foldl (fun n c => n * 10 + (c.toNat - 48)) 0)

def isLeap (year : Nat) : Bool := (year % 4 = 0 && year % 100 != 0) || year % 400 = 0

/-- how many days a month has -/
def daysIn (year month : Nat) : Nat :=
  if month = 2 then (if isLeap year then 29 else 28)
  else if month = 4 ∨ month = 6 ∨ month = 9 ∨ month = 11 then 30
  else 31

/-- a day of some month -/
def date : Scan Unit := do
  let year ← number 4
  Scan.char '-'
  let month ← number 2
  Scan.check (1 ≤ month && month ≤ 12)
  Scan.char '-'
  let day ← number 2
  Scan.check (1 ≤ day && day ≤ daysIn year month)

def hour : Scan Unit := do Scan.check ((← number 2) ≤ 23)
def minute : Scan Unit := do Scan.check ((← number 2) ≤ 59)
/-- a minute may have a leap second -/
def second : Scan Unit := do Scan.check ((← number 2) ≤ 60)

/-- decimals of a second, as many as there are -/
def decimals : Scan Unit := do
  Scan.char '.'
  let _ ← Scan.one Char.isDigit
  let _ ← Scan.span Char.isDigit

def timeOfDay : Scan Unit := do
  hour
  Scan.char ':'
  minute
  Scan.char ':'
  second
  let _ ← Scan.option decimals

/-- how far local time is off -/
def offset : Scan Unit :=
  Scan.orElse (do let _ ← Scan.one fun c => c = 'Z' || c = 'z') (do
    let _ ← Scan.one fun c => c = '+' || c = '-'
    hour
    Scan.char ':'
    minute)

/-- a time behind a date -/
def timeOfDate : Scan Unit := do
  let _ ← Scan.one fun c => c = 'T' || c = 't' || c = ' '
  timeOfDay
  let _ ← Scan.option offset

/-- a date with or without a time, or a time alone -/
def read : Scan Value := do
  Scan.orElse (do date; let _ ← Scan.option timeOfDate) timeOfDay
  pure .moment

end MetricSurvey.Toml.Moment

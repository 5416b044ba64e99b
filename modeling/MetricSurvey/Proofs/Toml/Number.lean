/-
Whole numbers are read back from their decimal digits.

The reader first tries whether a date, a time of day, a number with a fraction or one without a value stands there; none of
them does where digits end with the line.

- `digits_append`: the digits of a number are taken, up to the end of the line.
- `Moment.read_digits`: digits are neither a date nor a time of day.
- `read_digits`: so a whole number that has 63 bits is read back from its digits.
-/
import MetricSurvey.Proofs.Text.Scan
import MetricSurvey.Toml.Moment
import MetricSurvey.Toml.Number

namespace MetricSurvey.Toml

/-! ## Digits -/

/-- digits up to the end of the line -/
def DigitsThenBreak (s : List Char) : Prop := ∃ ds rest, (∀ c ∈ ds, c.isDigit = true) ∧ s = ds ++ '\n' :: rest

namespace DigitsThenBreak

variable {s : List Char} {c : Char}

theorem intro_digits {ds : List Char} (h : ∀ c ∈ ds, c.isDigit = true) (rest : List Char) :
    DigitsThenBreak (ds ++ '\n' :: rest) := ⟨ds, rest, h, rfl⟩

/-- what stands in front is a digit, or the end of the line -/
theorem head (h : DigitsThenBreak (c :: s)) : c = '\n' ∨ c.isDigit = true ∧ DigitsThenBreak s := by
  obtain ⟨ds, rest, hds, heq⟩ := h
  cases ds with
  | nil => exact Or.inl (List.cons.inj heq).1
  | cons d ds =>
    obtain ⟨rfl, rfl⟩ := List.cons.inj heq
    exact Or.inr ⟨hds c List.mem_cons_self, ds, rest, fun d hd => hds d (List.mem_cons_of_mem c hd), rfl⟩

theorem ne_nil (h : DigitsThenBreak s) : s ≠ [] := by
  obtain ⟨ds, rest, -, rfl⟩ := h
  simp

/-- nothing else stands in front -/
theorem char_eq_none (h : DigitsThenBreak s) (hbreak : c ≠ '\n') (hdigit : c.isDigit = false) : Scan.char c s = none := by
  cases s with
  | nil => rfl
  | cons d s =>
    refine Scan.char_of_ne ?_ s
    rintro rfl
    rcases h.head with hd | ⟨hd, -⟩
    · exact hbreak hd
    · rw [hdigit] at hd
      cases hd

/-- behind digits that are taken, digits may go on -/
theorem times (h : DigitsThenBreak s) {n : Nat} {cs left : List Char}
    (htake : Scan.times Char.isDigit n s = some (cs, left)) : DigitsThenBreak left := by
  induction n generalizing s cs with
  | zero =>
    cases htake
    exact h
  | succ n ih =>
    cases s with
    | nil => exact absurd rfl h.ne_nil
    | cons c s =>
      rw [Scan.times] at htake
      rcases h.head with rfl | ⟨hc, hs⟩
      · rw [Scan.bind_none (Scan.one_of_not (by decide) s)] at htake
        cases htake
      · rw [Scan.bind_some (Scan.one_cons hc s)] at htake
        cases hmore : Scan.times Char.isDigit n s with
        | none =>
          rw [Scan.bind_none hmore] at htake
          cases htake
        | some r =>
          rw [Scan.bind_some hmore] at htake
          cases htake
          exact ih hs hmore

end DigitsThenBreak

namespace Moment

variable {s : List Char}

/-- behind a number, digits may go on -/
theorem number_left (h : DigitsThenBreak s) {width n : Nat} {left : List Char} (hnumber : number width s = some (n, left)) :
    DigitsThenBreak left := by
  cases htake : Scan.times Char.isDigit width s with
  | none =>
    rw [number, Scan.bind_none htake] at hnumber
    cases hnumber
  | some r =>
    rw [number, Scan.bind_some htake] at hnumber
    cases hnumber
    exact h.times htake

theorem hour_left (h : DigitsThenBreak s) {left : List Char} (hhour : hour s = some ((), left)) :
    DigitsThenBreak left := by
  cases hnumber : number 2 s with
  | none =>
    rw [hour, Scan.bind_none hnumber] at hhour
    cases hhour
  | some r =>
    rw [hour, Scan.bind_some hnumber] at hhour
    have hleft := number_left h hnumber
    cases hcheck : decide (r.1 ≤ 23) with
    | true =>
      rw [hcheck] at hhour
      cases hhour
      exact hleft
    | false =>
      rw [hcheck] at hhour
      cases hhour

/-- **Digits are neither a date nor a time of day**: behind them stands neither a dash nor a colon. -/
theorem read_digits (h : DigitsThenBreak s) : read s = none := by
  have hdate : date s = none := by
    cases hyear : number 4 s with
    | none => exact Scan.bind_none hyear _
    | some r =>
      have hdash := (number_left h hyear).char_eq_none (c := '-') (by decide) (by decide)
      rw [date, Scan.bind_some hyear, Scan.bind_none hdash]
  have htime : timeOfDay s = none := by
    cases hhour : hour s with
    | none => exact Scan.bind_none hhour _
    | some r =>
      have hcolon := (hour_left h hhour).char_eq_none (c := ':') (by decide) (by decide)
      rw [timeOfDay, Scan.bind_some hhour, Scan.bind_none hcolon]
  rw [read, Scan.bind_none]
  rw [Scan.orElse_of_none (Scan.bind_none hdate _), htime]

end Moment

namespace Number

variable {c : Char} {ds rest : List Char}

/-- the value of a decimal digit -/
def digitValue (c : Char) : Nat := c.toNat - 48

theorem digit?_of_isDigit (h : c.isDigit = true) : digit? 10 c = some (digitValue c) := by
  have hbounds : '0' ≤ c ∧ c ≤ '9' := by
    simpa [Char.isDigit, Char.le_def] using h
  have hlow : 48 ≤ c.toNat := hbounds.1
  have hhigh : c.toNat ≤ 57 := hbounds.2
  unfold digit? digitValue
  rw [if_pos hbounds]
  dsimp only
  rw [if_pos (by omega)]

theorem moreDigits_append (hds : ∀ c ∈ ds, c.isDigit = true) (rest : List Char) :
    moreDigits 10 (ds ++ '\n' :: rest) = some (ds.map digitValue, '\n' :: rest) := by
  induction ds with
  | nil =>
    show moreDigits 10 ('\n' :: rest) = some ([], '\n' :: rest)
    rw [moreDigits]
    · rfl
    · intro c r h
      cases h
  | cons d ds ih =>
    have hd := hds d List.mem_cons_self
    have hrest := ih fun c hc => hds c (List.mem_cons_of_mem d hc)
    rw [List.cons_append, moreDigits, digit?_of_isDigit hd]
    · dsimp only
      rw [hrest]
      rfl
    · rintro c r rfl
      cases hd

/-- **Digits are taken**, up to the end of the line. -/
theorem digits_append {d : Char} (hds : ∀ c ∈ d :: ds, c.isDigit = true) (rest : List Char) :
    digits 10 (d :: ds ++ '\n' :: rest) = some ((d :: ds).map digitValue, '\n' :: rest) := by
  have hd := hds d List.mem_cons_self
  have hmore := moreDigits_append (fun c hc => hds c (List.mem_cons_of_mem d hc)) rest
  rw [digits, List.cons_append, Scan.bind_some (Scan.next_cons d _), digit?_of_isDigit hd, Scan.ofOption_some,
    Scan.bind_some (Scan.pure_apply _ _), Scan.bind_some hmore]
  rfl

/-! ## Whole numbers -/

theorem isDigit_of_mem_digits {n : Nat} (h : c ∈ Decimal.digits n) : c.isDigit = true :=
  Nat.isDigit_of_mem_toDigits (by decide) (by decide) h

/-- the digits of a number spell it -/
theorem ofDigits_digits (n : Nat) : ofDigits 10 ((Decimal.digits n).map digitValue) = n := by
  have hspell : Nat.ofDigitChars 10 (Decimal.digits n) 0 = n := Nat.ofDigitChars_toDigits (by decide) (by decide)
  have hstep : (fun (m : Nat) (c : Char) => m * 10 + digitValue c) = fun m c => 10 * m + (c.toNat - '0'.toNat) := by
    funext m c
    rw [Nat.mul_comm]
    rfl
  rw [ofDigits, List.foldl_map, hstep]
  exact hspell

/-- no zero stands in front, but for the number zero -/
theorem digits_of_zero_cons {n : Nat} (h : Decimal.digits n = '0' :: ds) : n = 0 := by
  induction n using Nat.strongRecOn generalizing ds with
  | ind n ih =>
    have hsmall : ∀ n < 10, n.digitChar = '0' → n = 0 := by decide
    rw [Decimal.digits, Nat.toDigits_eq_if (by decide)] at h
    split_ifs at h with hn
    · exact hsmall n hn (List.cons.inj h).1
    · cases hfront : Nat.toDigits 10 (n / 10) with
      | nil => exact absurd hfront Nat.toDigits_ne_nil
      | cons d front =>
        rw [hfront] at h
        obtain ⟨rfl, -⟩ := List.cons.inj h
        have hzero := ih (n / 10) (by omega) hfront
        omega

/-- the digits of a number, up to the end of the line, as a first digit and others -/
theorem digits_cons (n : Nat) : ∃ d ds, Decimal.digits n = d :: ds ∧ (∀ c ∈ d :: ds, c.isDigit = true) ∧
    (d = '0' → n = 0 ∧ ds = []) := by
  cases hdigits : Decimal.digits n with
  | nil => exact absurd hdigits Nat.toDigits_ne_nil
  | cons d ds =>
    refine ⟨d, ds, rfl, fun c hc => isDigit_of_mem_digits (hdigits ▸ hc), ?_⟩
    rintro rfl
    obtain rfl := digits_of_zero_cons hdigits
    cases hdigits
    exact ⟨rfl, rfl⟩

theorem wholeDigits_append (n : Nat) (rest : List Char) : wholeDigits (Decimal.digits n ++ '\n' :: rest) =
    some ((Decimal.digits n).map digitValue, '\n' :: rest) := by
  obtain ⟨d, ds, hdigits, hall, hzero⟩ := digits_cons n
  rw [hdigits]
  by_cases hd : d = '0'
  · obtain ⟨rfl, rfl⟩ := hzero hd
    rw [hd]
    rfl
  · rw [List.cons_append, wholeDigits]
    · exact digits_append hall rest
    · intro r h
      exact hd (List.cons.inj h).1

theorem sign_digits {d : Char} (hd : d.isDigit = true) (rest : List Char) : sign (d :: rest) = some (false, d :: rest) := by
  rw [sign]
  · rintro r h
    obtain ⟨rfl, -⟩ := List.cons.inj h
    cases hd
  · rintro r h
    obtain ⟨rfl, -⟩ := List.cons.inj h
    cases hd

/-- what begins with a digit is neither infinite nor no number -/
theorem special_digits {d : Char} (hd : d.isDigit = true) (rest : List Char) : special (d :: rest) = none := by
  have hne : ∀ {c : Char}, c.isDigit = false → d ≠ c := by
    rintro c hc rfl
    rw [hc] at hd
    cases hd
  have hneither : Scan.orElse (Scan.chars ['i', 'n', 'f']) (Scan.chars ['n', 'a', 'n']) (d :: rest) = none := by
    rw [Scan.orElse_of_none (Scan.chars_of_ne (hne (by decide)) _ rest)]
    exact Scan.chars_of_ne (hne (by decide)) _ rest
  rw [special, Scan.bind_some (sign_digits hd rest), Scan.bind_none hneither]

/-- digits alone have neither a fraction nor an exponent -/
theorem decimal_digits (n : Nat) (rest : List Char) : decimal (Decimal.digits n ++ '\n' :: rest) = none := by
  obtain ⟨d, ds, hdigits, hall, -⟩ := digits_cons n
  have hsign := sign_digits (hall d List.mem_cons_self) (ds ++ '\n' :: rest)
  rw [← List.cons_append, ← hdigits] at hsign
  have hfraction : fraction ('\n' :: rest) = some (none, '\n' :: rest) := rfl
  have hexponent : exponent ('\n' :: rest) = some (none, '\n' :: rest) := rfl
  rw [decimal, Scan.bind_some hsign, Scan.bind_some (wholeDigits_append n rest), Scan.bind_some hfraction,
    Scan.bind_some hexponent]
  rfl

theorem integer_digits {n : Nat} (hn : n < 2 ^ 63) (rest : List Char) :
    integer (Decimal.digits n ++ '\n' :: rest) = some (.integer n, '\n' :: rest) := by
  obtain ⟨d, ds, hdigits, hall, hzero⟩ := digits_cons n
  have hsign := sign_digits (hall d List.mem_cons_self) (ds ++ '\n' :: rest)
  rw [← List.cons_append, ← hdigits] at hsign
  have hbounded : bounded n = some (.integer n) := by
    rw [bounded, if_pos]
    rw [Nat.pow_eq]
    omega
  -- no letter of another base stands behind a zero
  have hten : ∀ c r, Decimal.digits n ++ '\n' :: rest ≠ '0' :: c :: r ∨ c = '\n' := by
    intro c r
    by_cases hd : d = '0'
    · obtain ⟨-, rfl⟩ := hzero hd
      rw [hdigits]
      by_cases hc : c = '\n'
      · exact Or.inr hc
      · refine Or.inl fun h => hc ?_
        obtain ⟨-, hrest⟩ := List.cons.inj h
        exact (List.cons.inj hrest).1.symm
    · rw [hdigits]
      exact Or.inl fun h => hd (List.cons.inj h).1
  rw [integer]
  · rw [Scan.bind_some hsign, Scan.bind_some (wholeDigits_append n rest), ofDigits_digits]
    rw [if_neg (by decide), hbounded]
    rfl
  all_goals
    intro r h
    rcases hten _ r with hne | hc
    · exact hne h
    · cases hc

/-- **A whole number is read back from its digits**, if it has 63 bits. -/
theorem read_digits {n : Nat} (hn : n < 2 ^ 63) (rest : List Char) :
    read (Decimal.digits n ++ '\n' :: rest) = some (.integer n, '\n' :: rest) := by
  obtain ⟨d, ds, hdigits, hall, -⟩ := digits_cons n
  have hspecial := special_digits (hall d List.mem_cons_self) (ds ++ '\n' :: rest)
  rw [← List.cons_append, ← hdigits] at hspecial
  rw [read, Scan.orElse_of_none (decimal_digits n rest), Scan.orElse_of_none hspecial]
  exact integer_digits hn rest

end Number

end MetricSurvey.Toml

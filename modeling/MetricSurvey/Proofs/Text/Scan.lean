/-
Scanners at work: what a scanner takes off the front of a text, told step by step.

- `bind_some`, `bind_none`: a scanner that goes on, by what its first part does.
- `char_cons`, `char_of_ne`, `chars_append`, `span_append`: what the scanners of characters take.
- `orElse_of_none`: the second of two scanners counts where the first fails.
-/
import Mathlib.Tactic
import MetricSurvey.Text.Scan

namespace MetricSurvey.Scan

variable {α β : Type} {a b : Scan α} {x : α} {s rest : List Char} {p : Char → Bool} {c d : Char}

/-! ## Going on -/

theorem bind_some (h : a s = some (x, rest)) (f : α → Scan β) : (a >>= f) s = f x rest := by
  show (a s).bind (fun r => f r.1 r.2) = f x rest
  rw [h]
  rfl

theorem bind_none (h : a s = none) (f : α → Scan β) : (a >>= f) s = none := by
  show (a s).bind (fun r => f r.1 r.2) = none
  rw [h]
  rfl

theorem map_some (h : a s = some (x, rest)) (f : α → β) : (f <$> a) s = some (f x, rest) := by
  show (a s).bind (fun r => some (f r.1, r.2)) = _
  rw [h]
  rfl

theorem map_none (h : a s = none) (f : α → β) : (f <$> a) s = none := by
  show (a s).bind (fun r => some (f r.1, r.2)) = _
  rw [h]
  rfl

theorem orElse_of_none (h : a s = none) : orElse a b s = b s := by
  unfold orElse
  rw [h]

@[simp] theorem pure_apply (x : α) (s : List Char) : (pure x : Scan α) s = some (x, s) := rfl

@[simp] theorem peek_apply (s : List Char) : peek s = some (s.head?, s) := rfl

@[simp] theorem next_cons (c : Char) (s : List Char) : next (c :: s) = some (c, s) := rfl

@[simp] theorem ofOption_some (x : α) : ofOption (some x) = pure x := rfl

/-! ## Characters -/

theorem one_cons (h : p c = true) (s : List Char) : one p (c :: s) = some (c, s) := if_pos h

theorem one_of_not (h : p c = false) (s : List Char) : one p (c :: s) = none := if_neg (by simp [h])

theorem char_cons (c : Char) (s : List Char) : char c (c :: s) = some ((), s) :=
  map_some (one_cons (p := (· == c)) (beq_self_eq_true c) s) _

theorem char_of_ne (h : d ≠ c) (s : List Char) : char c (d :: s) = none :=
  map_none (one_of_not (p := (· == c)) (beq_eq_false_iff_ne.2 h) s) _

theorem chars_append (cs s : List Char) : chars cs (cs ++ s) = some ((), s) := by
  induction cs with
  | nil => rfl
  | cons c cs ih =>
    rw [List.cons_append, chars, bind_some (char_cons c _)]
    exact ih

theorem chars_of_ne (h : d ≠ c) (cs s : List Char) : chars (c :: cs) (d :: s) = none := by
  rw [chars, bind_none (char_of_ne h s)]

/-- all of a class is taken, up to a character that is none of it -/
theorem span_append {cs : List Char} (hcs : ∀ c ∈ cs, p c = true) (hstop : ∀ c ∈ s.head?, p c = false) :
    span p (cs ++ s) = some (cs, s) := by
  have htake : s.takeWhile p = [] ∧ s.dropWhile p = s := by
    cases s with
    | nil => exact ⟨rfl, rfl⟩
    | cons c s => simp [hstop c rfl]
  rw [span, List.takeWhile_append_of_pos hcs, List.dropWhile_append_of_pos hcs, htake.1, htake.2, List.append_nil]

end MetricSurvey.Scan

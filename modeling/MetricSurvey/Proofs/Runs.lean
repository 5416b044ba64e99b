/-
Runs: a machine that handles inputs one after another, and what it puts out, in order.

The machines of this library are folds that carry the state and the outputs so far. `collect` is the same by recursion
on the inputs (`foldl_eq_collect`): a run of inputs in two parts is a run of the first part and then of the second
(`collect_append`), and what every step keeps every run keeps (`collect_invariant`). Something that was put out was put out
by the first part or by the second (`append_eq_append_cons`). What single steps bring about for good, a fold brings about
(`foldl_iff`), and nothing else (`foldl_unchanged`).
-/
import Mathlib.Tactic

namespace MetricSurvey

variable {σ ι ω : Type}

/-- handle inputs in order; the outputs are listed in order -/
def collect (step : σ → ι → σ × List ω) (s : σ) : List ι → σ × List ω
  | [] => (s, [])
  | i :: is => ((collect step (step s i).1 is).1, (step s i).2 ++ (collect step (step s i).1 is).2)

variable (step : σ → ι → σ × List ω)

@[simp] theorem collect_nil (s : σ) : collect step s [] = (s, []) := rfl

theorem collect_cons (s : σ) (i : ι) (is : List ι) : collect step s (i :: is) =
    ((collect step (step s i).1 is).1, (step s i).2 ++ (collect step (step s i).1 is).2) := rfl

theorem collect_append (s : σ) (is js : List ι) : collect step s (is ++ js) =
    ((collect step (collect step s is).1 js).1, (collect step s is).2 ++ (collect step (collect step s is).1 js).2) := by
  induction is generalizing s with
  | nil => rfl
  | cons i is ih => simp only [List.cons_append, collect_cons, ih, List.append_assoc]

theorem collect_snoc (s : σ) (is : List ι) (i : ι) : collect step s (is ++ [i]) =
    ((step (collect step s is).1 i).1, (collect step s is).2 ++ (step (collect step s is).1 i).2) := by
  simp [collect_append, collect_cons]

theorem foldl_eq_collect (s : σ) (is : List ι) :
    is.foldl (fun acc i => ((step acc.1 i).1, acc.2 ++ (step acc.1 i).2)) (s, []) = collect step s is := by
  suffices h : ∀ out, is.foldl (fun acc i => ((step acc.1 i).1, acc.2 ++ (step acc.1 i).2)) (s, out) =
      ((collect step s is).1, out ++ (collect step s is).2) from h []
  induction is generalizing s with
  | nil => simp
  | cons i is ih =>
    intro out
    rw [List.foldl_cons, ih, collect_cons, List.append_assoc]

/-- what stands in two lists put together stands in the first or in the second -/
theorem append_eq_append_cons {a b c d : List ω} {x : ω} (h : a ++ b = c ++ x :: d) :
    (∃ m, a = c ++ x :: m ∧ d = m ++ b) ∨ ∃ m, c = a ++ m ∧ b = m ++ x :: d := by
  rcases List.append_eq_append_iff.1 h with ⟨m, hc, hb⟩ | ⟨m, ha, hd⟩
  · exact Or.inr ⟨m, hc, hb⟩
  · cases m with
    | nil => exact Or.inr ⟨[], by simpa using ha.symm, hd.symm⟩
    | cons y m =>
      cases hd
      exact Or.inl ⟨m, ha, rfl⟩

/-- **What every step keeps, every run keeps.** -/
theorem collect_invariant {p : σ → Prop} (h : ∀ s i, p s → p (step s i).1) {s : σ} (hs : p s) (is : List ι) :
    p (collect step s is).1 := by
  induction is generalizing s with
  | nil => exact hs
  | cons i is ih => exact ih (h s i hs)

/-- what no step changes, a fold leaves as it is -/
theorem foldl_unchanged {f : σ → ι → σ} {g : σ → ω} (h : ∀ s i, g (f s i) = g s) (is : List ι) (s : σ) :
    g (is.foldl f s) = g s := by
  induction is generalizing s with
  | nil => rfl
  | cons i is ih => rw [List.foldl_cons, ih, h]

/-- what a step brings about, and no step undoes, holds after a fold if it held before or some step brought it about -/
theorem foldl_iff {f : σ → ι → σ} {p : σ → Prop} {q : ι → Prop} (h : ∀ s i, p (f s i) ↔ q i ∨ p s) (is : List ι)
    (s : σ) : p (is.foldl f s) ↔ (∃ i ∈ is, q i) ∨ p s := by
  induction is generalizing s with
  | nil => simp
  | cons i is ih => rw [List.foldl_cons, ih, h, ← or_assoc, List.exists_mem_cons_iff, or_comm (a := q i)]

end MetricSurvey

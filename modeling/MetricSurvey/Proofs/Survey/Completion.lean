/-
Completion: a survey that was opened is completed once, or is still open.

- `completion_balance`: at every point of every run, for every survey time, as many surveys were opened as were completed,
  and one more if a survey is open for that time. What comes late, twice or from nobody known (answers, removals, ends
  of sessions, timeouts) completes nothing.
- In the same theorem: whenever the aggregator is told that a survey is complete, it was told before that its time has
  begun, by the very tick that opened that survey, and was told of no other completion in between.

The balance of a run is the sum of the balances of its steps (`balance_step`). The order of the events follows by going
back along the run: `OpenedBy` names the tick that opened the survey which is open now.
-/
import MetricSurvey.Proofs.Survey.Steps

namespace MetricSurvey.Coordinator

open AggregatorEvent

variable {P : Type}

/-- at any point, as many surveys were opened as were completed or are open -/
theorem balance_run (is : List (Surroundings P × CoordinatorInput P)) (time : SurveyTime) :
    (new.opened is).count time = (completions (events (run new is).2)).count time
      + ((run new is).1.book.get? time).isSome.toNat := by
  induction is using List.reverseRecOn with
  | nil => simp [opened, new]
  | append_singleton is i ih =>
    have hstep := balance_step (wellFormed_run_new is) i.1 i.2 time
    rw [opened_append, run_snoc, List.count_append, events_append, completions_append, List.count_append, ih]
    by_cases ho : (run new is).1.opens i.2 = some time
    · obtain ⟨-, -, hb⟩ := opens_eq_some.1 ho
      rw [asked?, if_pos ho] at hstep
      simp only [opened, ho, hb, Option.toList_some, List.append_nil, List.count_singleton_self, Option.isSome_some,
        Option.isSome_none, Bool.toNat_true, Bool.toNat_false] at hstep ⊢
      omega
    · rw [asked?_of_not_opens ho] at hstep
      have hn : ((run new is).1.opened [i]).count time = 0 := by
        rw [List.count_eq_zero]
        simpa [opened] using ho
      dsimp only
      omega

/-- the tick that opened the survey for `time` which is open when the aggregator has been told these events: it told
that `time` has begun, and no completion followed -/
def OpenedBy (is : List (Surroundings P × CoordinatorInput P)) (told : List (AggregatorEvent Binary64))
    (time : SurveyTime) : Prop :=
  ∃ before s after between, is = before ++ (s, .tick time) :: after ∧
    (run new before).1.opens (.tick time) = some time ∧
    (events (step s (run new before).1 (.tick time)).2).head? = some (.opened time) ∧
    told = events (run new before).2 ++ .opened time :: between ∧ time ∉ completions between

theorem OpenedBy.append {is : List (Surroundings P × CoordinatorInput P)} {told : List (AggregatorEvent Binary64)}
    {time : SurveyTime} (h : OpenedBy is told time) (js : List (Surroundings P × CoordinatorInput P))
    {more : List (AggregatorEvent Binary64)} (hm : time ∉ completions more) :
    OpenedBy (is ++ js) (told ++ more) time := by
  obtain ⟨before, s, after, between, rfl, ho, hh, rfl, hb⟩ := h
  refine ⟨before, s, after ++ js, between ++ more, by simp, ho, hh, by simp, ?_⟩
  rw [completions_append, List.mem_append, not_or]
  exact ⟨hb, hm⟩

/-- what a tick that opens a survey tells first -/
theorem head_events_step {c : Coordinator P} {i : CoordinatorInput P} {time : SurveyTime} (h : c.opens i = some time)
    (s : Surroundings P) : ∃ rest, events (step s c i).2 = .opened time :: rest := by
  obtain ⟨rfl, -⟩ := opens_eq_some.1 h
  exact ⟨_, events_tick_of_opens h s⟩

theorem OpenedBy.now {is : List (Surroundings P × CoordinatorInput P)} {i : CoordinatorInput P} {time : SurveyTime}
    (h : (run new is).1.opens i = some time) (s : Surroundings P) {between rest : List (AggregatorEvent Binary64)}
    (he : events (step s (run new is).1 i).2 = .opened time :: between ++ rest) (hb : time ∉ completions between) :
    OpenedBy (is ++ [(s, i)]) (events (run new is).2 ++ .opened time :: between) time := by
  obtain ⟨rfl, -⟩ := opens_eq_some.1 h
  exact ⟨is, s, [], between, rfl, h, by rw [he]; rfl, rfl, hb⟩

/-- a step that completes a survey, or leaves it in the book, had one to ask -/
theorem isSome_asked? {c : Coordinator P} (hc : c.book.WellFormed) {s : Surroundings P} {i : CoordinatorInput P}
    {time : SurveyTime}
    (h : time ∈ completions (events (step s c i).2) ∨ ((step s c i).1.book.get? time).isSome = true) :
    (c.asked? s i time).isSome = true := by
  have hstep := balance_step hc s i time
  by_contra hn
  rw [Bool.not_eq_true] at hn
  rw [hn, Bool.toNat_false, eq_comm, Nat.add_eq_zero_iff, List.count_eq_zero] at hstep
  rcases h with h | h
  · exact hstep.1 h
  · rw [h] at hstep
    exact absurd hstep.2 (by decide)

/-- a step completes a survey at most once, and only if it takes it out of the book -/
theorem count_completions_step {c : Coordinator P} (hc : c.book.WellFormed) (s : Surroundings P) (i : CoordinatorInput P)
    (time : SurveyTime) :
    (completions (events (step s c i).2)).count time + ((step s c i).1.book.get? time).isSome.toNat ≤ 1 := by
  rw [← balance_step hc s i time]
  exact Bool.toNat_le _

/-- one more step, up to something that it tells after the beginning of a survey that it opens -/
theorem openedBy_snoc {is : List (Surroundings P × CoordinatorInput P)} {time : SurveyTime}
    (hopen : ((run new is).1.book.get? time).isSome = true → OpenedBy is (events (run new is).2) time)
    {s : Surroundings P} {i : CoordinatorInput P} {pre rest : List (AggregatorEvent Binary64)}
    (he : events (step s (run new is).1 i).2 = pre ++ rest) (hp : time ∉ completions pre)
    (hask : ((run new is).1.asked? s i time).isSome = true) (hrest : rest.head? ≠ some (.opened time)) :
    OpenedBy (is ++ [(s, i)]) (events (run new is).2 ++ pre) time := by
  by_cases ho : (run new is).1.opens i = some time
  · obtain ⟨more, hm⟩ := head_events_step ho s
    rw [he] at hm
    cases pre with
    | nil =>
      rw [List.nil_append] at hm
      exact absurd (by rw [hm]; rfl) hrest
    | cons e pre =>
      cases hm
      exact OpenedBy.now ho s he (by simpa [completed?] using hp)
  · rw [asked?_of_not_opens ho] at hask
    exact (hopen hask).append [(s, i)] hp

theorem openedBy_run (is : List (Surroundings P × CoordinatorInput P)) (time : SurveyTime) :
    (((run new is).1.book.get? time).isSome = true → OpenedBy is (events (run new is).2) time) ∧
      ∀ pre post, events (run new is).2 = pre ++ .completed time :: post → OpenedBy is pre time := by
  induction is using List.reverseRecOn with
  | nil => exact ⟨fun h => by simp [new] at h, fun pre post h => by simp at h⟩
  | append_singleton is i ih =>
    obtain ⟨ihopen, ihdone⟩ := ih
    have hc := wellFormed_run_new is
    have hone := count_completions_step hc i.1 i.2 time
    rw [run_snoc, events_append]
    constructor
    · intro h
      have hnone : time ∉ completions (events (step i.1 (run new is).1 i.2).2) := by
        rw [← List.count_eq_zero]
        dsimp only at h
        rw [h, Bool.toNat_true] at hone
        omega
      exact openedBy_snoc ihopen (List.append_nil _).symm hnone (isSome_asked? hc (Or.inr h)) (by simp)
    · intro pre post h
      rcases append_eq_append_cons h with ⟨mid, he, -⟩ | ⟨mid, rfl, he⟩
      · -- told before this step
        have hnone : time ∉ completions ([] : List (AggregatorEvent Binary64)) := List.not_mem_nil
        have hopened := (ihdone pre mid he).append [i] hnone
        rwa [List.append_nil] at hopened
      · -- told in this step, as the only completion of this time
        have hcount : (completions (events (step i.1 (run new is).1 i.2).2)).count time =
            (completions mid).count time + 1 + (completions post).count time := by
          simp only [he, completions_append, completions_cons, completed?, Option.toList_some, List.count_append,
            List.count_singleton_self, Nat.add_assoc]
        have hask : time ∈ completions (events (step i.1 (run new is).1 i.2).2) := by
          rw [← List.count_pos_iff]
          omega
        refine openedBy_snoc ihopen he ?_ (isSome_asked? hc (Or.inl hask)) (by simp)
        rw [← List.count_eq_zero]
        omega

/-- **Completion balance.** At every point of every run and for every survey time, the surveys opened are those completed
and the one that is still open, if there is one. Every completion that the aggregator is told of comes after the beginning
that was told by the tick which opened that survey, and is the first completion since. So a time is completed no more
often than it is ticked. -/
theorem completion_balance (is : List (Surroundings P × CoordinatorInput P)) (time : SurveyTime) :
    (new.opened is).count time = (completions (events (run new is).2)).count time
        + (if ((run new is).1.book.get? time).isSome then 1 else 0) ∧
    (∀ pre post, events (run new is).2 = pre ++ .completed time :: post → OpenedBy is pre time) ∧
    (completions (events (run new is).2)).count time ≤ (ticks is).count time := by
  have hbal := balance_run is time
  refine ⟨?_, (openedBy_run is time).2, ?_⟩
  · rw [hbal]
    congr 1
    cases ((run new is).1.book.get? time).isSome <;> rfl
  · have := (opened_sublist new is).count_le time
    omega

end MetricSurvey.Coordinator

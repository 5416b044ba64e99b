/-
What is owed: a survey is open exactly while somebody it asked still owes an answer.

- `get?_run`: a survey that is not opened again is, after any run, what the run has left of it: nothing if it timed out or
  if everybody is settled, and else the same survey without the settled.
- `get?_run_opened`: the same for the survey that a tick opened.
- `contains_clients_run`: who is not settled is still registered.
- `open_iff_owed`: the survey opened by a tick, at any later point, by what was handled since.
- `open_iff_owed_replaced`: the same for a run with a replaced client, a request that is not taken, and a second survey.
-/
import MetricSurvey.Proofs.Survey.Steps

namespace MetricSurvey.Coordinator

variable {P : Type} {c : Coordinator P}

/-- the clients that owe nothing more for a survey time because of these inputs: their answer for it was handled, or they
were removed, or their session ended and had not been replaced, or a request to them was not taken -/
def settledIn (time : SurveyTime) (c : Coordinator P) : List (Surroundings P × CoordinatorInput P) → List ClientId
  | [] => []
  | i :: is => c.settled i.1 i.2 time ++ settledIn time (step i.1 c i.2).1 is

/-- **What a run leaves of a survey** that it does not open again. -/
theorem get?_run (hc : c.book.WellFormed) {time : SurveyTime} {is : List (Surroundings P × CoordinatorInput P)}
    (hre : time ∉ c.opened is) : (run c is).1.book.get? time =
      if ∃ i ∈ is, i.2.timeout? = some time then none
      else (c.book.get? time).bind fun sv => sv.remaining? (c.settledIn time is) := by
  induction is generalizing c with
  | nil =>
    rw [if_neg (by simp)]
    exact (hc.bind_remaining?_nil time).symm
  | cons i is ih =>
    rw [opened, List.mem_append, not_or] at hre
    have hstep := get?_step hc i.1 i.2 time
    rw [asked?_of_not_opens (by simpa using hre.1)] at hstep
    rw [run_cons]
    dsimp only
    rw [ih (wellFormed_step hc i.1 i.2) hre.2, hstep]
    simp only [List.exists_mem_cons_iff]
    by_cases ht : i.2.timeout? = some time
    · rw [if_pos ht, if_pos (Or.inl ht)]
      split_ifs <;> rfl
    · rw [if_neg ht]
      by_cases hl : ∃ j ∈ is, j.2.timeout? = some time
      · rw [if_pos hl, if_pos (Or.inr hl)]
      · rw [if_neg hl, if_neg (not_or.2 ⟨ht, hl⟩), Option.bind_assoc]
        congr 1
        funext sv
        exact sv.remaining?_append _ _

/-- who is not settled stays registered, but for a shutdown -/
theorem contains_clients_run {time : SurveyTime} {is : List (Surroundings P × CoordinatorInput P)}
    (hs : ∀ i ∈ is, i.2 ≠ .shutdown) {id : ClientId} (hid : c.clients.contains id = true)
    (hset : id ∉ c.settledIn time is) : (run c is).1.clients.contains id = true := by
  induction is generalizing c with
  | nil => exact hid
  | cons i is ih =>
    rw [settledIn, List.mem_append, not_or] at hset
    rw [run_cons]
    refine ih (fun j hj => hs j (List.mem_cons_of_mem i hj)) ?_ hset.2
    refine contains_clients_step (hs i List.mem_cons_self) hid fun hd => hset.1 ?_
    exact List.mem_append_right _ hd

/-- an input that settles nobody who owes an answer changes nothing -/
theorem get?_step_of_not_owes (hc : c.book.WellFormed) {time : SurveyTime} {s : Surroundings P}
    {i : CoordinatorInput P} (ht : i.timeout? ≠ some time) (ho : c.opens i ≠ some time)
    (h : ∀ sv, c.book.get? time = some sv → ∀ id ∈ c.settled s i time, sv.owes id = false) :
    (step s c i).1.book.get? time = c.book.get? time := by
  rw [get?_step hc, if_neg ht, asked?_of_not_opens ho]
  cases hsv : c.book.get? time with
  | none => rfl
  | some sv => exact Survey.remaining?_of_not_owes (hc.waiting time sv hsv) (h sv hsv)

/-- what later inputs have left of the survey that a tick opened -/
theorem get?_run_opened {before after : List (Surroundings P × CoordinatorInput P)} {s : Surroundings P}
    {time : SurveyTime} (hopen : (run new before).1.opens (.tick time) = some time)
    (hlast : time ∉ (run new (before ++ [(s, .tick time)])).1.opened after) :
    (run new (before ++ (s, .tick time) :: after)).1.book.get? time =
      if ∃ i ∈ after, i.2.timeout? = some time then none
      else ((run new before).1.survey s time).remaining?
        ((run new before).1.settledIn time ((s, .tick time) :: after)) := by
  have hwf := wellFormed_run_new before
  have htick : (CoordinatorInput.tick time : CoordinatorInput P).timeout? ≠ some time := by
    simp [CoordinatorInput.timeout?]
  rw [run_snoc] at hlast
  rw [run_append, run_cons]
  dsimp only
  rw [get?_run (wellFormed_step hwf s (.tick time)) hlast, get?_step hwf, asked?, if_pos hopen, if_neg htick,
    Option.bind_some]
  split_ifs
  · rfl
  · exact Survey.remaining?_append _ _ _

/-- **A survey is open exactly while somebody still owes an answer.** Take the survey that a tick opened, at any later
point before it is opened again.
- It is open if and only if it has not timed out and somebody whom it asked is not settled.
- While it is open it is that very survey, and waits for exactly those whom it asked and who are not settled.
- They are all registered, unless there was a shutdown.
- Whatever neither times it out nor settles anybody whom it asked leaves it as it is. -/
theorem open_iff_owed {before after : List (Surroundings P × CoordinatorInput P)} {s : Surroundings P}
    {time : SurveyTime} (hopen : (run new before).1.opens (.tick time) = some time)
    (hlast : time ∉ (run new (before ++ [(s, .tick time)])).1.opened after) :
    let asked := (run new before).1.clients.keys
    let settled := (run new before).1.settledIn time ((s, .tick time) :: after)
    let c := (run new (before ++ (s, .tick time) :: after)).1
    ((c.book.get? time).isSome = true ↔
      (∀ i ∈ after, i.2.timeout? ≠ some time) ∧ ∃ id ∈ asked, id ∉ settled) ∧
    (∀ sv, c.book.get? time = some sv → sv.time = time ∧ sv.started = s.now ∧ sv.asked = asked.length ∧
      sv.outstanding.keys = asked.filter (fun id => decide (id ∉ settled)) ∧ ∃ id ∈ asked, id ∉ settled) ∧
    ((∀ i ∈ after, i.2 ≠ .shutdown) → ∀ id ∈ asked, id ∉ settled → c.clients.contains id = true) ∧
    (∀ s' i, i.timeout? ≠ some time → c.opens i ≠ some time → (∀ id ∈ asked, id ∉ c.settled s' i time) →
      (step s' c i).1.book.get? time = c.book.get? time) := by
  intro asked settled c
  set c₀ := (run new before).1 with hc₀
  have hget : c.book.get? time = if ∃ i ∈ after, i.2.timeout? = some time then none
      else (c₀.survey s time).remaining? settled := get?_run_opened hopen hlast
  have howes : ∀ id, (c₀.survey s time).owes id = true ↔ id ∈ asked := Survey.owes_new time asked s.now
  have hsome : ∀ sv, c.book.get? time = some sv →
      (∀ i ∈ after, i.2.timeout? ≠ some time) ∧ (c₀.survey s time).remaining? settled = some sv := by
    intro sv hsv
    rw [hget] at hsv
    split_ifs at hsv with ht
    exact ⟨fun i hi he => ht ⟨i, hi, he⟩, hsv⟩
  refine ⟨⟨fun h => ?_, fun h => ?_⟩, fun sv hsv => ?_, fun hsd id hid hns => ?_, fun s' i ht ho hi => ?_⟩
  · obtain ⟨sv, hsv⟩ := Option.isSome_iff_exists.1 h
    obtain ⟨ht, hr⟩ := hsome sv hsv
    obtain ⟨id, hid, hns⟩ := Survey.isSome_remaining?.1 (by rw [hr]; rfl)
    exact ⟨ht, id, (howes id).1 hid, hns⟩
  · obtain ⟨ht, id, hid, hns⟩ := h
    rw [hget, if_neg (by push Not; exact ht), Survey.isSome_remaining?]
    exact ⟨id, (howes id).2 hid, hns⟩
  · obtain ⟨-, hr⟩ := hsome sv hsv
    obtain ⟨id, hid, hns⟩ := Survey.isSome_remaining?.1 (by rw [hr]; rfl)
    obtain ⟨rfl, -⟩ := Survey.remaining?_eq_some.1 hr
    refine ⟨Survey.time_without _ _, Survey.started_without _ _, ?_, ?_, id, (howes id).1 hid, hns⟩
    · rw [Survey.asked_without]
      show (Table.ofList (asked.map fun id => (id, ()))).size = asked.length
      rw [Table.size_eq, Table.keys_ofKeys]
    · rw [Survey.outstanding_without, Table.keys_filter]
      congr 1
      exact Table.keys_ofKeys _
  · have hset : id ∉ c₀.settledIn time ((s, .tick time) :: after) := hns
    have hin := contains_clients_run (by simpa using hsd) (Table.contains_iff.2 hid) hset
    have hc : c = (run c₀ ((s, .tick time) :: after)).1 := by simp only [c, run_append, hc₀]
    rw [hc]
    exact hin
  · refine get?_step_of_not_owes (wellFormed_run_new _) ht ho fun sv hsv id hid => ?_
    obtain ⟨rfl, -⟩ := Survey.remaining?_eq_some.1 (hsome sv hsv).2
    rw [← Bool.not_eq_true, Survey.owes_without, howes]
    exact fun h => hi id h.2 hid

/-- Client 1 is replaced before the tick, so the end of its old session settles nobody; client 3 does not take the
request and is settled by the tick; client 2 answers. A second survey is opened meanwhile. Client 1 is still owed for. -/
theorem open_iff_owed_replaced :
    let now : Surroundings Nat := ⟨⟨0⟩, fun peer => decide (peer ≠ 30)⟩
    let before : List (Surroundings Nat × CoordinatorInput Nat) :=
      [(now, .register 1 10), (now, .register 2 20), (now, .register 3 30), (now, .register 1 11)]
    let after : List (Surroundings Nat × CoordinatorInput Nat) :=
      [(now, .sessionEnded 1), (now, .tick 1010), (now, .complete 2 1000), (now, .complete 2 1000)]
    (run new before).1.opens (.tick 1000) = some 1000 ∧
    (1000 : SurveyTime) ∉ (run new (before ++ [(now, .tick 1000)])).1.opened after ∧
    (run new before).1.clients.keys = [1, 2, 3] ∧
    (run new before).1.settledIn 1000 ((now, .tick 1000) :: after) = [3, 2, 2] ∧
    ((run new (before ++ (now, .tick 1000) :: after)).1.book.get? 1000).isSome = true := by
  intro now before after
  have hopen : (run new before).1.opens (.tick 1000) = some 1000 := by decide
  have hlast : (1000 : SurveyTime) ∉ (run new (before ++ [(now, .tick 1000)])).1.opened after := by decide
  have hset : (run new before).1.settledIn 1000 ((now, .tick 1000) :: after) = [3, 2, 2] := by decide
  refine ⟨hopen, hlast, by decide, hset, ?_⟩
  exact (open_iff_owed hopen hlast).1.2 ⟨by decide, 1, by decide, by rw [hset]; decide⟩

end MetricSurvey.Coordinator

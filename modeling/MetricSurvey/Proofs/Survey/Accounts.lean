/-
Accounts: what became of everybody whom a survey asked, and of those who did not answer in time.

- `asked_perm_step`, `asked_perm_run`: whoever was asked has answered, was dropped, or owes an answer, and only one of these.
- `timeouts_step`, `timeouts_run`: what was reported of timeouts and what is still to be reported are those who owed an
  answer to a survey when it timed out.
- `answers_and_timeouts_accounted`: both at every point of every run, with what the aggregator is told of them.

A step settles the accounts of one survey time at once: it splits those who owed an answer into those who answer, those who
are dropped, and those who owe an answer after it. Runs follow by putting the parts of all steps together.
-/
import MetricSurvey.Proofs.Number.Binary64
import MetricSurvey.Proofs.Survey.Reports

namespace MetricSurvey

namespace Coordinator

open AggregatorEvent

variable {P : Type} {c : Coordinator P}

/-! ## Who was asked -/

/-- who owes an answer to a survey, if there is one -/
def owing (o : Option Survey) : List ClientId := o.elim [] fun sv => sv.outstanding.keys

theorem mem_owing {o : Option Survey} {id : ClientId} : id ∈ owing o ↔ o.any (fun sv => sv.owes id) = true := by
  cases o with
  | none => simp [owing]
  | some sv => exact Table.contains_iff.symm

theorem nodup_owing (o : Option Survey) : (owing o).Nodup := by
  cases o with
  | none => exact List.nodup_nil
  | some sv => exact Table.nodup_keys _

theorem owing_remaining? (sv : Survey) (ids : List ClientId) :
    owing (sv.remaining? ids) = (owing (some sv)).filter fun id => decide (id ∉ ids) := by
  have hkeys : (sv.without ids).outstanding.keys = (owing (some sv)).filter fun id => decide (id ∉ ids) := by
    rw [Survey.outstanding_without, Table.keys_filter]
    rfl
  cases hr : sv.remaining? ids with
  | some sv' =>
    obtain ⟨rfl, -⟩ := Survey.remaining?_eq_some.1 hr
    exact hkeys
  | none =>
    refine (List.filter_eq_nil_iff.2 ?_).symm
    intro id hid hn
    exact of_decide_eq_true hn (Survey.remaining?_eq_none.1 hr id (mem_owing.1 hid))

theorem nodup_settled (s : Surroundings P) (c : Coordinator P) (i : CoordinatorInput P) (time : SurveyTime) :
    (c.settled s i time).Nodup := by
  cases i with
  | sessionEnded id =>
    simp only [settled, answering, dropped]
    split_ifs <;> simp
  | removeClient id => simp [settled, answering, dropped]
  | tick t =>
    simp only [settled, answering, dropped]
    split_ifs
    · exact (c.clients.nodup_keys).sublist (List.filter_sublist.map Prod.fst)
    · simp
  | complete id t =>
    simp only [settled, answering, dropped]
    split_ifs <;> simp
  | _ => simp [settled, answering, dropped]

/-- the client that an input settles by an answer which is taken -/
def answeredBy (time : SurveyTime) (s : Surroundings P) (c : Coordinator P) (i : CoordinatorInput P) : List ClientId :=
  ((c.answer? s i).toList.filter fun a => a.time = time).map Answer.client

/-- the clients whom an input drops while they owe an answer for this time -/
def purgedBy (time : SurveyTime) (s : Surroundings P) (c : Coordinator P) (i : CoordinatorInput P) : List ClientId :=
  (c.dropped s i).filter fun id => (c.asked? s i time).any fun sv => sv.owes id

theorem answeredBy_eq (time : SurveyTime) (s : Surroundings P) (c : Coordinator P) (i : CoordinatorInput P) :
    answeredBy time s c i = (answering time i).filter fun id => (c.asked? s i time).any fun sv => sv.owes id := by
  cases i with
  | complete id t =>
    rw [answeredBy, answer?_complete, answering, asked?_of_not_opens (by simp [opens])]
    by_cases ht : time = t
    · subst ht
      cases hs : c.book.get? time with
      | none => simp
      | some sv => cases ho : sv.owes id <;> simp [Option.filter, ho]
    · cases hs : (c.book.get? t).filter fun sv => sv.owes id with
      | none => simp [ht]
      | some sv => simp [ht, Ne.symm ht]
  | _ => rfl

/-- who owes an answer after a step: nobody if the survey timed out, and else all that are not settled -/
theorem owing_step (hc : c.book.WellFormed) (s : Surroundings P) {i : CoordinatorInput P} {time : SurveyTime}
    (ht : i.timeout? ≠ some time) : owing ((step s c i).1.book.get? time) =
      (owing (c.asked? s i time)).filter fun id => decide (id ∉ c.settled s i time) := by
  rw [get?_step hc, if_neg ht]
  cases c.asked? s i time with
  | none => rfl
  | some sv => exact owing_remaining? sv _

/-- **What becomes of those who owe an answer in one step.** -/
theorem asked_perm_step (hc : c.book.WellFormed) (s : Surroundings P) {i : CoordinatorInput P} {time : SurveyTime}
    (ht : i.timeout? ≠ some time) : (owing (c.asked? s i time)).Perm
      (answeredBy time s c i ++ purgedBy time s c i ++ owing ((step s c i).1.book.get? time)) := by
  rw [owing_step hc s ht, answeredBy_eq, purgedBy, ← List.filter_append]
  have hset : (owing (c.asked? s i time)).filter (fun id => decide (id ∈ c.settled s i time)) |>.Perm
      ((c.settled s i time).filter fun id => (c.asked? s i time).any fun sv => sv.owes id) := by
    rw [List.perm_ext_iff_of_nodup ((nodup_owing _).filter _) ((nodup_settled s c i time).filter _)]
    intro id
    rw [List.mem_filter, List.mem_filter, mem_owing, decide_eq_true_eq, and_comm]
  have hsplit := List.filter_append_perm (fun id => decide (id ∈ c.settled s i time)) (owing (c.asked? s i time))
  refine hsplit.symm.trans ?_
  simp only [decide_not]
  exact hset.append_right _

/-- the clients whose answer for this time a run takes -/
def answered (time : SurveyTime) (c : Coordinator P) (is : List (Surroundings P × CoordinatorInput P)) :
    List ClientId :=
  ((c.answers is).filter fun a => a.time = time).map Answer.client

/-- the clients that a run drops while they owe an answer for this time -/
def purged (time : SurveyTime) (c : Coordinator P) : List (Surroundings P × CoordinatorInput P) → List ClientId
  | [] => []
  | i :: is => purgedBy time i.1 c i.2 ++ purged time (step i.1 c i.2).1 is

/-- the clients that owe an answer for this time when a run is over, or when its first timeout comes -/
def unanswered (time : SurveyTime) (c : Coordinator P) : List (Surroundings P × CoordinatorInput P) → List ClientId
  | [] => owing (c.book.get? time)
  | i :: is => if i.2.timeout? = some time then owing (c.book.get? time) else unanswered time (step i.1 c i.2).1 is

theorem answered_cons (time : SurveyTime) (c : Coordinator P) (i : Surroundings P × CoordinatorInput P)
    (is : List (Surroundings P × CoordinatorInput P)) :
    answered time c (i :: is) = answeredBy time i.1 c i.2 ++ answered time (step i.1 c i.2).1 is := by
  simp only [answered, answers, List.filter_append, List.map_append, answeredBy]

theorem perm_regroup {α : Type} {a b x x' y y' z : List α} (h : a.Perm (x ++ y ++ b)) (h' : b.Perm (x' ++ y' ++ z)) :
    a.Perm (x ++ x' ++ (y ++ y') ++ z) := by
  classical
  rw [List.perm_iff_count] at h h' ⊢
  intro v
  have hv := h v
  have hv' := h' v
  simp only [List.count_append] at hv hv' ⊢
  omega

/-- those who owe an answer to a survey that is not opened again -/
theorem owing_perm_run (hc : c.book.WellFormed) {time : SurveyTime} {is : List (Surroundings P × CoordinatorInput P)}
    (hre : time ∉ c.opened is) : (owing (c.book.get? time)).Perm
      (answered time c is ++ purged time c is ++ unanswered time c is) := by
  induction is generalizing c with
  | nil => exact List.Perm.refl _
  | cons i is ih =>
    rw [opened, List.mem_append, not_or] at hre
    have hrest := ih (wellFormed_step hc i.1 i.2) hre.2
    have hask : c.asked? i.1 i.2 time = c.book.get? time := asked?_of_not_opens (by simpa using hre.1) i.1
    rw [answered_cons, purged]
    by_cases ht : i.2.timeout? = some time
    · -- the survey is gone, so nobody owes it anything afterwards
      have hgone : (step i.1 c i.2).1.book.get? time = none := by rw [get?_step hc, if_pos ht]
      rw [hgone] at hrest
      have hnil := List.nil_perm.1 hrest
      rw [List.append_assoc, List.append_eq_nil_iff, List.append_eq_nil_iff] at hnil
      obtain ⟨ha, hp, -⟩ := hnil
      have hi : i.2 = .timeout time := by
        cases hi : i.2 <;> simp_all [CoordinatorInput.timeout?]
      rw [ha, hp, hi, unanswered, hi]
      simp [answeredBy, answer?, purgedBy, dropped, CoordinatorInput.timeout?]
    · rw [unanswered, if_neg ht, ← hask]
      exact perm_regroup (asked_perm_step hc i.1 ht) hrest

/-- **What becomes of those whom a survey asked.** They have answered, were dropped, or owe an answer, each of them
once. -/
theorem asked_perm_run (hc : c.book.WellFormed) {s : Surroundings P} {time : SurveyTime}
    (ho : c.opens (.tick time) = some time) {is : List (Surroundings P × CoordinatorInput P)}
    (hre : time ∉ (step s c (.tick time)).1.opened is) : c.clients.keys.Perm
      (answered time c ((s, .tick time) :: is) ++ purged time c ((s, .tick time) :: is)
        ++ unanswered time c ((s, .tick time) :: is)) := by
  have hask : owing (c.asked? s (.tick time) time) = c.clients.keys := by
    rw [asked?, if_pos ho]
    exact Table.keys_ofKeys c.clients
  have ht : (CoordinatorInput.tick time : CoordinatorInput P).timeout? ≠ some time := by simp [CoordinatorInput.timeout?]
  rw [answered_cons, purged, unanswered, if_neg ht, ← hask]
  exact perm_regroup (asked_perm_step hc s ht) (owing_perm_run (wellFormed_step hc s _) hre)

/-! ## Timeouts -/

/-- the surveys that a run closes by their timeouts, as they were then -/
def timedOut (c : Coordinator P) : List (Surroundings P × CoordinatorInput P) → List Survey
  | [] => []
  | i :: is => (i.2.timeout?.bind c.book.get?).toList ++ timedOut (step i.1 c i.2).1 is

theorem unreportedTimeouts_removeClients (c : Coordinator P) (ids : List ClientId) :
    (c.removeClients ids).1.unreportedTimeouts = c.unreportedTimeouts := by
  induction ids generalizing c with
  | nil => rfl
  | cons id ids ih =>
    rw [removeClients_cons]
    exact ih _

/-- the balance of timeouts in one step -/
theorem timeouts_step (s : Surroundings P) (c : Coordinator P) (i : CoordinatorInput P) :
    ((i.tick?.filter fun _ => decide (0 < c.unreportedTimeouts)).toList.map fun _ => c.unreportedTimeouts).sum
        + (step s c i).1.unreportedTimeouts =
      c.unreportedTimeouts + ((i.timeout?.bind c.book.get?).toList.map fun sv => sv.outstanding.size).sum := by
  cases i with
  | register id peer =>
    simp only [step, register]
    split <;> simp [CoordinatorInput.tick?, CoordinatorInput.timeout?]
  | setTags id tags => simp [step, setTags, CoordinatorInput.tick?, CoordinatorInput.timeout?]
  | sessionEnded id =>
    simp only [step, sessionEnded]
    split <;> simp [removeClient, CoordinatorInput.tick?, CoordinatorInput.timeout?]
  | removeClient id => simp [step, removeClient, CoordinatorInput.tick?, CoordinatorInput.timeout?]
  | tick time =>
    have hzero : (tick s c time).1.unreportedTimeouts = 0 := by
      cases ho : c.opens (.tick time) with
      | none => rw [tick_of_opens_none ho]
      | some t =>
        obtain rfl : t = time := (opens_tick_eq_some.1 ho).1
        rw [tick_of_opens ho]
        exact unreportedTimeouts_removeClients _ _
    simp only [step, hzero, CoordinatorInput.tick?, CoordinatorInput.timeout?, Option.bind_none, Option.toList_none,
      List.map_nil, List.sum_nil, Nat.add_zero]
    cases hn : c.unreportedTimeouts <;> simp [Option.filter]
  | complete id time =>
    have : (complete s.now c id time).1.unreportedTimeouts = c.unreportedTimeouts := by
      unfold complete
      split <;> rfl
    simp [step, this, CoordinatorInput.tick?, CoordinatorInput.timeout?]
  | timeout time =>
    cases h : c.book.get? time with
    | none => simp [step, timeout_of_none h, CoordinatorInput.tick?, CoordinatorInput.timeout?, h]
    | some sv => simp [step, timeout_of_some h, CoordinatorInput.tick?, CoordinatorInput.timeout?, h]
  | shutdown => simp [step, shutdown, CoordinatorInput.tick?, CoordinatorInput.timeout?]

/-- **The balance of timeouts**: what was reported and what is still to be reported are the clients that owed an answer to
a survey when it timed out. -/
theorem timeouts_run (c : Coordinator P) (is : List (Surroundings P × CoordinatorInput P)) :
    ((c.reportedTimeouts is).map Prod.snd).sum + (run c is).1.unreportedTimeouts =
      c.unreportedTimeouts + ((c.timedOut is).map fun sv => sv.outstanding.size).sum := by
  induction is generalizing c with
  | nil => simp [reportedTimeouts, timedOut]
  | cons i is ih =>
    have hstep := timeouts_step i.1 c i.2
    have hrest := ih (step i.1 c i.2).1
    simp only [reportedTimeouts, timedOut, run_cons, List.map_append, List.sum_append, List.map_map, Function.comp_def]
    omega

/-! ## The accounts -/

/-- **Everything is accounted for.** At every point of every run:
- whoever was asked by a survey, which was not opened again since, has answered, was dropped while an answer was owed, or
  owes an answer still (or did so when the survey timed out), and only one of these;
- one latency is told for every answer that is taken, in their order; it is told right when the answer is taken, before the
  completion that the answer may bring;
- the counts of timeouts that are told, and the one that is still to be told, sum up to the clients that owed an answer to a
  survey when it timed out, and so do the numbers that are told, as long as each count is one that a number holds exactly;
- counts of timeouts and of clients are never late: whatever the sessions put into the tray of the aggregator, and wherever
  they put it, the aggregator finds the snapshot of their time open. -/
theorem answers_and_timeouts_accounted (is : List (Surroundings P × CoordinatorInput P)) :
    let told := events (run new is).2
    (∀ before s time after, is = before ++ (s, .tick time) :: after →
      (run new before).1.opens (.tick time) = some time →
      time ∉ (run new (before ++ [(s, .tick time)])).1.opened after →
      let c := (run new before).1
      let since := (s, .tick time) :: after
      c.clients.keys.Perm (answered time c since ++ purged time c since ++ unanswered time c since) ∧
      (c.survey s time).asked =
        (answered time c since).length + (purged time c since).length + (unanswered time c since).length) ∧
    (reports told).flatMap (Report.sampled latencyMetric) =
      (new.answers is).map (fun a => (a.time, .ofNat a.latency.millis)) ∧
    (∀ before s i after a, is = before ++ (s, i) :: after → (run new before).1.answer? s i = some a →
      events (run new before).2 ++ .fragment a.report :: (if a.last then [.completed a.time] else []) <+: told) ∧
    (reports told).flatMap (Report.counted timeoutsMetric) =
      (new.reportedTimeouts is).map (fun p => (p.1, .ofNat p.2)) ∧
    ((new.reportedTimeouts is).map Prod.snd).sum + (run new is).1.unreportedTimeouts =
      ((new.timedOut is).map fun sv => sv.outstanding.size).sum ∧
    ((∀ p ∈ new.reportedTimeouts is, p.2 < 2 ^ 53) →
      (((reports told).flatMap (Report.counted timeoutsMetric)).map fun p => p.2.value).sum
          + (run new is).1.unreportedTimeouts =
        ((new.timedOut is).map fun sv => (sv.outstanding.size : ℚ)).sum) ∧
    (∀ q₁ r q₂, Post.own (q₁ ++ .coordinator (.fragment r) :: q₂) <+: told →
      r.counted timeoutsMetric ≠ [] ∨ r.counted clientsMetric ≠ [] →
      let a := (Aggregator.run .new (q₁.map Post.event)).1
      a.openTime = some r.time ∧ (a.step (.fragment r)).1.late = a.late) := by
  intro told
  have hsum := timeouts_run new is
  rw [show (new : Coordinator P).unreportedTimeouts = 0 from rfl, Nat.zero_add] at hsum
  refine ⟨?_, sampled_run new is, ?_, counted_run new is, hsum, ?_, ?_⟩
  · rintro before s time after rfl ho hre c since
    rw [run_snoc] at hre
    have hperm := asked_perm_run (wellFormed_run_new before) ho hre
    refine ⟨hperm, ?_⟩
    have hasked : (c.survey s time).asked = c.clients.keys.length := by
      show (Table.ofList (c.clients.keys.map fun id => (id, ()))).size = _
      rw [Table.size_eq, Table.keys_ofKeys]
    rw [hasked, hperm.length_eq, List.length_append, List.length_append]
  · rintro before s i after a rfl ha
    have htold : told = events (run new before).2 ++ events (step s (run new before).1 i).2
        ++ events (run (step s (run new before).1 i).1 after).2 := by
      simp only [told, run_append, run_cons, events_append, List.append_assoc]
    rw [htold, events_step_of_answer ha]
    exact List.prefix_append _ _
  · intro hexact
    have hvalues : (new.reportedTimeouts is).map (fun p => (Binary64.ofNat p.2).value) =
        (new.reportedTimeouts is).map fun p => ((p.2 : Nat) : ℚ) :=
      List.map_congr_left fun p hp => Binary64.value_ofNat (hexact p hp)
    have hcast := congrArg (Nat.cast (R := ℚ)) hsum
    push_cast [List.map_map, Function.comp_def] at hcast
    rw [counted_run, List.map_map]
    simpa only [Function.comp_def, hvalues] using hcast
  · intro q₁ r q₂ hq hr a
    have hcounts : r.counts ≠ [] := by
      intro hnil
      simp [Report.counted, hnil] at hr
    have hopen := openTime_at_counts hq hcounts
    exact ⟨hopen, Aggregator.late_step_fragment hopen⟩

end Coordinator

end MetricSurvey

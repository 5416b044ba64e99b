/-
The coordinator: what one step does to its clients, to the survey book, and to the aggregator.

Three observations describe a step:
- `opens`: the survey that it opens; a tick opens one if somebody is registered and none is open for its time;
- `dropped`: the clients that it removes, be it by a removal, by the end of a session that was not replaced, or by a
  request that is not taken;
- `settled`: the clients that owe nothing more for one survey time after it, because they answer or are dropped.

Results:
- `get?_step`: a survey is in the book after a step if it was there or was opened, did not time out, and somebody who
  owed an answer is not settled; then it has let go of exactly the settled.
- `balance_step`: every survey that was in the book or was opened is there after the step, or is completed once by it.
- `openings_step`: the aggregator is told of every tick, and of nothing else, that a survey time has begun.
- `contains_clients_step`: who is not dropped stays registered, but for a shutdown.
Each of them is lifted to runs.
-/
import MetricSurvey.Proofs.Runs
import MetricSurvey.Proofs.Survey.Book
import MetricSurvey.Survey.Coordinator

namespace MetricSurvey

variable {P R : Type}

/-! ## Observations -/

namespace CoordinatorInput

def tick? : CoordinatorInput P → Option SurveyTime
  | .tick time => some time
  | _ => none

def timeout? : CoordinatorInput P → Option SurveyTime
  | .timeout time => some time
  | _ => none

end CoordinatorInput

namespace AggregatorEvent

def opened? : AggregatorEvent R → Option SurveyTime
  | .opened time => some time
  | _ => none

def completed? : AggregatorEvent R → Option SurveyTime
  | .completed time => some time
  | _ => none

/-- the survey times that begin in these events -/
def openings (es : List (AggregatorEvent R)) : List SurveyTime := es.filterMap opened?

/-- the survey times that are completed in these events -/
def completions (es : List (AggregatorEvent R)) : List SurveyTime := es.filterMap completed?

@[simp] theorem openings_append (es es' : List (AggregatorEvent R)) :
    openings (es ++ es') = openings es ++ openings es' := List.filterMap_append

@[simp] theorem completions_append (es es' : List (AggregatorEvent R)) :
    completions (es ++ es') = completions es ++ completions es' := List.filterMap_append

@[simp] theorem openings_nil : openings ([] : List (AggregatorEvent R)) = [] := rfl
@[simp] theorem completions_nil : completions ([] : List (AggregatorEvent R)) = [] := rfl

@[simp] theorem openings_cons (e : AggregatorEvent R) (es : List (AggregatorEvent R)) :
    openings (e :: es) = e.opened?.toList ++ openings es := by
  cases e <;> rfl

@[simp] theorem completions_cons (e : AggregatorEvent R) (es : List (AggregatorEvent R)) :
    completions (e :: es) = e.completed?.toList ++ completions es := by
  cases e <;> rfl

@[simp] theorem completions_map_completed (ts : List SurveyTime) :
    completions (ts.map (completed (R := R))) = ts := by
  simp [completions, List.filterMap_map, Function.comp_def, completed?]

@[simp] theorem openings_map_completed (ts : List SurveyTime) : openings (ts.map (completed (R := R))) = [] := by
  simp [openings, List.filterMap_map, Function.comp_def, opened?]

end AggregatorEvent

namespace Coordinator

open AggregatorEvent

/-- what the aggregator is told by these effects -/
def events (es : Effects P) : List (AggregatorEvent Binary64) := es.filterMap CoordinatorEffect.event?

@[simp] theorem events_nil : events ([] : Effects P) = [] := rfl

@[simp] theorem events_append (es es' : Effects P) : events (es ++ es') = events es ++ events es' :=
  List.filterMap_append

@[simp] theorem events_cons (e : CoordinatorEffect P) (es : Effects P) :
    events (e :: es) = e.event?.toList ++ events es := by
  cases e <;> rfl

/-- the survey that an input opens: a tick opens one if somebody is registered and none is open for its time -/
def opens (c : Coordinator P) : CoordinatorInput P → Option SurveyTime
  | .tick time => if c.clients.isEmpty || (c.book.get? time).isSome then none else some time
  | _ => none

/-- the clients that do not take a request -/
def refusing (accepts : P → Bool) (c : Coordinator P) : List ClientId :=
  (c.clients.toList.filter fun e => !accepts e.2.peer).map Prod.fst

/-- the clients that an input removes -/
def dropped (s : Surroundings P) (c : Coordinator P) : CoordinatorInput P → List ClientId
  | .sessionEnded id => if c.staleRemovals.contains id then [] else [id]
  | .removeClient id => [id]
  | .tick time => if (c.opens (.tick time)).isSome then c.refusing s.accepts else []
  | _ => []

/-- the client that answers for a survey time, if the input is such an answer -/
def answering (time : SurveyTime) : CoordinatorInput P → List ClientId
  | .complete id t => if time = t then [id] else []
  | _ => []

/-- the clients that owe nothing more for a survey time because of an input -/
def settled (s : Surroundings P) (c : Coordinator P) (i : CoordinatorInput P) (time : SurveyTime) : List ClientId :=
  answering time i ++ c.dropped s i

/-! ## Removals -/

variable {c : Coordinator P}

theorem events_removeClient (c : Coordinator P) (id : ClientId) :
    events (c.removeClient id).2 = (c.book.removeClient id).2.map .completed := by
  simp only [removeClient, events_append]
  cases c.clients.get? id <;> simp [events, List.filterMap_map, Function.comp_def, CoordinatorEffect.event?]

theorem removeClients_eq_collect (c : Coordinator P) (ids : List ClientId) :
    c.removeClients ids = collect removeClient c ids := foldl_eq_collect removeClient c ids

theorem removeClients_cons (c : Coordinator P) (id : ClientId) (ids : List ClientId) : c.removeClients (id :: ids) =
    (((c.removeClient id).1.removeClients ids).1, (c.removeClient id).2 ++ ((c.removeClient id).1.removeClients ids).2) := by
  simp only [removeClients_eq_collect, collect_cons]

theorem get?_removeClients (hc : c.book.WellFormed) (ids : List ClientId) (t : SurveyTime) :
    (c.removeClients ids).1.book.get? t = (c.book.get? t).bind fun s => s.remaining? ids := by
  induction ids generalizing c with
  | nil => exact (hc.bind_remaining?_nil t).symm
  | cons id ids ih =>
    have h1 := SurveyBook.get?_removeClient hc id
    rw [removeClients_cons]
    dsimp only
    rw [ih (hc.shrunk h1), show (c.removeClient id).1.book.get? t = _ from h1 t, Option.bind_assoc]
    congr 1
    funext s
    exact Survey.remaining?_append s [id] ids

/-- removals complete what they take out of the book -/
theorem balance_removeClients (hc : c.book.WellFormed) (ids : List ClientId) (t : SurveyTime) :
    (c.book.get? t).isSome.toNat =
      (completions (events (c.removeClients ids).2)).count t + ((c.removeClients ids).1.book.get? t).isSome.toNat := by
  induction ids generalizing c with
  | nil => simp [removeClients]
  | cons id ids ih =>
    have h1 := SurveyBook.count_removeClient hc id t
    have h2 := ih (c := (c.removeClient id).1) (hc.shrunk (SurveyBook.get?_removeClient hc id))
    have hb : ((c.removeClient id).1.book.get? t).isSome.toNat = ((c.book.removeClient id).1.get? t).isSome.toNat := rfl
    simp only [removeClients_cons, events_append, completions_append, List.count_append, events_removeClient,
      completions_map_completed]
    omega

theorem openings_removeClients (c : Coordinator P) (ids : List ClientId) :
    openings (events (c.removeClients ids).2) = [] := by
  induction ids generalizing c with
  | nil => rfl
  | cons id ids ih => simp [removeClients_cons, events_removeClient, ih]

theorem contains_clients_removeClients (c : Coordinator P) (ids : List ClientId) (j : ClientId) :
    (c.removeClients ids).1.clients.contains j = true ↔ j ∉ ids ∧ c.clients.contains j = true := by
  induction ids generalizing c with
  | nil => simp [removeClients]
  | cons id ids ih =>
    rw [removeClients_cons]
    dsimp only
    rw [ih, show (c.removeClient id).1.clients = c.clients.erase id from rfl, Table.contains_erase, List.mem_cons]
    tauto

/-! ## Registrations -/

theorem book_register (c : Coordinator P) (id : ClientId) (peer : P) : (c.register id peer).1.book = c.book := by
  unfold register
  dsimp only
  split <;> rfl

theorem clients_register (c : Coordinator P) (id : ClientId) (peer : P) :
    (c.register id peer).1.clients = c.clients.insert id ⟨peer, ∅⟩ := by
  unfold register
  dsimp only
  split <;> rfl

/-- the aggregator is told nothing of registrations -/
theorem events_register (c : Coordinator P) (id : ClientId) (peer : P) : events (c.register id peer).2 = [] := by
  unfold register
  dsimp only
  split <;> rfl

/-! ## Ticks -/

/-- what a tick reports of the surveys that timed out -/
def overdue (c : Coordinator P) (time : SurveyTime) : Effects P :=
  if 0 < c.unreportedTimeouts then [tellCount time timeoutsMetric c.unreportedTimeouts] else []

/-- the survey that a tick opens -/
def survey (s : Surroundings P) (c : Coordinator P) (time : SurveyTime) : Survey := .new time c.clients.keys s.now

/-- the coordinator that has just opened a survey, and has asked nobody -/
def surveying (s : Surroundings P) (c : Coordinator P) (time : SurveyTime) : Coordinator P :=
  { c with unreportedTimeouts := 0, book := ⟨c.book.surveys.insert time (c.survey s time)⟩ }

theorem opens_tick_eq_some {time t : SurveyTime} : c.opens (.tick time) = some t ↔
    t = time ∧ c.clients.isEmpty = false ∧ c.book.get? time = none := by
  simp only [opens]
  split
  · rename_i h
    simp only [reduceCtorEq, false_iff]
    rintro ⟨-, h1, h2⟩
    simp [h1, h2] at h
  · rename_i h
    simp only [Bool.or_eq_true, not_or, Bool.not_eq_true, Option.isSome_eq_false_iff, Option.isNone_iff_eq_none] at h
    simp [h.1, h.2, eq_comm]

theorem opens_eq_some {i : CoordinatorInput P} {t : SurveyTime} : c.opens i = some t ↔
    i = .tick t ∧ c.clients.isEmpty = false ∧ c.book.get? t = none := by
  cases i with
  | tick time =>
    rw [opens_tick_eq_some]
    constructor
    · rintro ⟨rfl, h⟩; exact ⟨rfl, h⟩
    · rintro ⟨h, h'⟩; cases h; exact ⟨rfl, h'⟩
  | _ => simp [opens]

theorem tick_of_opens_none {time : SurveyTime} (h : c.opens (.tick time) = none) (s : Surroundings P) :
    tick s c time = ({ c with unreportedTimeouts := 0 }, .tell (.opened time) :: c.overdue time) := by
  unfold tick
  dsimp only
  by_cases he : c.clients.isEmpty = true
  · rw [if_pos he]
    rfl
  · have hs : (c.book.get? time).isSome = true := by
      by_contra hn
      simp [opens, he, hn] at h
    rw [if_neg he, SurveyBook.insert_of_isSome (s := .new time c.clients.keys s.now) hs]
    rfl

theorem tick_of_opens {time : SurveyTime} (h : c.opens (.tick time) = some time) (s : Surroundings P) :
    tick s c time =
      (((c.surveying s time).removeClients (c.refusing s.accepts)).1,
        .tell (.opened time) :: c.overdue time ++ tellCount time clientsMetric c.clients.size ::
          (c.clients.toList.map (fun e => .request e.2.peer time)
            ++ ((c.surveying s time).removeClients (c.refusing s.accepts)).2
            ++ if ((((c.surveying s time).removeClients (c.refusing s.accepts)).1.book.get? time).isSome) then
                [.armTimeout time] else [])) := by
  obtain ⟨-, he, hb⟩ := opens_tick_eq_some.1 h
  unfold tick
  dsimp only
  rw [if_neg (by simp [he]), SurveyBook.insert_of_none (s := .new time c.clients.keys s.now) hb]
  rfl

theorem wellFormed_surveying {time : SurveyTime} (hc : c.book.WellFormed) (h : c.opens (.tick time) = some time)
    (s : Surroundings P) : (c.surveying s time).book.WellFormed := by
  obtain ⟨-, he, -⟩ := opens_tick_eq_some.1 h
  have hne : c.clients.keys ≠ [] := by
    obtain ⟨id, hid⟩ := Table.isEmpty_eq_false_iff.1 he
    exact List.ne_nil_of_mem (Table.contains_iff.1 hid)
  constructor
  · intro t sv hsv
    rw [surveying, SurveyBook.get?_mk_insert] at hsv
    split_ifs at hsv with ht
    · cases hsv; exact ht.symm
    · exact hc.time t sv hsv
  · intro t sv hsv
    rw [surveying, SurveyBook.get?_mk_insert] at hsv
    split_ifs at hsv with ht
    · cases hsv; exact Survey.isDone_new hne
    · exact hc.waiting t sv hsv

theorem openings_overdue (c : Coordinator P) (time : SurveyTime) : openings (events (c.overdue time)) = [] := by
  rw [overdue]
  split_ifs <;> rfl

theorem completions_overdue (c : Coordinator P) (time : SurveyTime) : completions (events (c.overdue time)) = [] := by
  rw [overdue]
  split_ifs <;> rfl

theorem events_requests (l : List (ClientId × Client P)) (time : SurveyTime) :
    events (l.map fun e => .request e.2.peer time) = [] := by
  simp [events, List.filterMap_map, Function.comp_def, CoordinatorEffect.event?]

/-- what the aggregator is told by a tick that opens a survey -/
theorem events_tick_of_opens {time : SurveyTime} (h : c.opens (.tick time) = some time) (s : Surroundings P) :
    events (tick s c time).2 = .opened time :: events (c.overdue time)
      ++ .fragment (.ofCount time clientsMetric (.ofNat c.clients.size))
      :: events ((c.surveying s time).removeClients (c.refusing s.accepts)).2 := by
  rw [tick_of_opens h]
  simp only [List.cons_append, events_cons, events_append, events_requests, tellCount]
  split_ifs <;> simp [CoordinatorEffect.event?]

/-! ## Answers and timeouts -/

theorem book_complete (now : Reading) (c : Coordinator P) (id : ClientId) (time : SurveyTime) :
    (complete now c id time).1.book = (c.book.complete id time now).1 := by
  cases hs : c.book.get? time with
  | none => simp [complete, SurveyBook.complete_of_none hs]
  | some sv =>
    cases ho : sv.owes id with
    | false => simp [complete, SurveyBook.complete_of_not_owes hs ho]
    | true => simp [complete, SurveyBook.complete_of_owes hs ho]

theorem clients_complete (now : Reading) (c : Coordinator P) (id : ClientId) (time : SurveyTime) :
    (complete now c id time).1.clients = c.clients := by
  unfold complete
  split <;> rfl

/-- an answer completes its survey if it is the last one -/
theorem balance_complete (now : Reading) (c : Coordinator P) (id : ClientId) (time t : SurveyTime) :
    (c.book.get? t).isSome.toNat = (completions (events (complete now c id time).2)).count t
      + ((complete now c id time).1.book.get? t).isSome.toNat := by
  cases hs : c.book.get? time with
  | none => simp [complete, SurveyBook.complete_of_none hs]
  | some sv =>
    cases ho : sv.owes id with
    | false => simp [complete, SurveyBook.complete_of_not_owes hs ho]
    | true =>
      simp only [complete, SurveyBook.complete_of_owes hs ho]
      by_cases ht : t = time
      · subst ht
        cases hd : (sv.release id).isDone with
        | false =>
          simp [hs, SurveyBook.get?_mk_insert, CoordinatorEffect.event?, completed?]
        | true => simp [hs, SurveyBook.get?_mk_erase, CoordinatorEffect.event?, completed?]
      · cases hd : (sv.release id).isDone with
        | false => simp [ht, SurveyBook.get?_mk_insert, CoordinatorEffect.event?, completed?]
        | true => simp [ht, SurveyBook.get?_mk_erase, CoordinatorEffect.event?, completed?, Ne.symm ht]

/-- an answer that is taken: its latency is told before the completion that it may bring -/
theorem complete_of_recorded {c : Coordinator P} {id : ClientId} {time : SurveyTime} {now : Reading}
    {latency : Duration} {closed : Bool} (h : (c.book.complete id time now).2 = .recorded latency closed) :
    events (complete now c id time).2 = .fragment (.ofValue time latencyMetric (.ofNat latency.millis))
      :: if closed then [.completed time] else [] := by
  unfold complete
  split
  · rename_i book latency' closed' heq
    rw [heq] at h
    cases h
    cases closed <;> rfl
  · rename_i answer hne heq
    rw [heq] at h
    exact absurd h (hne latency closed)

theorem openings_complete (now : Reading) (c : Coordinator P) (id : ClientId) (time : SurveyTime) :
    openings (events (complete now c id time).2) = [] := by
  unfold complete
  split
  · split_ifs <;> rfl
  · rfl

theorem timeout_of_none {time : SurveyTime} (h : c.book.get? time = none) : c.timeout time = (c, []) := by
  simp [timeout, SurveyBook.close, h]

theorem timeout_of_some {time : SurveyTime} {sv : Survey} (h : c.book.get? time = some sv) : c.timeout time =
    ({ c with
        book := ⟨c.book.surveys.erase time⟩
        unreportedTimeouts := c.unreportedTimeouts + sv.outstanding.size },
      [.tell (.completed time)]) := by
  simp [timeout, SurveyBook.close, h]

theorem get?_timeout (c : Coordinator P) (time t : SurveyTime) :
    (c.timeout time).1.book.get? t = if t = time then none else c.book.get? t := by
  cases h : c.book.get? time with
  | none =>
    rw [timeout_of_none h]
    split_ifs with ht
    · rw [ht, h]
    · rfl
  | some sv => rw [timeout_of_some h, SurveyBook.get?_mk_erase]

/-! ## One step -/

/-- the survey of a time, after a survey may have been opened and before anybody is let go of -/
def asked? (s : Surroundings P) (c : Coordinator P) (i : CoordinatorInput P) (t : SurveyTime) : Option Survey :=
  if c.opens i = some t then some (c.survey s t) else c.book.get? t

theorem asked?_of_not_opens {i : CoordinatorInput P} {t : SurveyTime} (h : c.opens i ≠ some t) (s : Surroundings P) :
    c.asked? s i t = c.book.get? t := if_neg h

/-- **What is left of a survey after a step.** It is gone if it timed out; else it has let go of the settled. -/
theorem get?_step (hc : c.book.WellFormed) (s : Surroundings P) (i : CoordinatorInput P) (t : SurveyTime) :
    (step s c i).1.book.get? t =
      if i.timeout? = some t then none else (c.asked? s i t).bind fun sv => sv.remaining? (c.settled s i t) := by
  have same : ∀ j : CoordinatorInput P, c.opens j = none → (c.asked? s j t).bind (fun sv => sv.remaining? []) =
      c.book.get? t := fun j hj => by
    rw [asked?_of_not_opens (by simp [hj]), hc.bind_remaining?_nil]
  cases i with
  | register id peer => exact (congrArg (·.get? t) (c.book_register id peer)).trans (same (.register id peer) rfl).symm
  | setTags id tags => exact (same (.setTags id tags) rfl).symm
  | sessionEnded id =>
    cases hr : c.staleRemovals.get? id with
    | some n =>
      have hset : c.settled s (.sessionEnded id) t = [] := by
        simp [settled, answering, dropped, Table.contains_eq_isSome, hr]
      simp only [step, sessionEnded, hr, hset]
      exact (same (.sessionEnded id) rfl).symm
    | none =>
      have hset : c.settled s (.sessionEnded id) t = [id] := by
        simp [settled, answering, dropped, Table.contains_eq_isSome, hr]
      simp only [step, sessionEnded, hr, hset]
      exact SurveyBook.get?_removeClient hc id t
  | removeClient id => exact SurveyBook.get?_removeClient hc id t
  | tick time =>
    cases ho : c.opens (.tick time) with
    | none =>
      have hset : c.settled s (.tick time) t = [] := by simp [settled, answering, dropped, ho]
      rw [hset, same _ ho]
      simp only [step, tick_of_opens_none ho]
      rfl
    | some t' =>
      obtain rfl : t' = time := (opens_tick_eq_some.1 ho).1
      have hset : c.settled s (.tick t') t = c.refusing s.accepts := by simp [settled, answering, dropped, ho]
      simp only [step, tick_of_opens ho, hset]
      rw [get?_removeClients (wellFormed_surveying hc ho s), surveying, SurveyBook.get?_mk_insert, asked?, ho]
      simp only [CoordinatorInput.timeout?, reduceCtorEq, if_false, Option.some.injEq, eq_comm (a := t)]
      split_ifs with ht
      · rw [ht]
      · rfl
  | complete id time =>
    have hset : c.settled s (.complete id time) t = if t = time then [id] else [] := by
      simp [settled, answering, dropped]
    simp only [step, book_complete, SurveyBook.get?_complete hc, hset]
    rfl
  | timeout time =>
    simp only [step, get?_timeout, CoordinatorInput.timeout?, Option.some.injEq, eq_comm (a := t)]
    split_ifs
    · rfl
    · exact (same (.timeout time) rfl).symm
  | shutdown => exact (same .shutdown rfl).symm

/-- a survey that is open after a step did not time out, and was open before it or is opened by it -/
theorem isSome_of_step (hc : c.book.WellFormed) {s : Surroundings P} {i : CoordinatorInput P} {t : SurveyTime}
    (h : ((step s c i).1.book.get? t).isSome = true) :
    i.timeout? ≠ some t ∧ (c.opens i = some t ∨ (c.book.get? t).isSome = true) := by
  rw [get?_step hc] at h
  split_ifs at h with ht
  · cases h
  · refine ⟨ht, ?_⟩
    by_cases ho : c.opens i = some t
    · exact Or.inl ho
    · rw [asked?_of_not_opens ho] at h
      exact Or.inr (Option.isSome_of_isSome_bind h)

/-- a new survey has a time and somebody to wait for -/
theorem asked?_eq_some (hc : c.book.WellFormed) {s : Surroundings P} {i : CoordinatorInput P} {t : SurveyTime}
    {sv : Survey} (h : c.asked? s i t = some sv) : sv.time = t ∧ sv.isDone = false := by
  rw [asked?] at h
  split_ifs at h with ho
  · cases h
    obtain ⟨-, he, -⟩ := opens_eq_some.1 ho
    obtain ⟨id, hid⟩ := Table.isEmpty_eq_false_iff.1 he
    exact ⟨rfl, Survey.isDone_new (List.ne_nil_of_mem (Table.contains_iff.1 hid))⟩
  · exact ⟨hc.time t sv h, hc.waiting t sv h⟩

theorem wellFormed_step (hc : c.book.WellFormed) (s : Surroundings P) (i : CoordinatorInput P) :
    (step s c i).1.book.WellFormed := by
  have key : ∀ t sv, (step s c i).1.book.get? t = some sv →
      ∃ sv₀, c.asked? s i t = some sv₀ ∧ sv₀.remaining? (c.settled s i t) = some sv := fun t sv h => by
    rw [get?_step hc] at h
    split_ifs at h
    exact Option.bind_eq_some_iff.1 h
  constructor
  · intro t sv h
    obtain ⟨sv₀, h₀, hr⟩ := key t sv h
    obtain ⟨rfl, -⟩ := Survey.remaining?_eq_some.1 hr
    rw [Survey.time_without]
    exact (asked?_eq_some hc h₀).1
  · intro t sv h
    obtain ⟨sv₀, -, hr⟩ := key t sv h
    exact (Survey.remaining?_eq_some.1 hr).2

/-- **The balance of a step.** A survey that was in the book or is opened is in the book afterwards, or is completed
once. -/
theorem balance_step (hc : c.book.WellFormed) (s : Surroundings P) (i : CoordinatorInput P) (t : SurveyTime) :
    (c.asked? s i t).isSome.toNat = (completions (events (step s c i).2)).count t
      + ((step s c i).1.book.get? t).isSome.toNat := by
  cases i with
  | register id peer =>
    rw [asked?_of_not_opens (by simp [opens])]
    simp [step, book_register, events_register]
  | setTags id tags => simp [asked?, opens, step, setTags]
  | sessionEnded id =>
    rw [asked?_of_not_opens (by simp [opens])]
    cases hr : c.staleRemovals.get? id with
    | some n => simp [step, sessionEnded, hr]
    | none =>
      simp only [step, sessionEnded, hr, events_removeClient, completions_map_completed]
      exact SurveyBook.count_removeClient hc id t
  | removeClient id =>
    rw [asked?_of_not_opens (by simp [opens])]
    simp only [step, events_removeClient, completions_map_completed]
    exact SurveyBook.count_removeClient hc id t
  | tick time =>
    cases ho : c.opens (.tick time) with
    | none =>
      rw [asked?_of_not_opens (by simp [ho])]
      simp [step, tick_of_opens_none ho, CoordinatorEffect.event?, completed?, completions_overdue]
    | some t' =>
      obtain rfl : t' = time := (opens_tick_eq_some.1 ho).1
      have hb := balance_removeClients (wellFormed_surveying hc ho s) (c.refusing s.accepts) t
      have ha : (c.asked? s (.tick t') t) = (c.surveying s t').book.get? t := by
        rw [asked?, ho, surveying, SurveyBook.get?_mk_insert]
        simp only [Option.some.injEq, eq_comm (a := t)]
        split_ifs with ht
        · rw [ht]
        · rfl
      rw [ha, hb]
      simp only [step, events_tick_of_opens ho]
      simp [completions_overdue, completed?, tick_of_opens ho]
  | complete id time =>
    rw [asked?_of_not_opens (by simp [opens])]
    exact balance_complete s.now c id time t
  | timeout time =>
    rw [asked?_of_not_opens (by simp [opens])]
    simp only [step, get?_timeout]
    cases h : c.book.get? time with
    | none =>
      rw [timeout_of_none h]
      split_ifs with ht
      · simp [ht, h]
      · simp
    | some sv =>
      rw [timeout_of_some h]
      split_ifs with ht
      · simp [ht, h, CoordinatorEffect.event?, completed?]
      · simp [CoordinatorEffect.event?, completed?, Ne.symm ht]
  | shutdown =>
    simp [asked?, opens, step, shutdown, events, List.filterMap_map, Function.comp_def, CoordinatorEffect.event?]

/-- the aggregator is told of a tick, and of nothing else, that a survey time has begun -/
theorem openings_step (s : Surroundings P) (c : Coordinator P) (i : CoordinatorInput P) :
    openings (events (step s c i).2) = i.tick?.toList := by
  cases i with
  | register id peer => simp [step, events_register, CoordinatorInput.tick?]
  | setTags id tags => rfl
  | sessionEnded id =>
    simp only [step, sessionEnded]
    split
    · rfl
    · simp [events_removeClient, CoordinatorInput.tick?]
  | removeClient id => simp [step, events_removeClient, CoordinatorInput.tick?]
  | tick time =>
    cases ho : c.opens (.tick time) with
    | none =>
      simp [step, tick_of_opens_none ho, CoordinatorEffect.event?, opened?, openings_overdue, CoordinatorInput.tick?]
    | some t' =>
      obtain rfl : t' = time := (opens_tick_eq_some.1 ho).1
      simp [step, events_tick_of_opens ho, opened?, openings_overdue, openings_removeClients, CoordinatorInput.tick?]
  | complete id time => exact openings_complete s.now c id time
  | timeout time =>
    simp only [step, timeout]
    split <;> rfl
  | shutdown => simp [step, shutdown, events, List.filterMap_map, Function.comp_def, CoordinatorEffect.event?,
      CoordinatorInput.tick?]

/-- who is not dropped stays registered, but for a shutdown -/
theorem contains_clients_step {s : Surroundings P} {i : CoordinatorInput P} (hi : i ≠ .shutdown) {id : ClientId}
    (hid : c.clients.contains id = true) (hd : id ∉ c.dropped s i) : (step s c i).1.clients.contains id = true := by
  cases i with
  | register j peer =>
    simp only [step, clients_register, Table.contains_insert]
    exact Or.inr hid
  | setTags j tags => simpa only [step, setTags, Table.contains_modify] using hid
  | sessionEnded j =>
    cases hr : c.staleRemovals.get? j with
    | some n => simpa only [step, sessionEnded, hr] using hid
    | none =>
      simp only [step, sessionEnded, hr, removeClient, Table.contains_erase]
      simp only [dropped, Table.contains_eq_isSome, hr, Option.isSome_none, Bool.false_eq_true, if_false,
        List.mem_singleton] at hd
      exact ⟨hd, hid⟩
  | removeClient j =>
    simp only [step, removeClient, Table.contains_erase]
    exact ⟨by simpa [dropped] using hd, hid⟩
  | tick time =>
    cases ho : c.opens (.tick time) with
    | none => simpa only [step, tick_of_opens_none ho] using hid
    | some t' =>
      obtain rfl : t' = time := (opens_tick_eq_some.1 ho).1
      simp only [step, tick_of_opens ho, contains_clients_removeClients]
      exact ⟨by simpa [dropped, ho] using hd, hid⟩
  | complete j time => simpa only [step, clients_complete] using hid
  | timeout time =>
    simp only [step, timeout]
    split <;> exact hid
  | shutdown => exact absurd rfl hi

/-! ## Runs -/

theorem run_eq_collect (c : Coordinator P) (is : List (Surroundings P × CoordinatorInput P)) :
    run c is = collect (fun c i => step i.1 c i.2) c is :=
  foldl_eq_collect (fun (c : Coordinator P) (i : Surroundings P × CoordinatorInput P) => step i.1 c i.2) c is

@[simp] theorem run_nil (c : Coordinator P) : run c [] = (c, []) := rfl

theorem run_cons (c : Coordinator P) (i : Surroundings P × CoordinatorInput P)
    (is : List (Surroundings P × CoordinatorInput P)) :
    run c (i :: is) = ((run (step i.1 c i.2).1 is).1, (step i.1 c i.2).2 ++ (run (step i.1 c i.2).1 is).2) := by
  simp only [run_eq_collect, collect_cons]

theorem run_append (c : Coordinator P) (is js : List (Surroundings P × CoordinatorInput P)) :
    run c (is ++ js) = ((run (run c is).1 js).1, (run c is).2 ++ (run (run c is).1 js).2) := by
  simp only [run_eq_collect, collect_append]

theorem run_snoc (c : Coordinator P) (is : List (Surroundings P × CoordinatorInput P))
    (i : Surroundings P × CoordinatorInput P) :
    run c (is ++ [i]) = ((step i.1 (run c is).1 i.2).1, (run c is).2 ++ (step i.1 (run c is).1 i.2).2) := by
  simp only [run_eq_collect, collect_snoc]

/-- what a run tells is told in one of its steps -/
theorem eq_append_of_told {is : List (Surroundings P × CoordinatorInput P)} {e : AggregatorEvent Binary64}
    {told rest : List (AggregatorEvent Binary64)} (h : events (run c is).2 = told ++ e :: rest) :
    ∃ before s i after mid more, is = before ++ (s, i) :: after ∧ told = events (run c before).2 ++ mid ∧
      events (step s (run c before).1 i).2 = mid ++ e :: more := by
  induction is generalizing c told with
  | nil => simp at h
  | cons i is ih =>
    rw [run_cons, events_append] at h
    rcases append_eq_append_cons h with ⟨more, hstep, -⟩ | ⟨later, rfl, hlater⟩
    · exact ⟨[], i.1, i.2, is, told, more, rfl, rfl, hstep⟩
    · obtain ⟨before, s, j, after, mid, more, rfl, rfl, hstep⟩ := ih hlater
      exact ⟨i :: before, s, j, after, mid, more, rfl, by simp [run_cons], by simpa [run_cons] using hstep⟩

theorem wellFormed_run (hc : c.book.WellFormed) (is : List (Surroundings P × CoordinatorInput P)) :
    (run c is).1.book.WellFormed := by
  rw [run_eq_collect]
  exact collect_invariant (p := fun c : Coordinator P => c.book.WellFormed) _
    (fun c i h => wellFormed_step h i.1 i.2) hc is

theorem wellFormed_run_new (is : List (Surroundings P × CoordinatorInput P)) : (run new is).1.book.WellFormed :=
  wellFormed_run (c := new) SurveyBook.wellFormed_empty is

/-- the times of the ticks among the inputs -/
def ticks (is : List (Surroundings P × CoordinatorInput P)) : List SurveyTime := is.filterMap fun i => i.2.tick?

@[simp] theorem ticks_append (is js : List (Surroundings P × CoordinatorInput P)) :
    ticks (is ++ js) = ticks is ++ ticks js := List.filterMap_append

@[simp] theorem ticks_nil : ticks ([] : List (Surroundings P × CoordinatorInput P)) = [] := rfl

@[simp] theorem ticks_cons (i : Surroundings P × CoordinatorInput P)
    (is : List (Surroundings P × CoordinatorInput P)) : ticks (i :: is) = i.2.tick?.toList ++ ticks is := by
  rw [ticks, List.filterMap_cons]
  cases i.2.tick? <;> rfl

theorem openings_run (c : Coordinator P) (is : List (Surroundings P × CoordinatorInput P)) :
    openings (events (run c is).2) = ticks is := by
  induction is generalizing c with
  | nil => rfl
  | cons i is ih => rw [run_cons, events_append, openings_append, openings_step, ih, ticks_cons]

/-- the times of the surveys that a run opens, in order -/
def opened (c : Coordinator P) : List (Surroundings P × CoordinatorInput P) → List SurveyTime
  | [] => []
  | i :: is => (c.opens i.2).toList ++ opened (step i.1 c i.2).1 is

theorem opened_append (c : Coordinator P) (is js : List (Surroundings P × CoordinatorInput P)) :
    c.opened (is ++ js) = c.opened is ++ (run c is).1.opened js := by
  induction is generalizing c with
  | nil => rfl
  | cons i is ih => simp only [List.cons_append, opened, ih, run_cons, List.append_assoc]

/-- only ticks open surveys -/
theorem opened_sublist (c : Coordinator P) (is : List (Surroundings P × CoordinatorInput P)) :
    (c.opened is).Sublist (ticks is) := by
  induction is generalizing c with
  | nil => exact List.Sublist.refl []
  | cons i is ih =>
    rw [opened, ticks_cons]
    refine List.Sublist.append ?_ (ih _)
    cases ho : c.opens i.2 with
    | none => exact List.nil_sublist _
    | some t => rw [(opens_eq_some.1 ho).1]; exact List.Sublist.refl _

end Coordinator

end MetricSurvey

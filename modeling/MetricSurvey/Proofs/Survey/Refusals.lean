/-
Refusals: a tick at which some clients do not take the request.

All clients are asked before anybody is dropped. Those who refuse are then dropped in the order of their ids, and each may
close surveys: the one that is being opened and any that are still open.

- `Survey.ClosesWith`: with whom of those who leave a survey closes, told from the survey alone.
- `removeClients_snd`: so the completions that many removals bring are known before the first of them.
- `clients_removeClients`: who stays, stays with peer and tags.
- `tick_with_refusals`: the registry, the surveys, the timeout and all that is done to others, after such a tick.
- `tick_with_refusals_overlapping`: the same where two clients of three refuse, and two of three older surveys close.
-/
import MetricSurvey.Proofs.Survey.Accounts

namespace MetricSurvey

/-! ## Who closes a survey -/

namespace Survey

/-- If these clients leave in the order of their ids, the survey closes with this one: all who owe it an answer leave, and
this is the last of them. -/
def ClosesWith (sv : Survey) (gone : List ClientId) (id : ClientId) : Prop :=
  sv.owes id = true ∧ ∀ j ∈ sv.outstanding.keys, j ∈ gone ∧ j ≤ id

-- decided over the ids that are waited for: ids are finite in number, but far too many to try them all
instance (sv : Survey) (gone : List ClientId) (id : ClientId) : Decidable (sv.ClosesWith gone id) :=
  @instDecidableAnd _ _ _ (List.decidableBAll _ _)

variable {sv : Survey} {id : ClientId} {later : List ClientId}

theorem mem_outstanding {j : ClientId} : j ∈ sv.outstanding.keys ↔ sv.owes j = true := Table.contains_iff.symm

/-- the first who leaves closes a survey that waits for nobody else -/
theorem closesWith_first (h : ∀ j ∈ later, id < j) :
    sv.ClosesWith (id :: later) id ↔ (sv.owes id && (sv.release id).isDone) = true := by
  rw [Bool.and_eq_true, isDone_iff]
  constructor
  · rintro ⟨howes, hall⟩
    refine ⟨howes, fun j => ?_⟩
    rw [← Bool.not_eq_true, owes_release]
    rintro ⟨hne, hj⟩
    obtain ⟨hmem, hle⟩ := hall j (mem_outstanding.2 hj)
    have hlater := (List.mem_cons.1 hmem).resolve_left hne
    exact UInt64.not_lt.2 hle (h j hlater)
  · rintro ⟨howes, hdone⟩
    refine ⟨howes, fun j hj => ?_⟩
    have hid : j = id := by
      by_contra hne
      have hleft := (owes_release sv id j).2 ⟨hne, mem_outstanding.1 hj⟩
      rw [hdone j] at hleft
      cases hleft
    rw [hid]
    exact ⟨List.mem_cons_self, UInt64.le_refl id⟩

/-- who leaves later closes a survey that the first who leaves has not closed, once that one is let go of -/
theorem closesWith_later (h : ∀ j ∈ later, id < j) {j : ClientId} (hj : j ∈ later) :
    sv.ClosesWith (id :: later) j ↔
      (sv.owes id && (sv.release id).isDone) = false ∧ (sv.release id).ClosesWith later j := by
  have hne : j ≠ id := fun e => UInt64.lt_irrefl id (e ▸ h j hj)
  constructor
  · rintro ⟨howes, hall⟩
    have hleft := (owes_release sv id j).2 ⟨hne, howes⟩
    refine ⟨?_, hleft, fun k hk => ?_⟩
    · rw [(isDone_eq_false_iff _).2 ⟨j, hleft⟩, Bool.and_false]
    · obtain ⟨hkne, hk⟩ := (owes_release sv id k).1 (mem_outstanding.1 hk)
      obtain ⟨hmem, hle⟩ := hall k (mem_outstanding.2 hk)
      exact ⟨(List.mem_cons.1 hmem).resolve_left hkne, hle⟩
  · rintro ⟨-, howes, hall⟩
    refine ⟨((owes_release sv id j).1 howes).2, fun k hk => ?_⟩
    by_cases hkid : k = id
    · rw [hkid]
      exact ⟨List.mem_cons_self, UInt64.le_of_lt (h j hj)⟩
    · have hleft := (owes_release sv id k).2 ⟨hkid, mem_outstanding.1 hk⟩
      obtain ⟨hmem, hle⟩ := hall k (mem_outstanding.2 hleft)
      exact ⟨List.mem_cons_of_mem id hmem, hle⟩

/-- to let go of clients is to wait for the others, and to keep all else -/
theorem without_eq (sv : Survey) (gone : List ClientId) :
    sv.without gone = { sv with outstanding := sv.outstanding.filter fun id _ => decide (id ∉ gone) } := by
  have htime := sv.time_without gone
  have hasked := sv.asked_without gone
  have hstarted := sv.started_without gone
  have howing := sv.outstanding_without gone
  generalize sv.without gone = left at *
  obtain ⟨time, outstanding, asked, started⟩ := left
  subst htime hasked hstarted howing
  rfl

/-- what a survey comes to if these clients leave: it closes if nobody else owes it an answer -/
theorem remaining?_eq_ite (sv : Survey) (gone : List ClientId) : sv.remaining? gone =
    if sv.outstanding.keys.all fun id => decide (id ∈ gone) then none
    else some { sv with outstanding := sv.outstanding.filter fun id _ => decide (id ∉ gone) } := by
  have hall : (sv.outstanding.keys.all fun id => decide (id ∈ gone)) = true ↔ ∀ id ∈ sv.outstanding.keys, id ∈ gone := by
    simp only [List.all_eq_true, decide_eq_true_iff]
  split_ifs with hleave
  · exact remaining?_eq_none.2 fun id howes => hall.1 hleave id (mem_outstanding.2 howes)
  · have hsome : (sv.remaining? gone).isSome = true := by
      rw [Option.isSome_iff_ne_none, ne_eq, remaining?_eq_none]
      exact fun h => hleave (hall.2 fun id hid => h id (mem_outstanding.1 hid))
    obtain ⟨left, hleft⟩ := Option.isSome_iff_exists.1 hsome
    obtain ⟨rfl, -⟩ := remaining?_eq_some.1 hleft
    rw [hleft, without_eq]

end Survey

namespace SurveyBook

/-- the times of the surveys that close with a client if these leave, oldest first -/
def closedWith (b : SurveyBook) (gone : List ClientId) (id : ClientId) : List SurveyTime :=
  (b.surveys.filter fun _ sv => decide (sv.ClosesWith gone id)).keys

variable {b : SurveyBook} {id : ClientId} {later : List ClientId}

theorem closedWith_first (h : ∀ j ∈ later, id < j) : b.closedWith (id :: later) id = (b.removeClient id).2 := by
  unfold closedWith removeClient
  refine congrArg (fun p => (b.surveys.filter p).keys) (funext₂ fun _ sv => ?_)
  rw [Bool.eq_iff_iff, decide_eq_true_iff]
  exact Survey.closesWith_first h

theorem closedWith_later (h : ∀ j ∈ later, id < j) {j : ClientId} (hj : j ∈ later) :
    (b.removeClient id).1.closedWith later j = b.closedWith (id :: later) j := by
  unfold closedWith removeClient
  simp only [Table.keys, Table.filter, Table.mapValues, List.filter_map, List.filter_filter, List.map_map]
  refine congrArg₂ List.map rfl (List.filter_congr fun e _ => ?_)
  rw [Bool.eq_iff_iff, decide_eq_true_iff, Survey.closesWith_later h hj, Bool.and_eq_true, Bool.not_eq_true', and_comm]
  exact and_congr_right' decide_eq_true_iff

end SurveyBook

namespace Coordinator

open AggregatorEvent

variable {P : Type} {c : Coordinator P}

/-! ## Many removals -/

/-- **What removals in the order of ids do to others**: each closes its client, and then completes the surveys that close
with it. -/
theorem removeClients_snd {ids : List ClientId} (h : ids.Pairwise (· < ·)) (c : Coordinator P) :
    (c.removeClients ids).2 = ids.flatMap fun id =>
      (c.clients.get? id).toList.map (fun client => .close client.peer)
        ++ (c.book.closedWith ids id).map fun time => .tell (.completed time) := by
  induction ids generalizing c with
  | nil => rfl
  | cons id later ih =>
    obtain ⟨hfirst, hlater⟩ := List.pairwise_cons.1 h
    rw [removeClients_cons, ih hlater, List.flatMap_cons, SurveyBook.closedWith_first hfirst]
    refine congrArg₂ _ rfl (List.flatMap_congr fun j hj => ?_)
    have hne : j ≠ id := fun e => UInt64.lt_irrefl id (e ▸ hfirst j hj)
    rw [← SurveyBook.closedWith_later hfirst hj, show (c.removeClient id).1.clients = c.clients.erase id from rfl,
      Table.get?_erase_of_ne _ hne]
    rfl

/-- **Who stays, stays as it was.** -/
theorem clients_removeClients (c : Coordinator P) (ids : List ClientId) :
    (c.removeClients ids).1.clients = c.clients.filter fun id _ => decide (id ∉ ids) := by
  refine Table.ext_get fun j => ?_
  induction ids generalizing c with
  | nil =>
    rw [Table.get?_filter, removeClients, List.foldl_nil]
    cases c.clients.get? j <;> simp [Option.filter]
  | cons id ids ih =>
    rw [removeClients_cons]
    dsimp only
    rw [ih, show (c.removeClient id).1.clients = c.clients.erase id from rfl, Table.get?_filter, Table.get?_filter]
    by_cases hj : j = id
    · rw [hj, Table.get?_erase_self]
      simp
    · rw [Table.get?_erase_of_ne _ hj]
      simp [hj]

theorem staleRemovals_removeClients (c : Coordinator P) (ids : List ClientId) :
    (c.removeClients ids).1.staleRemovals = c.staleRemovals := by
  induction ids generalizing c with
  | nil => rfl
  | cons id ids ih =>
    rw [removeClients_cons]
    exact ih _

/-! ## Who refuses -/

theorem mem_refusing {accepts : P → Bool} {id : ClientId} :
    id ∈ c.refusing accepts ↔ ∃ client, c.clients.get? id = some client ∧ accepts client.peer = false := by
  simp only [refusing, List.mem_map, List.mem_filter, Bool.not_eq_true', Prod.exists, exists_and_right, exists_eq_right,
    Table.get?_eq_some]

theorem pairwise_refusing (accepts : P → Bool) (c : Coordinator P) : (c.refusing accepts).Pairwise (· < ·) := by
  rw [refusing, List.pairwise_map]
  exact (c.clients.sorted.filter _).imp Std.compare_eq_lt.1

/-- without those who refuse, those who take the request are left -/
theorem filter_not_mem_refusing (accepts : P → Bool) (c : Coordinator P) :
    (c.clients.filter fun id _ => decide (id ∉ c.refusing accepts)) =
      c.clients.filter fun _ client => accepts client.peer := by
  refine Table.ext_get fun id => ?_
  rw [Table.get?_filter, Table.get?_filter]
  cases hid : c.clients.get? id with
  | none => rfl
  | some client =>
    have hrefuses : id ∈ c.refusing accepts ↔ accepts client.peer = false := by
      rw [mem_refusing, hid]
      simp
    cases haccepts : accepts client.peer <;> simp [Option.filter, hrefuses, haccepts]

/-- what the removal of all who refuse does to others -/
theorem removeClients_refusing_snd (accepts : P → Bool) (c : Coordinator P) :
    (c.removeClients (c.refusing accepts)).2 = (c.clients.toList.filter fun e => !accepts e.2.peer).flatMap fun e =>
      .close e.2.peer :: (c.book.closedWith (c.refusing accepts) e.1).map fun time => .tell (.completed time) := by
  rw [removeClients_snd (pairwise_refusing accepts c)]
  generalize hgone : c.refusing accepts = gone
  rw [← hgone, refusing, List.flatMap_map]
  refine List.flatMap_congr fun e he => ?_
  rw [Table.get?_eq_some.2 (List.mem_filter.1 he).1, ← refusing, hgone]
  rfl

/-! ## The tick -/

/-- a tick completes what the removal of those who refuse completes, and nothing else -/
theorem completions_tick_of_opens {time : SurveyTime} (ho : c.opens (.tick time) = some time) (s : Surroundings P) :
    completions (events (tick s c time).2) =
      completions (events ((c.surveying s time).removeClients (c.refusing s.accepts)).2) := by
  rw [events_tick_of_opens ho]
  simp only [List.cons_append, completions_cons, completions_append, completions_overdue, completed?,
    Option.toList_none, List.nil_append]

/-- what is left of a new survey once those who refuse are let go of: it waits for those who stay -/
theorem of_remaining?_survey {s : Surroundings P} {time : SurveyTime} {gone : List ClientId} {sv : Survey}
    (h : (c.survey s time).remaining? gone = some sv) : sv.time = time ∧ sv.started = s.now ∧
      sv.asked = c.clients.size ∧ sv.outstanding.keys = ((c.surveying s time).removeClients gone).1.clients.keys := by
  obtain ⟨rfl, -⟩ := Survey.remaining?_eq_some.1 h
  refine ⟨Survey.time_without _ gone, Survey.started_without _ gone, ?_, ?_⟩
  · rw [Survey.asked_without]
    show (Table.ofList (c.clients.keys.map fun id => (id, ()))).size = c.clients.size
    rw [Table.size_eq, Table.keys_ofKeys, Table.size_eq]
  · rw [clients_removeClients, Survey.outstanding_without, Table.keys_filter, Table.keys_filter]
    exact congrArg (List.filter _) (Table.keys_ofKeys _)

/-- **A tick at which clients refuse.** Take any state that is reached, with somebody registered and no survey open for
this time.
- All that the tick does to others, in order: the aggregator is told that the time has begun, of the timeouts since the
  last report if there are any, and of the number of clients; every client is asked, once, in the order of their ids; then
  each who refuses is closed, by ascending id, and with it the surveys that it closes are completed, oldest first; and the
  timeout is armed if the new survey is still open.
- Those who take the request stay registered with their peers and tags, and nobody else; no timeouts are left to report.
- Every other survey has let go of those who refuse, and is closed if nobody else owed it an answer.
- The new survey is open if and only if somebody is left, and waits for just those.
- Every survey that is gone was completed, once, and no other. -/
theorem tick_with_refusals {before : List (Surroundings P × CoordinatorInput P)} {s : Surroundings P} {time : SurveyTime}
    (hclients : (run new before).1.clients.isEmpty = false) (hnone : (run new before).1.book.get? time = none) :
    let c := (run new before).1
    let refused := c.clients.toList.filter fun e => !s.accepts e.2.peer
    let gone := refused.map Prod.fst
    let opened := (c.surveying s time).book
    let c' := (tick s c time).1
    (tick s c time).2 =
      .tell (.opened time)
        :: (if 0 < c.unreportedTimeouts then [tellCount time timeoutsMetric c.unreportedTimeouts] else [])
        ++ tellCount time clientsMetric c.clients.size
        :: (c.clients.toList.map (fun e => .request e.2.peer time)
          ++ refused.flatMap (fun e =>
            .close e.2.peer :: (opened.closedWith gone e.1).map fun t => .tell (.completed t))
          ++ if (c'.book.get? time).isSome then [.armTimeout time] else []) ∧
    gone.Pairwise (· < ·) ∧ (∀ id, (opened.closedWith gone id).Pairwise (· < ·)) ∧
    c'.clients = c.clients.filter (fun _ client => s.accepts client.peer) ∧
    c'.unreportedTimeouts = 0 ∧ c'.staleRemovals = c.staleRemovals ∧
    (∀ t, t ≠ time → c'.book.get? t = (c.book.get? t).bind fun sv =>
      if sv.outstanding.keys.all fun id => decide (id ∈ gone) then none
      else some { sv with outstanding := sv.outstanding.filter fun id _ => decide (id ∉ gone) }) ∧
    ((c'.book.get? time).isSome = true ↔ c'.clients.isEmpty = false) ∧
    (∀ sv, c'.book.get? time = some sv → sv.time = time ∧ sv.started = s.now ∧ sv.asked = c.clients.size ∧
      sv.outstanding.keys = c'.clients.keys) ∧
    (∀ t, (opened.get? t).isSome.toNat =
      (completions (events (tick s c time).2)).count t + (c'.book.get? t).isSome.toNat) := by
  intro c refused gone opened c'
  have hwf : c.book.WellFormed := wellFormed_run_new before
  have ho : c.opens (.tick time) = some time := opens_tick_eq_some.2 ⟨rfl, hclients, hnone⟩
  have hwf' : opened.WellFormed := wellFormed_surveying hwf ho s
  have htick := tick_of_opens ho s
  have hstate : c' = ((c.surveying s time).removeClients gone).1 := by
    simp only [c', htick]
    rfl
  have hopened : ∀ t, opened.get? t = if t = time then some (c.survey s time) else c.book.get? t :=
    fun t => SurveyBook.get?_mk_insert c.book time t _
  have hbook : ∀ t, c'.book.get? t = (opened.get? t).bind fun sv => sv.remaining? gone :=
    fun t => hstate ▸ get?_removeClients hwf' gone t
  have hstay : c'.clients = c.clients.filter fun _ client => s.accepts client.peer := by
    rw [hstate, clients_removeClients]
    exact filter_not_mem_refusing s.accepts c
  have hnew : c'.book.get? time = (c.survey s time).remaining? gone := by
    rw [hbook, hopened, if_pos rfl, Option.bind_some]
  have hregistered : ∀ id, c'.clients.contains id = true ↔ id ∉ gone ∧ c.clients.contains id = true :=
    fun id => hstate ▸ contains_clients_removeClients _ gone id
  have howes : ∀ id, (c.survey s time).owes id = true ↔ c.clients.contains id = true :=
    fun id => (Survey.owes_new time c.clients.keys s.now id).trans Table.contains_iff.symm
  refine ⟨?_, pairwise_refusing s.accepts c, ?_, hstay, ?_, ?_, ?_, ?_, ?_, ?_⟩
  · rw [show c' = ((c.surveying s time).removeClients (c.refusing s.accepts)).1 from hstate, htick]
    simp only [overdue, show c.refusing s.accepts = (c.surveying s time).refusing s.accepts from rfl,
      removeClients_refusing_snd]
    rfl
  · intro id
    exact (List.pairwise_map.2 ((opened.surveys.filter _).sorted.imp Std.compare_eq_lt.1))
  · rw [hstate, unreportedTimeouts_removeClients]
    rfl
  · rw [hstate, staleRemovals_removeClients]
    rfl
  · intro t ht
    rw [hbook, hopened, if_neg ht]
    exact congrArg (Option.bind _) (funext fun sv => sv.remaining?_eq_ite gone)
  · rw [hnew, Survey.isSome_remaining?, Table.isEmpty_eq_false_iff]
    simp only [howes, hregistered, and_comm]
  · intro sv hsv
    rw [hnew] at hsv
    exact hstate ▸ of_remaining?_survey hsv
  · intro t
    rw [completions_tick_of_opens ho, hstate]
    exact balance_removeClients hwf' gone t

/-- Clients 1 and 2 refuse. Survey 960 waits for client 2, survey 970 for client 1 and survey 990 for all; one timeout is
to be reported. Client 1 leaves first and closes survey 970, then client 2 closes survey 960, and client 3 is left. -/
theorem tick_with_refusals_overlapping :
    let all : Surroundings Nat := ⟨⟨0⟩, fun _ => true⟩
    let thirdOnly : Surroundings Nat := ⟨⟨5⟩, fun peer => decide (peer = 30)⟩
    let before : List (Surroundings Nat × CoordinatorInput Nat) :=
      [(all, .register 2 20), (all, .tick 950), (all, .tick 960), (all, .register 1 10), (all, .tick 970),
        (all, .complete 2 970), (all, .register 3 30), (all, .setTags 3 (.ofList [("host", "c")])), (all, .tick 990),
        (all, .timeout 950)]
    (run new before).1.clients.isEmpty = false ∧ (run new before).1.book.get? 1000 = none ∧
    (run new before).1.book.openTimes = [960, 970, 990] ∧
    (tick thirdOnly (run new before).1 1000).2 =
      [.tell (.opened 1000), tellCount 1000 timeoutsMetric 1, tellCount 1000 clientsMetric 3,
        .request 10 1000, .request 20 1000, .request 30 1000,
        .close 10, .tell (.completed 970), .close 20, .tell (.completed 960), .armTimeout 1000] ∧
    (tick thirdOnly (run new before).1 1000).1.clients.toList = [(3, ⟨30, .ofList [("host", "c")]⟩)] ∧
    ((tick thirdOnly (run new before).1 1000).1.book.get? 1000).isSome = true ∧
    ((tick thirdOnly (run new before).1 1000).1.book.get? 990).map (fun sv => sv.outstanding.keys) = some [3] := by
  intro all thirdOnly before
  have hclients : (run new before).1.clients.isEmpty = false := by decide
  have hnone : (run new before).1.book.get? 1000 = none := by decide
  obtain ⟨heffects, -, -, hstay, -, -, hothers, hopen, -⟩ := tick_with_refusals (s := thirdOnly) hclients hnone
  have hleft : (tick thirdOnly (run new before).1 1000).1.clients.toList = [(3, ⟨30, .ofList [("host", "c")]⟩)] := by
    rw [hstay]
    decide
  have hstill := hopen.2 (congrArg List.isEmpty hleft)
  have hasked : (run new before).1.clients.toList =
    [(1, ⟨10, ∅⟩), (2, ⟨20, ∅⟩), (3, ⟨30, .ofList [("host", "c")]⟩)] := by decide
  have hrefused : ((run new before).1.clients.toList.filter fun e => !thirdOnly.accepts e.2.peer) =
    [(1, ⟨10, ∅⟩), (2, ⟨20, ∅⟩)] := by decide
  have hfirst : ((run new before).1.surveying thirdOnly 1000).book.closedWith [1, 2] 1 = [970] := by decide +kernel
  have hsecond : ((run new before).1.surveying thirdOnly 1000).book.closedWith [1, 2] 2 = [960] := by decide +kernel
  refine ⟨hclients, hnone, by decide, ?_, hleft, hstill, ?_⟩
  · rw [heffects, hrefused, hasked, if_pos hstill, show (run new before).1.unreportedTimeouts = 1 by decide,
      show (run new before).1.clients.size = 3 by decide]
    simp only [List.map_cons, List.map_nil, List.flatMap_cons, List.flatMap_nil, hfirst, hsecond]
    rfl
  · rw [hothers 990 (by decide)]
    decide

end Coordinator

end MetricSurvey

/-
Delivery: no report is lost on its way to the snapshot.

A report and the answer that it belongs to go through different trays, and the aggregator may handle the report long after
the coordinator has handled the answer. Yet the report finds its snapshot open.

- `request_after_opened`: a client is asked only after the aggregator was told that the survey time has begun.
- `not_completed_of_recorded`: while an answer is still taken, the aggregator was not told that its survey is complete.
- `Sound.open_of_recorded`: so from the beginning of a time until an answer for it is taken, the snapshot stays open.
- `report_merged_once`: a report that a session read after its client was asked, and whose answer was taken before any
  other tick, is merged into the one snapshot of its time, once, and that snapshot holds every report that was put into
  the tray from its beginning to then.
- `report_merged_once_overtaken`: the same for a run where the coordinator is done with the survey while the aggregator has
  handled nothing but its beginning.
-/
import MetricSurvey.Proofs.Server.Floor

namespace MetricSurvey

/-! ## Requests and recordings -/

namespace Coordinator

open AggregatorEvent

variable {P : Type}

theorem not_request_removeClient (c : Coordinator P) (id : ClientId) (p : P) (time : SurveyTime) :
    .request p time ∉ (c.removeClient id).2 := by
  simp [removeClient]

theorem not_request_removeClients (c : Coordinator P) (ids : List ClientId) (p : P) (time : SurveyTime) :
    .request p time ∉ (c.removeClients ids).2 := by
  induction ids generalizing c with
  | nil => simp [removeClients]
  | cons id ids ih =>
    rw [removeClients_cons, List.mem_append, not_or]
    exact ⟨not_request_removeClient c id p time, ih _⟩

/-- clients are asked by a tick that opens a survey -/
theorem opens_of_request_mem {s : Surroundings P} {c : Coordinator P} {i : CoordinatorInput P} {p : P}
    {time : SurveyTime} (h : .request p time ∈ (step s c i).2) : c.opens i = some time := by
  cases i with
  | register id peer =>
    simp only [step, register] at h
    split at h <;> simp at h
  | setTags id tags => simp [step] at h
  | sessionEnded id =>
    simp only [step, sessionEnded] at h
    split at h
    · simp at h
    · exact absurd h (not_request_removeClient c id p time)
  | removeClient id => exact absurd h (not_request_removeClient c id p time)
  | tick t =>
    have hdue : .request p time ∉ c.overdue t := by
      rw [overdue]
      split_ifs <;> simp [tellCount]
    cases ho : c.opens (.tick t) with
    | none =>
      simp only [step, tick_of_opens_none ho, List.mem_cons, reduceCtorEq, false_or] at h
      exact absurd h hdue
    | some t' =>
      obtain rfl : t' = t := (opens_tick_eq_some.1 ho).1
      have hrem := not_request_removeClients (c.surveying s t') (c.refusing s.accepts) p time
      simp only [step, tick_of_opens ho, List.cons_append, List.mem_cons, List.mem_append, reduceCtorEq, false_or, hdue,
        tellCount, hrem, or_false, List.mem_map, CoordinatorEffect.request.injEq] at h
      rcases h with ⟨e, -, -, rfl⟩ | h
      · rfl
      · split_ifs at h <;> simp at h
  | complete id t =>
    simp only [step, complete] at h
    split at h
    · split_ifs at h <;> simp at h
    · simp at h
  | timeout t =>
    simp only [step, timeout] at h
    split at h <;> simp at h
  | shutdown => simp [step, shutdown] at h

/-- **A client is asked only after its survey has begun**: before the request, the aggregator was told so. -/
theorem request_after_opened (c : Coordinator P) {is : List (Surroundings P × CoordinatorInput P)}
    {before after : Effects P} {p : P} {time : SurveyTime} (h : (run c is).2 = before ++ .request p time :: after) :
    time ∈ openings (events before) := by
  induction is generalizing c before with
  | nil => simp at h
  | cons i is ih =>
    rw [run_cons] at h
    rcases append_eq_append_cons h with ⟨m, he, -⟩ | ⟨m, rfl, he⟩
    · have hm : .request p time ∈ (step i.1 c i.2).2 := by rw [he]; simp
      have ho := opens_of_request_mem hm
      obtain ⟨hi, -⟩ := opens_eq_some.1 ho
      rw [hi] at he ho
      rw [show step i.1 c (.tick time) = tick i.1 c time from rfl, tick_of_opens ho] at he
      cases before with
      | nil => cases he
      | cons e before =>
        obtain ⟨rfl, -⟩ := List.cons.inj he
        simp [CoordinatorEffect.event?, opened?]
    · rw [events_append, openings_append, List.mem_append]
      exact Or.inr (ih _ he)

/-- While an answer is taken, its survey is open, so it is not complete if its time was ticked once. -/
theorem not_completed_of_recorded {is : List (Surroundings P × CoordinatorInput P)} {id : ClientId} {time : SurveyTime}
    {now : Reading} {latency : Duration} {closed : Bool} (hticks : (ticks is).Nodup)
    (h : ((run new is).1.book.complete id time now).2 = .recorded latency closed) :
    ((run new is).1.book.get? time).isSome = true ∧ time ∉ completions (events (run new is).2) := by
  obtain ⟨sv, hsv, -⟩ := (SurveyBook.complete_recorded_iff _ id time now).1 ⟨latency, closed, h⟩
  have hbal := balance_run is time
  have hle := (opened_sublist new is).count_le time
  have hone := List.nodup_iff_count_le_one.1 hticks time
  rw [hsv, Option.isSome_some, Bool.toNat_true] at hbal
  exact ⟨by rw [hsv]; rfl, List.count_eq_zero.1 (by omega)⟩

/-- a part of what is done tells a part of the events -/
theorem prefix_events_of_prefix {es es' : Effects P} (h : es <+: es') : events es <+: events es' := by
  obtain ⟨more, rfl⟩ := h
  rw [events_append]
  exact List.prefix_append _ _

/-- From the beginning of the survey that was the last to begin until one of its answers is taken, nothing that closes its
snapshot is put into the tray. -/
theorem not_closes_of_recorded {is : List (Surroundings P × CoordinatorInput P)} {q later : List Post}
    {time : SurveyTime} (hown : Post.own (q ++ later) = events (run new is).2) (hticks : (ticks is).Nodup)
    (hlast : (ticks is).getLast? = some time) (hdone : time ∉ completions (events (run new is).2))
    (hbegun : time ∈ openings (Post.own q)) :
    openings (q.map Post.event) = ticks is ∧ time ∉ completions (q.map Post.event) ∧
      ∀ e ∈ later.map Post.event, Aggregator.closes time e = false := by
  have hopenings : openings (Post.own q) ++ openings (Post.own later) = ticks is := by
    rw [← openings_append, ← Post.own_append, hown, openings_run]
  have hnone : openings (Post.own later) = [] := by
    by_contra hne
    rw [← hopenings] at hlast hticks
    rw [List.getLast?_append_of_ne_nil _ hne] at hlast
    exact (List.nodup_append.1 hticks).2.2 time hbegun time (List.mem_of_getLast? hlast) rfl
  rw [← hown, Post.own_append, completions_append, List.mem_append, not_or] at hdone
  refine ⟨?_, ?_, Aggregator.closes_eq_false ?_ ?_⟩
  · rw [Post.openings_map_event, ← hopenings, hnone, List.append_nil]
  · rw [Post.completions_map_event]
    exact hdone.1
  · rw [Post.openings_map_event, hnone]
  · rw [Post.completions_map_event]
    exact hdone.2

/-- The last answer closes the snapshot before anything else does. -/
theorem first_close_of_closed {is more : List (Surroundings P × CoordinatorInput P)} {s : Surroundings P} {id : ClientId}
    {time : SurveyTime} {latency : Duration} {q later : List Post}
    (hq : Post.own q = events (run new is).2)
    (hlater : Post.own (q ++ later) <+: events (run new (is ++ (s, .complete id time) :: more)).2)
    (h : ((run new is).1.book.complete id time s.now).2 = .recorded latency true) {e : AggregatorEvent Binary64}
    {after : List (AggregatorEvent Binary64)}
    (hfirst : (later.map Post.event).dropWhile (fun e => !Aggregator.closes time e) = e :: after) :
    e = .completed time := by
  have hsplit := List.takeWhile_append_dropWhile (p := fun e => !Aggregator.closes time e) (l := later.map Post.event)
  have he := List.head?_dropWhile_not (fun e => !Aggregator.closes time e) (later.map Post.event)
  have hbefore : ∀ x ∈ (later.map Post.event).takeWhile fun e => !Aggregator.closes time e,
      Aggregator.closes time x = false := fun x hx => by simpa using List.all_eq_true.1 List.all_takeWhile x hx
  rw [hfirst] at hsplit he
  replace he : Aggregator.closes time e = true := by simpa using he
  obtain ⟨q₁, q₂', rfl, hq₁, h₂⟩ := List.map_eq_append_iff.1 hsplit.symm
  rw [← hq₁] at hbefore
  obtain ⟨p, q₂, rfl, rfl, -⟩ := List.map_eq_cons_iff.1 h₂
  cases p with
  | session i r => cases he
  | coordinator e =>
    obtain ⟨rest, hrest⟩ := hlater
    rw [run_append, run_cons, events_append, events_append, Post.own_append, hq, List.append_assoc,
      List.append_cancel_left_eq, show step s (run new is).1 (.complete id time) = complete s.now (run new is).1 id time
        from rfl, complete_of_recorded h, Post.own_append, Post.own_cons] at hrest
    have hown : ∀ x ∈ Post.own q₁, Aggregator.closes time x = false := fun x hx => by
      obtain ⟨p, hp, hpx⟩ := List.mem_filterMap.1 hx
      cases p with
      | session i r => cases hpx
      | coordinator e' =>
        cases hpx
        exact hbefore x (List.mem_map_of_mem hp)
    -- the coordinator tells of the latency and then of the completion; neither may come after `e`
    cases hq₁ : Post.own q₁ with
    | nil =>
      rw [hq₁] at hrest
      obtain ⟨rfl, -⟩ := List.cons.inj hrest
      cases he
    | cons x xs =>
      rw [hq₁] at hrest hown
      obtain ⟨-, hrest⟩ := List.cons.inj hrest
      cases xs with
      | nil => exact (List.cons.inj hrest).1
      | cons y ys =>
        obtain ⟨rfl, -⟩ := List.cons.inj hrest
        have := hown (.completed time) (by simp)
        simp [Aggregator.closes] at this

end Coordinator

/-! ## The history of the floor -/

namespace Floor

/-- what has happened has happened -/
theorem history_step (f : Floor) (m : Move) :
    f.taken <+: (f.step m).taken ∧ f.done <+: (f.step m).done ∧ f.posted <+: (f.step m).posted := by
  have same : f.taken <+: f.taken ∧ f.done <+: f.done ∧ f.posted <+: f.posted :=
    ⟨List.prefix_refl _, List.prefix_refl _, List.prefix_refl _⟩
  cases m with
  | connect now id limits => cases id <;> exact same
  | react i now e =>
    simp only [step]
    split <;> exact same
  | carry i =>
    simp only [step]
    split
    · exact ⟨List.prefix_refl _, List.prefix_refl _, List.prefix_append _ _⟩
    · exact same
  | tick accepts time =>
    simp only [step]
    split_ifs
    · exact ⟨List.prefix_append _ _, List.prefix_refl _, List.prefix_refl _⟩
    · exact same
  | coordinate accepts =>
    simp only [step]
    split
    · exact ⟨List.prefix_append _ _, List.prefix_refl _, List.prefix_refl _⟩
    · exact same
  | execute =>
    simp only [step]
    split
    · exact ⟨List.prefix_refl _, List.prefix_append _ _, List.prefix_append _ _⟩
    · exact same
  | aggregate =>
    simp only [step]
    split <;> exact same
  | fire by_ => exact same
  | tell i => exact same
  | clock r => exact same

theorem history_run (f : Floor) (ms : List Move) :
    f.taken <+: (f.run ms).taken ∧ f.done <+: (f.run ms).done ∧ f.posted <+: (f.run ms).posted := by
  induction ms generalizing f with
  | nil => exact ⟨List.prefix_refl _, List.prefix_refl _, List.prefix_refl _⟩
  | cons m ms ih =>
    obtain ⟨ht, hd, hp⟩ := history_step f m
    obtain ⟨ht', hd', hp'⟩ := ih (f.step m)
    exact ⟨ht.trans ht', hd.trans hd', hp.trans hp'⟩

/-- what is due from a session stays due until the session does it -/
theorem sessionDue_step {f : Floor} {m : Move} {i : Nat} (hm : m ≠ .carry i) (hdue : f.sessionDue i ≠ []) :
    (f.step m).sessionDue i = f.sessionDue i := by
  cases m with
  | connect now id limits => cases id <;> rfl
  | react j now e =>
    simp only [step]
    split
    · rename_i s hj hs
      refine Function.update_of_ne (fun h => hdue ?_) _ _
      rw [h, hj]
    · rfl
  | carry j =>
    simp only [step]
    split
    · exact Function.update_of_ne (fun h => hm (by rw [h])) _ _
    · rfl
  | tick accepts time =>
    simp only [step]
    split_ifs <;> rfl
  | coordinate accepts =>
    simp only [step]
    split <;> rfl
  | execute =>
    simp only [step]
    split <;> rfl
  | aggregate =>
    simp only [step]
    split <;> rfl
  | fire by_ => rfl
  | tell j => rfl
  | clock r => rfl

theorem sessionDue_run {f : Floor} {ms : List Move} {i : Nat} (hm : .carry i ∉ ms) (hdue : f.sessionDue i ≠ []) :
    (f.run ms).sessionDue i = f.sessionDue i := by
  induction ms generalizing f with
  | nil => rfl
  | cons m ms ih =>
    rw [List.mem_cons, not_or] at hm
    have hstep := sessionDue_step (Ne.symm hm.1) hdue
    rw [run_cons, ih hm.2 (hstep ▸ hdue), hstep]

/-- what has left the aggregator, and what leaves if it handles what lies in its tray and is flushed -/
def left (f : Floor) : List (Snapshot Binary64) :=
  f.server.emitted ++ Aggregator.drain f.server.aggregator f.server.aggregatorTray

theorem Sound.left_eq {f : Floor} (h : Sound f) : f.left = Aggregator.drain .new (f.posted.map Post.event) := by
  rw [left, h.emitted, h.aggregator, h.tray, ← Aggregator.drain_append, ← List.map_append, List.take_append_drop]

/-- the coordinator has told what it has done, which is a part of what follows from what it handled -/
theorem Sound.own_prefix {f : Floor} (h : Sound f) :
    Post.own f.posted <+: Coordinator.events (Coordinator.run .new f.taken).2 := by
  rw [h.own, ← h.effects]
  exact Coordinator.prefix_events_of_prefix (List.prefix_append _ _)

/-- no time begins twice if none is ticked twice -/
theorem Sound.nodup_openings {f : Floor} (h : Sound f) (hticks : (Coordinator.ticks f.taken).Nodup) :
    (AggregatorEvent.openings (f.posted.map Post.event)).Nodup := by
  obtain ⟨more, hmore⟩ := h.own_prefix
  rw [← Coordinator.openings_run, ← hmore, AggregatorEvent.openings_append] at hticks
  rw [Post.openings_map_event]
  exact (List.nodup_append.1 hticks).1

/-- one snapshot leaves for a time that was fed -/
theorem Sound.count_left {f : Floor} (h : Sound f) (hticks : (Coordinator.ticks f.taken).Nodup) {time : SurveyTime}
    (hfed : Aggregator.Fed (f.posted.map Post.event) time) : (f.left.map Snapshot.time).count time = 1 := by
  have hn := h.nodup_openings hticks
  have hsub := Aggregator.times_drain_sublist (Aggregator.new (R := Binary64)) (f.posted.map Post.event)
  rw [h.left_eq]
  refine List.count_eq_one_of_mem (hsub.nodup hn) ?_
  exact ((Aggregator.mem_times_drain hn (Coordinator.completedFed h.own_prefix hticks)).2 time).2 hfed

/-! ## Delivery -/

/-- what follows from reading an answer that carries a report -/
theorem react_statsComplete {s : Session} {r : Report Binary64} {rest : Bytes} (hserving : s.phase = .serving)
    (hframe : Frame.read s.limits.maxFrame s.incoming = (.ok (some (.statsComplete r)), rest)) (hr : r.isEmpty = false)
    (now : Duration) : (s.react now .frame).2 = [.fragment r, .complete s.id r.time] := by
  have hreact : s.react now .frame = s.serve now .frame := by
    unfold Session.react
    rw [hserving]
  rw [hreact]
  simp only [Session.serve, Session.readFrame, hframe, Session.hear, Session.passOn, hr]
  rfl

/-- a session that has read an answer puts its report into the tray next -/
theorem posted_of_read {f : Floor} {i : Nat} {s : Session} {r : Report Binary64} {rest : Bytes} {ms : List Move}
    (hs : f.server.sessions[i]? = some s) (hidle : f.sessionDue i = []) (hserving : s.phase = .serving)
    (hframe : Frame.read s.limits.maxFrame s.incoming = (.ok (some (.statsComplete r)), rest)) (hr : r.isEmpty = false)
    (now : Duration) (hms : .carry i ∉ ms) :
    ((f.run (.react i now .frame :: ms)).step (.carry i)).posted =
      (f.run (.react i now .frame :: ms)).posted ++ [.session i r] := by
  have hread : f.step (.react i now .frame) = { f with
      server := { f.server with sessions := f.server.sessions.set i (s.react now .frame).1 }
      sessionDue := Function.update f.sessionDue i (s.react now .frame).2 } := by simp only [step, hidle, hs]
  have hdue : (f.step (.react i now .frame)).sessionDue i = [.fragment r, .complete s.id r.time] := by
    rw [hread, ← react_statsComplete hserving hframe hr now]
    exact Function.update_self i _ f.sessionDue
  have hstill := sessionDue_run hms (f := f.step (.react i now .frame)) (by simp [hdue])
  rw [hdue] at hstill
  rw [run_cons]
  generalize (f.step (.react i now .frame)).run ms = g at hstill
  simp only [step, hstill]
  rfl

/-- once nothing of the coordinator is due, it has told all that follows from what it handled -/
theorem Sound.own_eq {f : Floor} (h : Sound f) (hdue : f.coordinatorDue = []) :
    Post.own f.posted = Coordinator.events (Coordinator.run .new f.taken).2 := by
  rw [h.own, ← h.effects, hdue, List.append_nil]

/-- **The snapshot stays open until an answer for it is taken**: wherever the tray is cut after the time began, the
aggregator comes there with the snapshot of that time open and not yet left, and nothing behind closes it. -/
theorem Sound.open_of_recorded {f : Floor} (h : Sound f) (hdue : f.coordinatorDue = [])
    (hticks : (Coordinator.ticks f.taken).Nodup) {id : ClientId} {time : SurveyTime} {now : Reading} {latency : Duration}
    {closed : Bool} (hrec : ((Coordinator.run .new f.taken).1.book.complete id time now).2 = .recorded latency closed)
    (hlast : (Coordinator.ticks f.taken).getLast? = some time) {q later : List Post} (hcut : f.posted = q ++ later)
    (hbegun : time ∈ AggregatorEvent.openings (Post.own q)) :
    (Aggregator.run .new (q.map Post.event)).1.openTime = some time ∧
      time ∉ (Aggregator.run .new (q.map Post.event)).2.map Snapshot.time ∧
      ∀ e ∈ later.map Post.event, Aggregator.closes time e = false := by
  have hdone := (Coordinator.not_completed_of_recorded hticks hrec).2
  obtain ⟨htimes, hnone, hcloses⟩ := Coordinator.not_closes_of_recorded (hcut ▸ h.own_eq hdue) hticks hlast hdone hbegun
  obtain ⟨ts, hts⟩ := List.getLast?_eq_some_iff.1 hlast
  have hopen := Aggregator.openTime_run_of_last .new (htimes.trans hts) hnone
  exact ⟨hopen, Aggregator.not_mem_times_of_open (htimes ▸ hticks) hopen, hcloses⟩

/-- the coordinator takes what lies on top of its tray -/
theorem taken_coordinate {f : Floor} {i : CoordinatorInput Nat} {tray : List (CoordinatorInput Nat)}
    (hdue : f.coordinatorDue = []) (htop : f.server.coordinatorTray = i :: tray) (accepts : Nat → Bool) :
    (f.step (.coordinate accepts)).taken = f.taken ++ [(⟨f.server.clock, accepts⟩, i)] := by
  simp only [step, hdue, htop]
  rfl

/-- a client that was asked was asked for a time that had begun -/
theorem Sound.begun_of_asked {f : Floor} (h : Sound f) {i : Nat} {time : SurveyTime} (hasked : .request i time ∈ f.done) :
    time ∈ AggregatorEvent.openings (Post.own f.posted) := by
  obtain ⟨before, after, hdone⟩ := List.append_of_mem hasked
  have heffects := h.effects
  rw [hdone, List.append_assoc, List.cons_append] at heffects
  rw [h.own, hdone, Coordinator.events_append, AggregatorEvent.openings_append]
  exact List.mem_append_left _ (Coordinator.request_after_opened .new heffects.symm)

/-- the aggregator merges a report for the time that is open -/
theorem step_fragment_of_open {a : Aggregator Binary64} {r : Report Binary64} (h : a.openTime = some r.time) :
    ∃ snapshot, a.current = some snapshot ∧ snapshot.time = r.time ∧
      a.step (.fragment r) = ({ a with current := some (snapshot.merge r).1 }, none) := by
  obtain ⟨snapshot, hcur, ht⟩ := Option.map_eq_some_iff.1 h
  exact ⟨snapshot, hcur, ht, by simp only [Aggregator.step, hcur, if_pos ht]⟩

/-- **No report is lost.** Let a session read an answer after its client was asked, let its answer be taken while the tick
of its time is the last that was handled, and let no time be ticked twice. Whatever the order in which the sessions, the
coordinator and the aggregator go on:
- the report has one place in the tray of the aggregator, who handles what lies there once and in order;
- the aggregator finds the snapshot of its time open there, and not yet left, and merges the report, which is not late;
- one snapshot leaves for its time, made of the reports that were put into the tray since the time began and until an event
  closes the snapshot: those before this one, this one, and those after;
- among them are all that lay in the tray when the answer was taken, and if this was the last answer, then it is the
  completion of the survey that closes the snapshot. -/
theorem report_merged_once {clock : Reading} {patience : Duration} {m₁ m₂ m₃ m₄ : List Move} {f₁ f₂ f₃ f : Floor}
    {i : Nat} {s : Session} {r : Report Binary64} {rest : Bytes} {now : Duration} {tray : List (CoordinatorInput Nat)}
    {latency : Duration} {closed : Bool} {accepts : Nat → Bool}
    -- a session with nothing else to do has an answer to read, and its client was asked
    (h₁ : f₁ = (Floor.new clock patience).run m₁) (hasked : .request i r.time ∈ f₁.done)
    (hs : f₁.server.sessions[i]? = some s) (hidle : f₁.sessionDue i = []) (hserving : s.phase = .serving)
    (hframe : Frame.read s.limits.maxFrame s.incoming = (.ok (some (.statsComplete r)), rest)) (hr : r.isEmpty = false)
    -- it reads the answer, and anything but its next move happens
    (h₂ : f₂ = f₁.run (.react i now .frame :: m₂)) (hm₂ : .carry i ∉ m₂)
    -- it puts the report into the tray, and anything happens until the coordinator comes to the answer
    (h₃ : f₃ = f₂.run (.carry i :: m₃)) (hdue : f₃.coordinatorDue = [])
    (htop : f₃.server.coordinatorTray = .complete s.id r.time :: tray)
    -- the answer is taken, before any other tick, and anything happens
    (hrecorded : (f₃.server.coordinator.book.complete s.id r.time f₃.server.clock).2 = .recorded latency closed)
    (hlast : (Coordinator.ticks f₃.taken).getLast? = some r.time)
    (h : f = f₃.run (.coordinate accepts :: m₄)) (hticks : (Coordinator.ticks f.taken).Nodup) :
    let found := Aggregator.run .new (f₂.posted.map Post.event)
    f.posted[f₂.posted.length]? = some (.session i r) ∧
    f.server.aggregator = (Aggregator.run .new ((f.posted.take f.handled).map Post.event)).1 ∧
    r.time ∉ found.2.map Snapshot.time ∧
    (∃ snapshot, found.1.current = some snapshot ∧ snapshot.time = r.time ∧
      found.1.step (.fragment r) = ({ found.1 with current := some (snapshot.merge r).1 }, none)) ∧
    (f.left.map Snapshot.time).count r.time = 1 ∧
    ∃ before earlier later,
      f.posted.map Post.event = before ++ .opened r.time :: earlier ++ .fragment r :: later ∧
      before.length + 1 + earlier.length = f₂.posted.length ∧
      (∀ snapshot ∈ f.left, snapshot.time = r.time → snapshot =
        .ofReports r.time (Aggregator.reportsFor r.time earlier ++ r :: Aggregator.reportsInTime r.time later)) ∧
      f₃.posted.length ≤ f₂.posted.length + 1 + (later.takeWhile fun e => !Aggregator.closes r.time e).length ∧
      (closed = true → ∀ e after, later.dropWhile (fun e => !Aggregator.closes r.time e) = e :: after →
        e = .completed r.time) := by
  intro found
  have hsound₁ : Sound f₁ := h₁ ▸ sound_run (sound_new clock patience) m₁
  have hsound₂ : Sound f₂ := h₂ ▸ sound_run hsound₁ _
  have hsound₃ : Sound f₃ := h₃ ▸ sound_run hsound₂ _
  have hsound : Sound f := h ▸ sound_run hsound₃ _
  have hput : (f₂.step (.carry i)).posted = f₂.posted ++ [.session i r] := by
    rw [h₂]
    exact posted_of_read hs hidle hserving hframe hr now hm₂
  obtain ⟨x, hx⟩ : f₂.posted ++ [.session i r] <+: f₃.posted := by
    rw [h₃, run_cons, ← hput]
    exact (history_run _ m₃).2.2
  obtain ⟨y, hy⟩ : f₃.posted <+: f.posted := h ▸ (history_run f₃ _).2.2
  obtain ⟨more, hmore⟩ : f₃.taken ++ [(⟨f₃.server.clock, accepts⟩, .complete s.id r.time)] <+: f.taken := by
    rw [h, run_cons, ← taken_coordinate hdue htop]
    exact (history_run _ m₄).1
  have hticks₃ : (Coordinator.ticks f₃.taken).Nodup := by
    rw [← hmore, List.append_assoc, Coordinator.ticks_append] at hticks
    exact (List.nodup_append.1 hticks).1
  have hrec : ((Coordinator.run .new f₃.taken).1.book.complete s.id r.time f₃.server.clock).2 =
      .recorded latency closed := hsound₃.coordinator ▸ hrecorded
  -- the time begins before the report
  have hbegun : r.time ∈ AggregatorEvent.openings (Post.own f₂.posted) := by
    obtain ⟨z, hz⟩ : f₁.posted <+: f₂.posted := h₂ ▸ (history_run f₁ _).2.2
    rw [← hz, Post.own_append, AggregatorEvent.openings_append]
    exact List.mem_append_left _ (hsound₁.begun_of_asked hasked)
  obtain ⟨a, b, hab⟩ := Post.eq_append_of_opening hbegun
  -- so the aggregator finds its snapshot open there, and nothing closes it until the answer is taken
  have hpost : f₃.posted = f₂.posted ++ .session i r :: x := by
    rw [← hx, List.append_assoc]
    rfl
  obtain ⟨hfound, hunleft, -⟩ := hsound₃.open_of_recorded hdue hticks₃ hrec hlast hpost hbegun
  have hwindow : f₃.posted = (a ++ [.coordinator (.opened r.time)]) ++ (b ++ .session i r :: x) := by
    rw [hpost, hab]
    simp
  obtain ⟨-, -, hcloses⟩ := hsound₃.open_of_recorded hdue hticks₃ hrec hlast hwindow
    (by simp [Post.own?, AggregatorEvent.opened?])
  simp only [List.map_append, List.map_cons, List.mem_append, List.mem_cons] at hcloses
  have hearlier : ∀ e ∈ b.map Post.event, Aggregator.closes r.time e = false := fun e he => hcloses e (Or.inl he)
  have hlater : ∀ e ∈ x.map Post.event, Aggregator.closes r.time e = false :=
    fun e he => hcloses e (Or.inr (Or.inr he))
  have hfed : Aggregator.Fed (f.posted.map Post.event) r.time := by
    rw [← hy, List.map_append]
    have hopen := (Coordinator.not_completed_of_recorded hticks₃ hrec).1
    exact (Coordinator.fed_of_open (hsound₃.own_eq hdue) hticks₃ hopen).append _
  have hevents : f.posted.map Post.event =
      a.map Post.event ++ .opened r.time :: b.map Post.event ++ .fragment r :: (x ++ y).map Post.event := by
    rw [← hy, hwindow]
    simp [Post.event]
  refine ⟨?_, hsound.aggregator, hunleft, step_fragment_of_open hfound, hsound.count_left hticks hfed, _, _, _, hevents,
    ?_, ?_, ?_, ?_⟩
  · rw [← hy, hpost, List.append_assoc, List.getElem?_append_right (le_refl _), Nat.sub_self]
    rfl
  · simp only [hab, List.length_append, List.length_cons, List.length_map]
    omega
  · intro snapshot hleft ht
    have hn := hsound.nodup_openings hticks
    rw [hsound.left_eq, hevents] at hleft
    rw [hevents] at hn
    exact Aggregator.eq_ofReports_around hn hearlier hleft ht
  · rw [hpost, List.map_append, List.takeWhile_append_of_pos (by simpa using hlater)]
    simp only [List.length_append, List.length_cons, List.length_map]
    omega
  · intro hclosed e after hdrop
    subst hclosed
    rw [List.map_append, List.dropWhile_append_of_pos (by simpa using hlater)] at hdrop
    have hprefix := hsound.own_prefix
    rw [← hy, ← hmore, List.append_assoc, List.singleton_append] at hprefix
    exact Coordinator.first_close_of_closed (hsound₃.own_eq hdue) hprefix hrec hdrop

/-! A run: one client is asked for the time 1000 and answers with three hits. The aggregator has handled nothing but the
beginning of that time when the coordinator is done with the survey. -/

namespace Overtaken

def hits : Report Binary64 := .ofCount 1000 "hits" (.ofNat 3)

def answer : Bytes := (Frame.write Frame.defaultMax (.statsComplete hits)).toOption.getD []

def takesAll : Nat → Bool := fun _ => true

def asking : List Move := [.connect .zero none {}, .coordinate takesAll, .tick takesAll 1000, .execute, .execute,
  .execute, .execute, .react 0 .zero (.arrival answer)]

/-- the client was asked, and its answer has arrived -/
def arrived : Floor := (Floor.new ⟨1000000⟩ (.ofSecs 5)).run asking

/-- the answer was read -/
def heard : Floor := arrived.run [.react 0 .zero .frame, .aggregate]

/-- the answer lies in both trays -/
def told : Floor := heard.run [.carry 0, .carry 0]

/-- the coordinator is done with the survey -/
def finished : Floor := told.run [.coordinate takesAll, .execute, .execute]

end Overtaken

open Overtaken in
/-- The report of that run is merged all the same: it lies in the tray before the completion, and the one snapshot that
leaves holds it. -/
theorem report_merged_once_overtaken :
    finished.posted[2]? = some (.session 0 hits) ∧ finished.handled = 1 ∧
      finished.server.coordinator.book.inFlight = 0 ∧ (finished.left.map Snapshot.time).count 1000 = 1 := by
  have h₁ : arrived = (Floor.new ⟨1000000⟩ (.ofSecs 5)).run asking := rfl
  have hasked : .request 0 hits.time ∈ arrived.done := List.mem_of_getElem? (i := 2) (by rfl)
  have hs : arrived.server.sessions[0]? =
    some { Session.new 1 {} with phase := .serving, queue := [.reportAll 1000], incoming := answer } := by rfl
  have hidle : arrived.sessionDue 0 = [] := by rfl
  have hframe : Frame.read Frame.defaultMax answer = (.ok (some (.statsComplete hits)), []) := by rfl
  have h₂ : heard = arrived.run (.react 0 .zero .frame :: [.aggregate]) := rfl
  have hcarry : .carry 0 ∉ [Move.aggregate] := by simp
  have h₃ : told = heard.run (.carry 0 :: [.carry 0]) := rfl
  have hdue : told.coordinatorDue = [] := by rfl
  have htop : told.server.coordinatorTray = [.complete 1 hits.time] := by rfl
  have hrecorded : (told.server.coordinator.book.complete 1 hits.time told.server.clock).2 =
    .recorded .zero true := by rfl
  have hlast : (Coordinator.ticks told.taken).getLast? = some hits.time := by rfl
  have h : finished = told.run (.coordinate takesAll :: [.execute, .execute]) := rfl
  have hticks : (Coordinator.ticks finished.taken).Nodup := List.nodup_singleton 1000
  obtain ⟨hposted, -, -, -, hone, -⟩ := report_merged_once h₁ hasked hs hidle rfl hframe rfl h₂ hcarry h₃ hdue htop
    hrecorded hlast h hticks
  exact ⟨hposted, by rfl, by rfl, hone⟩

end Floor

end MetricSurvey

/-
The floor of a server: its parts go on in any order, and do one thing at a time.

A `Server` lets a session, or the coordinator, do all that follows from an event before anybody else goes on. Here what
follows is due, and is done bit by bit: a session may have put a report into one tray while its answer is not yet in the
other, and anybody may go on in between. What the coordinator reads about its peers is left open, and anybody may put
anything into its tray. The floor also keeps what has happened: what the coordinator handled and did, and what was put into
the tray of the aggregator.

- `server_react_carries`, `server_coordinate_executes`: a step of the server is a run of the floor.
- `Sound`: the coordinator and the aggregator stand where the runs over what they have handled lead; the tray of the
  aggregator is what was put there, without what was handled.
- `sound_run`: so it is after every run.
-/
import MetricSurvey.Proofs.Survey.Emission
import MetricSurvey.Server.Basic

namespace MetricSurvey

/-- what a session puts into the tray of the aggregator by an effect -/
def SessionEffect.post? (i : Nat) : SessionEffect → Option Post
  | fragment r => some (.session i r)
  | _ => none

/-- what the coordinator puts into the tray of the aggregator by an effect -/
def CoordinatorEffect.post? (e : CoordinatorEffect Nat) : Option Post := e.event?.map .coordinator

structure Floor where
  server : Server
  /-- what the coordinator has still to do for the input that it handled last -/
  coordinatorDue : Coordinator.Effects Nat
  /-- what a session has still to do for the event that it handled last -/
  sessionDue : Nat → List SessionEffect
  /-- what the coordinator has handled -/
  taken : List (Surroundings Nat × CoordinatorInput Nat)
  /-- what the coordinator has done -/
  done : Coordinator.Effects Nat
  /-- all that was ever put into the tray of the aggregator -/
  posted : List Post
  /-- how much of it the aggregator has handled -/
  handled : Nat

/-- what may happen next on the floor -/
inductive Move where
  /-- a session is opened, under an id of somebody's choice or under a fresh one -/
  | connect (now : Duration) (id : Option ClientId) (limits : SessionLimits)
  /-- a session handles an event, if nothing of it is due -/
  | react (i : Nat) (now : Duration) (e : SessionEvent)
  /-- a session does what is due first -/
  | carry (i : Nat)
  /-- the coordinator handles a tick, if nothing of it is due -/
  | tick (accepts : Nat → Bool) (time : SurveyTime)
  /-- the coordinator handles what lies on top of its tray, if nothing of it is due -/
  | coordinate (accepts : Nat → Bool)
  /-- the coordinator does what is due first -/
  | execute
  /-- the aggregator handles what lies on top of its tray -/
  | aggregate
  /-- timers fire -/
  | fire (by_ : Duration)
  /-- somebody puts something into the coordinator's tray -/
  | tell (i : CoordinatorInput Nat)
  | clock (r : Reading)

/-! ## What the operations of a server leave alone -/

namespace Server

theorem tellCoordinator_eq (v : Server) (i : CoordinatorInput Nat) :
    ∃ tray, v.tellCoordinator i = { v with coordinatorTray := tray } := by
  unfold tellCoordinator
  split
  · exact ⟨v.coordinatorTray, rfl⟩
  · exact ⟨_, rfl⟩

theorem openAs_eq (now : Duration) (v : Server) (id : ClientId) (limits : SessionLimits) :
    ∃ sessions tray, v.openAs now id limits = { v with sessions := sessions, coordinatorTray := tray } := by
  obtain ⟨tray, ht⟩ := tellCoordinator_eq
    { v with sessions := v.sessions ++ [((Session.new id limits).react now .start).1] } (.register id v.sessions.length)
  exact ⟨_, tray, ht⟩

theorem foldl_tellCoordinator_eq (v : Server) (is : List (CoordinatorInput Nat)) :
    ∃ tray, is.foldl tellCoordinator v = { v with coordinatorTray := tray } := by
  induction is generalizing v with
  | nil => exact ⟨v.coordinatorTray, rfl⟩
  | cons i is ih =>
    obtain ⟨tray, ht⟩ := tellCoordinator_eq v i
    obtain ⟨tray', ht'⟩ := ih (v.tellCoordinator i)
    exact ⟨tray', by rw [List.foldl_cons, ht', ht]⟩

theorem fireTimers_eq (v : Server) (by_ : Duration) :
    ∃ timers tray, v.fireTimers by_ = { v with timers := timers, coordinatorTray := tray } := by
  obtain ⟨tray, ht⟩ := foldl_tellCoordinator_eq { v with timers := (v.timers.advance by_).1 }
    ((v.timers.advance by_).2.map .timeout)
  rw [List.foldl_map] at ht
  exact ⟨_, tray, ht⟩

theorem carry_of_post {e : SessionEffect} {i : Nat} {p : Post} (h : e.post? i = some p) (v : Server) :
    v.carry e = v.tellAggregator p.event := by
  cases e with
  | fragment r => cases h; rfl
  | _ => cases h

theorem carry_of_no_post {e : SessionEffect} {i : Nat} (h : e.post? i = none) (v : Server) :
    ∃ tray, v.carry e = { v with coordinatorTray := tray } := by
  cases e with
  | setTags id tags => exact tellCoordinator_eq v (.setTags id tags)
  | complete id time => exact tellCoordinator_eq v (.complete id time)
  | ended id => exact tellCoordinator_eq v (.sessionEnded id)
  | fragment r => cases h
  | sent bytes => exact ⟨v.coordinatorTray, rfl⟩

theorem execute_of_post {e : CoordinatorEffect Nat} {p : Post} (h : e.post? = some p) (v : Server) :
    v.execute e = v.tellAggregator p.event := by
  cases e with
  | tell e => cases h; rfl
  | _ => cases h

theorem execute_of_no_post {e : CoordinatorEffect Nat} (h : e.post? = none) (v : Server) :
    ∃ sessions timers, v.execute e = { v with sessions := sessions, timers := timers } := by
  cases e with
  | tell e => cases h
  | request i time => exact ⟨_, v.timers, rfl⟩
  | close i => exact ⟨_, v.timers, rfl⟩
  | armTimeout time => exact ⟨v.sessions, _, rfl⟩

end Server

namespace Floor

def new (clock : Reading) (patience : Duration) : Floor := ⟨.new clock patience, [], fun _ => [], [], [], [], 0⟩

/-- the coordinator handles an input -/
def take (f : Floor) (accepts : Nat → Bool) (i : CoordinatorInput Nat) : Floor :=
  let s : Surroundings Nat := ⟨f.server.clock, accepts⟩
  { f with
    server := { f.server with coordinator := (Coordinator.step s f.server.coordinator i).1 }
    coordinatorDue := (Coordinator.step s f.server.coordinator i).2
    taken := f.taken ++ [(s, i)] }

/-- make a move; one that is not possible changes nothing -/
def step (f : Floor) : Move → Floor
  | .connect now (some id) limits => { f with server := f.server.openAs now id limits }
  | .connect now none limits => { f with server := f.server.openFresh now limits }
  | .react i now e =>
    match f.sessionDue i, f.server.sessions[i]? with
    | [], some s =>
      { f with
        server := { f.server with sessions := f.server.sessions.set i (s.react now e).1 }
        sessionDue := Function.update f.sessionDue i (s.react now e).2 }
    | _, _ => f
  | .carry i =>
    match f.sessionDue i with
    | e :: rest =>
      { f with
        server := f.server.carry e
        sessionDue := Function.update f.sessionDue i rest
        posted := f.posted ++ (e.post? i).toList }
    | [] => f
  | .tick accepts time => if f.coordinatorDue = [] then f.take accepts (.tick time) else f
  | .coordinate accepts =>
    match f.coordinatorDue, f.server.coordinatorTray with
    | [], i :: rest => { f with server := { f.server with coordinatorTray := rest } }.take accepts i
    | _, _ => f
  | .execute =>
    match f.coordinatorDue with
    | e :: rest =>
      { f with
        server := f.server.execute e
        coordinatorDue := rest
        done := f.done ++ [e]
        posted := f.posted ++ e.post?.toList }
    | [] => f
  | .aggregate =>
    match f.server.aggregatorTray with
    | [] => f
    | _ :: _ => { f with server := f.server.aggregatorStep, handled := f.handled + 1 }
  | .fire by_ => { f with server := f.server.fireTimers by_ }
  | .tell i => { f with server := f.server.tellCoordinator i }
  | .clock r => { f with server := { f.server with clock := r } }

def run (f : Floor) (ms : List Move) : Floor := ms.foldl step f

@[simp] theorem run_nil (f : Floor) : f.run [] = f := rfl

@[simp] theorem run_cons (f : Floor) (m : Move) (ms : List Move) : f.run (m :: ms) = (f.step m).run ms := rfl

theorem run_append (f : Floor) (ms ns : List Move) : f.run (ms ++ ns) = (f.run ms).run ns := List.foldl_append

/-! ## Steps of a server -/

/-- all that is due from a session, done one by one -/
theorem run_carries (f : Floor) (i : Nat) :
    (f.run (List.replicate (f.sessionDue i).length (.carry i))).server = (f.sessionDue i).foldl Server.carry f.server ∧
      (f.run (List.replicate (f.sessionDue i).length (.carry i))).sessionDue i = [] := by
  generalize hd : f.sessionDue i = due
  induction due generalizing f with
  | nil => exact ⟨rfl, hd⟩
  | cons e rest ih =>
    have hstep : f.step (.carry i) = { f with
        server := f.server.carry e
        sessionDue := Function.update f.sessionDue i rest
        posted := f.posted ++ (e.post? i).toList } := by simp only [step, hd]
    rw [List.length_cons, List.replicate_succ, run_cons, hstep]
    exact ih _ (Function.update_self i rest f.sessionDue)

/-- a session that does at once all that follows from an event makes a step of the server -/
theorem server_react_carries {f : Floor} {i : Nat} {s : Session} (hs : f.server.sessions[i]? = some s)
    (hdue : f.sessionDue i = []) (now : Duration) (e : SessionEvent) :
    (f.run (.react i now e :: List.replicate (s.react now e).2.length (.carry i))).server =
      f.server.sessionStep now i e := by
  have hstep : f.step (.react i now e) = { f with
      server := { f.server with sessions := f.server.sessions.set i (s.react now e).1 }
      sessionDue := Function.update f.sessionDue i (s.react now e).2 } := by simp only [step, hdue, hs]
  have hnext : (f.step (.react i now e)).sessionDue i = (s.react now e).2 := by
    rw [hstep]
    exact Function.update_self i _ f.sessionDue
  have := (run_carries (f.step (.react i now e)) i).1
  rw [hnext] at this
  rw [run_cons, this, hstep, Server.sessionStep, hs]
  rfl

/-- all that is due from the coordinator, done one by one -/
theorem run_executes (f : Floor) :
    (f.run (List.replicate f.coordinatorDue.length .execute)).server = f.coordinatorDue.foldl Server.execute f.server ∧
      (f.run (List.replicate f.coordinatorDue.length .execute)).coordinatorDue = [] := by
  generalize hd : f.coordinatorDue = due
  induction due generalizing f with
  | nil => exact ⟨rfl, hd⟩
  | cons e rest ih =>
    have hstep : f.step .execute = { f with
        server := f.server.execute e
        coordinatorDue := rest
        done := f.done ++ [e]
        posted := f.posted ++ e.post?.toList } := by simp only [step, hd]
    rw [List.length_cons, List.replicate_succ, run_cons, hstep]
    exact ih _ rfl

/-- a coordinator that knows which sessions take a request, and does at once all that follows from an input, makes a step
of the server -/
theorem server_coordinate_executes {f : Floor} (hdue : f.coordinatorDue = []) :
    let accepts := fun j => (f.server.sessions[j]?.map Session.accepts).getD false
    (f.run (.coordinate accepts ::
      List.replicate (f.step (.coordinate accepts)).coordinatorDue.length .execute)).server = f.server.coordinatorStep := by
  intro accepts
  rw [run_cons, (run_executes (f.step (.coordinate accepts))).1, Server.coordinatorStep]
  cases ht : f.server.coordinatorTray with
  | nil =>
    simp only [step, hdue, ht]
    rfl
  | cons i rest =>
    simp only [step, hdue, ht]
    rfl

/-! ## The invariant -/

/-- the coordinator and the aggregator stand where the runs over what they have handled lead, and nothing that was put into
the tray of the aggregator is lost or overtaken -/
structure Sound (f : Floor) : Prop where
  coordinator : f.server.coordinator = (Coordinator.run .new f.taken).1
  effects : f.done ++ f.coordinatorDue = (Coordinator.run .new f.taken).2
  own : Post.own f.posted = Coordinator.events f.done
  tray : f.server.aggregatorTray = (f.posted.drop f.handled).map Post.event
  handled_le : f.handled ≤ f.posted.length
  aggregator : f.server.aggregator = (Aggregator.run .new ((f.posted.take f.handled).map Post.event)).1
  emitted : f.server.emitted = (Aggregator.run .new ((f.posted.take f.handled).map Post.event)).2
  receiving : f.server.aggregatorOpen = true

theorem sound_new (clock : Reading) (patience : Duration) : Sound (new clock patience) :=
  ⟨rfl, rfl, rfl, rfl, le_refl 0, rfl, rfl, rfl⟩

theorem Sound.take {f : Floor} (h : Sound f) (hdue : f.coordinatorDue = []) (tray : List (CoordinatorInput Nat))
    (accepts : Nat → Bool) (i : CoordinatorInput Nat) :
    Sound ({ f with server := { f.server with coordinatorTray := tray } }.take accepts i) where
  coordinator := by
    rw [Floor.take, Coordinator.run_snoc, ← h.coordinator]
  effects := by
    rw [Floor.take, Coordinator.run_snoc, ← h.coordinator, ← h.effects, hdue, List.append_nil]
  own := h.own
  tray := h.tray
  handled_le := h.handled_le
  aggregator := h.aggregator
  emitted := h.emitted
  receiving := h.receiving

/-- something is put into the tray of the aggregator, by the coordinator as the first thing due or by a session -/
theorem Sound.post {f : Floor} (h : Sound f) (p : Post) {due done : Coordinator.Effects Nat}
    (heffects : done ++ due = f.done ++ f.coordinatorDue)
    (hown : p.own?.toList = Coordinator.events (done.drop f.done.length)) (hdone : f.done <+: done)
    (sessionDue : Nat → List SessionEffect) :
    Sound { f with
      server := f.server.tellAggregator p.event
      coordinatorDue := due
      done := done
      sessionDue := sessionDue
      posted := f.posted ++ [p] } := by
  have htell : f.server.tellAggregator p.event =
      { f.server with aggregatorTray := f.server.aggregatorTray ++ [p.event] } := by
    rw [Server.tellAggregator, if_pos h.receiving]
  have htake : (f.posted ++ [p]).take f.handled = f.posted.take f.handled :=
    List.take_append_of_le_length h.handled_le
  rw [htell]
  constructor
  · exact h.coordinator
  · exact heffects.trans h.effects
  · obtain ⟨more, rfl⟩ := hdone
    rw [List.drop_left] at hown
    rw [Post.own_append, h.own, Post.own_cons, hown, Post.own_nil, List.append_nil, Coordinator.events_append]
  · dsimp only
    rw [List.drop_append_of_le_length h.handled_le, List.map_append, ← h.tray]
    rfl
  · exact h.handled_le.trans (by simp)
  · dsimp only
    rw [htake]
    exact h.aggregator
  · dsimp only
    rw [htake]
    exact h.emitted
  · exact h.receiving

theorem Sound.carry {f : Floor} (h : Sound f) (i : Nat) : Sound (f.step (.carry i)) := by
  simp only [step]
  split
  · rename_i e rest hdue
    cases hp : e.post? i with
    | none =>
      obtain ⟨tray, ht⟩ := Server.carry_of_no_post hp f.server
      rw [ht, Option.toList_none, List.append_nil]
      exact ⟨h.coordinator, h.effects, h.own, h.tray, h.handled_le, h.aggregator, h.emitted, h.receiving⟩
    | some p =>
      rw [Server.carry_of_post hp]
      refine h.post p rfl ?_ (List.prefix_refl _) _
      cases e <;> cases hp
      rw [List.drop_length]
      rfl
  · exact h

theorem Sound.execute {f : Floor} (h : Sound f) : Sound (f.step .execute) := by
  simp only [step]
  split
  · rename_i e rest hdue
    have heffects : f.done ++ [e] ++ rest = f.done ++ f.coordinatorDue := by simp [hdue]
    cases hp : e.post? with
    | none =>
      obtain ⟨sessions, timers, ht⟩ := Server.execute_of_no_post hp f.server
      rw [ht, Option.toList_none, List.append_nil]
      refine ⟨h.coordinator, heffects.trans h.effects, ?_, h.tray, h.handled_le, h.aggregator, h.emitted, h.receiving⟩
      rw [Coordinator.events_append, ← h.own]
      cases e with
      | tell e => cases hp
      | _ => exact (List.append_nil _).symm
    | some p =>
      rw [Server.execute_of_post hp]
      refine h.post p heffects ?_ (List.prefix_append _ _) f.sessionDue
      rw [List.drop_left]
      cases e <;> cases hp
      rfl
  · exact h

theorem Sound.aggregate {f : Floor} (h : Sound f) : Sound (f.step .aggregate) := by
  simp only [step]
  split
  · exact h
  · rename_i e rest htray
    have hdrop := h.tray
    rw [htray, eq_comm, List.map_eq_cons_iff] at hdrop
    obtain ⟨p, later, hlater, hp, hrest⟩ := hdrop
    have hlt : f.handled < f.posted.length := by
      by_contra hge
      rw [List.drop_eq_nil_of_le (by omega)] at hlater
      cases hlater
    have hget : f.posted[f.handled] = p := by
      have := List.drop_eq_getElem_cons hlt
      rw [hlater] at this
      exact (List.cons.inj this).1.symm
    have htake : (f.posted.take (f.handled + 1)).map Post.event = (f.posted.take f.handled).map Post.event ++ [e] := by
      rw [List.take_succ_eq_append_getElem hlt, hget, List.map_append, List.map_singleton, hp]
    have hstep : f.server.aggregatorStep = { f.server with
        aggregator := (f.server.aggregator.step e).1
        aggregatorTray := rest
        emitted := f.server.emitted ++ (f.server.aggregator.step e).2.toList } := by
      rw [Server.aggregatorStep, htray]
    rw [hstep]
    refine ⟨h.coordinator, h.effects, h.own, ?_, hlt, ?_, ?_, h.receiving⟩
    · dsimp only
      rw [← List.tail_drop, hlater, List.tail_cons, hrest]
    · dsimp only
      rw [htake, Aggregator.run_snoc, ← h.aggregator]
    · dsimp only
      rw [htake, Aggregator.run_snoc, ← h.aggregator, ← h.emitted]

theorem Sound.step {f : Floor} (h : Sound f) (m : Move) : Sound (f.step m) := by
  cases m with
  | connect now id limits =>
    cases id with
    | none =>
      obtain ⟨sessions, tray, hv⟩ := Server.openAs_eq now { f.server with nextId := f.server.nextId + 1 }
        f.server.nextId limits
      simp only [Floor.step, Server.openFresh, hv]
      exact ⟨h.coordinator, h.effects, h.own, h.tray, h.handled_le, h.aggregator, h.emitted, h.receiving⟩
    | some id =>
      obtain ⟨sessions, tray, hv⟩ := Server.openAs_eq now f.server id limits
      simp only [Floor.step, hv]
      exact ⟨h.coordinator, h.effects, h.own, h.tray, h.handled_le, h.aggregator, h.emitted, h.receiving⟩
  | react i now e =>
    simp only [Floor.step]
    split
    · exact ⟨h.coordinator, h.effects, h.own, h.tray, h.handled_le, h.aggregator, h.emitted, h.receiving⟩
    · exact h
  | carry i => exact h.carry i
  | tick accepts time =>
    simp only [Floor.step]
    split_ifs with hdue
    · exact h.take hdue f.server.coordinatorTray accepts (.tick time)
    · exact h
  | coordinate accepts =>
    simp only [Floor.step]
    split
    · rename_i i rest hdue htray
      exact h.take hdue rest accepts i
    · exact h
  | execute => exact h.execute
  | aggregate => exact h.aggregate
  | fire by_ =>
    obtain ⟨timers, tray, hv⟩ := Server.fireTimers_eq f.server by_
    simp only [Floor.step, hv]
    exact ⟨h.coordinator, h.effects, h.own, h.tray, h.handled_le, h.aggregator, h.emitted, h.receiving⟩
  | tell i =>
    obtain ⟨tray, hv⟩ := Server.tellCoordinator_eq f.server i
    simp only [Floor.step, hv]
    exact ⟨h.coordinator, h.effects, h.own, h.tray, h.handled_le, h.aggregator, h.emitted, h.receiving⟩
  | clock r => exact ⟨h.coordinator, h.effects, h.own, h.tray, h.handled_le, h.aggregator, h.emitted, h.receiving⟩

/-- **The floor is sound after every run**, whatever the order of the moves. -/
theorem sound_run {f : Floor} (h : Sound f) (ms : List Move) : Sound (f.run ms) := by
  induction ms generalizing f with
  | nil => exact h
  | cons m ms ih => exact ih (h.step m)

end Floor

end MetricSurvey

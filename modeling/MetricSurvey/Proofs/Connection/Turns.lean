/-
Turns: a reporter and a session at the two ends of a connection, and what an event of either makes of the two.

The loops of both ends go on in any order and at any moments, and bytes move through the pipes in any pieces. Left out are
the deadlines for silence and for writing, being told to close, and transports that fail.

- `step`: what can happen to a conversation, and what it makes of it.
- `Poise`: how the two ends stand. `Flow`: what is in transit each way, and what has become of every request and ping.
- `sessionTurn`, `reporterTurn`: while nothing is wrong, an event of an end does one of few things.
-/
import MetricSurvey.Proofs.Connection.Forwarding
import MetricSurvey.Proofs.Connection.Transit

namespace MetricSurvey

open MetricSurvey.Stream.Readout

/-! ## What is said and done -/

namespace Message

def requestTime? : Message → Option SurveyTime
  | .reportAll time => some time
  | _ => none

def answerTime? : Message → Option SurveyTime
  | .statsComplete r => some r.time
  | _ => none

/-- the survey times that are asked for, in order -/
def requests (ms : List Message) : List SurveyTime := ms.filterMap requestTime?

/-- the survey times that are answered, in order -/
def answers (ms : List Message) : List SurveyTime := ms.filterMap answerTime?

@[simp] theorem requests_append (ms ms' : List Message) : requests (ms ++ ms') = requests ms ++ requests ms' :=
  List.filterMap_append

@[simp] theorem requests_cons (m : Message) (ms : List Message) :
    requests (m :: ms) = m.requestTime?.toList ++ requests ms := by
  cases m <;> rfl

@[simp] theorem requests_nil : requests [] = [] := rfl

@[simp] theorem answers_append (ms ms' : List Message) : answers (ms ++ ms') = answers ms ++ answers ms' :=
  List.filterMap_append

@[simp] theorem answers_cons (m : Message) (ms : List Message) :
    answers (m :: ms) = m.answerTime?.toList ++ answers ms := by
  cases m <;> rfl

@[simp] theorem answers_nil : answers [] = [] := rfl

end Message

namespace Session

/-- whether bytes of the session still have to be taken before it goes on -/
def isWriting (s : Session) : Bool :=
  match s.phase with
  | .writing _ | .closing _ _ => true
  | _ => false

/-- why a session ends or has ended, if it does -/
def parting? (s : Session) : Option (Option SessionError) :=
  match s.phase with
  | .closing _ reason | .ended reason => some reason
  | _ => none

/-- who is not leaving has not ended -/
theorem hasEnded_of_parting {s : Session} (h : s.parting? = none) : s.hasEnded = false := by
  unfold parting? at h
  unfold hasEnded ending?
  cases hphase : s.phase with
  | ended reason => simp [hphase] at h
  | _ => rfl

theorem isWriting_of_hasEnded {s : Session} (h : s.hasEnded = true) : s.isWriting = false := by
  unfold hasEnded ending? at h
  unfold isWriting
  cases hphase : s.phase with
  | ended reason => rfl
  | _ => simp [hphase] at h

/-- the message that an event makes a session write -/
def writes (now : Duration) (s : Session) (e : SessionEvent) : Option Message :=
  if s.phase = .serving then
    match e with
    | .frame => if s.hears (.event now .frame) = some .ping then some .pong else none
    | .outbound => s.queue.head?
    | .pingTime => if s.pingAt ≤ now then some .ping else none
    | _ => none
  else none

/-- the survey times that the coordinator hears are complete for the client -/
def completed (effects : List SessionEffect) : List SurveyTime := effects.filterMap fun
  | .complete _ time => some time
  | _ => none

/-- the bytes that the transport has taken -/
def sent (effects : List SessionEffect) : Bytes := effects.flatMap fun
  | .sent bytes => bytes
  | _ => []

@[simp] theorem completed_append (es es' : List SessionEffect) : completed (es ++ es') = completed es ++ completed es' :=
  List.filterMap_append

@[simp] theorem completed_forwards (id : ClientId) (m : Message) : completed (forwards id m) = m.answerTime?.toList := by
  cases m with
  | statsPartial r => cases hempty : r.isEmpty <;> simp [forwards, hempty, completed, Message.answerTime?]
  | statsComplete r => cases hempty : r.isEmpty <;> simp [forwards, hempty, completed, Message.answerTime?]
  | _ => rfl

@[simp] theorem sent_append (es es' : List SessionEffect) : sent (es ++ es') = sent es ++ sent es' :=
  List.flatMap_append

@[simp] theorem sent_forwards (id : ClientId) (m : Message) : sent (forwards id m) = [] := by
  cases m with
  | statsPartial r => cases hempty : r.isEmpty <;> simp [forwards, hempty, sent]
  | statsComplete r => cases hempty : r.isEmpty <;> simp [forwards, hempty, sent]
  | _ => rfl

end Session

namespace Reporter

def isWriting (r : Reporter) : Bool :=
  match r.phase with
  | .writing _ _ => true
  | _ => false

/-- the message that an event makes a reporter write -/
def writes (r : Reporter) : ReporterEvent → Option Message
  | .register tags => if r.phase = .unstarted then some (.registerProcess tags) else none
  | .frame =>
    if r.phase = .serving then
      match message? (Frame.read maxFrame r.incoming).1 with
      | some .ping => some .pong
      | some (.reportAll time) => some (.statsComplete (r.registry.report id time).1)
      | _ => none
    else none
  | _ => none

def sent (effects : List ReporterEffect) : Bytes := effects.flatMap fun
  | .sent bytes => bytes
  | _ => []

@[simp] theorem sent_append (es es' : List ReporterEffect) : sent (es ++ es') = sent es ++ sent es' :=
  List.flatMap_append

end Reporter

namespace Duplex

/-- the pipes of two connections say the same of who has left -/
structure SameEnds (d d' : Duplex) : Prop where
  serverFinished : d'.toServer.finished = d.toServer.finished
  serverAbandoned : d'.toServer.abandoned = d.toServer.abandoned
  clientFinished : d'.toClient.finished = d.toClient.finished
  clientAbandoned : d'.toClient.abandoned = d.toClient.abandoned

variable {d : Duplex}

/-- who has left has left for good -/
theorem leaveServer_eq (hgone : d.toServer.abandoned = true) (hend : d.toClient.finished = true) : d.leaveServer = d := by
  obtain ⟨⟨capacity, held, finished, abandoned⟩, ⟨capacity', held', finished', abandoned'⟩⟩ := d
  obtain rfl : abandoned = true := hgone
  obtain rfl : finished' = true := hend
  rfl

theorem leaveClient_eq (hgone : d.toClient.abandoned = true) (hend : d.toServer.finished = true) : d.leaveClient = d := by
  obtain ⟨⟨capacity, held, finished, abandoned⟩, ⟨capacity', held', finished', abandoned'⟩⟩ := d
  obtain rfl : abandoned' = true := hgone
  obtain rfl : finished = true := hend
  rfl

end Duplex

/-! ## Conversations -/

/-- both ends of a connection and what they have done -/
structure Conversation where
  session : Session
  reporter : Reporter
  wires : Duplex
  /-- what the session has done to others -/
  told : List SessionEffect
  /-- what the reporter has done to others -/
  reported : List ReporterEffect
  /-- the times of the requests that the session has queued -/
  accepted : List SurveyTime
  /-- the messages that the session came to write -/
  asked : List Message
  /-- the messages that the reporter came to write -/
  answered : List Message
  /-- nobody is left who could give the session a message -/
  released : Bool

namespace Conversation

def start (id : ClientId) (limits : SessionLimits) (registry : Registry Binary64 Binary64) (capacity : Nat) :
    Conversation :=
  ⟨.new id limits, .new registry, .new capacity, [], [], [], [], [], false⟩

inductive Move where
  /-- the session is given a request -/
  | request (time : SurveyTime)
  /-- the process that reports goes on, and its figures change -/
  | record (registry : Registry Binary64 Binary64)
  | session (now : Duration) (e : SessionEvent)
  | reporter (now : Duration) (e : ReporterEvent)

/-- whether a buffer holds no whole frame, and nothing wrong -/
def waits (max : Nat) (buffer : Bytes) : Bool :=
  match (Frame.read max buffer).1 with
  | .ok none => true
  | _ => false

theorem waits_iff {max : Nat} {buffer : Bytes} : waits max buffer = true ↔ (Frame.read max buffer).1 = .ok none := by
  unfold waits
  split
  · rename_i h
    simp [h]
  · rename_i h
    simpa using h

/-- What can happen to the session: bytes arrive as they come, the end of the stream is found only when all has been read,
and writing out is over only when all has been taken. -/
def sessionCan (c : Conversation) : SessionEvent → Bool
  | .arrival bytes => c.session.phase = .serving && bytes.isPrefixOf c.wires.toServer.held
  | .endOfStream => c.wires.toServer.atEnd && waits c.session.limits.maxFrame c.session.incoming
  | .shut => c.session.outgoing.isEmpty
  | .cancellation | .idleTime | .readFailure | .writeFailure | .writeDeadline => false
  | _ => true

def reporterCan (c : Conversation) : ReporterEvent → Bool
  | .arrival bytes => c.reporter.phase = .serving && bytes.isPrefixOf c.wires.toClient.held
  | .endOfStream => c.wires.toClient.atEnd && waits Reporter.maxFrame c.reporter.incoming
  | .writeFailure | .writeDeadline => false
  | _ => true

/-- an event of the session, and what it does to the pipes -/
def sessionReacts (c : Conversation) (now : Duration) (e : SessionEvent) : Conversation :=
  let (session, effects) := c.session.react now e
  { c with
    session
    wires := Session.shift e effects session.hasEnded c.wires
    told := c.told ++ effects
    asked := c.asked ++ (c.session.writes now e).toList
    released := c.released || e = .release }

def reporterReacts (c : Conversation) (now : Duration) (e : ReporterEvent) : Conversation :=
  let (reporter, effects) := c.reporter.react now e
  { c with
    reporter
    wires := Reporter.shift e effects reporter.hasEnded c.wires
    reported := c.reported ++ effects
    answered := c.answered ++ (c.reporter.writes e).toList }

/-- what cannot happen changes nothing -/
def step (c : Conversation) : Move → Conversation
  | .request time =>
    match c.session.send (.reportAll time) with
    | (session, none) => { c with session, accepted := c.accepted ++ [time] }
    | (_, some _) => c
  | .record registry => { c with reporter := { c.reporter with registry } }
  | .session now e => if c.sessionCan e then c.sessionReacts now e else c
  | .reporter now e => if c.reporterCan e then c.reporterReacts now e else c

def run (c : Conversation) (ms : List Move) : Conversation := ms.foldl step c

theorem run_snoc (c : Conversation) (ms : List Move) (m : Move) : c.run (ms ++ [m]) = (c.run ms).step m :=
  List.foldl_append

/-! ## How the ends stand -/

variable {c c' : Conversation} {down up : List Message}

/-- How the two ends stand: what is to be taken is taken before an end goes on; the session leaves only when it is
released, in order, and the reporter only after the session, in order; and the pipes say who has left. -/
structure Poise (c : Conversation) : Prop where
  settled : c.session.isWriting = false → c.session.outgoing = []
  reporterSettled : c.reporter.isWriting = false → c.reporter.outgoing = []
  left : ∀ reason, c.session.parting? = some reason → reason = none ∧ c.released = true
  reporterLeft : ∀ reason, c.reporter.ending? = some reason → reason = none ∧ c.session.hasEnded = true
  unrefused : ∀ refusal, .registered refusal ∈ c.reported → refusal = none
  toServer : c.wires.toServer.finished = c.reporter.hasEnded ∧ c.wires.toServer.abandoned = c.session.hasEnded
  toClient : c.wires.toClient.finished = c.session.hasEnded ∧ c.wires.toClient.abandoned = c.reporter.hasEnded

/-- What is in transit each way, and what has become of every request and of every ping. -/
structure Flow (down up : List Message) (c : Conversation) : Prop where
  downBytes : InTransit c.reporter.incoming c.wires.toClient.held c.session.outgoing down
  upBytes : InTransit c.session.incoming c.wires.toServer.held c.reporter.outgoing up
  downFits : ∀ m ∈ down, Frame.Fits Reporter.maxFrame m
  upFits : ∀ m ∈ up, Frame.Fits c.session.limits.maxFrame m
  downKind : ∀ m ∈ down, m.method = .ping ∨ m.method = .reportAll
  upKind : ∀ m ∈ up, m.method = .pong ∨ m.method = .registerProcess ∨ m.method = .statsComplete
  queued : ∀ m ∈ c.session.queue, m.method = .reportAll
  /-- every request that was accepted has been answered, or its answer or itself is on the way, or it waits -/
  times : c.accepted = Session.completed c.told ++ Message.answers up ++ Message.requests down ++
    Message.requests c.session.queue
  /-- every request that was framed has been answered, or its answer or itself is on the way -/
  asked : Message.requests c.asked = Message.answers c.answered ++ Message.requests down
  answered : Message.answers c.answered = Session.completed c.told ++ Message.answers up
  /-- every ping has been answered or is on the way -/
  pings : c.asked.count .ping = c.answered.count .pong + down.count .ping
  sent : Session.sent c.told ++ c.session.outgoing = c.asked.flatMap Frame.bytes
  reporterSent : Reporter.sent c.reported ++ c.reporter.outgoing = c.answered.flatMap Frame.bytes

/-! ## What the session does -/

/-- What an event of the session makes of a conversation in which nothing is wrong. -/
inductive SessionTurn (c : Conversation) : Conversation → Prop where
  | nothing : SessionTurn c c
  /-- nobody is left who could give it a message -/
  | release : SessionTurn c { c with released := true }
  | begins (now : Duration) (hphase : c.session.phase = .unstarted) :
    SessionTurn c { c with session := { c.session with phase := .serving, lastHeard := now, lastPing := now } }
  | gets {bytes : Bytes} (hphase : c.session.phase = .serving) (hbytes : bytes <+: c.wires.toServer.held) :
    SessionTurn c { c with
      session := { c.session with incoming := c.session.incoming ++ bytes }
      wires := { c.wires with
        toServer := { c.wires.toServer with held := c.wires.toServer.held.drop bytes.length } } }
  | hears (now : Duration) {m : Message} {rest : Bytes} (hphase : c.session.phase = .serving)
    (hread : Frame.read c.session.limits.maxFrame c.session.incoming = (.ok (some m), rest)) :
    SessionTurn c { c with
      session := { c.session with
        incoming := rest, lastHeard := now, state := Session.stateAfter c.session.state m }
      told := c.told ++ Session.forwards c.session.id m }
  | asks (now : Duration) {m : Message} {rest : List Message} (hphase : c.session.phase = .serving)
    (hqueue : c.session.queue = m :: rest) (hfits : Frame.Fits c.session.limits.maxFrame m) :
    SessionTurn c { c with
      session := { c.session with
        queue := rest
        outgoing := c.session.outgoing ++ Frame.bytes m
        phase := .writing (now + c.session.limits.writeTimeout) }
      asked := c.asked ++ [m] }
  | pings (now : Duration) (hphase : c.session.phase = .serving) :
    SessionTurn c { c with
      session := { c.session with
        lastPing := now
        outgoing := c.session.outgoing ++ Frame.bytes .ping
        phase := .writing (now + c.session.limits.writeTimeout) }
      asked := c.asked ++ [.ping] }
  | hands (n : Nat) (hphase : c.session.isWriting = true) :
    SessionTurn c { c with
      session := { c.session with outgoing := c.session.outgoing.drop n }
      wires := { c.wires with
        toClient := { c.wires.toClient with held := c.wires.toClient.held ++ c.session.outgoing.take n } }
      told := c.told ++ [.sent (c.session.outgoing.take n)] }
  | goesOn {deadline : Duration} (hphase : c.session.phase = .writing deadline) (hout : c.session.outgoing = []) :
    SessionTurn c { c with session := { c.session with phase := .serving } }
  | leaves (now : Duration) (hphase : c.session.phase = .serving) :
    SessionTurn c { c with session := c.session.finish now none, released := true }
  | ends {deadline : Duration} {reason : Option SessionError} (hphase : c.session.phase = .closing deadline reason)
    (hout : c.session.outgoing = []) :
    SessionTurn c { c with
      session := { c.session with phase := .ended reason }
      wires := c.wires.leaveServer
      told := c.told ++ [.ended c.session.id] }

variable {now : Duration} {e : SessionEvent}

theorem sessionReacts_eq {s : Session} {effects : List SessionEffect} (hreact : c.session.react now e = (s, effects)) :
    c.sessionReacts now e = { c with
      session := s
      wires := Session.shift e effects s.hasEnded c.wires
      told := c.told ++ effects
      asked := c.asked ++ (c.session.writes now e).toList
      released := c.released || e = .release } := by
  unfold sessionReacts
  rw [hreact]

/-- an event that the session ignores changes nothing, but for the session being released -/
theorem sessionTurn_of_ignored (hp : Poise c) (hreact : c.session.react now e = (c.session, []))
    (hwrites : c.session.writes now e = none) (he : ∀ bytes, e ≠ .arrival bytes) :
    SessionTurn c (c.sessionReacts now e) := by
  have hwires : Session.shift e [] c.session.hasEnded c.wires = c.wires := by
    cases e with
    | arrival bytes => exact absurd rfl (he bytes)
    | _ =>
      cases hended : c.session.hasEnded with
      | false => rfl
      | true => exact Duplex.leaveServer_eq (hp.toServer.2.trans hended) (hp.toClient.1.trans hended)
  rw [sessionReacts_eq hreact, hwires, hwrites]
  simp only [Option.toList_none, List.append_nil]
  by_cases hrelease : e = .release
  · simp only [hrelease, decide_true, Bool.or_true]
    exact .release
  · simp only [hrelease, decide_false, Bool.or_false]
    exact .nothing

/-- a message that calls for no reply is passed on, and the session goes on -/
theorem hear_eq (now : Duration) (s : Session) {m : Message}
    (hm : m.method = .pong ∨ m.method = .registerProcess ∨ m.method = .statsComplete) :
    s.hear now m = ({ s with state := Session.stateAfter s.state m }, Session.forwards s.id m) := by
  cases m with
  | pong => rfl
  | registerProcess tags => rfl
  | statsComplete r =>
    show (s, Session.passOn r ++ [.complete s.id r.time]) = _
    cases hempty : r.isEmpty <;>
      simp [Session.passOn, Session.forwards, Session.stateAfter, Message.isRegistration, hempty]
  | _ => rcases hm with hm | hm | hm <;> cases hm

/-- what is told to others does not go into the pipes -/
theorem shift_forwards (id : ClientId) (m : Message) (wires : Duplex) :
    Session.shift .frame (Session.forwards id m) false wires = wires := by
  have hpush : ∀ effects : List SessionEffect, (∀ e ∈ effects, e.isTold = true) →
      Session.shift .frame effects false wires = wires := by
    intro effects htold
    induction effects with
    | nil => rfl
    | cons e effects ih =>
      have hrest := ih fun e' he => htold e' (List.mem_cons_of_mem e he)
      cases e with
      | sent bytes => cases htold (.sent bytes) List.mem_cons_self
      | _ => exact hrest
  apply hpush
  intro e he
  rw [← Session.told_forwards] at he
  exact (List.mem_filter.1 he).2

theorem write_eq (now : Duration) (s : Session) {m : Message} (hfits : Frame.Fits s.limits.maxFrame m) :
    s.write now m = { s with
      outgoing := s.outgoing ++ Frame.bytes m
      phase := .writing (now + s.limits.writeTimeout) } := by
  rw [Session.write, Frame.write_of_fits hfits]

/-- what an event makes of a session that serves -/
theorem sessionTurn_serving (hf : Flow down up c) (hp : Poise c) (hphase : c.session.phase = .serving)
    (hcan : c.sessionCan e = true)
    (hfits : ∀ m, c.session.writes now e = some m → Frame.Fits c.session.limits.maxFrame m)
    (he : ∀ bytes, e ≠ .arrival bytes) : SessionTurn c (c.sessionReacts now e) := by
  have hserve : c.session.react now e = c.session.serve now e := by simp only [Session.react, hphase]
  have hended : c.session.hasEnded = false := by simp [Session.hasEnded, Session.ending?, hphase]
  cases e with
  | frame =>
    rcases hf.upBytes.read hf.upFits with hread | ⟨m, rest, up', hread, rfl, -⟩
    · refine sessionTurn_of_ignored hp ?_ ?_ he
      · rw [hserve, Session.serve, Session.readFrame, hread]
      · simp [Session.writes, Session.hears, hphase, hread, message?]
    · have hm := hf.upKind m List.mem_cons_self
      have hhears : c.session.hears (.event now .frame) = some m := by
        simp [Session.hears, hphase, hread, message?]
      have hwrites : c.session.writes now .frame = none := by
        have hping : m ≠ .ping := by
          rintro rfl
          rcases hm with hm | hm | hm <;> cases hm
        simp [Session.writes, hhears, hping]
      rw [Session.serve, Session.readFrame, hread] at hserve
      dsimp only at hserve
      rw [hear_eq now _ hm] at hserve
      have hlive : Session.hasEnded { c.session with
          incoming := rest, lastHeard := now, state := Session.stateAfter c.session.state m } = false := hended
      rw [sessionReacts_eq hserve, hlive, shift_forwards]
      simpa [hwrites] using SessionTurn.hears now hphase hread
  | outbound =>
    cases hqueue : c.session.queue with
    | nil =>
      refine sessionTurn_of_ignored hp ?_ ?_ he
      · simp only [hserve, Session.serve, hqueue]
      · simp [Session.writes, hqueue]
    | cons m rest =>
      have hwrites : c.session.writes now .outbound = some m := by simp [Session.writes, hphase, hqueue]
      have hfit := hfits m hwrites
      simp only [Session.serve, hqueue] at hserve
      rw [write_eq now { c.session with queue := rest } hfit] at hserve
      rw [sessionReacts_eq hserve]
      simpa [hwrites, Session.shift, Session.hasEnded, Session.ending?] using SessionTurn.asks now hphase hqueue hfit
  | pingTime =>
    by_cases hdue : c.session.pingAt ≤ now
    · have hwrites : c.session.writes now .pingTime = some .ping := by simp [Session.writes, hphase, hdue]
      simp only [Session.serve, hdue, if_true] at hserve
      rw [write_eq now { c.session with lastPing := now } (hfits _ hwrites)] at hserve
      rw [sessionReacts_eq hserve]
      simpa [hwrites, Session.shift, Session.hasEnded, Session.ending?] using SessionTurn.pings now hphase
    · refine sessionTurn_of_ignored hp ?_ ?_ he
      · simp only [hserve, Session.serve, hdue, if_false]
      · simp [Session.writes, hdue]
  | release =>
    have hwrites : c.session.writes now .release = none := by simp [Session.writes]
    by_cases hqueue : c.session.queue = []
    · simp only [Session.serve, hqueue, List.isEmpty_nil, if_true] at hserve
      rw [sessionReacts_eq hserve]
      simpa [hwrites, Session.shift, Session.finish, Session.hasEnded, Session.ending?] using
        SessionTurn.leaves now hphase
    · refine sessionTurn_of_ignored hp ?_ hwrites he
      simp only [hserve, Session.serve, List.isEmpty_iff, hqueue, if_false]
  | endOfStream =>
    -- the reporter does not leave before the session
    have hfinished : c.wires.toServer.finished = true := by
      simp only [sessionCan, Pipe.atEnd, Bool.and_eq_true] at hcan
      exact hcan.1.2
    rw [hp.toServer.1] at hfinished
    obtain ⟨reason, hreason⟩ := Option.isSome_iff_exists.1 hfinished
    rw [(hp.reporterLeft reason hreason).2] at hended
    cases hended
  | start => exact sessionTurn_of_ignored hp hserve (by simp [Session.writes]) he
  | taken n => exact sessionTurn_of_ignored hp hserve (by simp [Session.writes]) he
  | flushed => exact sessionTurn_of_ignored hp hserve (by simp [Session.writes]) he
  | shut => exact sessionTurn_of_ignored hp hserve (by simp [Session.writes]) he
  | arrival bytes => exact absurd rfl (he bytes)
  | _ => cases hcan

/-- **What an event of the session makes of the conversation**, while the body that it writes fits. -/
theorem sessionTurn (hf : Flow down up c) (hp : Poise c) (hcan : c.sessionCan e = true)
    (hfits : ∀ m, c.session.writes now e = some m → Frame.Fits c.session.limits.maxFrame m) :
    SessionTurn c (c.sessionReacts now e) := by
  by_cases harrival : ∃ bytes, e = .arrival bytes
  · obtain ⟨bytes, rfl⟩ := harrival
    obtain ⟨hphase, hbytes⟩ : c.session.phase = .serving ∧ bytes <+: c.wires.toServer.held := by
      simpa [sessionCan] using hcan
    have hreact : c.session.react now (.arrival bytes) =
        ({ c.session with incoming := c.session.incoming ++ bytes }, []) := by
      simp only [Session.react, hphase, Session.serve]
    rw [sessionReacts_eq hreact]
    simpa [Session.writes, Session.shift, Session.hasEnded, Session.ending?, hphase] using SessionTurn.gets hphase hbytes
  · have he : ∀ bytes, e ≠ .arrival bytes := fun bytes h => harrival ⟨bytes, h⟩
    cases hphase : c.session.phase with
    | unstarted =>
      have hwrites : c.session.writes now e = none := by simp [Session.writes, hphase]
      cases e with
      | start =>
        have hreact : c.session.react now .start =
            ({ c.session with phase := .serving, lastHeard := now, lastPing := now }, []) := by
          simp only [Session.react, hphase]
        rw [sessionReacts_eq hreact]
        simpa [hwrites, Session.shift, Session.hasEnded, Session.ending?] using SessionTurn.begins now hphase
      | _ => exact sessionTurn_of_ignored hp (by simp only [Session.react, hphase]) hwrites he
    | serving => exact sessionTurn_serving hf hp hphase hcan hfits he
    | writing deadline =>
      have hwrites : c.session.writes now e = none := by simp [Session.writes, hphase]
      have hwriting : c.session.isWriting = true := by rw [Session.isWriting, hphase]
      have hended : c.session.hasEnded = false := by simp [Session.hasEnded, Session.ending?, hphase]
      cases e with
      | taken n =>
        have hreact : c.session.react now (.taken n) = c.session.take n := by
          simp only [Session.react, hphase, Session.awaitWrite]
        rw [sessionReacts_eq hreact]
        simpa [hwrites, Session.shift, Session.hasEnded, Session.ending?, hphase, Pipe.push] using
          SessionTurn.hands n hwriting
      | flushed =>
        by_cases hout : c.session.outgoing = []
        · have hreact : c.session.react now .flushed = ({ c.session with phase := .serving }, []) := by
            simp only [Session.react, hphase, Session.awaitWrite, hout, List.isEmpty_nil, if_true]
          rw [sessionReacts_eq hreact]
          simpa [hwrites, Session.shift, Session.hasEnded, Session.ending?] using SessionTurn.goesOn hphase hout
        · refine sessionTurn_of_ignored hp ?_ hwrites he
          simp only [Session.react, hphase, Session.awaitWrite, List.isEmpty_iff, hout, if_false]
      | writeFailure => cases hcan
      | writeDeadline => cases hcan
      | _ => exact sessionTurn_of_ignored hp (by simp only [Session.react, hphase, Session.awaitWrite]) hwrites he
    | closing deadline reason =>
      have hwrites : c.session.writes now e = none := by simp [Session.writes, hphase]
      have hwriting : c.session.isWriting = true := by rw [Session.isWriting, hphase]
      cases e with
      | taken n =>
        have hreact : c.session.react now (.taken n) = c.session.take n := by
          simp only [Session.react, hphase]
        rw [sessionReacts_eq hreact]
        simpa [hwrites, Session.shift, Session.hasEnded, Session.ending?, hphase, Pipe.push] using
          SessionTurn.hands n hwriting
      | shut =>
        have hout : c.session.outgoing = [] := List.isEmpty_iff.1 hcan
        have hreact : c.session.react now .shut = ({ c.session with phase := .ended reason }, [.ended c.session.id]) := by
          simp only [Session.react, hphase]
        rw [sessionReacts_eq hreact]
        simpa [hwrites, Session.shift, Session.hasEnded, Session.ending?] using SessionTurn.ends hphase hout
      | _ => exact sessionTurn_of_ignored hp (by simp only [Session.react, hphase]) hwrites he
    | ended reason =>
      exact sessionTurn_of_ignored hp (by simp only [Session.react, hphase]) (by simp [Session.writes, hphase]) he

/-! ## What the reporter does -/

/-- What an event of the reporter makes of a conversation in which nothing is wrong. -/
inductive ReporterTurn (c : Conversation) : Conversation → Prop where
  | nothing : ReporterTurn c c
  | registers (now : Duration) (tags : Tags) (hphase : c.reporter.phase = .unstarted) :
    ReporterTurn c { c with
      reporter := { c.reporter with
        outgoing := c.reporter.outgoing ++ Frame.bytes (.registerProcess tags)
        phase := .writing (now + Reporter.writeTimeout) false }
      answered := c.answered ++ [.registerProcess tags] }
  | begins (hphase : c.reporter.phase = .unstarted) :
    ReporterTurn c { c with reporter := { c.reporter with phase := .serving } }
  | gets {bytes : Bytes} (hphase : c.reporter.phase = .serving) (hbytes : bytes <+: c.wires.toClient.held) :
    ReporterTurn c { c with
      reporter := { c.reporter with incoming := c.reporter.incoming ++ bytes }
      wires := { c.wires with
        toClient := { c.wires.toClient with held := c.wires.toClient.held.drop bytes.length } } }
  /-- a ping is answered by a pong, and a request by the report for its time -/
  | answers (now : Duration) {m answer : Message} {rest : Bytes} (registry : Registry Binary64 Binary64)
    (hphase : c.reporter.phase = .serving)
    (hread : Frame.read Reporter.maxFrame c.reporter.incoming = (.ok (some m), rest))
    (hanswer : m = .ping ∧ answer = .pong ∨ ∃ r, m = .reportAll r.time ∧ answer = .statsComplete r) :
    ReporterTurn c { c with
      reporter := {
        registry
        incoming := rest
        outgoing := c.reporter.outgoing ++ Frame.bytes answer
        phase := .writing (now + Reporter.writeTimeout) true }
      answered := c.answered ++ [answer] }
  | hands (n : Nat) (hphase : c.reporter.isWriting = true) :
    ReporterTurn c { c with
      reporter := { c.reporter with outgoing := c.reporter.outgoing.drop n }
      wires := { c.wires with
        toServer := { c.wires.toServer with held := c.wires.toServer.held ++ c.reporter.outgoing.take n } }
      reported := c.reported ++ [.sent (c.reporter.outgoing.take n)] }
  | goesOn {deadline : Duration} (hphase : c.reporter.phase = .writing deadline true) (hout : c.reporter.outgoing = []) :
    ReporterTurn c { c with reporter := { c.reporter with phase := .serving } }
  | registered {deadline : Duration} (hphase : c.reporter.phase = .writing deadline false)
    (hout : c.reporter.outgoing = []) :
    ReporterTurn c { c with
      reporter := { c.reporter with phase := .unstarted }
      reported := c.reported ++ [.registered none] }
  | ends (hphase : c.reporter.phase = .serving) (hend : c.wires.toClient.finished = true) :
    ReporterTurn c { c with
      reporter := { c.reporter with phase := .ended none }
      wires := c.wires.leaveClient }

variable {e : ReporterEvent}

theorem reporterReacts_eq {r : Reporter} {effects : List ReporterEffect}
    (hreact : c.reporter.react now e = (r, effects)) : c.reporterReacts now e = { c with
      reporter := r
      wires := Reporter.shift e effects r.hasEnded c.wires
      reported := c.reported ++ effects
      answered := c.answered ++ (c.reporter.writes e).toList } := by
  unfold reporterReacts
  rw [hreact]

/-- an event that the reporter ignores changes nothing -/
theorem reporterTurn_of_ignored (hp : Poise c) (hreact : c.reporter.react now e = (c.reporter, []))
    (hwrites : c.reporter.writes e = none) (he : ∀ bytes, e ≠ .arrival bytes) :
    ReporterTurn c (c.reporterReacts now e) := by
  have hwires : Reporter.shift e [] c.reporter.hasEnded c.wires = c.wires := by
    cases e with
    | arrival bytes => exact absurd rfl (he bytes)
    | _ =>
      cases hended : c.reporter.hasEnded with
      | false => rfl
      | true => exact Duplex.leaveClient_eq (hp.toClient.2.trans hended) (hp.toServer.1.trans hended)
  rw [reporterReacts_eq hreact, hwires, hwrites]
  simpa using ReporterTurn.nothing (c := c)

theorem reporter_write_eq (now : Duration) (r : Reporter) (serves : Bool) {m : Message}
    (hfits : Frame.Fits Reporter.maxFrame m) : r.write now serves m = ({ r with
      outgoing := r.outgoing ++ Frame.bytes m
      phase := .writing (now + Reporter.writeTimeout) serves }, []) := by
  rw [Reporter.write, Frame.write_of_fits hfits]

/-- what an event makes of a reporter that serves -/
theorem reporterTurn_serving (hf : Flow down up c) (hp : Poise c) (hphase : c.reporter.phase = .serving)
    (hcan : c.reporterCan e = true) (hfits : ∀ m, c.reporter.writes e = some m → Frame.Fits Reporter.maxFrame m) :
    ReporterTurn c (c.reporterReacts now e) := by
  have hserve : c.reporter.react now e = c.reporter.serve now e := by simp only [Reporter.react, hphase]
  have hended : c.reporter.hasEnded = false := by simp [Reporter.hasEnded, Reporter.ending?, hphase]
  cases e with
  | arrival bytes =>
    have hbytes : bytes <+: c.wires.toClient.held := by simpa [reporterCan, hphase] using hcan
    rw [reporterReacts_eq hserve]
    simpa [Reporter.serve, Reporter.writes, Reporter.shift, Reporter.hasEnded, Reporter.ending?, hphase] using
      ReporterTurn.gets hphase hbytes
  | frame =>
    rcases hf.downBytes.read hf.downFits with hread | ⟨m, rest, down', hread, rfl, -⟩
    · refine reporterTurn_of_ignored hp ?_ ?_ nofun
      · rw [hserve, Reporter.serve, Reporter.readFrame, hread]
      · simp [Reporter.writes, hread, message?]
    · rw [Reporter.serve, Reporter.readFrame, hread] at hserve
      have hkind := hf.downKind m List.mem_cons_self
      cases m with
      | ping =>
        have hwrites : c.reporter.writes .frame = some .pong := by simp [Reporter.writes, hphase, hread, message?]
        have hfit := hfits _ hwrites
        simp only [Reporter.hear] at hserve
        rw [reporter_write_eq now { c.reporter with incoming := rest } true hfit] at hserve
        rw [reporterReacts_eq hserve, hwrites]
        simpa [Reporter.shift, Reporter.hasEnded, Reporter.ending?] using
          ReporterTurn.answers now c.reporter.registry hphase hread (Or.inl ⟨rfl, rfl⟩)
      | reportAll time =>
        have hwrites : c.reporter.writes .frame = some (.statsComplete (c.reporter.registry.report id time).1) := by
          simp [Reporter.writes, hphase, hread, message?]
        have hfit := hfits _ hwrites
        simp only [Reporter.hear] at hserve
        rw [reporter_write_eq now
          { c.reporter with incoming := rest, registry := (c.reporter.registry.report id time).2 } true hfit] at hserve
        rw [reporterReacts_eq hserve, hwrites]
        simpa [Reporter.shift, Reporter.hasEnded, Reporter.ending?] using
          ReporterTurn.answers now (c.reporter.registry.report id time).2 hphase hread (Or.inr ⟨_, rfl, rfl⟩)
      | _ => rcases hkind with hkind | hkind <;> cases hkind
  | endOfStream =>
    obtain ⟨⟨hheld, hfinished⟩, hwaits⟩ : (c.wires.toClient.held = [] ∧ c.wires.toClient.finished = true) ∧
        waits Reporter.maxFrame c.reporter.incoming = true := by
      simpa [reporterCan, Pipe.atEnd] using hcan
    -- all that the session framed has been read, since it has ended
    have hincoming : c.reporter.incoming = [] := by
      have hsent : c.session.outgoing = [] := by
        apply hp.settled
        have hleft := hp.toClient.1 ▸ hfinished
        exact Session.isWriting_of_hasEnded hleft
      have hdown := hf.downBytes
      rw [hheld, hsent] at hdown
      exact (hdown.nil_of_waiting hf.downFits (waits_iff.1 hwaits)).1
    rw [Reporter.serve, hincoming] at hserve
    rw [reporterReacts_eq hserve]
    simpa [Reporter.writes, Reporter.shift, Reporter.hasEnded, Reporter.ending?, hincoming] using
      ReporterTurn.ends hphase hfinished
  | register tags => exact reporterTurn_of_ignored hp hserve (by simp [Reporter.writes, hphase]) nofun
  | start => exact reporterTurn_of_ignored hp hserve rfl nofun
  | taken n => exact reporterTurn_of_ignored hp hserve rfl nofun
  | flushed => exact reporterTurn_of_ignored hp hserve rfl nofun
  | writeFailure => cases hcan
  | writeDeadline => cases hcan

/-- **What an event of the reporter makes of the conversation**, while the body that it writes fits. -/
theorem reporterTurn (hf : Flow down up c) (hp : Poise c) (hcan : c.reporterCan e = true)
    (hfits : ∀ m, c.reporter.writes e = some m → Frame.Fits Reporter.maxFrame m) :
    ReporterTurn c (c.reporterReacts now e) := by
  have hwaiting : c.reporter.phase ≠ .serving → ∀ bytes, e ≠ .arrival bytes := by
    rintro hphase bytes rfl
    simp [reporterCan, hphase] at hcan
  cases hphase : c.reporter.phase with
  | unstarted =>
    have he := hwaiting (by simp [hphase])
    cases e with
    | register tags =>
      have hwrites : c.reporter.writes (.register tags) = some (.registerProcess tags) := by
        simp [Reporter.writes, hphase]
      have hreact : c.reporter.react now (.register tags) = c.reporter.write now false (.registerProcess tags) := by
        simp only [Reporter.react, hphase]
      rw [reporter_write_eq now _ false (hfits _ hwrites)] at hreact
      rw [reporterReacts_eq hreact]
      simpa [hwrites, Reporter.shift, Reporter.hasEnded, Reporter.ending?] using ReporterTurn.registers now tags hphase
    | start =>
      have hreact : c.reporter.react now .start = ({ c.reporter with phase := .serving }, []) := by
        simp only [Reporter.react, hphase]
      rw [reporterReacts_eq hreact]
      simpa [Reporter.writes, Reporter.shift, Reporter.hasEnded, Reporter.ending?] using ReporterTurn.begins hphase
    | frame =>
      refine reporterTurn_of_ignored hp ?_ ?_ he
      · simp only [Reporter.react, hphase]
      · simp [Reporter.writes, hphase]
    | _ => exact reporterTurn_of_ignored hp (by simp only [Reporter.react, hphase]) rfl he
  | serving => exact reporterTurn_serving hf hp hphase hcan hfits
  | writing deadline serves =>
    have he := hwaiting (by simp [hphase])
    have hwriting : c.reporter.isWriting = true := by rw [Reporter.isWriting, hphase]
    have hreact : c.reporter.react now e = c.reporter.awaitWrite now deadline serves e := by
      simp only [Reporter.react, hphase]
    cases e with
    | taken n =>
      rw [reporterReacts_eq hreact]
      simpa [Reporter.writes, Reporter.awaitWrite, Reporter.shift, Reporter.hasEnded, Reporter.ending?, hphase,
        Pipe.push] using ReporterTurn.hands n hwriting
    | flushed =>
      by_cases hout : c.reporter.outgoing = []
      · have hempty : c.reporter.outgoing.isEmpty = true := List.isEmpty_iff.2 hout
        simp only [Reporter.awaitWrite, hempty, if_true] at hreact
        cases serves with
        | false =>
          rw [reporterReacts_eq hreact]
          simpa [Reporter.writes, Reporter.shift, Reporter.hasEnded, Reporter.ending?] using
            ReporterTurn.registered hphase hout
        | true =>
          rw [reporterReacts_eq hreact]
          simpa [Reporter.writes, Reporter.shift, Reporter.hasEnded, Reporter.ending?] using
            ReporterTurn.goesOn hphase hout
      · refine reporterTurn_of_ignored hp ?_ rfl he
        rw [hreact, Reporter.awaitWrite]
        simp only [List.isEmpty_iff, hout, if_false]
    | register tags => exact reporterTurn_of_ignored hp hreact (by simp [Reporter.writes, hphase]) he
    | frame => exact reporterTurn_of_ignored hp hreact (by simp [Reporter.writes, hphase]) he
    | writeFailure => cases hcan
    | writeDeadline => cases hcan
    | _ => exact reporterTurn_of_ignored hp hreact rfl he
  | ended reason =>
    have he := hwaiting (by simp [hphase])
    have hwrites : c.reporter.writes e = none := by
      cases e <;> simp [Reporter.writes, hphase]
    exact reporterTurn_of_ignored hp (by simp only [Reporter.react, hphase]) hwrites he

end Conversation

end MetricSurvey

/-
The server: sessions, one coordinator and one aggregator.

They are joined by queues in which nothing is lost or overtaken: sessions put what they read into the tray of the
aggregator and into that of the coordinator, and the coordinator puts its events into the aggregator's. Each of them
handles one thing at a time, and any of them may go first.

The coordinator leaves in two steps: it tells every session to close, and stops after a time of grace. The aggregator
lets go of what it holds and stops at once. What is put into the tray of one that has stopped is lost.
-/
import MetricSurvey.Connection.Duplex
import MetricSurvey.Survey.Coordinator
import MetricSurvey.Time.Scheduler

namespace MetricSurvey

/-- whether the coordinator is there -/
inductive Presence where
  | present
  /-- waits out its time of grace -/
  | leaving
  | absent
deriving DecidableEq

/-- a server; its sessions are numbered in the order in which they were opened -/
structure Server where
  /-- what the clock on the wall shows; surveys are timed by it -/
  clock : Reading
  /-- how long a survey waits for answers -/
  patience : Duration
  coordinator : Coordinator Nat
  coordinatorTray : List (CoordinatorInput Nat)
  presence : Presence
  /-- whether ticks still come -/
  ticking : Bool
  timers : Scheduler SurveyTime
  aggregator : Aggregator Binary64
  aggregatorTray : List (AggregatorEvent Binary64)
  aggregatorOpen : Bool
  sessions : List Session
  /-- the next id that was never given to a session -/
  nextId : ClientId
  /-- the snapshots that have left, in order -/
  emitted : List (Snapshot Binary64)

namespace Server

def new (clock : Reading) (patience : Duration) : Server :=
  ⟨clock, patience, .new, [], .present, true, .new, .new, [], true, [], 1, []⟩

/-! ## Trays -/

def tellCoordinator (v : Server) (i : CoordinatorInput Nat) : Server :=
  if v.presence = .absent then v else { v with coordinatorTray := v.coordinatorTray ++ [i] }

def tellAggregator (v : Server) (e : AggregatorEvent Binary64) : Server :=
  if v.aggregatorOpen then { v with aggregatorTray := v.aggregatorTray ++ [e] } else v

/-- what a session does to the others -/
def carry (v : Server) : SessionEffect → Server
  | .setTags id tags => v.tellCoordinator (.setTags id tags)
  | .complete id time => v.tellCoordinator (.complete id time)
  | .ended id => v.tellCoordinator (.sessionEnded id)
  | .fragment r => v.tellAggregator (.fragment r)
  | .sent _ => v

/-- what the coordinator does to the others -/
def execute (v : Server) : CoordinatorEffect Nat → Server
  | .tell e => v.tellAggregator e
  | .request i time => { v with sessions := v.sessions.modify i fun s => (s.send (.reportAll time)).1 }
  | .close i => { v with sessions := v.sessions.modify i Session.cancel }
  | .armTimeout time => { v with timers := v.timers.schedule v.patience time }

/-! ## Steps -/

/-- open a session under an id and register it -/
def openAs (now : Duration) (v : Server) (id : ClientId) (limits : SessionLimits) : Server :=
  let s := ((Session.new id limits).react now .start).1
  { v with sessions := v.sessions ++ [s] }.tellCoordinator (.register id v.sessions.length)

/-- open a session under an id that no other has had, and register it -/
def openFresh (now : Duration) (v : Server) (limits : SessionLimits) : Server :=
  { v with nextId := v.nextId + 1 }.openAs now v.nextId limits

/-- put a session in its new state and carry out what it does to others -/
def setSession (v : Server) (i : Nat) (s : Session) (effects : List SessionEffect) : Server :=
  effects.foldl carry { v with sessions := v.sessions.set i s }

/-- a session handles an event -/
def sessionStep (now : Duration) (v : Server) (i : Nat) (e : SessionEvent) : Server :=
  match v.sessions[i]? with
  | none => v
  | some s =>
    let (s', effects) := s.react now e
    v.setSession i s' effects

/-- the coordinator handles an input -/
def coordinate (v : Server) (i : CoordinatorInput Nat) : Server :=
  let accepts (j : Nat) : Bool := (v.sessions[j]?.map Session.accepts).getD false
  let (coordinator, effects) := Coordinator.step ⟨v.clock, accepts⟩ v.coordinator i
  effects.foldl execute { v with coordinator }

/-- the coordinator handles what lies on top of its tray -/
def coordinatorStep (v : Server) : Server :=
  match v.coordinatorTray with
  | i :: rest => { v with coordinatorTray := rest }.coordinate i
  | [] => v

/-- the aggregator handles what lies on top of its tray -/
def aggregatorStep (v : Server) : Server :=
  match v.aggregatorTray with
  | e :: rest =>
    let (aggregator, out) := v.aggregator.step e
    { v with aggregator, aggregatorTray := rest, emitted := v.emitted ++ out.toList }
  | [] => v

/-- a tick of the ticker; the answer says whether anybody heard it -/
def tick (v : Server) (time : SurveyTime) : Server × Bool :=
  if v.presence = .present ∧ v.ticking then (v.coordinate (.tick time), true) else (v, false)

/-- move the timers on; the timeouts that fire go into the coordinator's tray -/
def fireTimers (v : Server) (by_ : Duration) : Server :=
  let (timers, fired) := v.timers.advance by_
  fired.foldl (fun v time => v.tellCoordinator (.timeout time)) { v with timers }

/-- tell every session to close, and handle nothing more -/
def startLeaving (v : Server) : Server :=
  if v.presence = .present then { v.coordinate .shutdown with presence := .leaving } else v

/-- the coordinator stops; its tray is lost -/
def stopCoordinator (v : Server) : Server := { v with presence := .absent, coordinatorTray := [] }

/-- the aggregator lets go of what it holds and stops; its tray is lost -/
def stopAggregator (v : Server) : Server :=
  if v.aggregatorOpen then
    let (aggregator, out) := v.aggregator.flush
    { v with aggregator, aggregatorTray := [], aggregatorOpen := false, emitted := v.emitted ++ out.toList }
  else v

/-! ## Questions -/

def clientCount (v : Server) : Nat := if v.presence = .present then v.coordinator.clientCount else 0

def shapes (v : Server) : Table MetricKey Shape := if v.aggregatorOpen then v.aggregator.shapes else ∅

def late (v : Server) : Nat := if v.aggregatorOpen then v.aggregator.late else 0

end Server

end MetricSurvey

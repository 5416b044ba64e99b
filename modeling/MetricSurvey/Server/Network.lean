/-
A server and its clients, joined by connections, on a clock of their own.

Everything that can go on is one of finitely many tasks, and a step is one move of one task. Those who become ready
together line up with the aggregator and the coordinator in front, then the sessions by their ids, then the clients.
-/
import MetricSurvey.Server.Basic
import MetricSurvey.Time.Agenda

namespace MetricSurvey

/-- who is at a client's end -/
inductive FarEnd where
  | reporter (r : Reporter)
  | operator (o : Operator)
  /-- a reporter that was cut off -/
  | cutOff
  /-- somebody whose bytes are moved from outside -/
  | remote

/-- what can go on -/
inductive NetworkTask where
  | aggregator
  | coordinator
  | session (i : Nat)
  | timers
  | farEnd (i : Nat)
deriving DecidableEq

structure Network where
  now : Duration
  server : Server
  /-- the connections and client's ends of the sessions -/
  links : List (Duplex × FarEnd)

namespace Network

def new (clock : Reading) (patience : Duration) : Network := ⟨.zero, .new clock patience, []⟩

/-! ## Moves -/

def moveSession (w : Network) (i : Nat) : Option Network := do
  let s ← w.server.sessions[i]?
  let (d, far) ← w.links[i]?
  let (s', d', effects) ← s.move w.now d
  pure { w with server := w.server.setSession i s' effects, links := w.links.set i (d', far) }

/-- a reporter that has said which process it is goes on to answer -/
def goOn (now : Duration) (r : Reporter) : List ReporterEffect → Reporter
  | [.registered none] => (r.react now .start).1
  | [.registered (some e)] => { r with phase := .ended (some e) }
  | _ => r

def moveFarEnd (w : Network) (i : Nat) : Option Network := do
  let (d, far) ← w.links[i]?
  match far with
  | .reporter r => do
    let (r', d', effects) ← r.move w.now d
    let r'' := goOn w.now r' effects
    let d'' := if r''.hasEnded then d'.leaveClient else d'
    pure { w with links := w.links.set i (d'', .reporter r'') }
  | .operator o => do
    let (o', d') ← o.move d
    pure { w with links := w.links.set i (d', .operator o') }
  | _ => none

/-- timers that are due already -/
def moveTimers (w : Network) : Option Network :=
  if w.server.timers.pending.any fun e => decide (e.1 ≤ w.server.timers.elapsed) then
    some { w with server := w.server.fireTimers .zero }
  else none

/-- one move of a task, if it does not wait -/
def move (w : Network) : NetworkTask → Option Network
  | .aggregator => if w.server.aggregatorTray.isEmpty then none else some { w with server := w.server.aggregatorStep }
  | .coordinator =>
    if w.server.presence = .present ∧ !w.server.coordinatorTray.isEmpty then
      some { w with server := w.server.coordinatorStep }
    else none
  | .session i => w.moveSession i
  | .timers => w.moveTimers
  | .farEnd i => w.moveFarEnd i

/-- the sessions in the order of their ids -/
def sessionOrder (w : Network) : List Nat :=
  let numbered := w.server.sessions.zipIdx.map fun e => (e.1.id, e.2)
  (numbered.mergeSort fun a b => decide (a.1 ≤ b.1)).map Prod.snd

def tasks (w : Network) : List NetworkTask :=
  [.aggregator, .coordinator] ++ w.sessionOrder.map .session ++ [.timers]
    ++ (List.range w.links.length).map .farEnd

/-! ## Time -/

/-- when a client's end that waits will go on by itself -/
def FarEnd.deadline? : FarEnd → Option Duration
  | .reporter r => r.deadline?
  | _ => none

/-- the moments at which something will go on by itself -/
def deadlines (w : Network) : List Duration :=
  w.server.sessions.filterMap Session.deadline?
    ++ w.links.filterMap (fun l => FarEnd.deadline? l.2)
    ++ w.server.timers.pending.map Prod.fst

def agenda : Agenda Network NetworkTask where
  tasks := tasks
  move := move
  now w := w.now
  deadlines := deadlines
  jump w moment := { w with now := moment, server := w.server.fireTimers ⟨moment.nanos - w.now.nanos⟩ }

/-! ## What can be done from outside -/

/-- change the server and let everybody go on -/
def withServer (w : Network) (f : Server → Server) : Network := agenda.settle { w with server := f w.server }

/-- a new connection with someone at the client's end, served under an id or a fresh one -/
def connect (w : Network) (id : Option ClientId) (limits : SessionLimits) (pipe : Nat) (far : FarEnd) : Network :=
  let server := match id with
    | some id => w.server.openAs w.now id limits
    | none => w.server.openFresh w.now limits
  agenda.settle { w with server, links := w.links ++ [(Duplex.new pipe, far)] }

/-- change someone at a client's end -/
def withFarEnd (w : Network) (i : Nat) (f : Duplex → FarEnd → Duplex × FarEnd) : Network :=
  agenda.settle { w with links := w.links.modify i fun l => f l.1 l.2 }

/-- cut someone at a client's end off; who has ended already stays as it is -/
def cutOff (d : Duplex) : FarEnd → Duplex × FarEnd
  | .operator o =>
    let (o', d') := o.leave d
    (d', .operator o')
  | .reporter r => if r.hasEnded then (d, .reporter r) else (d.leaveClient, .cutOff)
  | far => (d, far)

/-- the coordinator leaves, waits out the time of grace, and stops -/
def shutDown (w : Network) (grace : Duration) : Network :=
  if w.server.presence = .present then
    let waited := agenda.advance { w with server := w.server.startLeaving } grace
    { waited with server := waited.server.stopCoordinator }
  else w

end Network

end MetricSurvey

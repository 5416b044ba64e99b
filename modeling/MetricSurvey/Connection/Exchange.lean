/-
Exchanges of one party with an operator at the other end: of a session with a client that is led by hand, and of a
reporter with a server that is led by hand.
-/
import MetricSurvey.Connection.Duplex
import MetricSurvey.Time.Agenda

namespace MetricSurvey

/-- which end moves -/
inductive End where
  | party
  | operator
deriving DecidableEq

/-! ## A session and its client -/

structure SessionExchange where
  now : Duration
  session : Session
  operator : Operator
  wires : Duplex
  /-- what the session has done to others, in order -/
  effects : List SessionEffect

namespace SessionExchange

def new (s : Session) (pipe : Nat) (holding : Bool) : SessionExchange := ⟨.zero, s, .new holding, .new pipe, []⟩

def move (x : SessionExchange) : End → Option SessionExchange
  | .party => (x.session.move x.now x.wires).map fun m =>
    { x with session := m.1, wires := m.2.1, effects := x.effects ++ m.2.2 }
  | .operator => (x.operator.move x.wires).map fun m => { x with operator := m.1, wires := m.2 }

def agenda : Agenda SessionExchange End where
  tasks _ := [.party, .operator]
  move := move
  now x := x.now
  deadlines x := x.session.deadline?.toList
  jump x moment := { x with now := moment }

/-- change the session, and let both go on -/
def withSession (x : SessionExchange) (f : Session → Session) : SessionExchange :=
  agenda.settle { x with session := f x.session }

/-- change the operator, and let both go on -/
def withOperator (x : SessionExchange) (f : Operator → Operator) : SessionExchange :=
  agenda.settle { x with operator := f x.operator }

/-- begin to serve -/
def start (x : SessionExchange) : SessionExchange := x.withSession fun s => (s.react x.now .start).1

/-- the operator is gone -/
def drop (x : SessionExchange) : SessionExchange :=
  let (operator, wires) := x.operator.leave x.wires
  agenda.settle { x with operator, wires }

end SessionExchange

/-! ## A reporter and its server -/

structure ReporterExchange where
  now : Duration
  reporter : Reporter
  operator : Operator
  wires : Duplex
  /-- what the reporter has done to others, in order -/
  effects : List ReporterEffect

namespace ReporterExchange

def new (r : Reporter) (pipe : Nat) : ReporterExchange := ⟨.zero, r, .new false, .new pipe, []⟩

def move (x : ReporterExchange) : End → Option ReporterExchange
  | .party => (x.reporter.move x.now x.wires).map fun m =>
    { x with reporter := m.1, wires := m.2.1, effects := x.effects ++ m.2.2 }
  | .operator => (x.operator.move x.wires.flip).map fun m => { x with operator := m.1, wires := m.2.flip }

def agenda : Agenda ReporterExchange End where
  tasks _ := [.party, .operator]
  move := move
  now x := x.now
  deadlines x := x.reporter.deadline?.toList
  jump x moment := { x with now := moment }

/-- change the reporter, and let both go on -/
def withReporter (x : ReporterExchange) (f : Reporter → Reporter) : ReporterExchange :=
  agenda.settle { x with reporter := f x.reporter }

/-- change the operator, and let both go on -/
def withOperator (x : ReporterExchange) (f : Operator → Operator) : ReporterExchange :=
  agenda.settle { x with operator := f x.operator }

def start (x : ReporterExchange) : ReporterExchange := x.withReporter fun r => (r.react x.now .start).1

/-- the operator is gone -/
def drop (x : ReporterExchange) : ReporterExchange :=
  let (operator, wires) := x.operator.leave x.wires.flip
  agenda.settle { x with operator, wires := wires.flip }

/-- how saying which process this is came out, if it has come out -/
def outcome? (effects : List ReporterEffect) : Option (Option SessionError) :=
  effects.findSome? fun
    | .registered refusal => some refusal
    | _ => none

/-- say which process this is, and wait until that has come out -/
def register (x : ReporterExchange) (tags : Tags) : ReporterExchange × Option SessionError :=
  let (reporter, effects) := x.reporter.react x.now (.register tags)
  let x := agenda.settle { x with reporter, effects }
  let x := match x.reporter.deadline? with
    | some d => agenda.advance x ⟨d.nanos - x.now.nanos⟩
    | none => x
  ({ x with effects := [] }, (outcome? x.effects).getD none)

end ReporterExchange

end MetricSurvey

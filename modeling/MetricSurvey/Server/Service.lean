/-
A server in service: how it comes up, what happens to it, and how it goes down.

It comes up only with a configuration that meets every demand, and at an address where it can listen; the demands come
first. What happens outside is told as occurrences, each at its moment, and all that was due before is done before. The
service goes down in order: the sessions are told to close and have their time of grace, then the coordinator stops, then
the aggregator lets go of what it holds.
-/
import MetricSurvey.Config.Document
import MetricSurvey.Network.Address
import MetricSurvey.Server.Network
import MetricSurvey.Time.Ticker

namespace MetricSurvey

/-- why a server does not come up -/
inductive StartError where
  | config (e : ConfigError)
  | bind (address : String)
deriving DecidableEq

/-- what happens outside; connections are numbered in the order in which they were made -/
inductive Occurrence where
  /-- nothing but that time has passed -/
  | timePassed
  | connected
  | arrived (i : Nat) (bytes : Bytes)
  /-- the client sends no more -/
  | finished (i : Nat)
  /-- so many bytes have reached the client -/
  | delivered (i n : Nat)
  /-- the client is gone -/
  | broken (i : Nat)
  | shutdown
deriving DecidableEq

structure Service where
  limits : SessionLimits
  grace : Duration
  /-- what the clock on the wall showed when the service came up; moments are counted from there -/
  start : Reading
  ticker : Ticker
  network : Network
  /-- when the time of grace ends, once the service goes down -/
  stopAt : Option Duration

namespace Service

/-- the bytes that may be on their way to a client -/
def pipeCapacity : Nat := 65536

/-- a service that nobody has connected to -/
def new (c : ServerConfig) (clock : Reading) : Service :=
  ⟨c.sessionLimits, c.shutdownGrace, clock, .new c.interval clock, .new clock c.timeout, none⟩

/-- come up -/
def start? (c : ServerConfig) (clock : Reading) : Except StartError Service :=
  match c.validate, Address.bindable? c.listenAddr with
  | .error e, _ => .error (.config e)
  | .ok (), none => .error (.bind c.listenAddr)
  | .ok (), some _ => .ok (new c clock)

/-- whether the service has gone down -/
def isDown (x : Service) : Bool := !x.network.server.aggregatorOpen

/-! ## Time -/

/-- the tick that is due at a moment, if there is one -/
def tick (x : Service) (now : Duration) : Service :=
  if x.stopAt.isNone && decide (x.ticker.deadline ≤ now) then
    let (moment, ticker) := x.ticker.tick now
    let time := x.ticker.timeAt x.start moment
    { x with ticker, network := x.network.withServer fun v => (v.tick time).1 }
  else x

/-- the stop that is due at a moment, if the time of grace is over -/
def stopInTime (x : Service) (now : Duration) : Service :=
  if x.stopAt.any fun d => decide (d ≤ now) then
    { x with network := x.network.withServer fun v => v.stopCoordinator.stopAggregator }
  else x

/-- do all that is due by a moment -/
def catchUp (x : Service) (now : Duration) : Service :=
  let clocked := x.network.withServer fun v => { v with clock := x.start.plus now }
  let network := Network.agenda.advance clocked ⟨now.nanos - clocked.now.nanos⟩
  ({ x with network }.tick now).stopInTime now

/-- the next moment at which something is due -/
def nextMoment (x : Service) : Duration :=
  (x.network.deadlines.filter fun d => decide (x.network.now < d)).foldl min (x.stopAt.getD x.ticker.deadline)

/-! ## Occurrences -/

/-- change the pipes of a connection and let everybody go on -/
def withPipes (x : Service) (i : Nat) (f : Duplex → Duplex) : Service :=
  { x with network := x.network.withFarEnd i fun d far => (f d, far) }

/-- something happens at a moment -/
def handle (now : Duration) (x : Service) (o : Occurrence) : Service :=
  let x := x.catchUp now
  match o with
  | .timePassed => x
  | .connected => { x with network := x.network.connect none x.limits pipeCapacity .remote }
  | .arrived i bytes => x.withPipes i fun d => { d with toServer := d.toServer.push bytes }
  | .finished i => x.withPipes i fun d => { d with toServer := d.toServer.finish }
  | .delivered i n => x.withPipes i fun d => { d with toClient := (d.toClient.pullSome n).2 }
  | .broken i => x.withPipes i Duplex.leaveClient
  | .shutdown =>
    if x.stopAt.isSome then x
    else { x with network := x.network.withServer Server.startLeaving, stopAt := some (now + x.grace) }

/-- the snapshots that have left since they were last taken, and the service without them -/
def takeEmitted (x : Service) : List (Snapshot Binary64) × Service :=
  (x.network.server.emitted,
    { x with network := { x.network with server := { x.network.server with emitted := [] } } })

end Service

/-- go down at once, but for the time of grace -/
def Network.stop (w : Network) (grace : Duration) : Network := (w.shutDown grace).withServer Server.stopAggregator

end MetricSurvey

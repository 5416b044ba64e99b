/-
Connections: a pipe each way between a server's end and a client's end, and how the parties at the ends move.

A move is one event of a party together with what it does to the pipes. Who has ended has finished writing and will not
read again.
-/
import MetricSurvey.Connection.Reporter
import MetricSurvey.Wire.Stream

namespace MetricSurvey

structure Duplex where
  toServer : Pipe
  toClient : Pipe
deriving DecidableEq

namespace Duplex

def new (capacity : Nat) : Duplex := ⟨.new capacity, .new capacity⟩

/-- the server's end is given up -/
def leaveServer (d : Duplex) : Duplex := ⟨d.toServer.abandon, d.toClient.finish⟩

/-- the client's end is given up -/
def leaveClient (d : Duplex) : Duplex := ⟨d.toServer.finish, d.toClient.abandon⟩

/-- the same connection, seen from the other end -/
def flip (d : Duplex) : Duplex := ⟨d.toClient, d.toServer⟩

end Duplex

namespace Session

/-- what an event of the session does to its pipes -/
def shift (e : SessionEvent) (effects : List SessionEffect) (ended : Bool) (d : Duplex) : Duplex :=
  let toServer := match e with
    | .arrival bytes => { d.toServer with held := d.toServer.held.drop bytes.length }
    | _ => d.toServer
  let toClient := effects.foldl (fun p out =>
    match out with
    | .sent bytes => p.push bytes
    | _ => p) d.toClient
  if ended then Duplex.leaveServer ⟨toServer, toClient⟩ else ⟨toServer, toClient⟩

/-- how the session ended, if it has -/
def ending? (s : Session) : Option (Option SessionError) :=
  match s.phase with
  | .ended reason => some reason
  | _ => none

def hasEnded (s : Session) : Bool := s.ending?.isSome

/-- the next move of a session at a moment -/
def move (now : Duration) (d : Duplex) (s : Session) : Option (Session × Duplex × List SessionEffect) :=
  (s.next now d.toServer d.toClient).map fun e =>
    let (s', effects) := s.react now e
    (s', shift e effects s'.hasEnded d, effects)

end Session

namespace Reporter

/-- what an event of the reporter does to its pipes -/
def shift (e : ReporterEvent) (effects : List ReporterEffect) (ended : Bool) (d : Duplex) : Duplex :=
  let toClient := match e with
    | .arrival bytes => { d.toClient with held := d.toClient.held.drop bytes.length }
    | _ => d.toClient
  let toServer := effects.foldl (fun p out =>
    match out with
    | .sent bytes => p.push bytes
    | _ => p) d.toServer
  if ended then Duplex.leaveClient ⟨toServer, toClient⟩ else ⟨toServer, toClient⟩

/-- how the reporter ended, if it has -/
def ending? (r : Reporter) : Option (Option SessionError) :=
  match r.phase with
  | .ended reason => some reason
  | _ => none

def hasEnded (r : Reporter) : Bool := r.ending?.isSome

/-- the next move of a reporter at a moment -/
def move (now : Duration) (d : Duplex) (r : Reporter) : Option (Reporter × Duplex × List ReporterEffect) :=
  (r.next now d.toClient d.toServer).map fun e =>
    let (r', effects) := r.react now e
    (r', shift e effects r'.hasEnded d, effects)

end Reporter

/-- A client's end that is led by hand: it writes what it is given as soon as there is room, and reads messages. -/
structure Operator where
  /-- bytes to be written -/
  backlog : Bytes
  /-- whether to finish behind them -/
  finishing : Bool
  /-- bytes that have arrived and are no whole frame yet -/
  incoming : Bytes
  /-- messages that were read -/
  heard : List Message
  /-- whether the end of what can be read was reached -/
  atEnd : Bool
  /-- reading is put off -/
  holding : Bool
  gone : Bool

namespace Operator

def new (holding : Bool) : Operator := ⟨[], false, [], [], false, holding, false⟩

/-- the messages that outcomes of reading hold -/
def messages (outcomes : List Stream.Outcome) : List Message :=
  outcomes.filterMap fun
    | .ok (some m) => some m
    | _ => none

/-- read all that is there -/
def readAll (o : Operator) (d : Duplex) : Operator × Duplex :=
  let (bytes, toClient) := d.toClient.pull
  let (outcomes, incoming) := Stream.drainAll Frame.defaultMax (o.incoming ++ bytes)
  ({ o with incoming, heard := o.heard ++ messages outcomes }, { d with toClient })

/-- the next move of an operator at the client's end -/
def move (d : Duplex) (o : Operator) : Option (Operator × Duplex) :=
  if o.gone then none
  else if !o.backlog.isEmpty && d.toServer.abandoned then some ({ o with backlog := [] }, d)
  else if !o.backlog.isEmpty && 0 < d.toServer.room then
    some ({ o with backlog := o.backlog.drop d.toServer.room },
      { d with toServer := d.toServer.push (o.backlog.take d.toServer.room) })
  else if o.backlog.isEmpty && o.finishing && !d.toServer.finished then
    some (o, { d with toServer := d.toServer.finish })
  else if o.holding || o.atEnd then none
  else if !d.toClient.held.isEmpty then some (o.readAll d)
  else if d.toClient.finished then some ({ o with atEnd := true }, d)
  else none

/-- give bytes to be written -/
def write (o : Operator) (bytes : Bytes) : Operator := { o with backlog := o.backlog ++ bytes }

/-- leave the connection at once -/
def leave (d : Duplex) (o : Operator) : Operator × Duplex :=
  ({ o with gone := true, backlog := [] }, d.leaveClient)

end Operator

end MetricSurvey

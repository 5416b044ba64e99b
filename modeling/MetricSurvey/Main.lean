/-
The program: it reads its command line, and prints a text, gives up, or serves clients over TCP until it is told to stop.

One loop owns the service. Tasks beside it wait for the outside: for connections, for bytes, for the clock and for
signals. Each of them tells the loop what has happened, and the loop lets the service handle it. Snapshots are written to
standard output by a task of its own, behind a queue that refuses what it cannot hold.
-/
import MetricSurvey.Config.Launch
import MetricSurvey.Output.WriterSink
import MetricSurvey.Server.Service
import Std.Async
import Std.Sync.Channel

namespace MetricSurvey.Program

open Std Std.Async

/-- what the loop is told -/
inductive News where
  | accepted (socket : TCP.Socket.Client)
  | occurred (o : Occurrence)

instance : Inhabited News := ⟨.occurred .timePassed⟩

/-- a connection as the loop sees it -/
structure Line where
  /-- none once the connection is over -/
  socket : Option TCP.Socket.Client
  /-- whether somebody waits for bytes of the client -/
  reading : Bool
  /-- whether bytes are on their way to the client -/
  writing : Bool

/-- let a task run beside the loop -/
def beside (task : Async Unit) : IO Unit := discard task.toIO

def tell (news : Channel News) (o : Occurrence) : Async Unit := discard (news.send (.occurred o))

/-! ## Waiting for the outside -/

def awaitBytes (news : Channel News) (i : Nat) (socket : TCP.Socket.Client) : Async Unit := do
  try
    match ← socket.recv? Service.pipeCapacity.toUInt64 with
    | some bytes => tell news (.arrived i bytes.data.toList)
    | none => tell news (.finished i)
  catch _ => tell news (.broken i)

def deliver (news : Channel News) (i : Nat) (socket : TCP.Socket.Client) (bytes : Bytes) : Async Unit := do
  try
    socket.send ⟨bytes.toArray⟩
    tell news (.delivered i bytes.length)
  catch _ => tell news (.broken i)

def hangUp (socket : TCP.Socket.Client) : Async Unit := do
  try socket.shutdown catch _ => pure ()

def awaitMoment (news : Channel News) (ms : Nat) : Async Unit := do
  sleep (Time.Millisecond.Offset.ofNat ms)
  tell news .timePassed

def awaitSignal (news : Channel News) (signal : Signal) : IO Unit := do
  let waiter ← Signal.Waiter.mk signal false
  beside do
    discard (await (← waiter.wait))
    tell news .shutdown

partial def awaitClients (news : Channel News) (server : TCP.Socket.Server) : Async Unit := do
  try
    let socket ← server.accept
    socket.noDelay
    discard (news.send (.accepted socket))
  catch _ => pure ()
  awaitClients news server

/-! ## Output -/

/-- write snapshots until there will be no more; one that cannot be written is left -/
partial def print (snapshots : CloseableChannel (Snapshot Binary64)) : IO Unit := do
  match ← snapshots.sync.recv with
  | none => pure ()
  | some s =>
    try
      s.pieces.forM IO.print
      (← IO.getStdout).flush
    catch _ => pure ()
    print snapshots

/-! ## The loop -/

/-- what the service wants of a connection -/
def attend (news : Channel News) (i : Nat) (d : Duplex) (line : Line) : IO Line := do
  match line.socket with
  | none => pure line
  | some socket =>
    let wantsBytes := !line.reading && d.toServer.held.isEmpty && !d.toServer.finished && !d.toServer.abandoned
    let hasBytes := !line.writing && !d.toClient.held.isEmpty && !d.toClient.abandoned
    let isOver := !line.writing && d.toClient.finished && (d.toClient.held.isEmpty || d.toClient.abandoned)
    if wantsBytes then beside (awaitBytes news i socket)
    if hasBytes then beside (deliver news i socket d.toClient.held)
    if isOver then beside (hangUp socket)
    pure ⟨if isOver then none else some socket, line.reading || wantsBytes, line.writing || hasBytes⟩

/-- a connection after something has happened to it -/
def Line.after (line : Line) : Occurrence → Line
  | .arrived _ _ | .finished _ => { line with reading := false }
  | .delivered _ _ => { line with writing := false }
  | .broken _ => ⟨none, false, false⟩
  | _ => line

/-- the connection that something has happened to -/
def lineOf : Occurrence → Option Nat
  | .arrived i _ | .finished i | .delivered i _ | .broken i => some i
  | _ => none

structure Outside where
  news : Channel News
  snapshots : CloseableChannel (Snapshot Binary64)
  /-- whether snapshots are written at all -/
  writes : Bool
  /-- the reading of the clock inside the machine when the service came up, in nanoseconds -/
  origin : Nat

partial def loop (w : Outside) (x : Service) (lines : List Line) (armed : Option Duration) : IO Unit := do
  let (occurrence, lines) : Occurrence × List Line ← match ← w.news.sync.recv with
    | .accepted socket => pure (.connected, lines ++ [⟨some socket, false, false⟩])
    | .occurred o => pure (o, (lineOf o).elim lines fun i => lines.modify i fun l => l.after o)
  let now : Duration := ⟨(← IO.monoNanosNow) - w.origin⟩
  let (snapshots, x) := (x.handle now occurrence).takeEmitted
  if w.writes then snapshots.forM fun s => discard (w.snapshots.trySend s)
  if x.isDown then pure () else
    let lines ← (lines.zip x.network.links).zipIdx.mapM fun ((line, link), i) => attend w.news i link.1 line
    let next := x.nextMoment
    let waits := armed.any fun d => decide (now < d) && decide (d ≤ next)
    if !waits then beside (awaitMoment w.news (next.millis - now.millis + 1))
    loop w x lines (if waits then armed else some (next + .ofMillis 1))

/-! ## Coming up -/

/-- the addresses that a host and a port stand for -/
def resolve (a : Address) : IO (List Net.SocketAddress) := do
  let withPort : Net.IPAddr → Net.SocketAddress
    | .v4 addr => .v4 ⟨addr, a.port⟩
    | .v6 addr => .v6 ⟨addr, a.port⟩
  let bare := String.ofList (a.host.filter fun c => c != '[' && c != ']')
  match Net.IPv4Addr.ofString bare, Net.IPv6Addr.ofString bare with
  | some addr, _ => pure [withPort (.v4 addr)]
  | none, some addr => pure [withPort (.v6 addr)]
  | none, none =>
    let found ← (DNS.getAddrInfo bare "").block
    pure (found.toList.map withPort)

/-- listen at the first of these addresses where that is possible -/
def listenAtOneOf : List Net.SocketAddress → IO (Option TCP.Socket.Server)
  | [] => pure none
  | address :: rest => do
    try
      let server ← TCP.Socket.Server.mk
      server.bind address
      server.listen 1024
      pure (some server)
    catch _ => listenAtOneOf rest

def listen? (address : String) : IO (Option TCP.Socket.Server) := do
  match Address.parse? address with
  | none => pure none
  | some a => try listenAtOneOf (← resolve a) catch _ => pure none

def complain (text : String) : IO Unit := IO.eprintln ("Error: " ++ text)

/-- serve with a configuration until told to stop -/
def serve (c : ServerConfig) : IO UInt32 := do
  match ← listen? c.listenAddr with
  | none =>
    complain ("failed to bind " ++ c.listenAddr)
    pure 1
  | some server =>
    let news ← Channel.new
    let snapshots ← CloseableChannel.new (some c.output.sinkQueueCapacity.toNat)
    let clock ← Time.Timestamp.now
    let service := Service.new c ⟨UInt64.ofNat clock.toMillisecondsSinceUnixEpoch.toInt.toNat⟩
    let printing ← IO.asTask (print snapshots) .dedicated
    beside (awaitClients news server)
    awaitSignal news .sigint
    awaitSignal news .sigterm
    discard (news.sync.send (.occurred .timePassed))
    loop ⟨news, snapshots, c.output.logOutput, ← IO.monoNanosNow⟩ service [] none
    discard snapshots.sync.close.toBaseIO
    discard (IO.wait printing)
    pure 0

/-- the bytes of the configuration file that the arguments name, if it can be read -/
def configFile (args : List String) : IO (Option Bytes) := do
  match Arguments.parse args with
  | .ok { config := some path, .. } =>
    try pure (some (← IO.FS.readBinFile path).data.toList) catch _ => pure none
  | _ => pure none

def run (args : List String) : IO UInt32 := do
  let file ← configFile args
  match Launch.ofArguments (fun _ => file) args with
  | .print text => IO.print text; pure 0
  | .refuse e => complain (e.text?.getD e.kind); pure e.exitCode.toUInt32
  | .serve c => serve c

end MetricSurvey.Program

def main (args : List String) : IO UInt32 := MetricSurvey.Program.run args

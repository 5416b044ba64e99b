/-
Sessions: the server's side of one connection.

A session waits for five things: being told to close, a frame from its peer, a message to send, the time for a ping, and
the time to give up. What it reads goes to the coordinator and the aggregator; a message that it sends must be taken by
the transport within a deadline, and until then it attends to nothing else. However it ends, it first writes out what it
has framed, within the deadline again, and then reports its end, once.

`react` handles an event, and ignores one that does not fit. `next` says which event is at hand.
-/
import MetricSurvey.Config.Basic
import MetricSurvey.Connection.Pipe
import MetricSurvey.Survey.Book

namespace MetricSurvey

/-- why a session, or a message to it, came to nothing -/
inductive SessionError where
  | protocol (e : ProtocolError)
  /-- nothing was heard from the peer for this long -/
  | idle (after : Duration)
  | writeTimeout
  | queueFull
  | closed
deriving DecidableEq

def SessionError.message : SessionError → Option String
  | .protocol e => e.message
  | .idle after => some ("no traffic for " ++ after.text)
  | .writeTimeout => some "write timed out"
  | .queueFull => some "send queue full"
  | .closed => some "session closed"

inductive SessionState where
  | connected
  /-- the client has said which process it is -/
  | registered
  | closed
deriving DecidableEq

/-- what a session allows itself and its peer -/
structure SessionLimits where
  sendQueueCapacity : Nat := 8
  /-- the silence after which the peer is pinged -/
  pingAfter : Duration := .ofSecs 5
  /-- the silence after which the peer is given up -/
  idleDeadline : Duration := .ofSecs 20
  writeTimeout : Duration := .ofSecs 1
  maxFrame : Nat := Frame.defaultMax
deriving DecidableEq

def ServerConfig.sessionLimits (c : ServerConfig) : SessionLimits where
  sendQueueCapacity := c.sendQueueCapacity.toNat
  pingAfter := c.pingAfter
  idleDeadline := c.idleDeadline
  writeTimeout := c.writeTimeout
  maxFrame := c.maxFrameBytes.toNat

/-- what a session is busy with; `none` as a reason stands for an orderly end -/
inductive SessionPhase where
  | unstarted
  | serving
  /-- a frame must be taken by the transport -/
  | writing (deadline : Duration)
  /-- what was framed is written out -/
  | closing (deadline : Duration) (reason : Option SessionError)
  | ended (reason : Option SessionError)
deriving DecidableEq

structure Session where
  id : ClientId
  limits : SessionLimits
  state : SessionState
  phase : SessionPhase
  /-- told to close -/
  cancelled : Bool
  /-- messages that wait to be sent -/
  queue : List Message
  /-- whether messages are still accepted -/
  queueOpen : Bool
  /-- bytes that have arrived and are no whole frame yet -/
  incoming : Bytes
  /-- bytes of frames that the transport has not yet taken -/
  outgoing : Bytes
  /-- when the last frame came -/
  lastHeard : Duration
  lastPing : Duration
deriving DecidableEq

inductive SessionEvent where
  | start
  /-- being told to close is noticed -/
  | cancellation
  /-- bytes arrive -/
  | arrival (bytes : Bytes)
  /-- what has arrived is looked at -/
  | frame
  /-- the peer has finished -/
  | endOfStream
  | readFailure
  /-- the oldest message that waits is sent -/
  | outbound
  /-- nobody is left who could send a message -/
  | release
  | pingTime
  | idleTime
  /-- the transport takes so many bytes -/
  | taken (n : Nat)
  /-- the transport has taken everything -/
  | flushed
  | writeFailure
  | writeDeadline
  /-- writing out has come to its end, one way or the other -/
  | shut
deriving DecidableEq

/-- what a session does to others, in order -/
inductive SessionEffect where
  | setTags (id : ClientId) (tags : Tags)
  | complete (id : ClientId) (time : SurveyTime)
  | ended (id : ClientId)
  | fragment (report : Report Binary64)
  /-- bytes that the transport has taken -/
  | sent (bytes : Bytes)
deriving DecidableEq

namespace Session

def new (id : ClientId) (limits : SessionLimits) : Session :=
  ⟨id, limits, .connected, .unstarted, false, [], true, [], [], .zero, .zero⟩

/-! ## What others may do to a session -/

/-- the room of the queue; there is always some -/
def capacity (s : Session) : Nat := max s.limits.sendQueueCapacity 1

/-- queue a message without waiting -/
def send (s : Session) (m : Message) : Session × Option SessionError :=
  if !s.queueOpen then (s, some .closed)
  else if s.queue.length < s.capacity then ({ s with queue := s.queue ++ [m] }, none)
  else (s, some .queueFull)

/-- tell a session to close -/
def cancel (s : Session) : Session := { s with cancelled := true }

def isClosed (s : Session) : Bool := s.cancelled || !s.queueOpen

/-- whether a request would be queued -/
def accepts (s : Session) : Bool := (s.send (.reportAll 0)).2.isNone

/-! ## Timing -/

/-- a delay is cut to a year -/
def farthest : Duration := .ofSecs (365 * 86400)

def later (start delay : Duration) : Duration := start + min delay farthest

def pingAt (s : Session) : Duration := later (max s.lastHeard s.lastPing) s.limits.pingAfter

def giveUpAt (s : Session) : Duration := later s.lastHeard s.limits.idleDeadline

/-! ## Reactions -/

/-- begin to end: nothing more is read, accepted or framed -/
def finish (now : Duration) (s : Session) (reason : Option SessionError) : Session :=
  { s with
    state := .closed
    phase := .closing (now + s.limits.writeTimeout) reason
    cancelled := true
    queueOpen := false }

/-- frame a message and wait for the transport to take it -/
def write (now : Duration) (s : Session) (m : Message) : Session :=
  match Frame.write s.limits.maxFrame m with
  | .error e => s.finish now (some (.protocol e))
  | .ok bs => { s with outgoing := s.outgoing ++ bs, phase := .writing (now + s.limits.writeTimeout) }

/-- pass data on, unless there is none -/
def passOn (r : Report Binary64) : List SessionEffect := if r.isEmpty then [] else [.fragment r]

/-- handle a message of the peer -/
def hear (now : Duration) (s : Session) : Message → Session × List SessionEffect
  | .ping => (s.write now .pong, [])
  | .pong => (s, [])
  | .registerProcess tags => ({ s with state := .registered }, [.setTags s.id tags])
  | .statsPartial r => (s, passOn r)
  | .statsComplete r => (s, passOn r ++ [.complete s.id r.time])
  | .reportAll _ => (s.finish now (some (.protocol (.unexpectedMessage .reportAll))), [])

/-- take a frame off what has arrived, if there is a whole one -/
def readFrame (now : Duration) (s : Session) : Session × List SessionEffect :=
  match Frame.read s.limits.maxFrame s.incoming with
  | (.ok (some m), rest) => hear now { s with incoming := rest, lastHeard := now } m
  | (.ok none, _) => (s, [])
  | (.error e, rest) => ({ s with incoming := rest }.finish now (some (.protocol e)), [])

/-- an event while the session serves -/
def serve (now : Duration) (s : Session) : SessionEvent → Session × List SessionEffect
  | .cancellation => if s.cancelled then (s.finish now none, []) else (s, [])
  | .arrival bytes => ({ s with incoming := s.incoming ++ bytes }, [])
  | .frame => s.readFrame now
  | .endOfStream => (s.finish now (if s.incoming.isEmpty then none else some (.protocol .transport)), [])
  | .readFailure => (s.finish now (some (.protocol .transport)), [])
  | .outbound =>
    match s.queue with
    | m :: rest => ({ s with queue := rest }.write now m, [])
    | [] => (s, [])
  | .release => if s.queue.isEmpty then (s.finish now none, []) else (s, [])
  | .pingTime => if s.pingAt ≤ now then ({ s with lastPing := now }.write now .ping, []) else (s, [])
  | .idleTime => if s.giveUpAt ≤ now then (s.finish now (some (.idle s.limits.idleDeadline)), []) else (s, [])
  | _ => (s, [])

/-- the transport takes bytes -/
def take (s : Session) (n : Nat) : Session × List SessionEffect :=
  ({ s with outgoing := s.outgoing.drop n }, [.sent (s.outgoing.take n)])

/-- an event while a frame is being written -/
def awaitWrite (now deadline : Duration) (s : Session) : SessionEvent → Session × List SessionEffect
  | .taken n => s.take n
  | .flushed => if s.outgoing.isEmpty then ({ s with phase := .serving }, []) else (s, [])
  | .writeFailure => (s.finish now (some (.protocol .transport)), [])
  | .writeDeadline => if deadline ≤ now then (s.finish now (some .writeTimeout), []) else (s, [])
  | _ => (s, [])

/-- handle an event that happens at a moment -/
def react (now : Duration) (s : Session) (e : SessionEvent) : Session × List SessionEffect :=
  match s.phase with
  | .unstarted =>
    match e with
    | .start => ({ s with phase := .serving, lastHeard := now, lastPing := now }, [])
    | _ => (s, [])
  | .serving => s.serve now e
  | .writing deadline => s.awaitWrite now deadline e
  | .closing _ reason =>
    match e with
    | .taken n => s.take n
    | .shut => ({ s with phase := .ended reason }, [.ended s.id])
    | _ => (s, [])
  | .ended _ => (s, [])

/-- handle events in order, each at its moment; the effects are listed in order -/
def run (s : Session) (es : List (Duration × SessionEvent)) : Session × List SessionEffect :=
  es.foldl (fun acc e =>
    let (s', out) := acc.1.react e.1 e.2
    (s', acc.2 ++ out)) (s, [])

/-! ## What is at hand -/

/-- the event that is at hand while the session serves; the peer is heard before anything is sent -/
def nextServing (now : Duration) (inbound : Pipe) (s : Session) : Option SessionEvent :=
  if s.cancelled then some .cancellation
  else match (Frame.read s.limits.maxFrame s.incoming).1 with
    | .ok (some _) | .error _ => some .frame
    | .ok none =>
      if !inbound.held.isEmpty then some (.arrival inbound.held)
      else if inbound.finished then some .endOfStream
      else if !s.queue.isEmpty then some .outbound
      else if s.pingAt ≤ now then some .pingTime
      else if s.giveUpAt ≤ now then some .idleTime
      else none

/-- the event that is at hand at a moment, with these pipes from and to the peer -/
def next (now : Duration) (inbound outbound : Pipe) (s : Session) : Option SessionEvent :=
  match s.phase with
  | .unstarted => none
  | .serving => s.nextServing now inbound
  | .writing deadline =>
    if s.outgoing.isEmpty then some .flushed
    else if outbound.abandoned then some .writeFailure
    else if 0 < outbound.room then some (.taken outbound.room)
    else if deadline ≤ now then some .writeDeadline
    else none
  | .closing deadline _ =>
    if s.outgoing.isEmpty || outbound.abandoned then some .shut
    else if 0 < outbound.room then some (.taken outbound.room)
    else if deadline ≤ now then some .shut
    else none
  | .ended _ => none

/-- when a session that waits will go on by itself -/
def deadline? (s : Session) : Option Duration :=
  match s.phase with
  | .serving => some (min s.pingAt s.giveUpAt)
  | .writing deadline => some deadline
  | .closing deadline _ => some deadline
  | _ => none

end Session

end MetricSurvey

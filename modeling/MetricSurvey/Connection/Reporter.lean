/-
Reporters: the client's side of one connection.

A reporter may say which process it is, and then answers the server: a ping by a pong, a request by the report of its
registry. Anything else that the server sends is a mistake and ends it. An answer must be taken by the transport within a
second, and until then nothing more is read.
-/
import MetricSurvey.Connection.Session
import MetricSurvey.Metric.Registry

namespace MetricSurvey

inductive ReporterPhase where
  | unstarted
  | serving
  /-- a frame must be taken by the transport; `serves` says whether answering goes on behind it -/
  | writing (deadline : Duration) (serves : Bool)
  | ended (reason : Option SessionError)
deriving DecidableEq

/-- a reporter; its probes stand for what they read at the moment -/
structure Reporter where
  registry : Registry Binary64 Binary64
  phase : ReporterPhase
  /-- bytes that have arrived and are no whole frame yet -/
  incoming : Bytes
  /-- bytes of frames that the transport has not yet taken -/
  outgoing : Bytes

inductive ReporterEvent where
  /-- say which process this is -/
  | register (tags : Tags)
  | start
  /-- bytes arrive -/
  | arrival (bytes : Bytes)
  /-- what has arrived is looked at -/
  | frame
  /-- the server has finished -/
  | endOfStream
  /-- the transport takes so many bytes -/
  | taken (n : Nat)
  /-- the transport has taken everything -/
  | flushed
  | writeFailure
  | writeDeadline
deriving DecidableEq

inductive ReporterEffect where
  /-- how saying which process this is came out -/
  | registered (refusal : Option SessionError)
  /-- bytes that the transport has taken -/
  | sent (bytes : Bytes)
deriving DecidableEq

namespace Reporter

def new (registry : Registry Binary64 Binary64) : Reporter := ⟨registry, .unstarted, [], []⟩

/-- how long a write may take -/
def writeTimeout : Duration := .ofSecs 1

/-- the largest body that is taken or sent -/
def maxFrame : Nat := Frame.defaultMax

/-- a write has come to nothing -/
def refuse (r : Reporter) (serves : Bool) (e : SessionError) : Reporter × List ReporterEffect :=
  if serves then ({ r with phase := .ended (some e) }, [])
  else ({ r with phase := .unstarted }, [.registered (some e)])

/-- frame a message and wait for the transport to take it -/
def write (now : Duration) (r : Reporter) (serves : Bool) (m : Message) : Reporter × List ReporterEffect :=
  match Frame.write maxFrame m with
  | .error e => r.refuse serves (.protocol e)
  | .ok bs => ({ r with outgoing := r.outgoing ++ bs, phase := .writing (now + writeTimeout) serves }, [])

/-- answer a message of the server -/
def hear (now : Duration) (r : Reporter) : Message → Reporter × List ReporterEffect
  | .ping => r.write now true .pong
  | .pong => (r, [])
  | .reportAll time =>
    let (report, registry) := r.registry.report id time
    { r with registry }.write now true (.statsComplete report)
  | m => ({ r with phase := .ended (some (.protocol (.unexpectedMessage m.method))) }, [])

/-- take a frame off what has arrived, if there is a whole one -/
def readFrame (now : Duration) (r : Reporter) : Reporter × List ReporterEffect :=
  match Frame.read maxFrame r.incoming with
  | (.ok (some m), rest) => hear now { r with incoming := rest } m
  | (.ok none, _) => (r, [])
  | (.error e, rest) => ({ r with incoming := rest, phase := .ended (some (.protocol e)) }, [])

/-- an event while the reporter answers -/
def serve (now : Duration) (r : Reporter) : ReporterEvent → Reporter × List ReporterEffect
  | .arrival bytes => ({ r with incoming := r.incoming ++ bytes }, [])
  | .frame => r.readFrame now
  | .endOfStream =>
    ({ r with phase := .ended (if r.incoming.isEmpty then none else some (.protocol .transport)) }, [])
  | _ => (r, [])

/-- an event while a frame is being written -/
def awaitWrite (now deadline : Duration) (serves : Bool) (r : Reporter) :
    ReporterEvent → Reporter × List ReporterEffect
  | .taken n => ({ r with outgoing := r.outgoing.drop n }, [.sent (r.outgoing.take n)])
  | .flushed =>
    if r.outgoing.isEmpty then
      if serves then ({ r with phase := .serving }, []) else ({ r with phase := .unstarted }, [.registered none])
    else (r, [])
  | .writeFailure => r.refuse serves (.protocol .transport)
  | .writeDeadline => if deadline ≤ now then r.refuse serves .writeTimeout else (r, [])
  | _ => (r, [])

/-- handle an event that happens at a moment -/
def react (now : Duration) (r : Reporter) (e : ReporterEvent) : Reporter × List ReporterEffect :=
  match r.phase with
  | .unstarted =>
    match e with
    | .register tags => r.write now false (.registerProcess tags)
    | .start => ({ r with phase := .serving }, [])
    | _ => (r, [])
  | .serving => r.serve now e
  | .writing deadline serves => r.awaitWrite now deadline serves e
  | .ended _ => (r, [])

/-- the event that is at hand at a moment, with these pipes from and to the server -/
def next (now : Duration) (inbound outbound : Pipe) (r : Reporter) : Option ReporterEvent :=
  match r.phase with
  | .unstarted => none
  | .serving =>
    match (Frame.read maxFrame r.incoming).1 with
    | .ok (some _) | .error _ => some .frame
    | .ok none =>
      if !inbound.held.isEmpty then some (.arrival inbound.held)
      else if inbound.finished then some .endOfStream
      else none
  | .writing deadline _ =>
    if r.outgoing.isEmpty then some .flushed
    else if outbound.abandoned then some .writeFailure
    else if 0 < outbound.room then some (.taken outbound.room)
    else if deadline ≤ now then some .writeDeadline
    else none
  | .ended _ => none

/-- when a reporter that waits will go on by itself -/
def deadline? (r : Reporter) : Option Duration :=
  match r.phase with
  | .writing deadline _ => some deadline
  | _ => none

end Reporter

end MetricSurvey

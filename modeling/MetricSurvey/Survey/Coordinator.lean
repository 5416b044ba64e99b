/-
The coordinator: it owns the registry of clients and the survey book.

On a tick it tells the aggregator that a survey time has begun, opens a survey of all registered clients, asks each of
them, drops those that cannot be asked, and arms a timeout if anybody is left to answer. A survey closes with its last
answer, with the leaving of its last client, or by its timeout, whichever comes first; closing it is what tells the
aggregator that the snapshot is done.

An id that is registered again replaces its client. The replaced session still reports its own end later, and that report
must not remove the new client, so the ends still to come are counted per id.
-/
import MetricSurvey.Survey.Aggregator
import MetricSurvey.Survey.Book

namespace MetricSurvey

/-- a registered client; `P` is what it is reached by -/
structure Client (P : Type) where
  peer : P
  tags : Tags
deriving DecidableEq

structure Coordinator (P : Type) where
  clients : Table ClientId (Client P)
  book : SurveyBook
  /-- clients that owed an answer to a survey that timed out, since this was last reported -/
  unreportedTimeouts : Nat
  /-- ends of replaced sessions still to come; no id has the count zero -/
  staleRemovals : Table ClientId Nat

/-- what the coordinator handles, one at a time -/
inductive CoordinatorInput (P : Type) where
  | register (id : ClientId) (peer : P)
  | setTags (id : ClientId) (tags : Tags)
  /-- a session of this id has ended -/
  | sessionEnded (id : ClientId)
  /-- drop the client, whoever it is -/
  | removeClient (id : ClientId)
  | tick (time : SurveyTime)
  | complete (id : ClientId) (time : SurveyTime)
  | timeout (time : SurveyTime)
  | shutdown

/-- what the coordinator does to others, in order -/
inductive CoordinatorEffect (P : Type) where
  | tell (event : AggregatorEvent Binary64)
  | request (peer : P) (time : SurveyTime)
  | close (peer : P)
  | armTimeout (time : SurveyTime)

/-- what the coordinator reads from its surroundings while it handles an input: the clock, and which peers take a
request -/
structure Surroundings (P : Type) where
  now : Reading
  accepts : P → Bool

namespace Coordinator

variable {P : Type}

def clientsMetric : String := "stagger.clients"
def timeoutsMetric : String := "stagger.timeouts"
def latencyMetric : String := "stagger.survey_latency"

def new : Coordinator P := ⟨∅, .empty, 0, ∅⟩

def clientCount (c : Coordinator P) : Nat := c.clients.size

def tags? (c : Coordinator P) (id : ClientId) : Option Tags := (c.clients.get? id).map Client.tags

abbrev Effects (P : Type) := List (CoordinatorEffect P)

def tellCount (time : SurveyTime) (name : String) (n : Nat) : CoordinatorEffect P :=
  .tell (.fragment (.ofCount time name (.ofNat n)))

/-- a new client; one that it replaces is closed, and its end is expected -/
def register (c : Coordinator P) (id : ClientId) (peer : P) : Coordinator P × Effects P :=
  let clients := c.clients.insert id ⟨peer, ∅⟩
  match c.clients.get? id with
  | none => ({ c with clients }, [])
  | some old =>
    ({ c with clients, staleRemovals := c.staleRemovals.alter id fun n => some (n.getD 0 + 1) }, [.close old.peer])

def setTags (c : Coordinator P) (id : ClientId) (tags : Tags) : Coordinator P :=
  { c with clients := c.clients.modify id fun client => { client with tags } }

/-- drop a client and wait for none of its answers -/
def removeClient (c : Coordinator P) (id : ClientId) : Coordinator P × Effects P :=
  let (book, closed) := c.book.removeClient id
  ({ c with clients := c.clients.erase id, book },
    (c.clients.get? id).toList.map (fun client => .close client.peer)
      ++ closed.map fun time => .tell (.completed time))

/-- A session has ended. The first ends after a replacement are those of the replaced sessions, and change nothing. -/
def sessionEnded (c : Coordinator P) (id : ClientId) : Coordinator P × Effects P :=
  match c.staleRemovals.get? id with
  | some n =>
    ({ c with staleRemovals :=
        if n - 1 = 0 then c.staleRemovals.erase id else c.staleRemovals.insert id (n - 1) }, [])
  | none => c.removeClient id

/-- drop clients one after another -/
def removeClients (c : Coordinator P) (ids : List ClientId) : Coordinator P × Effects P :=
  ids.foldl (fun acc id =>
    let (c', es) := acc.1.removeClient id
    (c', acc.2 ++ es)) (c, [])

/-- ask every client, drop those that do not take the request, and arm the timeout of a survey that is still open -/
def askClients (accepts : P → Bool) (c : Coordinator P) (time : SurveyTime) : Coordinator P × Effects P :=
  let asked := c.clients.toList
  let failed := (asked.filter fun e => !accepts e.2.peer).map Prod.fst
  let (c', removals) := c.removeClients failed
  (c', asked.map (fun e => .request e.2.peer time) ++ removals
    ++ (if (c'.book.get? time).isSome then [.armTimeout time] else []))

/-- begin a survey -/
def tick (s : Surroundings P) (c : Coordinator P) (time : SurveyTime) : Coordinator P × Effects P :=
  let opening : Effects P := [.tell (.opened time)]
  let timeouts : Effects P :=
    if 0 < c.unreportedTimeouts then [tellCount time timeoutsMetric c.unreportedTimeouts] else []
  let c := { c with unreportedTimeouts := 0 }
  if c.clients.isEmpty then (c, opening ++ timeouts) else
    match c.book.insert (.new time c.clients.keys s.now) with
    | (_, false) => (c, opening ++ timeouts)
    | (book, true) =>
      let (c', es) := askClients s.accepts { c with book } time
      (c', opening ++ timeouts ++ tellCount time clientsMetric c.clients.size :: es)

/-- an answer: its latency is reported before the completion that it may bring -/
def complete (now : Reading) (c : Coordinator P) (id : ClientId) (time : SurveyTime) : Coordinator P × Effects P :=
  match c.book.complete id time now with
  | (book, .recorded latency closed) =>
    ({ c with book },
      .tell (.fragment (.ofValue time latencyMetric (.ofNat latency.millis)))
        :: if closed then [.tell (.completed time)] else [])
  | (_, _) => (c, [])

/-- close a survey that is still open; who owed an answer is counted -/
def timeout (c : Coordinator P) (time : SurveyTime) : Coordinator P × Effects P :=
  match c.book.close time with
  | (_, none) => (c, [])
  | (book, some survey) =>
    ({ c with book, unreportedTimeouts := c.unreportedTimeouts + survey.outstanding.size },
      [.tell (.completed time)])

/-- close every client and forget them -/
def shutdown (c : Coordinator P) : Coordinator P × Effects P :=
  ({ c with clients := ∅ }, c.clients.values.map fun client => .close client.peer)

/-- handle one input -/
def step (s : Surroundings P) (c : Coordinator P) : CoordinatorInput P → Coordinator P × Effects P
  | .register id peer => c.register id peer
  | .setTags id tags => (c.setTags id tags, [])
  | .sessionEnded id => c.sessionEnded id
  | .removeClient id => c.removeClient id
  | .tick time => tick s c time
  | .complete id time => complete s.now c id time
  | .timeout time => c.timeout time
  | .shutdown => c.shutdown

/-- handle inputs in order, each with its own surroundings; the effects are listed in order -/
def run (c : Coordinator P) (is : List (Surroundings P × CoordinatorInput P)) : Coordinator P × Effects P :=
  is.foldl (fun acc i =>
    let (c', es) := step i.1 acc.1 i.2
    (c', acc.2 ++ es)) (c, [])

end Coordinator

namespace CoordinatorEffect

variable {P : Type}

/-- what the aggregator is told by an effect -/
def event? : CoordinatorEffect P → Option (AggregatorEvent Binary64)
  | tell e => some e
  | _ => none

/-- the survey time for which an effect arms a timeout -/
def timeout? : CoordinatorEffect P → Option SurveyTime
  | armTimeout time => some time
  | _ => none

end CoordinatorEffect

end MetricSurvey

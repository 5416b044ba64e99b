/-
The survey book: the surveys that wait for answers.

A survey is open from the moment it is asked until every client it asked has answered or left, or until it is closed. An
open survey has a place in the book under its time; a closed one has none, so whatever comes for it later finds nothing.
-/
import MetricSurvey.Metric.Report
import MetricSurvey.Table
import MetricSurvey.Time.Clock

namespace MetricSurvey

/-- clients are numbered as they connect -/
abbrev ClientId := UInt64

structure Survey where
  time : SurveyTime
  /-- who has still to answer -/
  outstanding : Table ClientId Unit
  /-- how many were asked -/
  asked : Nat
  started : Reading
deriving DecidableEq

namespace Survey

/-- a survey of these clients -/
def new (time : SurveyTime) (clients : List ClientId) (started : Reading) : Survey :=
  let outstanding := Table.ofList (clients.map fun id => (id, ()))
  ⟨time, outstanding, outstanding.size, started⟩

def owes (s : Survey) (id : ClientId) : Bool := s.outstanding.contains id

def isDone (s : Survey) : Bool := s.outstanding.isEmpty

/-- the survey without this client's answer to wait for -/
def release (s : Survey) (id : ClientId) : Survey := { s with outstanding := s.outstanding.erase id }

end Survey

/-- what became of a client's answer -/
inductive Completion where
  /-- no survey is open for that time -/
  | noSurvey
  /-- nothing was owed -/
  | duplicate
  /-- taken; `closed` says that it was the last one -/
  | recorded (latency : Duration) (closed : Bool)
deriving DecidableEq

/-- the open surveys by their times -/
structure SurveyBook where
  surveys : Table SurveyTime Survey

namespace SurveyBook

def empty : SurveyBook := ⟨∅⟩

def get? (b : SurveyBook) (time : SurveyTime) : Option Survey := b.surveys.get? time

def inFlight (b : SurveyBook) : Nat := b.surveys.size

def isEmpty (b : SurveyBook) : Bool := b.surveys.isEmpty

/-- the times of the open surveys, oldest first -/
def openTimes (b : SurveyBook) : List SurveyTime := b.surveys.keys

/-- open a survey, unless one is open for its time -/
def insert (b : SurveyBook) (s : Survey) : SurveyBook × Bool :=
  if b.surveys.contains s.time then (b, false) else (⟨b.surveys.insert s.time s⟩, true)

/-- note that a client has answered -/
def complete (b : SurveyBook) (id : ClientId) (time : SurveyTime) (now : Reading) : SurveyBook × Completion :=
  match b.get? time with
  | none => (b, .noSurvey)
  | some s =>
    if s.owes id then
      let s' := s.release id
      if s'.isDone then (⟨b.surveys.erase time⟩, .recorded (now.since s.started) true)
      else (⟨b.surveys.insert time s'⟩, .recorded (now.since s.started) false)
    else (b, .duplicate)

/-- close a survey, whoever still owes an answer -/
def close (b : SurveyBook) (time : SurveyTime) : SurveyBook × Option Survey :=
  (⟨b.surveys.erase time⟩, b.get? time)

/-- wait for nothing more from this client; the times of the surveys that this closes are listed, oldest first -/
def removeClient (b : SurveyBook) (id : ClientId) : SurveyBook × List SurveyTime :=
  let closes (s : Survey) : Bool := s.owes id && (s.release id).isDone
  (⟨(b.surveys.filter fun _ s => !closes s).mapValues fun _ s => s.release id⟩,
    (b.surveys.filter fun _ s => closes s).keys)

end SurveyBook

end MetricSurvey

/-
Pipes: bytes on their way from a writer to a reader, in order, with bounded room.

What was written can be read even after the writer has finished; only then comes the end. A reader that is gone leaves a
pipe that takes nothing more.
-/
import MetricSurvey.Wire.Bytes

namespace MetricSurvey

structure Pipe where
  capacity : Nat
  /-- bytes that were written and not yet read -/
  held : Bytes
  /-- the writer writes no more -/
  finished : Bool
  /-- the reader reads no more -/
  abandoned : Bool
deriving DecidableEq

namespace Pipe

def new (capacity : Nat) : Pipe := ⟨capacity, [], false, false⟩

def room (p : Pipe) : Nat := p.capacity - p.held.length

/-- nothing is left to read, and nothing will come -/
def atEnd (p : Pipe) : Bool := p.held.isEmpty && p.finished

/-- write bytes, for which there must be room -/
def push (p : Pipe) (bs : Bytes) : Pipe := { p with held := p.held ++ bs }

/-- read all that is there -/
def pull (p : Pipe) : Bytes × Pipe := (p.held, { p with held := [] })

/-- read at most so many bytes -/
def pullSome (p : Pipe) (n : Nat) : Bytes × Pipe := (p.held.take n, { p with held := p.held.drop n })

def finish (p : Pipe) : Pipe := { p with finished := true }

def abandon (p : Pipe) : Pipe := { p with abandoned := true }

end Pipe

end MetricSurvey

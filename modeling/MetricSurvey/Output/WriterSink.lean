/-
A sink that writes snapshots as text in its own time.

Snapshots that are taken wait in a queue of bounded length. A worker takes them from there one at a time and writes each
piece by piece; after a piece that cannot be written whole it goes on with the next snapshot. A full queue refuses, and
nothing that was taken is left out.
-/
import MetricSurvey.Output.Sink
import MetricSurvey.Wire.Bytes

namespace MetricSurvey

/-- the pieces in which a snapshot is written: the heading and the lines, each with a line break behind it, and at last
nothing, with which the writer is asked to pass on what it holds back -/
def Snapshot.pieces (s : Snapshot Binary64) : List String :=
  (s.heading :: s.lines).flatMap (fun line => [line, "\n"]) ++ [""]

/-- what came of a text that was to be written: all of it got out, or the write failed after so many of its bytes -/
inductive WriteOutcome where
  | whole
  | cut (bytes : Nat)
deriving DecidableEq

/-- a writer that writes a text whole or not at all says which of the two it did -/
instance : Coe Bool WriteOutcome := ⟨fun written => if written then .whole else .cut 0⟩

/-- what is written to: `write` says how it goes on and what came of the text -/
structure Writer (ω : Type) where
  write : ω → String → ω × WriteOutcome

structure WriterSink (S ω : Type) where
  /-- how many snapshots may wait; at least one, for they are not handed over from hand to hand -/
  capacity : Nat
  /-- how a snapshot is cut into pieces -/
  pieces : S → List String
  writer : Writer ω
  writerState : ω
  /-- snapshots that wait, the oldest first -/
  queue : List S
  /-- what is left to write of the snapshot that the worker holds -/
  atHand : List String
  /-- what has got out, in order -/
  written : Bytes
  /-- whether snapshots are still taken -/
  isOpen : Bool

namespace WriterSink

variable {S ω : Type}

def new (pieces : S → List String) (writer : Writer ω) (start : ω) (capacity : Nat) : WriterSink S ω :=
  ⟨capacity, pieces, writer, start, [], [], [], true⟩

/-- offer a snapshot -/
def offer (k : WriterSink S ω) (s : S) : WriterSink S ω × Option SinkError :=
  if !k.isOpen then (k, some .disconnected)
  else if k.queue.length < k.capacity then ({ k with queue := k.queue ++ [s] }, none)
  else (k, some .queueFull)

/-- one step of the worker: write the next piece, or take the next snapshot to hand -/
def work (k : WriterSink S ω) : WriterSink S ω :=
  match k.atHand with
  | p :: rest =>
    match k.writer.write k.writerState p with
    | (w, .whole) => { k with writerState := w, atHand := rest, written := k.written ++ Bytes.ofText p }
    | (w, .cut n) => { k with writerState := w, atHand := [], written := k.written ++ (Bytes.ofText p).take n }
  | [] =>
    match k.queue with
    | s :: rest => { k with queue := rest, atHand := k.pieces s }
    | [] => k

/-- so many steps of the worker -/
def workFor : Nat → WriterSink S ω → WriterSink S ω
  | 0, k => k
  | n + 1, k => workFor n k.work

/-- the steps after which the worker has nothing left to do -/
def stepsLeft (k : WriterSink S ω) : Nat :=
  k.atHand.length + k.queue.foldr (fun s n => (k.pieces s).length + 1 + n) 0

/-- take no more snapshots, and write all that wait -/
def close (k : WriterSink S ω) : WriterSink S ω := workFor k.stepsLeft { k with isOpen := false }

/-- the text that has got out; none if the last of it is a part of a character -/
def text (k : WriterSink S ω) : String := (Bytes.toText? k.written).getD ""

/-- the sink under a name -/
def asSink (name : String) (k : WriterSink S ω) : Sink S (WriterSink S ω) := ⟨name, k, fun k s => k.offer s⟩

end WriterSink

end MetricSurvey

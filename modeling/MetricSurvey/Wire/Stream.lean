/-
A stream of frames, read from a buffer that grows by what arrives.

`drain` takes messages off the front until more bytes are needed or something is wrong.
-/
import MetricSurvey.Wire.Frame

namespace MetricSurvey

namespace Stream

/-- what reading a frame can answer -/
abbrev Outcome := Except ProtocolError (Option Message)

/-- read at most so many times, stopping after the first answer that is no message -/
def drain (max : Nat) : (attempts : Nat) → Bytes → List Outcome × Bytes
  | 0, buf => ([], buf)
  | n + 1, buf =>
    match Frame.read max buf with
    | (.ok (some m), rest) =>
      let (out, left) := drain max n rest
      (.ok (some m) :: out, left)
    | (o, rest) => ([o], rest)

/-- enough attempts for any buffer: every frame is at least a header long -/
def attemptsFor (buf : Bytes) : Nat := buf.length / FrameHeader.size + 1

/-- what a buffer holds: its messages, and how reading ends with which bytes left -/
def drainAll (max : Nat) (buf : Bytes) : List Outcome × Bytes := drain max (attemptsFor buf) buf

end Stream

end MetricSurvey

/-
Messages between the server and its clients, the code of each kind, and what can be wrong with the bytes of a connection.
-/
import MetricSurvey.Metric.Key
import MetricSurvey.Metric.Report
import MetricSurvey.Text.Hexadecimal
import MetricSurvey.Wire.Bytes

namespace MetricSurvey

/-- the kind of a message -/
inductive Method where
  | ping
  | pong
  | reportAll
  | registerProcess
  | statsPartial
  | statsComplete
deriving DecidableEq, Repr

namespace Method

def code : Method → UInt8
  | ping => 0x28
  | pong => 0x29
  | reportAll => 0x30
  | registerProcess => 0x41
  | statsPartial => 0x42
  | statsComplete => 0x43

def name : Method → String
  | ping => "pair:ping"
  | pong => "pair:pong"
  | reportAll => "report_all"
  | registerProcess => "register_process"
  | statsPartial => "stats_partial"
  | statsComplete => "stats_complete"

def all : List Method := [ping, pong, reportAll, registerProcess, statsPartial, statsComplete]

/-- the kind with this code -/
def ofCode? (c : UInt8) : Option Method := all.find? fun m => m.code == c

theorem ofCode?_code (m : Method) : ofCode? m.code = some m := by cases m <;> rfl

end Method

inductive Message where
  | ping
  | pong
  /-- the server asks for everything since the last survey -/
  | reportAll (time : SurveyTime)
  /-- a client says which process it is -/
  | registerProcess (tags : Tags)
  /-- some of a client's data for a survey; more follows -/
  | statsPartial (report : Report Binary64)
  /-- the last of a client's data for a survey -/
  | statsComplete (report : Report Binary64)
deriving DecidableEq

def Message.method : Message → Method
  | .ping => .ping
  | .pong => .pong
  | .reportAll _ => .reportAll
  | .registerProcess _ => .registerProcess
  | .statsPartial _ => .statsPartial
  | .statsComplete _ => .statsComplete

/-- what is wrong with the bytes on a connection; always the end of it -/
inductive ProtocolError where
  | badMagic (first second : UInt8)
  | unsupportedVersion (version : UInt8)
  | unknownMethod (code : UInt8)
  /-- a known kind of message sent in the wrong direction -/
  | unexpectedMessage (method : Method)
  | frameTooLarge (size max : Nat)
  /-- the body is not one of its kind -/
  | body
  /-- the transport failed, or ended in the middle of a frame -/
  | transport
deriving DecidableEq

namespace ProtocolError

/-- a byte in hexadecimal -/
def byteText (b : UInt8) : String := String.ofList ('0' :: 'x' :: Hexadecimal.byte b.toNat)

/-- the text of an error; the last two have none of their own -/
def message : ProtocolError → Option String
  | badMagic a b => some ("bad magic bytes " ++ byteText a ++ " " ++ byteText b)
  | unsupportedVersion v => some ("unsupported protocol version " ++ toString v.toNat)
  | unknownMethod c => some ("unknown method code " ++ byteText c)
  | unexpectedMessage m => some ("unexpected " ++ m.name ++ " message")
  | frameTooLarge size max =>
    some ("frame too large: " ++ toString size ++ " bytes (max " ++ toString max ++ ")")
  | body => none
  | transport => none

end ProtocolError

end MetricSurvey

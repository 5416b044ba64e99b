/-
Frames: a header of eight bytes and a body.

    0x83 0x84 | version 0 | method | length of the body, four bytes, the most significant first | body

`read` looks at the header as soon as it is there, so rubbish is refused without waiting for a body. Until a whole frame
is there, and when the header is refused, the buffer stays as it is; a body that is no message has been taken off.
-/
import MetricSurvey.Wire.Body

namespace MetricSurvey

structure FrameHeader where
  method : Method
  bodyLength : UInt32
deriving DecidableEq

namespace FrameHeader

def size : Nat := 8

def toBytes (h : FrameHeader) : Bytes := [0x83, 0x84, 0, h.method.code] ++ Bytes.ofNat 4 h.bodyLength.toNat

/-- the header that the first eight bytes spell; fewer bytes are no header -/
def parse : Bytes → Except ProtocolError FrameHeader
  | a :: b :: version :: code :: l0 :: l1 :: l2 :: l3 :: _ =>
    if a ≠ 0x83 ∨ b ≠ 0x84 then .error (.badMagic a b)
    else if version ≠ 0 then .error (.unsupportedVersion version)
    else match Method.ofCode? code with
      | none => .error (.unknownMethod code)
      | some method => .ok ⟨method, UInt32.ofNat (Bytes.toNat [l0, l1, l2, l3])⟩
  | _ => .error .transport

end FrameHeader

namespace Frame

/-- the largest body that a connection takes unless it is told otherwise -/
def defaultMax : Nat := 16 * 1024 * 1024

/-- the frame of a message whose body is within `max` -/
def write (max : Nat) (m : Message) : Except ProtocolError Bytes :=
  let body := Body.encode m
  if max < body.length ∨ Nat.pow 2 32 ≤ body.length then .error (.frameTooLarge body.length max)
  else .ok (FrameHeader.toBytes ⟨m.method, UInt32.ofNat body.length⟩ ++ body)

/-- append the frame of a message to a buffer; one that cannot be written leaves it as it is -/
def append (max : Nat) (m : Message) (buf : Bytes) : Except ProtocolError Unit × Bytes :=
  match write max m with
  | .error e => (.error e, buf)
  | .ok bs => (.ok (), buf ++ bs)

/-- take a message off the front of a buffer: `none` stands for waiting for more bytes -/
def read (max : Nat) (buf : Bytes) : Except ProtocolError (Option Message) × Bytes :=
  if buf.length < FrameHeader.size then (.ok none, buf)
  else match FrameHeader.parse buf with
    | .error e => (.error e, buf)
    | .ok h =>
      let len := h.bodyLength.toNat
      if max < len then (.error (.frameTooLarge len max), buf)
      else if buf.length < FrameHeader.size + len then (.ok none, buf)
      else
        let (body, rest) := (buf.drop FrameHeader.size).splitAt len
        match Body.decode h.method body with
        | .error e => (.error e, rest)
        | .ok m => (.ok (some m), rest)

end Frame

end MetricSurvey

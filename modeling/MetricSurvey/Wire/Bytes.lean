/-
Bytes, readers of bytes, and big-endian numbers.

A reader takes a value off the front of a byte string and leaves the rest, or fails. Readers are put together in the
`Reader` monad; what each takes depends only on the bytes that it takes.
-/
namespace MetricSurvey

abbrev Bytes := List UInt8

/-- takes a value off the front, or fails -/
abbrev Reader (α : Type) := StateT Bytes Option α

namespace Bytes

/-- `n` in `width` bytes, the most significant first -/
def ofNat : (width : Nat) → (n : Nat) → Bytes
  | 0, _ => []
  | w + 1, n => UInt8.ofNat (n / Nat.pow 256 w) :: ofNat w n

/-- the number that the bytes spell, the most significant first -/
def toNat (bs : Bytes) : Nat := bs.foldl (fun n b => n * 256 + b.toNat) 0

/-- the two's complement reading of a number of that many bits -/
def signed (bits n : Nat) : Int := if n < Nat.pow 2 (bits - 1) then n else (n : Int) - Nat.pow 2 bits

/-- the UTF-8 bytes of a text -/
def ofText (s : String) : Bytes := s.toUTF8.data.toList

/-- the text with these UTF-8 bytes, if they are some text's -/
def toText? (bs : Bytes) : Option String := String.fromUTF8? ⟨bs.toArray⟩

end Bytes

namespace Reader

def fail {α : Type} : Reader α := fun _ => none

/-- the next byte -/
def byte : Reader UInt8 := fun
  | [] => none
  | b :: rest => some (b, rest)

/-- exactly the next `n` bytes -/
def take (n : Nat) : Reader Bytes := fun bs =>
  let (front, rest) := bs.splitAt n
  if front.length = n then some (front, rest) else none

/-- a number in `width` bytes -/
def number (width : Nat) : Reader Nat := Bytes.toNat <$> take width

/-- `n` values, one after another -/
def times {α : Type} (r : Reader α) : Nat → Reader (List α)
  | 0 => pure []
  | n + 1 => do
    let a ← r
    let as ← times r n
    pure (a :: as)

/-- `n` steps that each change a state -/
def iterate {σ : Type} (step : σ → Reader σ) : Nat → σ → Reader σ
  | 0, s => pure s
  | n + 1, s => do iterate step n (← step s)

/-- a value that is there, or failure -/
def ofOption {α : Type} : Option α → Reader α
  | some a => pure a
  | none => fail

end Reader

end MetricSurvey

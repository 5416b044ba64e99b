/-
The items that bodies are made of: MessagePack values.

An item begins with a marker byte. Numbers, booleans and nil are complete with the marker and the bytes of their width;
texts, binary data and extensions announce a length in bytes, arrays and maps a length in items. `Head.read` reads this
much, `Item.skip` a whole item of any kind. Writing always takes the shortest form.

Reading follows nested arrays, maps and extensions only so deep: `Item.depth` of them may be open at once.
-/
import MetricSurvey.Number.Binary64
import MetricSurvey.Wire.Bytes

namespace MetricSurvey

/-- a marker with the bytes that belong to it -/
inductive Head where
  | nil
  | bool (b : Bool)
  | unsigned (n : Nat)
  | signed (i : Int)
  | float (x : Binary64)
  | text (length : Nat)
  | binary (length : Nat)
  | extension (length : Nat)
  | array (length : Nat)
  | map (length : Nat)
deriving DecidableEq

namespace Head

/-- what follows a marker from `0xc0` to `0xdf` -/
def readMarked (marker : Nat) : Reader Head :=
  match marker with
  | 0xc0 => pure .nil
  | 0xc2 => pure (.bool false)
  | 0xc3 => pure (.bool true)
  | 0xc4 => .binary <$> Reader.number 1
  | 0xc5 => .binary <$> Reader.number 2
  | 0xc6 => .binary <$> Reader.number 4
  | 0xc7 => .extension <$> Reader.number 1
  | 0xc8 => .extension <$> Reader.number 2
  | 0xc9 => .extension <$> Reader.number 4
  | 0xca => (fun n => .float (.ofBinary32 (UInt32.ofNat n))) <$> Reader.number 4
  | 0xcb => (fun n => .float ⟨UInt64.ofNat n⟩) <$> Reader.number 8
  | 0xcc => .unsigned <$> Reader.number 1
  | 0xcd => .unsigned <$> Reader.number 2
  | 0xce => .unsigned <$> Reader.number 4
  | 0xcf => .unsigned <$> Reader.number 8
  | 0xd0 => (fun n => .signed (Bytes.signed 8 n)) <$> Reader.number 1
  | 0xd1 => (fun n => .signed (Bytes.signed 16 n)) <$> Reader.number 2
  | 0xd2 => (fun n => .signed (Bytes.signed 32 n)) <$> Reader.number 4
  | 0xd3 => (fun n => .signed (Bytes.signed 64 n)) <$> Reader.number 8
  | 0xd4 => pure (.extension 1)
  | 0xd5 => pure (.extension 2)
  | 0xd6 => pure (.extension 4)
  | 0xd7 => pure (.extension 8)
  | 0xd8 => pure (.extension 16)
  | 0xd9 => .text <$> Reader.number 1
  | 0xda => .text <$> Reader.number 2
  | 0xdb => .text <$> Reader.number 4
  | 0xdc => .array <$> Reader.number 2
  | 0xdd => .array <$> Reader.number 4
  | 0xde => .map <$> Reader.number 2
  | 0xdf => .map <$> Reader.number 4
  | _ => Reader.fail

/-- the next head -/
def read : Reader Head := do
  let marker := (← Reader.byte).toNat
  if marker < 0x80 then pure (.unsigned marker)
  else if marker < 0x90 then pure (.map (marker - 0x80))
  else if marker < 0xa0 then pure (.array (marker - 0x90))
  else if marker < 0xc0 then pure (.text (marker - 0xa0))
  else if marker < 0xe0 then readMarked marker
  else pure (.signed ((marker : Int) - 0x100))

end Head

namespace Item

/-- how many arrays, maps and extensions may be open at once -/
def depth : Nat := 1023

/-! ## Reading -/

/-- pass over one item in which `room` more arrays, maps and extensions may be opened -/
def skip (room : Nat) : Reader Unit := do
  match ← Head.read with
  | .text n | .binary n => discard (Reader.take n)
  | .extension n =>
    match room with
    | 0 => Reader.fail
    | _ + 1 => discard (Reader.take (n + 1))
  | .array n =>
    match room with
    | 0 => Reader.fail
    | room + 1 => Reader.iterate (fun _ => skip room) n ()
  | .map n =>
    match room with
    | 0 => Reader.fail
    | room + 1 => Reader.iterate (fun _ => skip room) (2 * n) ()
  | _ => pure ()

/-- a whole number of 64 bits -/
def readInt64 : Reader Int64 := do
  match ← Head.read with
  | .unsigned n => if n < Nat.pow 2 63 then pure (Int64.ofNat n) else Reader.fail
  | .signed i => pure (Int64.ofInt i)
  | _ => Reader.fail

/-- a number; whole numbers are taken as the nearest binary64 number -/
def readNumber : Reader Binary64 := do
  match ← Head.read with
  | .unsigned n => pure (.ofNat n)
  | .signed i => pure (.ofInt i)
  | .float x => pure x
  | _ => Reader.fail

/-- a text, or binary data that is UTF-8 -/
def readText : Reader String := do
  match ← Head.read with
  | .text n | .binary n => Reader.ofOption (Bytes.toText? (← Reader.take n))
  | _ => Reader.fail

/-- a list; nil and empty binary data are the empty list -/
def readList {α : Type} (room : Nat) (item : Nat → Reader α) : Reader (List α) := do
  match ← Head.read with
  | .nil | .binary 0 => pure []
  | .array n =>
    match room with
    | 0 => Reader.fail
    | room + 1 => Reader.times (item room) n
  | _ => Reader.fail

/-- exactly `n` numbers; of binary data the first `n` bytes count as numbers -/
def readNumbers (room n : Nat) : Reader (List Binary64) := do
  match ← Head.read with
  | .array m =>
    match room with
    | 0 => Reader.fail
    | _ + 1 => if m = n then Reader.times readNumber n else Reader.fail
  | .binary m =>
    let bs ← Reader.take m
    if n ≤ m then pure ((bs.take n).map fun b => .ofNat b.toNat) else Reader.fail
  | _ => Reader.fail

/-! ## Writing -/

/-- a head for a length: small ones in the marker, then the widths at hand -/
def lengthHead (base limit : Nat) (wide : List (Nat × Nat)) (n : Nat) : Bytes :=
  if n < limit then [UInt8.ofNat (base + n)]
  else match wide.find? fun w => n < Nat.pow 256 w.2 with
    | some (marker, width) => UInt8.ofNat marker :: Bytes.ofNat width n
    | none => []

def textHead (n : Nat) : Bytes := lengthHead 0xa0 32 [(0xd9, 1), (0xda, 2), (0xdb, 4)] n
def arrayHead (n : Nat) : Bytes := lengthHead 0x90 16 [(0xdc, 2), (0xdd, 4)] n
def mapHead (n : Nat) : Bytes := lengthHead 0x80 16 [(0xde, 2), (0xdf, 4)] n
def unsigned (n : Nat) : Bytes := lengthHead 0 128 [(0xcc, 1), (0xcd, 2), (0xce, 4), (0xcf, 8)] n

/-- a whole number in the shortest form; only negative ones are written as signed -/
def int (i : Int) : Bytes :=
  if 0 ≤ i then unsigned i.toNat
  else if -32 ≤ i then [UInt8.ofNat (256 + i).toNat]
  else if -Nat.pow 2 7 ≤ i then 0xd0 :: Bytes.ofNat 1 (Nat.pow 2 8 + i).toNat
  else if -Nat.pow 2 15 ≤ i then 0xd1 :: Bytes.ofNat 2 (Nat.pow 2 16 + i).toNat
  else if -Nat.pow 2 31 ≤ i then 0xd2 :: Bytes.ofNat 4 (Nat.pow 2 32 + i).toNat
  else 0xd3 :: Bytes.ofNat 8 (Nat.pow 2 64 + i).toNat

def number (x : Binary64) : Bytes := 0xcb :: Bytes.ofNat 8 x.bits.toNat

def text (s : String) : Bytes := textHead (Bytes.ofText s).length ++ Bytes.ofText s

def list {α : Type} (item : α → Bytes) (l : List α) : Bytes := arrayHead l.length ++ l.flatMap item

end Item

end MetricSurvey

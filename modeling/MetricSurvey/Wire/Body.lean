/-
Bodies of messages.

A body is one item: a map from field names to values. Writing names every field in a fixed order. Reading takes more than
that: a record may come as a map with its keys in any order or as an array of its fields; a key may be text, binary data
or the index of a field; fields that nobody knows are passed over; lists and tags may be nil, and may be missing. A field
may not come twice. What follows the item is not looked at.
-/
import MetricSurvey.Wire.Item
import MetricSurvey.Wire.Message

namespace MetricSurvey

namespace Body

/-! ## Records -/

/-- what a field of a record is called by -/
inductive FieldKey where
  | name (bytes : Bytes)
  | index (n : Nat)

def readKey : Reader FieldKey := do
  match ← Head.read with
  | .text n | .binary n => .name <$> Reader.take n
  | .unsigned n => pure (.index n)
  | _ => Reader.fail

/-- which of the fields a key calls, if it calls one -/
def FieldKey.resolve (names : List String) : FieldKey → Option Nat
  | .name bs => names.findIdx? fun s => Bytes.ofText s == bs
  | .index n => if n < names.length then some n else none

/-- one entry of a record in map form -/
def readEntry {δ : Type} (room : Nat) (names : List String) (field : Nat → δ → Reader δ) (d : δ) : Reader δ := do
  match (← readKey).resolve names with
  | some i => field i d
  | none => do Item.skip room; pure d

/-- the fields of a record in array form, from the `i`-th on -/
def readFields {δ : Type} (field : Nat → δ → Reader δ) : (n i : Nat) → δ → Reader δ
  | 0, _, d => pure d
  | n + 1, i, d => do readFields field n (i + 1) (← field i d)

/-- A record in either form. `field room i` reads the `i`-th field into a draft and fails if it is there already, or if
there is no such field. -/
def readRecord {δ : Type} (room : Nat) (names : List String) (field : Nat → Nat → δ → Reader δ) (start : δ) :
    Reader δ := do
  match ← Head.read with
  | .map n =>
    match room with
    | 0 => Reader.fail
    | room + 1 => Reader.iterate (readEntry room names (field room)) n start
  | .array n =>
    match room with
    | 0 => Reader.fail
    | room + 1 => readFields (field room) n 0 start
  | _ => Reader.fail

/-- fill a field that must be empty -/
def fill {α : Type} (old : Option α) (r : Reader α) : Reader (Option α) :=
  match old with
  | some _ => Reader.fail
  | none => some <$> r

/-! ## Named values -/

/-- a name and a value under the field name `field` -/
def readNamed {α : Type} (field : String) (value : Nat → Reader α) (room : Nat) : Reader (Named α) := do
  let (name, v) ← readRecord room ["Name", field] (fun room i (d : Option String × Option α) =>
    match i with
    | 0 => do pure (← fill d.1 Item.readText, d.2)
    | 1 => do pure (d.1, ← fill d.2 (value room))
    | _ => Reader.fail) (none, none)
  pure ⟨← Reader.ofOption name, ← Reader.ofOption v⟩

def readDist (room : Nat) : Reader (Distribution Binary64) := do
  match ← Item.readNumbers room 5 with
  | [n, min, max, sum, sumSq] => pure ⟨n, min, max, sum, sumSq⟩
  | _ => Reader.fail

/-! ## Reports -/

structure ReportDraft where
  time : Option SurveyTime := none
  values : Option (List (Named Binary64)) := none
  counts : Option (List (Named Binary64)) := none
  dists : Option (List (Named (Distribution Binary64))) := none

def reportFields : List String := ["Timestamp", "Values", "Counts", "Dists"]

def readReportField (room : Nat) (i : Nat) (d : ReportDraft) : Reader ReportDraft :=
  match i with
  | 0 => do pure { d with time := ← fill d.time Item.readInt64 }
  | 1 => do
    pure { d with values := ← fill d.values (Item.readList room (readNamed "Value" fun _ => Item.readNumber)) }
  | 2 => do
    pure { d with counts := ← fill d.counts (Item.readList room (readNamed "Count" fun _ => Item.readNumber)) }
  | 3 => do pure { d with dists := ← fill d.dists (Item.readList room (readNamed "Dist" readDist)) }
  | _ => Reader.fail

/-- the report of a draft that has its time; missing lists are empty -/
def ReportDraft.finish (d : ReportDraft) : Option (Report Binary64) :=
  d.time.map fun time => ⟨time, d.values.getD [], d.counts.getD [], d.dists.getD []⟩

def readReport (room : Nat) : Reader (Report Binary64) := do
  Reader.ofOption (← readRecord room reportFields readReportField {}).finish

/-! ## Tags and times -/

/-- one tag into a table -/
def readTag (tags : Tags) : Reader Tags := do
  let key ← Item.readText
  let value ← Item.readText
  pure (tags.insert key value)

/-- a map from texts to texts, or nil; of two entries with one key the later counts -/
def readTags (room : Nat) : Reader Tags := do
  match ← Head.read with
  | .nil => pure ∅
  | .map n =>
    match room with
    | 0 => Reader.fail
    | _ + 1 => Reader.iterate readTag n ∅
  | _ => Reader.fail

def readRegistration (room : Nat) : Reader Tags := do
  let tags ← readRecord room ["Tags"] (fun room i (d : Option Tags) =>
    match i with
    | 0 => fill d (readTags room)
    | _ => Reader.fail) none
  pure (tags.getD ∅)

def readTime (room : Nat) : Reader SurveyTime := do
  Reader.ofOption (← readRecord room ["Timestamp"] (fun _ i (d : Option SurveyTime) =>
    match i with
    | 0 => fill d Item.readInt64
    | _ => Reader.fail) none)

/-! ## Messages -/

/-- the reader of a kind's body; pings and pongs have none -/
def reader : Method → Reader Message
  | .ping => pure .ping
  | .pong => pure .pong
  | .reportAll => .reportAll <$> readTime Item.depth
  | .registerProcess => .registerProcess <$> readRegistration Item.depth
  | .statsPartial => .statsPartial <$> readReport Item.depth
  | .statsComplete => .statsComplete <$> readReport Item.depth

/-- the message that a body of this kind holds -/
def decode (m : Method) (bs : Bytes) : Except ProtocolError Message :=
  match reader m bs with
  | some (msg, _) => .ok msg
  | none => .error .body

/-! ## Writing -/

/-- a record as a map from field names to values that are already written -/
def record (fields : List (String × Bytes)) : Bytes :=
  Item.mapHead fields.length ++ fields.flatMap fun f => Item.text f.1 ++ f.2

def named {α : Type} (field : String) (value : α → Bytes) (n : Named α) : Bytes :=
  record [("Name", Item.text n.name), (field, value n.value)]

def dist (d : Distribution Binary64) : Bytes := Item.list Item.number d.parts

def report (r : Report Binary64) : Bytes :=
  record [
    ("Timestamp", Item.int r.time.toInt),
    ("Values", Item.list (named "Value" Item.number) r.values),
    ("Counts", Item.list (named "Count" Item.number) r.counts),
    ("Dists", Item.list (named "Dist" dist) r.dists)]

def tags (t : Tags) : Bytes :=
  Item.mapHead t.size ++ t.toList.flatMap fun e => Item.text e.1 ++ Item.text e.2

/-- the body of a message -/
def encode : Message → Bytes
  | .ping | .pong => []
  | .reportAll time => record [("Timestamp", Item.int time.toInt)]
  | .registerProcess t => record [("Tags", tags t)]
  | .statsPartial r | .statsComplete r => report r

end Body

end MetricSurvey

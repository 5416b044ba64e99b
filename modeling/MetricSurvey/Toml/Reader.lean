/-
Reading TOML documents.

A document is a sequence of lines: blank, a comment, a header, or an entry; an entry whose value is an array or a text in
three quotes may go over several lines. `parse` gives the table that the document spells, or nothing if it spells none.

Keys have fewer than 80 parts, and arrays and inline tables are nested less than 80 deep.
-/
import MetricSurvey.Toml.Moment
import MetricSurvey.Toml.Number
import MetricSurvey.Toml.TextForm

namespace MetricSurvey.Toml

namespace Reader

/-- keys have fewer parts, and values fewer levels, than this -/
def limit : Nat := 80

def blanks : Scan Unit := (fun _ => ()) <$> Scan.span TextForm.isBlank

/-- a line break -/
def lineBreak : Scan Unit
  | '\n' :: rest => some ((), rest)
  | '\r' :: '\n' :: rest => some ((), rest)
  | _ => none

/-- a comment, if one begins here -/
def comment : Scan Unit
  | '#' :: rest => some ((), rest.dropWhile TextForm.isPlain)
  | s => some ((), s)

/-- the end of a line, maybe with a comment -/
def lineEnd : Scan Unit := do
  blanks
  comment
  fun
    | [] => some ((), [])
    | s => lineBreak s

/-! ## Keys -/

def isBare (c : Char) : Bool := c.isAlphanum || c = '_' || c = '-'

/-- one part of a key -/
def keyPart : Scan String := fun s =>
  match s with
  | '"' :: _ | '\'' :: _ => (String.ofList <$> TextForm.readLine : Scan String) s
  | _ => (do
      let c ← Scan.one isBare
      let cs ← Scan.span isBare
      pure (String.ofList (c :: cs)) : Scan String) s

/-- at most so many parts with points between them, and the blanks around them -/
def keyParts : Nat → Scan (List String)
  | 0 => Scan.fail
  | n + 1 => do
    blanks
    let k ← keyPart
    blanks
    match ← Scan.peek with
    | some '.' =>
      let _ ← Scan.next
      pure (k :: (← keyParts n))
    | _ => pure [k]

def key : Scan (List String) := keyParts (limit - 1)

/-- a key cut before its last part -/
def splitKey (ks : List String) : Option (List String × String) :=
  match ks.getLast? with
  | some k => some (ks.dropLast, k)
  | none => none

/-! ## Values -/

/-- a value that holds no others -/
def scalar : Scan Value := fun s =>
  match s with
  | '"' :: _ | '\'' :: _ => ((.text ∘ String.ofList) <$> TextForm.read : Scan Value) s
  | 't' :: _ => (do Scan.chars ['t', 'r', 'u', 'e']; pure (.boolean true) : Scan Value) s
  | 'f' :: _ => (do Scan.chars ['f', 'a', 'l', 's', 'e']; pure (.boolean false) : Scan Value) s
  | _ => (Scan.orElse Moment.read Number.read : Scan Value) s

/-- blanks, line breaks and comments between the items of an array -/
def gap : Nat → Scan Unit
  | 0 => Scan.fail
  | n + 1 => do
    blanks
    match ← Scan.peek with
    | some '#' => do comment; gap n
    | some '\n' | some '\r' => do lineBreak; gap n
    | _ => pure ()

mutual

/-- a value at a depth; the first number bounds the steps -/
def value : Nat → Nat → Scan Value
  | 0, _ => Scan.fail
  | n + 1, depth => do
    match ← Scan.peek with
    | some '[' => do
      let _ ← Scan.next
      Scan.check (depth + 1 < limit)
      gap n
      .array <$> items n (depth + 1)
    | some '\x7b' => do
      let _ ← Scan.next
      Scan.check (depth + 1 < limit)
      blanks
      match ← Scan.peek with
      | some '\x7d' => do
        let _ ← Scan.next
        pure (.table .inline [])
      | _ => .table .inline <$> pairs n (depth + 1) []
    | _ => scalar

/-- the items of an array up to its end; a comma may stand behind the last -/
def items : Nat → Nat → Scan (List Value)
  | 0, _ => Scan.fail
  | n + 1, depth => do
    match ← Scan.peek with
    | some ']' => do
      let _ ← Scan.next
      pure []
    | _ => do
      let v ← value n depth
      gap n
      match ← Scan.next with
      | ',' => do
        gap n
        let vs ← items n depth
        pure (v :: vs)
      | ']' => pure [v]
      | _ => Scan.fail

/-- the entries of an inline table up to its end; no comma stands behind the last -/
def pairs : Nat → Nat → Entries → Scan Entries
  | 0, _, _ => Scan.fail
  | n + 1, depth, es => do
    let (path, k) ← Scan.ofOption (splitKey (← key))
    Scan.char '='
    blanks
    let v ← value n depth
    blanks
    let es ← Scan.ofOption (es.assign path k v .inline)
    match ← Scan.next with
    | ',' => pairs n depth es
    | '\x7d' => pure es
    | _ => Scan.fail

end

/-! ## Lines -/

/-- enough steps for a value in this text -/
def steps (s : List Char) : Nat := 2 * s.length + 2

/-- an entry of the current table -/
def entry (d : Draft) : Scan Draft := do
  let (path, k) ← Scan.ofOption (splitKey (← key))
  Scan.char '='
  blanks
  let v ← fun s => value (steps s) 0 s
  lineEnd
  Scan.ofOption (d.assign path k v)

/-- a header of a table, or of an element of an array of tables -/
def header (d : Draft) : Scan Draft := do
  Scan.char '['
  match ← Scan.peek with
  | some '[' => do
    let _ ← Scan.next
    let ks ← key
    Scan.chars [']', ']']
    lineEnd
    Scan.ofOption (d.header Entries.openElement ks)
  | _ => do
    let ks ← key
    Scan.char ']'
    lineEnd
    Scan.ofOption (d.header Entries.openTable ks)

/-- one line -/
def line (d : Draft) : Scan Draft := do
  blanks
  match ← Scan.peek with
  | none => pure d
  | some '#' | some '\n' | some '\r' => do lineEnd; pure d
  | some '[' => header d
  | _ => entry d

/-- lines up to the end of the text; the number bounds them -/
def lines : Nat → Draft → List Char → Option Draft
  | _, d, [] => some d
  | 0, _, _ => none
  | n + 1, d, s => do
    let (d, rest) ← line d s
    lines n d rest

/-- a mark of the byte order in front of a text does not count -/
def dropMark : List Char → List Char
  | '\ufeff' :: rest => rest
  | s => s

end Reader

/-- the table that a document spells -/
def parse (text : String) : Option Entries := do
  let s := Reader.dropMark text.toList
  let d ← Reader.lines (s.length + 1) .new s
  pure d.entries

end MetricSurvey.Toml

/-
The four written forms of a text.

A text in double quotes may hold escapes, one in single quotes stands as it is; either may be written with three quotes
and then span lines. `form` chooses the plainest form that can hold a text, `write` writes it, and `read` reads any form.

A line break in three quotes is read as `\n`, and one directly behind the opening quotes is dropped. Up to two quotes may
stand in front of the closing three.
-/
import MetricSurvey.Text.Hexadecimal
import MetricSurvey.Text.Scan

namespace MetricSurvey.Toml

inductive TextForm where
  | basic
  | literal
  | basicLines
  | literalLines
deriving DecidableEq

namespace TextForm

/-! ## Reading -/

/-- a blank within a line -/
def isBlank (c : Char) : Bool := c = ' ' || c = '\t'

/-- what may stand in a comment, and in a text in single quotes except for the quote -/
def isPlain (c : Char) : Bool := c = '\t' || (0x20 ≤ c.toNat && c.toNat != 0x7f)

def hexValue? (c : Char) : Option Nat :=
  if '0' ≤ c ∧ c ≤ '9' then some (c.toNat - 48)
  else if 'a' ≤ c ∧ c ≤ 'f' then some (c.toNat - 87)
  else if 'A' ≤ c ∧ c ≤ 'F' then some (c.toNat - 55)
  else none

/-- the number that hexadecimal digits spell -/
def hexNumber? (cs : List Char) : Option Nat :=
  cs.foldlM (fun n c => do pure (16 * n + (← hexValue? c))) 0

/-- the character with this number, if there is one -/
def scalar? (n : Nat) : Option Char := if n.isValidChar then some (Char.ofNat n) else none

/-- the character that hexadecimal digits stand for -/
def escaped? (digits : List Char) : Option Char := do scalar? (← hexNumber? digits)

/-- the character that one letter stands for behind a backslash -/
def shortEscape? (c : Char) : Option Char :=
  if c = 'b' then some '\x08'
  else if c = 't' then some '\t'
  else if c = 'n' then some '\n'
  else if c = 'f' then some '\x0c'
  else if c = 'r' then some '\r'
  else if c = '"' then some '"'
  else if c = '\\' then some '\\'
  else none

/-- put a character in front of what is read behind it -/
def cons (c : Char) : Option (List Char × List Char) → Option (List Char × List Char)
  | some (s, rest) => some (c :: s, rest)
  | none => none

/-- the rest of a text in double quotes -/
def basicRest : List Char → Option (List Char × List Char)
  | [] => none
  | '"' :: rest => some ([], rest)
  | '\\' :: 'u' :: a :: b :: c :: d :: rest =>
    match escaped? [a, b, c, d] with
    | some x => cons x (basicRest rest)
    | none => none
  | '\\' :: 'U' :: a :: b :: c :: d :: e :: f :: g :: h :: rest =>
    match escaped? [a, b, c, d, e, f, g, h] with
    | some x => cons x (basicRest rest)
    | none => none
  | '\\' :: e :: rest =>
    match shortEscape? e with
    | some x => cons x (basicRest rest)
    | none => none
  | c :: rest => if isPlain c && c != '\\' then cons c (basicRest rest) else none

/-- the rest of a text in single quotes -/
def literalRest : List Char → Option (List Char × List Char)
  | [] => none
  | '\'' :: rest => some ([], rest)
  | c :: rest => if isPlain c then cons c (literalRest rest) else none

/-- whether nothing but blanks stands in front of a line break -/
def atLineEnd : List Char → Bool
  | [] => false
  | c :: rest =>
    if isBlank c then atLineEnd rest
    else if c = '\n' then true
    else c = '\r' && rest.head? = some '\n'

/-- The rest of a text in three double quotes. A backslash at the end of a line drops everything blank up to the next
character; `dropping` says that this is going on. -/
def basicLinesRest : (dropping : Bool) → List Char → Option (List Char × List Char)
  | _, [] => none
  | _, '"' :: '"' :: '"' :: '"' :: '"' :: rest => some (['"', '"'], rest)
  | _, '"' :: '"' :: '"' :: '"' :: rest => some (['"'], rest)
  | _, '"' :: '"' :: '"' :: rest => some ([], rest)
  | _, '\\' :: 'u' :: a :: b :: c :: d :: rest =>
    match escaped? [a, b, c, d] with
    | some x => cons x (basicLinesRest false rest)
    | none => none
  | _, '\\' :: 'U' :: a :: b :: c :: d :: e :: f :: g :: h :: rest =>
    match escaped? [a, b, c, d, e, f, g, h] with
    | some x => cons x (basicLinesRest false rest)
    | none => none
  | _, '\\' :: e :: rest =>
    match shortEscape? e with
    | some x => cons x (basicLinesRest false rest)
    | none => if atLineEnd (e :: rest) then basicLinesRest true (e :: rest) else none
  | dropping, '\r' :: '\n' :: rest =>
    if dropping then basicLinesRest true rest else cons '\n' (basicLinesRest false rest)
  | dropping, c :: rest =>
    if dropping && (isBlank c || c = '\n') then basicLinesRest true rest
    else if c = '\n' || (isPlain c && c != '\\') then cons c (basicLinesRest false rest)
    else none

/-- the rest of a text in three single quotes -/
def literalLinesRest : List Char → Option (List Char × List Char)
  | [] => none
  | '\'' :: '\'' :: '\'' :: '\'' :: '\'' :: rest => some (['\'', '\''], rest)
  | '\'' :: '\'' :: '\'' :: '\'' :: rest => some (['\''], rest)
  | '\'' :: '\'' :: '\'' :: rest => some ([], rest)
  | '\r' :: '\n' :: rest => cons '\n' (literalLinesRest rest)
  | c :: rest => if c = '\n' || isPlain c then cons c (literalLinesRest rest) else none

/-- a line break directly behind the opening quotes does not count -/
def dropFirstBreak : List Char → List Char
  | '\n' :: rest => rest
  | '\r' :: '\n' :: rest => rest
  | s => s

/-- a text in single or double quotes, within a line -/
def readLine : Scan (List Char)
  | '"' :: rest => basicRest rest
  | '\'' :: rest => literalRest rest
  | _ => none

/-- a text in any form -/
def read : Scan (List Char)
  | '"' :: '"' :: '"' :: rest => basicLinesRest false (dropFirstBreak rest)
  | '\'' :: '\'' :: '\'' :: rest => literalLinesRest (dropFirstBreak rest)
  | s => readLine s

/-! ## Writing -/

/-- a control character that only an escape can stand for -/
def needsEscape (c : Char) : Bool := (c.toNat < 0x20 && c != '\t' && c != '\n') || c.toNat = 0x7f

/-- the longest run of a character -/
def longestRun (q : Char) (s : List Char) : Nat :=
  let (_, best) := s.foldl (fun (run, best) c => if c = q then (run + 1, max best (run + 1)) else (0, best)) (0, 0)
  best

/-- the plainest form that can hold a text -/
def form (s : List Char) : TextForm :=
  let breaks := s.contains '\n'
  let controls := s.any needsEscape
  let backslashes := s.contains '\\'
  if !controls && !backslashes && !s.contains '"' && !breaks then basic
  else if !controls && !s.contains '\'' && !breaks then literal
  else if !controls && !backslashes && longestRun '"' s ≤ 2 then basicLines
  else if !controls && longestRun '\'' s ≤ 2 then literalLines
  else if breaks then basicLines
  else basic

def upperDigit (n : Nat) : Char := if n < 10 then Char.ofNat (48 + n) else Char.ofNat (55 + n)

/-- a control character by its number -/
def numbered (n : Nat) : List Char := ['\\', 'u', '0', '0', upperDigit (n / 16), upperDigit (n % 16)]

/-- a character that stands for itself in double quotes, or its escape; quotes and line breaks are none of them -/
def encodeChar (c : Char) : List Char :=
  if c = '\x08' then ['\\', 'b']
  else if c = '\t' then ['\\', 't']
  else if c = '\x0c' then ['\\', 'f']
  else if c = '\r' then ['\\', 'r']
  else if c = '\\' then ['\\', '\\']
  else if needsEscape c then numbered c.toNat
  else [c]

/-- The inside of a text in double quotes. Every quote after `allowed` others in a row is escaped, and the row begins anew
behind it; `run` counts the row. -/
def encode (lines : Bool) (allowed run : Nat) : List Char → List Char
  | [] => []
  | c :: rest =>
    if c = '"' then
      if run < allowed then '"' :: encode lines allowed (run + 1) rest
      else '\\' :: '"' :: encode lines allowed 0 rest
    else if c = '\n' then (if lines then ['\n'] else ['\\', 'n']) ++ encode lines allowed 0 rest
    else encodeChar c ++ encode lines allowed 0 rest

/-- three quotes, and a line break where the text has any -/
def opening (quote : Char) (s : List Char) : List Char :=
  List.replicate 3 quote ++ if s.contains '\n' then ['\n'] else []

/-- a text in a form that can hold it -/
def writeAs (s : List Char) : TextForm → List Char
  | basic => '"' :: encode false 0 0 s ++ ['"']
  | literal => '\'' :: s ++ ['\'']
  | basicLines => opening '"' s ++ encode true 2 0 s ++ List.replicate 3 '"'
  | literalLines => opening '\'' s ++ s ++ List.replicate 3 '\''

def write (s : List Char) : List Char := writeAs s (form s)

end TextForm

end MetricSurvey.Toml

/-
Writing TOML documents.

A document has entries of its own, then tables with a header each; a blank line stands in front of every header except at
the top. Texts are written in the plainest form that can hold them, whole numbers in decimal digits.
-/
import MetricSurvey.Number.Decimal
import MetricSurvey.Toml.TextForm

namespace MetricSurvey.Toml

/-- what an entry may hold here -/
inductive Setting where
  | text (s : String)
  | integer (n : Nat)
  | boolean (b : Bool)
deriving DecidableEq

structure Entry where
  key : String
  value : Setting
deriving DecidableEq

structure Section where
  name : String
  entries : List Entry
deriving DecidableEq

structure Document where
  entries : List Entry
  sections : List Section
deriving DecidableEq

/-- whether a value is within what TOML can write: whole numbers are read in 64 bits with a sign -/
def Setting.fits : Setting → Bool
  | integer n => n < Nat.pow 2 63
  | _ => true

def Setting.write : Setting → List Char
  | text s => TextForm.write s.toList
  | integer n => Decimal.digits n
  | boolean true => ['t', 'r', 'u', 'e']
  | boolean false => ['f', 'a', 'l', 's', 'e']

def Entry.write (e : Entry) : List Char := e.key.toList ++ [' ', '=', ' '] ++ e.value.write ++ ['\n']

def Section.write (s : Section) : List Char := '[' :: s.name.toList ++ [']', '\n'] ++ s.entries.flatMap Entry.write

namespace Document

def fits (d : Document) : Bool :=
  (d.entries ++ d.sections.flatMap Section.entries).all fun e => e.value.fits

/-- write sections behind what is written already -/
def writeSections (written : List Char) (ss : List Section) : List Char :=
  ss.foldl (fun w s => if w.isEmpty then s.write else w ++ '\n' :: s.write) written

def write (d : Document) : List Char := writeSections (d.entries.flatMap Entry.write) d.sections

/-- the text of a document, if every number in it can be written -/
def text? (d : Document) : Option String := if d.fits then some (String.ofList d.write) else none

end Document

end MetricSurvey.Toml

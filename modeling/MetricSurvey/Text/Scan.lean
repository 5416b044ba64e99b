/-
Scanners: readers of characters.

A scanner takes a value off the front of a text and leaves the rest, or fails. There is no going back except where `orElse`
says so, and what a scanner takes depends only on the text in front of it.
-/
namespace MetricSurvey

/-- takes a value off the front of a text, or fails -/
abbrev Scan (α : Type) := StateT (List Char) Option α

namespace Scan

def fail {α : Type} : Scan α := fun _ => none

/-- the next character, which stays where it is -/
def peek : Scan (Option Char) := fun s => some (s.head?, s)

/-- the next character -/
def next : Scan Char := fun
  | [] => none
  | c :: rest => some (c, rest)

/-- a character of a class -/
def one (p : Char → Bool) : Scan Char := fun
  | [] => none
  | c :: rest => if p c then some (c, rest) else none

/-- exactly this character -/
def char (c : Char) : Scan Unit := (fun _ => ()) <$> one (· == c)

/-- exactly these characters -/
def chars : List Char → Scan Unit
  | [] => pure ()
  | c :: cs => do char c; chars cs

/-- what can be taken of a class of characters, maybe nothing -/
def span (p : Char → Bool) : Scan (List Char) := fun s => some (s.takeWhile p, s.dropWhile p)

/-- exactly `n` characters of a class -/
def times (p : Char → Bool) : Nat → Scan (List Char)
  | 0 => pure []
  | n + 1 => do
    let c ← one p
    let cs ← times p n
    pure (c :: cs)

/-- the value of `a`, or of `b` at the same place where `a` fails -/
def orElse {α : Type} (a b : Scan α) : Scan α := fun s =>
  match a s with
  | some r => some r
  | none => b s

/-- the value of `a` if there is one; nothing is taken where `a` fails -/
def option {α : Type} (a : Scan α) : Scan (Option α) := orElse (some <$> a) (pure none)

/-- a value that is there, or failure -/
def ofOption {α : Type} : Option α → Scan α
  | some a => pure a
  | none => fail

/-- go on only if this holds -/
def check (b : Bool) : Scan Unit := if b then pure () else fail

/-- the scanner must take the whole text -/
def whole? {α : Type} (a : Scan α) (s : List Char) : Option α :=
  match a s with
  | some (v, []) => some v
  | _ => none

end Scan

end MetricSurvey

/-
Addresses to listen at: a host and a port, with a colon between them.
-/
import MetricSurvey.Text.Segment

namespace MetricSurvey

structure Address where
  host : List Char
  port : UInt16
deriving DecidableEq

namespace Address

/-- the number that decimal digits spell, if it is below a bound -/
def number? (bound : Nat) (s : List Char) : Option Nat :=
  if s.isEmpty || !s.all Char.isDigit then none
  else
    let n := s.foldl (fun n c => n * 10 + (c.toNat - 48)) 0
    if n < bound then some n else none

/-- what stands before and after the last colon -/
def splitLast (s : List Char) : Option (List Char × List Char) :=
  (Segment.splitFirst ':' s.reverse).map fun p => (p.2.reverse, p.1.reverse)

def parse? (text : String) : Option Address := do
  let (host, port) ← splitLast text.toList
  pure ⟨host, UInt16.ofNat (← number? (Nat.pow 2 16) port)⟩

/-- one of the four numbers of a host; it has no zeros in front -/
def octet? (s : List Char) : Option Nat :=
  if s.head? = some '0' ∧ s ≠ ['0'] then none else number? 256 s

/-- the four numbers of a host that has them -/
def octets? (host : List Char) : Option (List Nat) := do
  let ns ← (Segment.split '.' host).mapM octet?
  if ns.length = 4 then some ns else none

/-- whether a host is this machine: a loopback address, the address that stands for all, or the name of the loopback -/
def isLocal (a : Address) : Bool :=
  match octets? a.host with
  | some ns => ns.head? = some 127 || ns.all (· = 0)
  | none => a.host = "localhost".toList || a.host = "[::1]".toList || a.host = "[::]".toList

/-- the address that a text spells, if one can listen there -/
def bindable? (text : String) : Option Address := do
  let a ← parse? text
  if a.isLocal then some a else none

end Address

end MetricSurvey

/-
TOML values, and how tables grow while a document is read.

A table remembers how it was written, because that decides what may still be added:

- an inline table is complete;
- a table with a header takes entries under its header only;
- a table that stands in another's header, such as `a` in `[a.b]`, may still get a header of its own;
- a table that stands in a dotted key, such as `a` in `a.b = 1`, takes entries by dotted keys only.

Nothing is ever written twice: every rule below refuses a place that is taken.
-/
namespace MetricSurvey.Toml

/-- how a table was written -/
inductive Origin where
  | inline
  | header
  | implied
  | dotted
deriving DecidableEq

inductive Value where
  | text (s : String)
  | integer (i : Int)
  | boolean (b : Bool)
  /-- a number with a fraction or an exponent -/
  | real
  /-- a date, a time of day, or both -/
  | moment
  | array (items : List Value)
  | table (origin : Origin) (entries : List (String × Value))
  /-- an array of tables that has headers of its own; the last one is open -/
  | tables (earlier : List (List (String × Value))) (last : List (String × Value))

/-- what stands under the keys of a table -/
abbrev Entries := List (String × Value)

namespace Entries

/-- what stands under a key -/
def get? (es : Entries) (k : String) : Option Value := (es.find? fun e => e.1 == k).map Prod.snd

/-- let a value stand under a key, in place of what stood there -/
def put (es : Entries) (k : String) (v : Value) : Entries :=
  if (es.get? k).isSome then es.map fun e => if e.1 == k then (k, v) else e else es ++ [(k, v)]

/-- let a value stand under a key where nothing stands -/
def add (es : Entries) (k : String) (v : Value) : Option Entries :=
  if (es.get? k).isSome then none else some (es ++ [(k, v)])

/-- Change the table to which a path of keys leads. Tables that are missing on the way are made; `dotted` says whether the
path stands in a dotted key or in a header. -/
def within (dotted : Bool) (change : Origin → Entries → Option Entries) :
    List String → Origin → Entries → Option Entries
  | [], o, es => change o es
  | k :: path, _, es =>
    match es.get? k with
    | none => do
      let o := if dotted then .dotted else .implied
      pure (es ++ [(k, .table o (← within dotted change path o []))])
    | some (.table o inner) =>
      if o = .inline ∨ dotted ∧ o = .header then none
      else do pure (es.put k (.table o (← within dotted change path o inner)))
    | some (.tables earlier last) => do pure (es.put k (.tables earlier (← within dotted change path .header last)))
    | some _ => none

/-- add a value under a dotted key -/
def assign (path : List String) (k : String) (v : Value) (o : Origin) (es : Entries) : Option Entries :=
  within true (fun o es => if decide (o = .dotted) == path.isEmpty then none else es.add k v) path o es

/-- begin the table of a header -/
def openTable (k : String) (es : Entries) : Option Entries :=
  match es.get? k with
  | none => some (es ++ [(k, .table .header [])])
  | some (.table .implied inner) => some (es.put k (.table .header inner))
  | some _ => none

/-- begin the next table of an array of tables -/
def openElement (k : String) (es : Entries) : Option Entries :=
  match es.get? k with
  | none => some (es ++ [(k, .tables [] [])])
  | some (.tables earlier last) => some (es.put k (.tables (earlier ++ [last]) []))
  | some _ => none

end Entries

/-- a document that is being read: what stands in it, and the path of the table whose header came last -/
structure Draft where
  entries : Entries
  current : List String

namespace Draft

def new : Draft := ⟨[], []⟩

/-- an entry of the current table -/
def assign (d : Draft) (path : List String) (k : String) (v : Value) : Option Draft := do
  let entries ← d.entries.within false (fun _ es => es.assign path k v .header) d.current .header
  pure { d with entries }

/-- a header: `begin` says how the table begins -/
def header (start : String → Entries → Option Entries) (d : Draft) (path : List String) : Option Draft :=
  match path.getLast? with
  | none => none
  | some k => do
    let entries ← d.entries.within false (fun _ es => start k es) path.dropLast .header
    pure ⟨entries, path⟩

end Draft

end MetricSurvey.Toml

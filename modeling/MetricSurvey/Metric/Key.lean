/-
Metric keys: a name with an optional tail of tags, as in `requests,host=a,zone=b`.

A key is one text and is compared as text. Only who cares about dimensions takes it apart: the name ends at the first
comma, every later segment that has an `=` is a tag, and of two tags with one key the later counts. `withTags` writes
the tags in key order.
-/
import MetricSurvey.Table
import MetricSurvey.Text.Segment

namespace MetricSurvey

structure MetricKey where
  text : String
deriving DecidableEq, Inhabited

abbrev Tags := Table String String

namespace MetricKey

instance : Ord MetricKey := ⟨fun a b => compare a.text b.text⟩

instance : Std.TransOrd MetricKey where
  eq_swap := fun {a b} => show compare a.text b.text = (compare b.text a.text).swap from Std.OrientedCmp.eq_swap
  isLE_trans := fun {a b c} h h' =>
    show (compare a.text c.text).isLE from
      Std.TransCmp.isLE_trans (show (compare a.text b.text).isLE from h) (show (compare b.text c.text).isLE from h')

instance : Std.LawfulEqOrd MetricKey where
  compare_self := fun {a} => show compare a.text a.text = .eq from Std.ReflCmp.compare_self
  eq_of_compare := fun {a b} h => by
    cases a; cases b; congr; exact Std.LawfulEqCmp.eq_of_compare (show compare _ _ = .eq from h)

/-- a tag as it stands in a key -/
def tagText (tag : String × String) : List Char := ',' :: tag.1.toList ++ '=' :: tag.2.toList

/-- the key of a name and tags; of two tags with one key the later counts -/
def withTags (name : String) (tags : List (String × String)) : MetricKey :=
  ⟨String.ofList (name.toList ++ (Table.ofList tags).toList.flatMap tagText)⟩

/-- what stands before the first comma -/
def name (k : MetricKey) : String := String.ofList ((Segment.split ',' k.text.toList).headD [])

def hasTags (k : MetricKey) : Bool := k.text.toList.contains ','

/-- the tags in the segments after the name; a segment without `=` is none -/
def tags (k : MetricKey) : Tags :=
  Table.ofList ((Segment.split ',' k.text.toList).tail.filterMap fun s =>
    (Segment.splitFirst '=' s).map fun p => (String.ofList p.1, String.ofList p.2))

end MetricKey

end MetricSurvey

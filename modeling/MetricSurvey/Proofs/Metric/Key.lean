/-
Keys with tags: what is put into a key comes out again.

A key tells its name and its tags apart by the commas, and the key of a tag from its value by the first `=`. So a name
without a comma, and tags without one, whose keys have no `=` either, are read back as they were (`Separable`).

- `split_withTags`: the segments of a key that was put together are its name and its tags, in the order of their keys.
- `Separable.name_withTags`, `Separable.tags_withTags`, `Separable.hasTags_withTags`: what is read back.
- `separable_name_tags`: what is read from any text at all is of this kind.
- `parses_back_and_normalises`: keys are read back, and a key that is put together anew from what was read has a normal form.
-/
import MetricSurvey.Metric.Key
import MetricSurvey.Proofs.Table

namespace MetricSurvey.MetricKey

/-- a name and tags that a key keeps apart -/
structure Separable (name : String) (tags : List (String × String)) : Prop where
  name : ',' ∉ name.toList
  keys : ∀ tag ∈ tags, ',' ∉ tag.1.toList ∧ '=' ∉ tag.1.toList
  values : ∀ tag ∈ tags, ',' ∉ tag.2.toList

/-- the key put together anew from its name and its tags -/
def rebuilt (k : MetricKey) : MetricKey := withTags k.name k.tags.toList

/-! ## Putting together -/

/-- a tag between two commas -/
def segment (tag : String × String) : List Char := tag.1.toList ++ '=' :: tag.2.toList

/-- a segment read as a tag -/
def tag? (s : List Char) : Option (String × String) :=
  (Segment.splitFirst '=' s).map fun p => (String.ofList p.1, String.ofList p.2)

theorem tagText_eq (tag : String × String) : tagText tag = ',' :: segment tag := rfl

theorem tags_eq (k : MetricKey) : k.tags = Table.ofList ((Segment.split ',' k.text.toList).tail.filterMap tag?) := rfl

theorem toList_text_withTags (name : String) (tags : List (String × String)) :
    (withTags name tags).text.toList = name.toList ++ (Table.ofList tags).toList.flatMap tagText :=
  String.toList_ofList

variable {name : String} {tags : List (String × String)}

namespace Separable

/-- the tags that count are separable when all are -/
theorem ofList (h : Separable name tags) : Separable name (Table.ofList tags).toList where
  name := h.name
  keys := fun tag htag => h.keys tag (Table.mem_of_mem_ofList htag)
  values := fun tag htag => h.values tag (Table.mem_of_mem_ofList htag)

theorem not_mem_segment (h : Separable name tags) {tag : String × String} (htag : tag ∈ tags) : ',' ∉ segment tag := by
  intro hm
  rcases List.mem_append.1 hm with hm | hm
  · exact (h.keys tag htag).1 hm
  · rcases List.mem_cons.1 hm with he | hm
    · exact absurd he (by decide)
    · exact h.values tag htag hm

/-- a segment is read as the tag that it was made of -/
theorem tag?_segment (h : Separable name tags) {tag : String × String} (htag : tag ∈ tags) :
    tag? (segment tag) = some tag := by
  unfold tag? segment
  rw [Segment.splitFirst_append_cons (h.keys tag htag).2, Option.map_some, String.ofList_toList, String.ofList_toList]

end Separable

/-- where no segment holds a comma, the segments are the front and the tags -/
theorem split_flatMap_tagText {front : List Char} (hfront : ',' ∉ front) (htags : ∀ tag ∈ tags, ',' ∉ segment tag) :
    Segment.split ',' (front ++ tags.flatMap tagText) = front :: tags.map segment := by
  induction tags generalizing front with
  | nil =>
    rw [List.flatMap_nil, List.append_nil, Segment.split_of_not_mem hfront]
    rfl
  | cons tag tags ih =>
    have hseg : ',' ∉ segment tag := htags tag List.mem_cons_self
    rw [List.flatMap_cons, tagText_eq, List.cons_append, Segment.split_append_cons hfront,
      ih hseg fun t ht => htags t (List.mem_cons_of_mem tag ht), List.map_cons]

/-- **The segments of a key** are its name and its tags. -/
theorem split_withTags (h : Separable name tags) :
    Segment.split ',' (withTags name tags).text.toList = name.toList :: (Table.ofList tags).toList.map segment := by
  rw [toList_text_withTags]
  exact split_flatMap_tagText h.name fun tag htag => h.ofList.not_mem_segment htag

/-! ## Reading back -/

namespace Separable

theorem name_withTags (h : Separable name tags) : (withTags name tags).name = name := by
  unfold MetricKey.name
  rw [split_withTags h, List.headD_cons, String.ofList_toList]

theorem tags_withTags (h : Separable name tags) : (withTags name tags).tags = Table.ofList tags := by
  have hread : ((Table.ofList tags).toList.map segment).filterMap tag? = (Table.ofList tags).toList := by
    rw [List.filterMap_map]
    refine (List.filterMap_congr ?_).trans List.filterMap_some
    intro tag htag
    exact h.ofList.tag?_segment htag
  rw [tags_eq, split_withTags h, List.tail_cons, hread, Table.ofList_toList]

theorem hasTags_withTags (h : Separable name tags) :
    (withTags name tags).hasTags = true ↔ (Table.ofList tags).isEmpty = false := by
  unfold hasTags
  rw [toList_text_withTags, List.contains_iff_mem, List.mem_append, or_iff_right h.name, Table.isEmpty]
  change _ ↔ (Table.ofList tags).toList.isEmpty = false
  cases (Table.ofList tags).toList with
  | nil => simp
  | cons tag tags => simp [tagText_eq]

/-- a key knows its name and its tags -/
theorem withTags_eq_iff (h : Separable name tags) {name' : String} {tags' : List (String × String)}
    (h' : Separable name' tags') :
    withTags name tags = withTags name' tags' ↔ name = name' ∧ (Table.ofList tags : Tags) = Table.ofList tags' := by
  constructor
  · intro heq
    have hname := congrArg MetricKey.name heq
    have htags := congrArg MetricKey.tags heq
    rw [h.name_withTags, h'.name_withTags] at hname
    rw [h.tags_withTags, h'.tags_withTags] at htags
    exact ⟨hname, htags⟩
  · rintro ⟨rfl, htags⟩
    unfold withTags
    rw [htags]

end Separable

/-- what is read as a tag is a piece of the segment, and its key ends at the first `=` -/
theorem of_tag? {s : List Char} {tag : String × String} (h : tag? s = some tag) :
    s = segment tag ∧ '=' ∉ tag.1.toList := by
  obtain ⟨p, hp, rfl⟩ := Option.map_eq_some_iff.1 h
  obtain ⟨hs, hfront⟩ := Segment.of_splitFirst hp
  unfold segment
  dsimp only
  rw [String.toList_ofList, String.toList_ofList]
  exact ⟨hs, hfront⟩

/-- **What is read from a key is separable**, whatever its text. -/
theorem separable_name_tags (k : MetricKey) : Separable k.name k.tags.toList := by
  have hsegments : ∀ s ∈ Segment.split ',' k.text.toList, ',' ∉ s := fun s hs => Segment.not_mem_of_mem_split hs
  have htags : ∀ tag ∈ k.tags.toList, ',' ∉ segment tag ∧ '=' ∉ tag.1.toList := by
    intro tag htag
    rw [tags_eq] at htag
    obtain ⟨s, hs, hread⟩ := List.mem_filterMap.1 (Table.mem_of_mem_ofList htag)
    obtain ⟨rfl, hkey⟩ := of_tag? hread
    exact ⟨hsegments _ (List.mem_of_mem_tail hs), hkey⟩
  refine ⟨?_, ?_, ?_⟩
  · unfold MetricKey.name
    rw [String.toList_ofList]
    cases hsplit : Segment.split ',' k.text.toList with
    | nil => exact List.not_mem_nil
    | cons first rest => exact hsegments first (hsplit ▸ List.mem_cons_self)
  · intro tag htag
    exact ⟨fun hm => (htags tag htag).1 (List.mem_append_left _ hm), (htags tag htag).2⟩
  · intro tag htag hm
    exact (htags tag htag).1 (List.mem_append_right _ (List.mem_cons_of_mem _ hm))

/-! ## Normal forms -/

theorem name_rebuilt (k : MetricKey) : k.rebuilt.name = k.name := (separable_name_tags k).name_withTags

theorem tags_rebuilt (k : MetricKey) : k.rebuilt.tags = k.tags :=
  (separable_name_tags k).tags_withTags.trans (Table.ofList_toList k.tags)

/-- **Keys are read back, and have a normal form.**
- A key that is put together of a separable name and tags has that name and those tags, where of two tags with one key the
later counts. It has tags if there are any, and it is the same key for no others.
- Any text at all, put together anew from its name and its tags, keeps them, and is then put together anew as it is. -/
theorem parses_back_and_normalises :
    (∀ (name : String) (tags : List (String × String)), Separable name tags →
      (withTags name tags).name = name ∧
      (withTags name tags).tags = Table.ofList tags ∧
      (∀ key, (withTags name tags).tags.get? key = (Table.under key tags).getLast?) ∧
      ((withTags name tags).hasTags = true ↔ (Table.ofList tags).isEmpty = false) ∧
      ∀ (name' : String) (tags' : List (String × String)), Separable name' tags' →
        (withTags name tags = withTags name' tags' ↔
          name = name' ∧ (Table.ofList tags : Tags) = Table.ofList tags')) ∧
    ∀ k : MetricKey, k.rebuilt.name = k.name ∧ k.rebuilt.tags = k.tags ∧ k.rebuilt.rebuilt = k.rebuilt := by
  constructor
  · intro name tags h
    refine ⟨h.name_withTags, h.tags_withTags, ?_, h.hasTags_withTags, fun name' tags' h' => h.withTags_eq_iff h'⟩
    intro key
    rw [h.tags_withTags, Table.get?_ofList]
  · intro k
    refine ⟨name_rebuilt k, tags_rebuilt k, ?_⟩
    unfold rebuilt
    exact ((separable_name_tags _).withTags_eq_iff (separable_name_tags k)).2
      ⟨name_rebuilt k, congrArg (fun t : Tags => Table.ofList t.toList) (tags_rebuilt k)⟩

/-- A nameless key with an unnamed tag, an `=` in a value, and two tags with one key; and a text with a segment that is no
tag, an unnamed tag, tags out of order, two tags with one key, and empty segments. -/
theorem parses_back_and_normalises_unsorted :
    let tags := [("b", "x=y"), ("", ""), ("a", "1"), ("b", "2")]
    let sorted := [("", ""), ("a", "1"), ("b", "2")]
    let loose : MetricKey := ⟨"hits,odd,z=1,=c,b=1,b=2,,"⟩
    Separable "" tags ∧ (withTags "" tags).text = ",=,a=1,b=2" ∧ (withTags "" tags).tags.get? "b" = some "2" ∧
      (withTags "" tags).hasTags = true ∧ withTags "" tags = withTags "" sorted ∧
      loose.rebuilt.text = "hits,=c,b=2,z=1" ∧ loose.rebuilt.tags = loose.tags ∧ loose.rebuilt.rebuilt = loose.rebuilt := by
  intro tags sorted loose
  have htags : Separable "" tags := ⟨by decide, by decide, by decide⟩
  have hsorted : Separable "" sorted := ⟨by decide, by decide, by decide⟩
  obtain ⟨-, -, hget, hhas, hiff⟩ := parses_back_and_normalises.1 "" tags htags
  obtain ⟨-, hkeep, hnormal⟩ := parses_back_and_normalises.2 loose
  exact ⟨htags, by decide +kernel, (hget "b").trans (by decide +kernel), hhas.2 (by decide +kernel),
    (hiff "" sorted hsorted).2 ⟨rfl, by decide +kernel⟩, by decide +kernel, hkeep, hnormal⟩

end MetricSurvey.MetricKey

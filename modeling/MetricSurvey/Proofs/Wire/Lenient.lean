/-
Lenient bodies: what is taken for a report or a registration beyond what is written for it.

A body is a map with texts as keys. It may carry the fields in any order, with any other entries between them; an empty list,
or no tags, may be nil or be left out; and every length may come in any of its forms.

- `Fills`: what reading the entries of a map does to a draft. `Fills.reads` and `fills_of_reads`: a map is read just when its
  entries fill the draft.
- `fills_of_once`: fields that come once, in whatever order, are filled in.
- `Fills.once`: a draft that was filled says which fields came, and that none came twice.
- `lenient_exact`: such a body is the value that it carries; without its time, or with a field that comes twice, it is none.
-/
import MetricSurvey.Proofs.Wire.Body
import MetricSurvey.Proofs.Wire.WellFormed

namespace MetricSurvey.Body

open Item (WellFormed)

/-! ## Maps with texts as keys -/

/-- an entry of a map: a text as its key, the bytes in which the length of that is written, and the bytes of its value -/
structure Entry where
  key : String
  head : Bytes
  value : Bytes

namespace Entry

def bytes (e : Entry) : Bytes := e.head ++ Bytes.ofText e.key ++ e.value

/-- the key's length is written in one of its forms -/
def Headed (e : Entry) : Prop := Item.TextForm (Bytes.ofText e.key).length e.head

end Entry

/-- the bytes are a map of these entries -/
def IsMap (entries : List Entry) (bs : Bytes) : Prop :=
  (∀ e ∈ entries, e.Headed) ∧ ∃ head, Item.MapForm entries.length head ∧ bs = head ++ entries.flatMap Entry.bytes

/-- what stands under a key, in order -/
def valuesOf (name : String) (entries : List Entry) : List Bytes :=
  (entries.filter fun e => e.key = name).map Entry.value

theorem valuesOf_cons (name : String) (e : Entry) (entries : List Entry) :
    valuesOf name (e :: entries) = if e.key = name then e.value :: valuesOf name entries else valuesOf name entries := by
  unfold valuesOf
  by_cases h : e.key = name
  · simp [h]
  · simp [h]

theorem mem_valuesOf {name : String} {entries : List Entry} {v : Bytes} :
    v ∈ valuesOf name entries ↔ ∃ e ∈ entries, e.key = name ∧ e.value = v := by
  simp [valuesOf, and_assoc]

/-! ## Filling a draft -/

section Filling

variable {δ : Type} {room : Nat} {names : List String} {field : Nat → δ → Reader δ}

/-- reading these entries one after another takes one draft to another -/
inductive Fills (room : Nat) (names : List String) (field : Nat → δ → Reader δ) : List Entry → δ → δ → Prop
  | nil (d : δ) : Fills room names field [] d d
  | known {e : Entry} {es : List Entry} {i : Nat} {d d₁ d₂ : δ} (hi : names[i]? = some e.key)
    (hread : Reads (field i d) e.value d₁) (hrest : Fills room names field es d₁ d₂) :
    Fills room names field (e :: es) d d₂
  | other {e : Entry} {es : List Entry} {d d₂ : δ} (hkey : e.key ∉ names) (hskip : Reads (Item.skip room) e.value ())
    (hrest : Fills room names field es d d₂) : Fills room names field (e :: es) d d₂

theorem resolve_of_getElem? (hnodup : names.Nodup) {i : Nat} {s : String} (h : names[i]? = some s) :
    (FieldKey.name (Bytes.ofText s)).resolve names = some i := by
  obtain ⟨hi, rfl⟩ := List.getElem?_eq_some_iff.1 h
  have hsplit : names = names.take i ++ names[i] :: names.drop (i + 1) := by simp
  have hnot : names[i] ∉ names.take i := by
    rw [hsplit] at hnodup
    exact fun hin => (List.nodup_append.1 hnodup).2.2 _ hin _ List.mem_cons_self rfl
  have hresolve : (FieldKey.name (Bytes.ofText names[i])).resolve (names.take i ++ names[i] :: names.drop (i + 1)) =
      some (names.take i).length := resolve_name hnot
  rwa [← hsplit, List.length_take_of_le hi.le] at hresolve

theorem resolve_of_not_mem {s : String} (h : s ∉ names) : (FieldKey.name (Bytes.ofText s)).resolve names = none := by
  rw [FieldKey.resolve, List.findIdx?_eq_none_iff]
  intro t ht
  rw [beq_eq_false_iff_ne]
  intro heq
  exact h (Bytes.ofText_injective heq ▸ ht)

/-- behind the key of a field, the field is read -/
theorem readEntry_known (hnodup : names.Nodup) {e : Entry} (hhead : e.Headed) {i : Nat} (hi : names[i]? = some e.key)
    (d : δ) (more : Bytes) : readEntry room names field d (e.bytes ++ more) = field i d (e.value ++ more) := by
  rw [Entry.bytes, List.append_assoc, readEntry, (reads_textKey hhead).bind_apply, resolve_of_getElem? hnodup hi]

/-- behind any other key, the value is passed over -/
theorem readEntry_other {e : Entry} (hhead : e.Headed) (hkey : e.key ∉ names) (d : δ) (more : Bytes) :
    readEntry room names field d (e.bytes ++ more) = (do Item.skip room; pure d : Reader δ) (e.value ++ more) := by
  rw [Entry.bytes, List.append_assoc, readEntry, (reads_textKey hhead).bind_apply, resolve_of_not_mem hkey]

theorem Fills.reads (hnodup : names.Nodup) {es : List Entry} (hheads : ∀ e ∈ es, e.Headed) {d d₂ : δ}
    (h : Fills room names field es d d₂) :
    Reads (Reader.iterate (readEntry room names field) es.length d) (es.flatMap Entry.bytes) d₂ := by
  induction h with
  | nil d => exact Reads.pure d
  | @known e es i d d₁ d₂ hi hread _ ih =>
    have hentry : Reads (readEntry room names field d) e.bytes d₁ := by
      intro more
      rw [readEntry_known hnodup (hheads e List.mem_cons_self) hi]
      exact hread more
    rw [List.flatMap_cons, List.length_cons, Reader.iterate]
    exact hentry.bind (ih fun g hg => hheads g (List.mem_cons_of_mem e hg))
  | @other e es d d₂ hkey hskip _ ih =>
    have hentry : Reads (readEntry room names field d) e.bytes d := by
      intro more
      rw [readEntry_other (hheads e List.mem_cons_self) hkey]
      exact hskip.bind_nil (Reads.pure d) more
    rw [List.flatMap_cons, List.length_cons, Reader.iterate]
    exact hentry.bind (ih fun g hg => hheads g (List.mem_cons_of_mem e hg))

/-- a value that is one item is read whole, if it is read at all -/
theorem reads_value {α : Type} {r : Reader α} (hself : SelfDelimiting r) (hone : TakesOne r room) {v more rest : Bytes}
    (hv : WellFormed room v) {a : α} (h : r (v ++ more) = some (a, rest)) : rest = more ∧ Reads r v a := by
  have hrest : rest = more := hone (v ++ more) a () rest more h (hv.skip more)
  subst hrest
  obtain ⟨front, heq, hfront, -⟩ := hself (v ++ rest) a rest h
  exact ⟨rfl, List.append_cancel_right heq ▸ hfront⟩

/-- **A map that is read fills the draft**, if its values are items. -/
theorem fills_of_reads (hself : ∀ i d, SelfDelimiting (field i d)) (hone : ∀ i d, TakesOne (field i d) room)
    (hnodup : names.Nodup) {es : List Entry} (hheads : ∀ e ∈ es, e.Headed) (hvalues : ∀ e ∈ es, WellFormed room e.value)
    {d d₂ : δ} {more rest : Bytes}
    (h : Reader.iterate (readEntry room names field) es.length d (es.flatMap Entry.bytes ++ more) = some (d₂, rest)) :
    Fills room names field es d d₂ := by
  induction es generalizing d with
  | nil =>
    cases h
    exact .nil _
  | cons e es ih =>
    rw [List.flatMap_cons, List.length_cons, Reader.iterate, List.append_assoc] at h
    obtain ⟨d₁, mid, hentry, hmore⟩ := Reader.bind_eq_some.1 h
    have hvalue := hvalues e List.mem_cons_self
    have hheads' : ∀ g ∈ es, g.Headed := fun g hg => hheads g (List.mem_cons_of_mem e hg)
    have hvalues' : ∀ g ∈ es, WellFormed room g.value := fun g hg => hvalues g (List.mem_cons_of_mem e hg)
    by_cases hkey : e.key ∈ names
    · obtain ⟨i, hi⟩ := List.mem_iff_getElem?.1 hkey
      rw [readEntry_known hnodup (hheads e List.mem_cons_self) hi] at hentry
      obtain ⟨rfl, hread⟩ := reads_value (hself i d) (hone i d) hvalue hentry
      exact .known hi hread (ih hheads' hvalues' hmore)
    · have hskip : Reads (do Item.skip room; pure d) e.value d := hvalue.skip.bind_nil (Reads.pure d)
      rw [readEntry_other (hheads e List.mem_cons_self) hkey, hskip] at hentry
      cases hentry
      exact .other hkey hvalue.skip (ih hheads' hvalues' hmore)

/-! ## Once, in any order -/

/-- **Fields that come once fill the draft**, in whatever order. `draft keys` is the draft after these keys. -/
theorem fills_of_once {draft : List String → δ} {entries : List Entry}
    (hknown : ∀ keys, ∀ e ∈ entries, e.key ∈ names → e.key ∉ keys →
      ∃ i, names[i]? = some e.key ∧ Reads (field i (draft keys)) e.value (draft (keys ++ [e.key])))
    (hother : ∀ keys, ∀ e ∈ entries, e.key ∉ names →
      Reads (Item.skip room) e.value () ∧ draft (keys ++ [e.key]) = draft keys)
    (honce : ∀ name ∈ names, (valuesOf name entries).length ≤ 1) :
    Fills room names field entries (draft []) (draft (entries.map Entry.key)) := by
  suffices h : ∀ after before, entries = before ++ after →
      Fills room names field after (draft (before.map Entry.key)) (draft (entries.map Entry.key)) from
    h entries [] rfl
  intro after
  induction after with
  | nil =>
    intro before hsplit
    rw [hsplit, List.append_nil]
    exact .nil _
  | cons e after ih =>
    intro before hsplit
    have hmem : e ∈ entries := hsplit ▸ List.mem_append_right _ List.mem_cons_self
    have hnext := ih (before ++ [e]) (by rw [hsplit, List.append_assoc, List.singleton_append])
    rw [List.map_append, List.map_singleton] at hnext
    by_cases hkey : e.key ∈ names
    · have hfresh : e.key ∉ before.map Entry.key := by
        intro hin
        obtain ⟨g, hg, hgkey⟩ := List.mem_map.1 hin
        have htwo := honce e.key hkey
        rw [hsplit, valuesOf, List.filter_append, List.filter_cons, if_pos (by simp), List.length_map, List.length_append,
          List.length_cons] at htwo
        have hearlier : g ∈ before.filter fun g => g.key = e.key := List.mem_filter.2 ⟨hg, decide_eq_true hgkey⟩
        have hpos := List.length_pos_of_mem hearlier
        omega
      obtain ⟨i, hi, hread⟩ := hknown _ e hmem hkey hfresh
      exact .known hi hread hnext
    · obtain ⟨hskip, hsame⟩ := hother (before.map Entry.key) e hmem hkey
      rw [hsame] at hnext
      exact .other hkey hskip hnext

/-- a field that is read was not filled in before, and is the only one that is filled in -/
def FillsOwn (field : Nat → δ → Reader δ) (filled : Nat → δ → Prop) : Prop :=
  ∀ i d bs d₁ rest, field i d bs = some (d₁, rest) → ¬ filled i d ∧ ∀ j, filled j d₁ ↔ filled j d ∨ j = i

/-- **A draft says which fields came**, and none came twice. -/
theorem Fills.once {filled : Nat → δ → Prop} (hown : FillsOwn field filled) (hnodup : names.Nodup) {es : List Entry}
    {d d₂ : δ} (h : Fills room names field es d d₂) {i : Nat} {name : String} (hi : names[i]? = some name) :
    (filled i d → valuesOf name es = []) ∧ (valuesOf name es).length ≤ 1 ∧
      (filled i d₂ ↔ filled i d ∨ valuesOf name es ≠ []) := by
  induction h with
  | nil d => simp [valuesOf]
  | @known e es j d d₁ d₂ hj hread _ ih =>
    obtain ⟨hnot, hfilled⟩ := hown j d (e.value ++ []) d₁ [] (hread [])
    obtain ⟨hnone, hle, hiff⟩ := ih
    rw [valuesOf_cons]
    by_cases hkey : e.key = name
    · obtain rfl : j = i := by
        rw [hkey, ← hi] at hj
        exact (List.getElem?_inj (List.getElem?_eq_some_iff.1 hi).1 hnodup).1 hj.symm |>.symm
      rw [if_pos hkey, hnone ((hfilled j).2 (Or.inr rfl))]
      exact ⟨fun hd => absurd hd hnot, le_rfl, by simp [hiff, (hfilled j).2 (Or.inr rfl)]⟩
    · have hne : i ≠ j := by
        rintro rfl
        rw [hi] at hj
        exact hkey (Option.some.inj hj).symm
      have hsame : filled i d₁ ↔ filled i d := by simp [hfilled i, hne]
      rw [if_neg hkey]
      exact ⟨fun hd => hnone (hsame.2 hd), hle, by rw [hiff, hsame]⟩
  | @other e es d d₂ hkey _ _ ih =>
    have hne : e.key ≠ name := by
      rintro rfl
      exact hkey (List.mem_of_getElem? hi)
    rw [valuesOf_cons, if_neg hne]
    exact ih

/-- what stands under the key of a field was read as that field -/
theorem Fills.read_of_mem {es : List Entry} {d d₂ : δ} (h : Fills room names field es d d₂) {name : String}
    (hname : name ∈ names) {v : Bytes} (hv : v ∈ valuesOf name es) :
    ∃ i d d₁, names[i]? = some name ∧ Reads (field i d) v d₁ := by
  induction h with
  | nil d => cases hv
  | @known e es i d d₁ d₂ hi hread _ ih =>
    rw [valuesOf_cons] at hv
    split at hv
    · rename_i hkey
      rcases List.mem_cons.1 hv with rfl | hv
      · exact ⟨i, d, d₁, hkey ▸ hi, hread⟩
      · exact ih hv
    · exact ih hv
  | @other e es d d₂ hkey _ _ ih =>
    rw [valuesOf_cons, if_neg (fun heq : e.key = name => hkey (heq ▸ hname))] at hv
    exact ih hv

/-! ## Records -/

theorem reads_map {names : List String} {field : Nat → Nat → δ → Reader δ} (hnodup : names.Nodup) {entries : List Entry}
    {body : Bytes} (hmap : IsMap entries body) {start d : δ} (h : Fills room names (field room) entries start d) :
    Reads (readRecord (room + 1) names field start) body d := by
  obtain ⟨hheads, head, hform, rfl⟩ := hmap
  exact hform.reads.bind (h.reads hnodup hheads)

theorem fills_of_record {names : List String} {field : Nat → Nat → δ → Reader δ}
    (hself : ∀ i d, SelfDelimiting (field room i d)) (hone : ∀ i d, TakesOne (field room i d) room)
    (hnodup : names.Nodup) {entries : List Entry} {body : Bytes} (hmap : IsMap entries body)
    (hvalues : ∀ e ∈ entries, WellFormed room e.value) {start d : δ} {rest : Bytes}
    (h : readRecord (room + 1) names field start body = some (d, rest)) :
    Fills room names (field room) entries start d := by
  obtain ⟨hheads, head, hform, rfl⟩ := hmap
  obtain ⟨read, mid, hread, hmore⟩ := Reader.bind_eq_some.1 h
  rw [hform.reads] at hread
  cases hread
  have hentries : Reader.iterate (readEntry room names (field room)) entries.length start
      (entries.flatMap Entry.bytes ++ []) = some (d, rest) := by
    rw [List.append_nil]
    exact hmore
  exact fills_of_reads hself hone hnodup hheads hvalues hentries

end Filling

/-! ## Fields and their forms -/

/-- how a field may come: what its value may be written as, and whether it may be left out -/
structure FieldForm where
  name : String
  written : Bytes → Prop
  mayMiss : Prop

/-- The entries carry these fields, each once or, if it may be left out, not at all. The values of all other entries are
items that are nested no deeper than what can still be opened inside the map. -/
structure Carries (fields : List FieldForm) (entries : List Entry) : Prop where
  known : ∀ f ∈ fields, (∃ v, valuesOf f.name entries = [v] ∧ f.written v) ∨ f.mayMiss ∧ valuesOf f.name entries = []
  others : ∀ e ∈ entries, e.key ∉ fields.map FieldForm.name → WellFormed (Item.depth - 1) e.value

/-- a list as it is written; an empty one is an empty array in any form, or nil, or missing -/
def listForm {α : Type} (name : String) (item : α → Bytes) (l : List α) : FieldForm where
  name := name
  written v := v = Item.list item l ∨ l = [] ∧ (Item.ArrayForm 0 v ∨ v = [0xc0])
  mayMiss := l = []

def reportForms (r : Report Binary64) : List FieldForm := [
  { name := "Timestamp", written := fun v => v = Item.int r.time.toInt, mayMiss := False },
  listForm "Values" (named "Value" Item.number) r.values,
  listForm "Counts" (named "Count" Item.number) r.counts,
  listForm "Dists" (named "Dist" dist) r.dists]

/-- tags as they are written; if there are none, an empty map in any form, or nil, or missing -/
def registrationForms (t : Tags) : List FieldForm := [
  { name := "Tags", written := fun v => v = tags t ∨ t = ∅ ∧ (Item.MapForm 0 v ∨ v = [0xc0]), mayMiss := t = ∅ }]

/-- a list that can be written: its length and those of its names have 32 bits -/
def Writable {α : Type} (l : List (Named α)) : Prop :=
  l.length < 2 ^ 32 ∧ ∀ n ∈ l, (Bytes.ofText n.name).length < 2 ^ 32

/-- a report that can be written -/
structure WritableReport (r : Report Binary64) : Prop where
  values : Writable r.values
  counts : Writable r.counts
  dists : Writable r.dists

/-- tags that can be written -/
structure WritableTags (t : Tags) : Prop where
  count : t.toList.length < 2 ^ 32
  texts : ∀ e ∈ t.toList, (Bytes.ofText e.1).length < 2 ^ 32 ∧ (Bytes.ofText e.2).length < 2 ^ 32

/-! ## Values of fields -/

section Lists

variable {α : Type} {name field : String} {r : Nat → Reader α} {w : α → Bytes} {room : Nat} {l : List (Named α)}

theorem reads_listForm (hl : Writable l) (hr : ∀ a, Reads (r room) (w a) a)
    (hlen : (Bytes.ofText field).length < 2 ^ 32) (hfield : field ≠ "Name") {v : Bytes}
    (hv : (listForm name (named field w) l).written v) :
    Reads (Item.readList (room + 2) (readNamed field r)) v l := by
  rcases hv with rfl | ⟨rfl, harray | rfl⟩
  · exact Item.reads_list hl.1 fun n hn => reads_named (hl.2 n hn) (hr n.value) hlen hfield
  · exact harray.reads.bind_nil (Reads.pure [])
  · exact fun _ => rfl

theorem wellFormed_listForm (hl : Writable l) (hr : ∀ a, WellFormed room (w a))
    (hlen : (Bytes.ofText field).length < 2 ^ 32) {v : Bytes} (hv : (listForm name (named field w) l).written v) :
    WellFormed (room + 2) v := by
  rcases hv with rfl | ⟨rfl, harray | rfl⟩
  · exact Item.wellFormed_list hl.1 fun n hn => wellFormed_named (hl.2 n hn) hlen (hr n.value)
  · have hempty : WellFormed (room + 2) (v ++ ([] : List Bytes).flatten) := .array harray (by simp)
    rwa [List.flatten_nil, List.append_nil] at hempty
  · exact .nil

end Lists

theorem reads_registrationForm {t : Tags} (ht : WritableTags t) {room : Nat} {v : Bytes}
    (hv : v = tags t ∨ t = ∅ ∧ (Item.MapForm 0 v ∨ v = [0xc0])) : Reads (readTags (room + 1)) v t := by
  rcases hv with rfl | ⟨rfl, hmap | rfl⟩
  · exact reads_tags room ht.count ht.texts
  · exact hmap.reads.bind_nil (Reads.pure ∅)
  · exact fun _ => rfl

theorem Carries.written {fields : List FieldForm} {entries : List Entry} (h : Carries fields entries) {f : FieldForm}
    (hf : f ∈ fields) {e : Entry} (he : e ∈ entries) (hkey : e.key = f.name) : f.written e.value := by
  have hin : e.value ∈ valuesOf f.name entries := mem_valuesOf.2 ⟨e, he, hkey, rfl⟩
  rcases h.known f hf with ⟨v, hv, hwritten⟩ | ⟨-, hnone⟩
  · rw [hv, List.mem_singleton] at hin
    rwa [hin]
  · rw [hnone] at hin
    cases hin

theorem Carries.once {fields : List FieldForm} {entries : List Entry} (h : Carries fields entries) {name : String}
    (hname : name ∈ fields.map FieldForm.name) : (valuesOf name entries).length ≤ 1 := by
  obtain ⟨f, hf, rfl⟩ := List.mem_map.1 hname
  rcases h.known f hf with ⟨v, hv, -⟩ | ⟨-, hnone⟩
  · rw [hv, List.length_singleton]
  · rw [hnone]
    exact Nat.zero_le 1

/-- a field that did not come may be left out -/
theorem Carries.mayMiss {fields : List FieldForm} {entries : List Entry} (h : Carries fields entries) {f : FieldForm}
    (hf : f ∈ fields) (hmiss : f.name ∉ entries.map Entry.key) : f.mayMiss := by
  rcases h.known f hf with ⟨v, hv, -⟩ | ⟨hmay, -⟩
  · obtain ⟨e, he, hkey, -⟩ := mem_valuesOf.1 (hv ▸ List.mem_singleton_self v)
    exact absurd (List.mem_map.2 ⟨e, he, hkey⟩) hmiss
  · exact hmay

/-! ## Reports -/

/-- the draft of a report when these keys have been read -/
def reportDraft (r : Report Binary64) (keys : List String) : ReportDraft where
  time := if "Timestamp" ∈ keys then some r.time else none
  values := if "Values" ∈ keys then some r.values else none
  counts := if "Counts" ∈ keys then some r.counts else none
  dists := if "Dists" ∈ keys then some r.dists else none

/-- a field that has not come yet is filled in -/
theorem reads_slot {α δ : Type} {old : Option α} {put : Option α → δ} {r : Reader α} {v : Bytes} {a : α} {d : δ}
    (hold : old = none) (h : Reads r v a) (hd : put (some a) = d) : Reads (do pure (put (← fill old r))) v d := by
  rw [hold, ← hd]
  exact (reads_fill h).bind_nil (Reads.pure _)

theorem reads_reportField {r : Report Binary64} (hr : WritableReport r) {entries : List Entry}
    (h : Carries (reportForms r) entries) (keys : List String) {e : Entry} (he : e ∈ entries)
    (hkey : e.key ∈ reportFields) (hfresh : e.key ∉ keys) :
    ∃ i, reportFields[i]? = some e.key ∧
      Reads (readReportField 1022 i (reportDraft r keys)) e.value (reportDraft r (keys ++ [e.key])) := by
  have hwritten : ∀ f ∈ reportForms r, e.key = f.name → f.written e.value := fun f hf => h.written hf he
  simp only [reportForms, List.forall_mem_cons] at hwritten
  obtain ⟨htime, hvalues, hcounts, hdists, -⟩ := hwritten
  simp only [reportFields, List.mem_cons, List.not_mem_nil, or_false] at hkey
  rcases hkey with hkey | hkey | hkey | hkey
  · have hread : Reads Item.readInt64 e.value r.time := by
      rw [htime hkey]
      exact Item.reads_int64 r.time
    exact ⟨0, by rw [hkey]; rfl, reads_slot (if_neg (hkey ▸ hfresh)) hread (by simp [reportDraft, hkey])⟩
  · have hread : Reads (Item.readList 1022 (readNamed "Value" fun _ => Item.readNumber)) e.value r.values :=
      reads_listForm hr.values Item.reads_number (by decide) (by decide) (hvalues hkey)
    exact ⟨1, by rw [hkey]; rfl, reads_slot (if_neg (hkey ▸ hfresh)) hread (by simp [reportDraft, hkey])⟩
  · have hread : Reads (Item.readList 1022 (readNamed "Count" fun _ => Item.readNumber)) e.value r.counts :=
      reads_listForm hr.counts Item.reads_number (by decide) (by decide) (hcounts hkey)
    exact ⟨2, by rw [hkey]; rfl, reads_slot (if_neg (hkey ▸ hfresh)) hread (by simp [reportDraft, hkey])⟩
  · have hread : Reads (Item.readList 1022 (readNamed "Dist" readDist)) e.value r.dists :=
      reads_listForm hr.dists (reads_dist 1019) (by decide) (by decide) (hdists hkey)
    exact ⟨3, by rw [hkey]; rfl, reads_slot (if_neg (hkey ▸ hfresh)) hread (by simp [reportDraft, hkey])⟩

theorem finish_reportDraft {r : Report Binary64} {entries : List Entry} (h : Carries (reportForms r) entries) :
    (reportDraft r (entries.map Entry.key)).finish = some r := by
  have hmiss : ∀ f ∈ reportForms r, f.name ∉ entries.map Entry.key → f.mayMiss := fun f hf => h.mayMiss hf
  simp only [reportForms, List.forall_mem_cons, listForm] at hmiss
  obtain ⟨htime, hvalues, hcounts, hdists, -⟩ := hmiss
  have hlist : ∀ {α : Type} {name : String} {l : List α}, (name ∉ entries.map Entry.key → l = []) →
      (if name ∈ entries.map Entry.key then some l else none).getD [] = l := by
    intro α name l hl
    split
    · rfl
    · rename_i hnot
      rw [hl hnot]
      rfl
  rw [ReportDraft.finish, reportDraft, if_pos (by_contra htime), Option.map_some, hlist hvalues, hlist hcounts,
    hlist hdists]

/-- **A report that is carried is read.** -/
theorem reads_carried_report {r : Report Binary64} (hr : WritableReport r) {entries : List Entry} {body : Bytes}
    (hmap : IsMap entries body) (h : Carries (reportForms r) entries) : Reads (readReport Item.depth) body r := by
  have hfills : Fills 1022 reportFields (readReportField 1022) entries {} (reportDraft r (entries.map Entry.key)) := by
    have hother : ∀ keys, ∀ e ∈ entries, e.key ∉ reportFields →
        Reads (Item.skip 1022) e.value () ∧ reportDraft r (keys ++ [e.key]) = reportDraft r keys := by
      intro keys e he hkey
      refine ⟨(h.others e he hkey).skip, ?_⟩
      simp only [reportFields, List.mem_cons, List.not_mem_nil, or_false, not_or] at hkey
      simp [reportDraft, Ne.symm hkey.1, Ne.symm hkey.2.1, Ne.symm hkey.2.2.1, Ne.symm hkey.2.2.2]
    exact fills_of_once (fun keys e he => reads_reportField hr h keys he) hother fun name => h.once
  refine (reads_map (by decide) hmap hfills).bind_nil ?_
  rw [finish_reportDraft h]
  exact Reads.ofOption r

/-- which fields of a draft have come -/
def ReportDraft.filled (i : Nat) (d : ReportDraft) : Prop :=
  [d.time.isSome, d.values.isSome, d.counts.isSome, d.dists.isSome][i]? = some true

theorem fill_eq_some {α : Type} {old new : Option α} {r : Reader α} {bs rest : Bytes}
    (h : fill old r bs = some (new, rest)) : old = none ∧ new.isSome = true := by
  cases old with
  | some a => cases h
  | none =>
    obtain ⟨a, mid, -, hnew⟩ := Reader.bind_eq_some.1 (show (r >>= fun a => pure (some a)) bs = some (new, rest) from h)
    cases hnew
    exact ⟨rfl, rfl⟩

theorem fillsOwn_report (room : Nat) : FillsOwn (readReportField room) ReportDraft.filled := by
  intro i d bs d₁ rest h
  match i with
  | 0 | 1 | 2 | 3 =>
    obtain ⟨new, mid, hfill, hput⟩ := Reader.bind_eq_some.1 h
    obtain ⟨hold, hnew⟩ := fill_eq_some hfill
    cases hput
    refine ⟨by simp [ReportDraft.filled, hold], ?_⟩
    intro j
    match j with
    | 0 | 1 | 2 | 3 => simp [ReportDraft.filled, hold, hnew]
    | _ + 4 => simp [ReportDraft.filled]
  | _ + 4 => cases h

/-- **A report without its time, or with a field twice, is none**, if the values are items. -/
theorem no_report {entries : List Entry} {body : Bytes} (hmap : IsMap entries body)
    (hvalues : ∀ e ∈ entries, WellFormed (Item.depth - 1) e.value)
    (h : valuesOf "Timestamp" entries = [] ∨ [0xc0] ∈ valuesOf "Timestamp" entries ∨
      ∃ name ∈ reportFields, 2 ≤ (valuesOf name entries).length) : readReport Item.depth body = none := by
  rw [Option.eq_none_iff_forall_ne_some]
  rintro ⟨r, rest⟩ hread
  obtain ⟨d, mid, hrecord, hfinish⟩ := Reader.bind_eq_some.1 hread
  have hfills : Fills 1022 reportFields (readReportField 1022) entries {} d :=
    fills_of_record (selfDelimiting_reportField 1022) (takesOne_reportField 1022) (by decide) hmap hvalues hrecord
  rcases h with hmissing | hnil | ⟨name, hname, htwice⟩
  · -- the time was not filled in, so the draft cannot be finished
    obtain ⟨-, -, htime⟩ := hfills.once (fillsOwn_report 1022) (by decide) (i := 0) rfl
    rw [hmissing] at htime
    have hnone : d.time = none := by simpa [ReportDraft.filled] using htime
    rw [ReportDraft.finish, hnone] at hfinish
    cases hfinish
  · obtain ⟨i, d₀, d₁, hi, hvalue⟩ := hfills.read_of_mem (by decide) hnil
    obtain rfl : i = 0 := (List.getElem?_inj (by decide) (by decide : reportFields.Nodup)).1 hi.symm |>.symm
    obtain ⟨new, left, hfill, -⟩ := Reader.bind_eq_some.1 (hvalue [])
    -- nil is no whole number
    cases hold : d₀.time <;> rw [hold] at hfill <;> cases hfill
  · obtain ⟨i, hi⟩ := List.mem_iff_getElem?.1 hname
    have honce := (hfills.once (fillsOwn_report 1022) (by decide) hi).2.1
    omega

/-! ## Registrations -/

def registrationField (room i : Nat) (d : Option Tags) : Reader (Option Tags) :=
  match i with
  | 0 => fill d (readTags room)
  | _ => Reader.fail

theorem readRegistration_eq (room : Nat) :
    readRegistration room = (do pure ((← readRecord room ["Tags"] registrationField none).getD ∅)) := rfl

/-- **A registration that is carried is read.** -/
theorem reads_carried_registration {t : Tags} (ht : WritableTags t) {entries : List Entry} {body : Bytes}
    (hmap : IsMap entries body) (h : Carries (registrationForms t) entries) :
    Reads (readRegistration Item.depth) body t := by
  have hknown : ∀ keys, ∀ e ∈ entries, e.key ∈ ["Tags"] → e.key ∉ keys → ∃ i, ["Tags"][i]? = some e.key ∧
      Reads (registrationField 1022 i (if "Tags" ∈ keys then some t else none)) e.value
        (if "Tags" ∈ keys ++ [e.key] then some t else none) := by
    intro keys e he hkey hfresh
    rw [List.mem_singleton] at hkey
    have hread : Reads (readTags 1022) e.value t :=
      reads_registrationForm ht (h.written (List.mem_singleton_self _) he hkey)
    rw [hkey] at hfresh
    refine ⟨0, by rw [hkey]; rfl, ?_⟩
    rw [if_neg hfresh, if_pos (by simp [hkey])]
    exact reads_fill hread
  have hother : ∀ keys, ∀ e ∈ entries, e.key ∉ ["Tags"] → Reads (Item.skip 1022) e.value () ∧
      (if "Tags" ∈ keys ++ [e.key] then some t else none) = if "Tags" ∈ keys then some t else none := by
    intro keys e he hkey
    refine ⟨(h.others e he hkey).skip, ?_⟩
    rw [List.mem_singleton] at hkey
    simp [Ne.symm hkey]
  have hfills : Fills 1022 ["Tags"] (registrationField 1022) entries none
      (if "Tags" ∈ entries.map Entry.key then some t else none) :=
    fills_of_once hknown hother fun name => h.once
  rw [readRegistration_eq]
  refine (reads_map (by decide) hmap hfills).bind_nil ?_
  by_cases hcame : "Tags" ∈ entries.map Entry.key
  · rw [if_pos hcame]
    exact Reads.pure t
  · obtain rfl : t = ∅ := h.mayMiss (List.mem_singleton_self _) hcame
    rw [if_neg hcame]
    exact Reads.pure ∅

theorem fillsOwn_registration (room : Nat) :
    FillsOwn (registrationField room) fun i d => i = 0 ∧ d.isSome = true := by
  intro i d bs d₁ rest h
  match i with
  | 0 =>
    obtain ⟨hold, hnew⟩ := fill_eq_some h
    simp [hold, hnew]
  | _ + 1 => cases h

/-- **Tags that come twice are no registration.** -/
theorem no_registration {entries : List Entry} {body : Bytes} (hmap : IsMap entries body)
    (hvalues : ∀ e ∈ entries, WellFormed (Item.depth - 1) e.value) (h : 2 ≤ (valuesOf "Tags" entries).length) :
    readRegistration Item.depth body = none := by
  have hself : ∀ i d, SelfDelimiting (registrationField 1022 i d) := by
    intro i d
    match i with
    | 0 => exact selfDelimiting_fill d (selfDelimiting_tags 1022)
    | _ + 1 => exact .fail
  have hone : ∀ i d, TakesOne (registrationField 1022 i d) 1022 := by
    intro i d
    match i with
    | 0 => exact takesOne_fill d (takesOne_tags 1022)
    | _ + 1 => exact .fail _
  rw [Option.eq_none_iff_forall_ne_some]
  rintro ⟨t, rest⟩ hread
  rw [readRegistration_eq] at hread
  obtain ⟨d, mid, hrecord, -⟩ := Reader.bind_eq_some.1 hread
  have hfills : Fills 1022 ["Tags"] (registrationField 1022) entries none d :=
    fills_of_record hself hone (by decide) hmap hvalues hrecord
  have honce := (hfills.once (fillsOwn_registration 1022) (by decide) (i := 0) rfl).2.1
  omega

/-! ## The law -/

theorem wellFormed_reportForms {r : Report Binary64} (hr : WritableReport r) {f : FieldForm} (hf : f ∈ reportForms r)
    {v : Bytes} (hv : f.written v) : WellFormed (Item.depth - 1) v := by
  simp only [reportForms, List.mem_cons, List.not_mem_nil, or_false] at hf
  rcases hf with rfl | rfl | rfl | rfl
  · obtain rfl : v = Item.int r.time.toInt := hv
    exact Item.wellFormed_int _ r.time
  · exact wellFormed_listForm hr.values (Item.wellFormed_number _) (by decide) hv
  · exact wellFormed_listForm hr.counts (Item.wellFormed_number _) (by decide) hv
  · exact wellFormed_listForm hr.dists (wellFormed_dist _) (by decide) hv

theorem wellFormed_registrationForms {t : Tags} (ht : WritableTags t) {f : FieldForm} (hf : f ∈ registrationForms t)
    {v : Bytes} (hv : f.written v) : WellFormed (Item.depth - 1) v := by
  obtain rfl := List.mem_singleton.1 hf
  rcases hv with rfl | ⟨rfl, hmap | rfl⟩
  · exact Item.wellFormed_map ht.count (fun e he => Item.wellFormed_text _ (ht.texts e he).1)
      fun e he => Item.wellFormed_text _ (ht.texts e he).2
  · have hempty : WellFormed (Item.depth - 1) (v ++ ([] : List (Bytes × Bytes)).flatMap fun e => e.1 ++ e.2) :=
      .map hmap (by simp) (by simp)
    rwa [List.flatMap_nil, List.append_nil] at hempty
  · exact .nil

theorem decode_of_reads {m : Method} {body : Bytes} {msg : Message} (h : Reads (reader m) body msg) :
    decode m body = .ok msg := by
  have hread := h []
  rw [List.append_nil] at hread
  exact decode_eq_ok.2 ⟨[], hread⟩

/-- **Bodies are read leniently, and exactly.**

- A map that carries the fields of a report, or of a registration, is read as that report or registration: whatever the order
  of the fields, whatever other entries stand between them, with empty lists and tags as nil or left out.
- If the values of a map are items, those under the keys of fields included, then without the time, with nil for it, or with
  the key of a field twice it is no report; and with tags twice it is no registration.
- What may be written for a field is always an item. -/
theorem lenient_exact :
    (∀ (r : Report Binary64) (entries : List Entry) (body : Bytes), WritableReport r → IsMap entries body →
      Carries (reportForms r) entries →
        decode .statsPartial body = .ok (.statsPartial r) ∧ decode .statsComplete body = .ok (.statsComplete r)) ∧
    (∀ (t : Tags) (entries : List Entry) (body : Bytes), WritableTags t → IsMap entries body →
      Carries (registrationForms t) entries → decode .registerProcess body = .ok (.registerProcess t)) ∧
    (∀ (entries : List Entry) (body : Bytes), IsMap entries body →
      (∀ e ∈ entries, WellFormed (Item.depth - 1) e.value) →
        ((valuesOf "Timestamp" entries = [] ∨ [0xc0] ∈ valuesOf "Timestamp" entries ∨
            ∃ name ∈ reportFields, 2 ≤ (valuesOf name entries).length) →
          decode .statsPartial body = .error .body ∧ decode .statsComplete body = .error .body) ∧
        (2 ≤ (valuesOf "Tags" entries).length → decode .registerProcess body = .error .body)) ∧
    (∀ r : Report Binary64, WritableReport r →
      ∀ f ∈ reportForms r, ∀ v, f.written v → WellFormed (Item.depth - 1) v) ∧
    ∀ t : Tags, WritableTags t → ∀ f ∈ registrationForms t, ∀ v, f.written v → WellFormed (Item.depth - 1) v := by
  refine ⟨?_, ?_, ?_, ?_, ?_⟩
  · intro r entries body hr hmap h
    have hread := reads_carried_report hr hmap h
    exact ⟨decode_of_reads (hread.map Message.statsPartial), decode_of_reads (hread.map Message.statsComplete)⟩
  · intro t entries body ht hmap h
    exact decode_of_reads ((reads_carried_registration ht hmap h).map Message.registerProcess)
  · intro entries body hmap hvalues
    constructor
    · intro h
      have hnone := no_report hmap hvalues h
      exact ⟨decode_of_none (Reader.map_eq_none _ hnone), decode_of_none (Reader.map_eq_none _ hnone)⟩
    · intro h
      exact decode_of_none (Reader.map_eq_none _ (no_registration hmap hvalues h))
  · exact fun r hr f hf v hv => wellFormed_reportForms hr hf hv
  · exact fun t ht f hf v hv => wellFormed_registrationForms ht hf hv

/-- a report with a count and nothing else -/
def countReport : Report Binary64 := { time := 1000, counts := [⟨"hits", ⟨0x4008000000000000⟩⟩] }

/-- that report out of order: without values, with nil for distributions, and with an entry between that holds nested items -/
def shuffled : List Entry := [
  ⟨"Counts", [0xd9, 6], Item.list (named "Count" Item.number) countReport.counts⟩,
  ⟨"Host", [0xa4], [0x92, 0xc0, 0x81, 0x01, 0xa1, 0xff]⟩,
  ⟨"Dists", [0xa5], [0xc0]⟩,
  ⟨"Timestamp", [0xa9], Item.int 1000⟩]

/-- a map of these entries, its length in three bytes -/
def shuffledBody : Bytes := [0xde, 0, 4] ++ shuffled.flatMap Entry.bytes

theorem lenient_exact_shuffled :
    WritableReport countReport ∧ IsMap shuffled shuffledBody ∧ Carries (reportForms countReport) shuffled ∧
      decode .statsPartial shuffledBody = .ok (.statsPartial countReport) := by
  have hwritable : WritableReport countReport := by
    refine ⟨⟨by decide, by simp [countReport]⟩, ⟨by decide, ?_⟩, ⟨by decide, by simp [countReport]⟩⟩
    intro n hn
    obtain rfl := List.mem_singleton.1 hn
    decide +kernel
  have hheads : ∀ e ∈ shuffled, e.Headed := by
    simp only [shuffled, List.forall_mem_cons, List.not_mem_nil, false_imp_iff, implies_true, and_true]
    refine ⟨.long (w := (0xd9, 1)) (by decide) ?_, .short ?_, .short ?_, .short ?_⟩
    all_goals decide +kernel
  have hmap : IsMap shuffled shuffledBody :=
    ⟨hheads, [0xde, 0, 4], .long (w := (0xde, 2)) (by decide) (by decide), rfl⟩
  have hinner : WellFormed 1021 ([0x81] ++ [([0x01], [0xa1, 0xff])].flatMap fun e => e.1 ++ e.2) := by
    have hone : WellFormed 1020 [UInt8.ofNat 1] := .small (by decide)
    have htext : WellFormed 1020 ([0xa1] ++ [0xff]) := .text (.short (by decide))
    exact .map (.short (by decide)) (by simpa using hone) (by simpa using htext)
  have hhost : WellFormed (Item.depth - 1) ([0x92] ++ [[0xc0], [0x81, 0x01, 0xa1, 0xff]].flatten) := by
    refine .array (.short (by decide)) ?_
    simp only [List.forall_mem_cons]
    exact ⟨.nil, hinner, by simp⟩
  have hcarries : Carries (reportForms countReport) shuffled := by
    constructor
    · simp only [reportForms, List.forall_mem_cons]
      exact ⟨Or.inl ⟨_, rfl, rfl⟩, Or.inr ⟨rfl, rfl⟩, Or.inl ⟨_, rfl, Or.inl rfl⟩,
        Or.inl ⟨_, rfl, Or.inr ⟨rfl, Or.inr rfl⟩⟩, by simp⟩
    · simp only [shuffled, List.forall_mem_cons]
      refine ⟨fun hkey => absurd ?_ hkey, fun _ => hhost, fun hkey => absurd ?_ hkey, fun hkey => absurd ?_ hkey, by simp⟩
      all_goals decide
  exact ⟨hwritable, hmap, hcarries, (lenient_exact.1 countReport shuffled shuffledBody hwritable hmap hcarries).1⟩

end MetricSurvey.Body

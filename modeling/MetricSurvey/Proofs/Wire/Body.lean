/-
Bodies of messages: what is written is read back.

- `reads_record`: a record written with its fields in order, field by field.
- `inverts_named`, `inverts_dist`, `inverts_report`: reports with everything in them.
- `inverts_tags`: tags; they are written in the order of their keys, and make the same table again.
- `reads_body`, `decode_encode`: the body of any message.

How deep items may be nested is counted down while reading, so every reader is given as much room as it opens items in
each other; `Item.depth` is more than enough for each of them.
-/
import MetricSurvey.Proofs.Table
import MetricSurvey.Proofs.Wire.Item
import MetricSurvey.Wire.Body

namespace MetricSurvey.Body

/-! ## Records -/

variable {δ : Type}

/-- a key that is a text, its length in any form -/
theorem reads_textKey {s : String} {head : Bytes} (h : Item.TextForm (Bytes.ofText s).length head) :
    Reads readKey (head ++ Bytes.ofText s) (.name (Bytes.ofText s)) :=
  h.reads.bind ((Reads.take (Bytes.ofText s)).map FieldKey.name)

/-- a field is called by its name -/
theorem resolve_name {before after : List String} {s : String} (h : s ∉ before) :
    (FieldKey.name (Bytes.ofText s)).resolve (before ++ s :: after) = some before.length := by
  have hnone : (before.findIdx? fun t => Bytes.ofText t == Bytes.ofText s) = none := by
    rw [List.findIdx?_eq_none_iff]
    intro t ht
    rw [beq_eq_false_iff_ne]
    intro heq
    exact h (Bytes.ofText_injective heq ▸ ht)
  rw [FieldKey.resolve, List.findIdx?_append, hnone, List.findIdx?_cons]
  simp

/-- reading the values of these fields, from the `i`-th on, takes one draft to another -/
def FieldsRead (field : Nat → δ → Reader δ) : (i : Nat) → List (String × Bytes) → δ → δ → Prop
  | _, [], d, e => d = e
  | i, f :: fs, d, e => ∃ d', Reads (field i d) f.2 d' ∧ FieldsRead field (i + 1) fs d' e

theorem reads_entries {room : Nat} {field : Nat → δ → Reader δ} {names : List String} (before : List String)
    {fields : List (String × Bytes)} {d d' : δ} (hnames : names = before ++ fields.map Prod.fst) (hnodup : names.Nodup)
    (hlen : ∀ f ∈ fields, (Bytes.ofText f.1).length < 2 ^ 32) (h : FieldsRead field before.length fields d d') :
    Reads (Reader.iterate (readEntry room names field) fields.length d) (fields.flatMap fun f => Item.text f.1 ++ f.2)
      d' := by
  induction fields generalizing before d with
  | nil =>
    obtain rfl : d = d' := h
    exact Reads.pure _
  | cons f fields ih =>
    obtain ⟨d₁, hvalue, hrest⟩ := h
    have hnot : f.1 ∉ before := by
      rw [hnames, List.map_cons] at hnodup
      exact fun hin => (List.nodup_append.1 hnodup).2.2 f.1 hin f.1 List.mem_cons_self rfl
    have hentry : Reads (readEntry room names field d) (Item.text f.1 ++ f.2) d₁ := by
      refine (reads_textKey (Item.textForm_textHead (hlen f List.mem_cons_self))).bind ?_
      rw [hnames, List.map_cons, resolve_name hnot]
      exact hvalue
    have hmore := ih (before ++ [f.1]) (by rw [hnames]; simp)
      (fun g hg => hlen g (List.mem_cons_of_mem f hg)) (by rw [List.length_append]; exact hrest)
    rw [List.flatMap_cons, List.length_cons, Reader.iterate]
    exact hentry.bind hmore

theorem length_field_le {fields : List (String × Bytes)} {name : String} {bs : Bytes} (h : (name, bs) ∈ fields) :
    (Item.text name).length + bs.length ≤ (record fields).length := by
  have hle := Item.length_le_flatMap (w := fun f : String × Bytes => Item.text f.1 ++ f.2) h
  rw [List.length_append] at hle
  rw [record, List.length_append]
  dsimp only at hle
  omega

/-- what a field of a record is written as is no longer than the record -/
theorem length_value_lt {fields : List (String × Bytes)} (hlen : (record fields).length < 2 ^ 32) (name : String)
    {bs : Bytes} (h : (name, bs) ∈ fields) : bs.length < 2 ^ 32 := by
  have hle := length_field_le h
  omega

theorem length_record_pos (fields : List (String × Bytes)) (h : fields ≠ []) : 0 < (record fields).length := by
  obtain ⟨⟨name, bs⟩, hf⟩ := List.exists_mem_of_ne_nil fields h
  have hle := length_field_le hf
  have hpos := Item.length_text_pos name
  omega

/-- **A record**, field by field. -/
theorem reads_fields {room : Nat} {names : List String} {field : Nat → Nat → δ → Reader δ}
    {fields : List (String × Bytes)} {start d : δ} (hcount : fields.length < 2 ^ 32)
    (hlen : ∀ f ∈ fields, (Bytes.ofText f.1).length < 2 ^ 32) (hnames : names = fields.map Prod.fst)
    (hnodup : names.Nodup) (h : FieldsRead (field room) 0 fields start d) :
    Reads (readRecord (room + 1) names field start) (record fields) d :=
  (Item.reads_mapHead hcount).bind (reads_entries [] hnames hnodup hlen h)

/-- a record that is not too long -/
theorem reads_record {room : Nat} {names : List String} {field : Nat → Nat → δ → Reader δ}
    {fields : List (String × Bytes)} {start d : δ} (hlen : (record fields).length < 2 ^ 32)
    (hnames : names = fields.map Prod.fst) (hnodup : names.Nodup) (h : FieldsRead (field room) 0 fields start d) :
    Reads (readRecord (room + 1) names field start) (record fields) d := by
  have hcard := Item.card_le_flatMap (w := fun f : String × Bytes => Item.text f.1 ++ f.2)
    (fun f => by rw [List.length_append]; have := Item.length_text_pos f.1; omega) fields
  have htexts : ∀ f ∈ fields, (Bytes.ofText f.1).length < 2 ^ 32 := by
    rintro ⟨name, bs⟩ hf
    have hle := length_field_le hf
    rw [Item.text, List.length_append] at hle
    dsimp only
    omega
  rw [record, List.length_append] at hlen
  exact reads_fields (by omega) htexts hnames hnodup h

theorem reads_fill {α : Type} {r : Reader α} {bs : Bytes} {a : α} (h : Reads r bs a) :
    Reads (fill none r) bs (some a) := h.map some

/-! ## Named values -/

theorem reads_named {α : Type} {field : String} {r : Nat → Reader α} {w : α → Bytes} {room : Nat} {n : Named α}
    (hname : (Bytes.ofText n.name).length < 2 ^ 32) (hvalue : Reads (r room) (w n.value) n.value)
    (hlen : (Bytes.ofText field).length < 2 ^ 32) (hfield : field ≠ "Name") :
    Reads (readNamed field r (room + 1)) (named field w n) n := by
  have htexts : ∀ f ∈ [("Name", Item.text n.name), (field, w n.value)], (Bytes.ofText f.1).length < 2 ^ 32 := by
    simp only [List.forall_mem_cons]
    exact ⟨by decide, hlen, by simp⟩
  refine Reads.bind_nil (a := (some n.name, some n.value))
    (reads_fields (by simp) htexts rfl (by simp [hfield.symm]) ?_) (Reads.pure n)
  exact ⟨(some n.name, none), (reads_fill (Item.reads_text hname)).bind_nil (Reads.pure _), (some n.name, some n.value),
    (reads_fill hvalue).bind_nil (Reads.pure _), rfl⟩

theorem inverts_named {α : Type} {field : String} {r : Nat → Reader α} {w : α → Bytes} {room : Nat}
    (hr : Inverts (r room) w) (hfield : field ≠ "Name") : Inverts (readNamed field r (room + 1)) (named field w) := by
  intro n hn
  have hvalue : Reads (r room) (w n.value) n.value :=
    hr n.value (length_value_lt hn field (by simp))
  have hname := length_value_lt hn "Name" List.mem_cons_self
  have hlen : (Item.text field).length + (w n.value).length ≤ (named field w n).length := length_field_le (by simp)
  rw [Item.text, List.length_append] at hname hlen
  exact reads_named (by omega) hvalue (by omega) hfield

/-- **A distribution**: its five numbers. -/
theorem reads_dist (room : Nat) (d : Distribution Binary64) : Reads (readDist (room + 1)) (dist d) d := by
  have hnumbers : Reads (Item.readNumbers (room + 1) 5) (dist d) d.parts := by
    refine (Item.reads_arrayHead (n := 5) (by decide)).bind ?_
    have hall : ∀ x ∈ d.parts, Reads Item.readNumber (Item.number x) x := fun x _ => Item.reads_number x
    exact Reads.times hall
  exact hnumbers.bind_nil (Reads.pure d)

theorem inverts_dist (room : Nat) : Inverts (readDist (room + 1)) dist := fun d _ => reads_dist room d

/-! ## Reports -/

theorem length_named_pos {α : Type} (field : String) (w : α → Bytes) (n : Named α) : 0 < (named field w n).length :=
  length_record_pos _ (List.cons_ne_nil _ _)

/-- **A report**: its time, and its lists of named values. -/
theorem inverts_report (room : Nat) : Inverts (readReport (room + 4)) report := by
  intro r hr
  have htime : Reads Item.readInt64 (Item.int r.time.toInt) r.time :=
    Item.inverts_int64 r.time (length_value_lt hr "Timestamp" (by simp))
  have hvalues : Reads (Item.readList (room + 3) (readNamed "Value" fun _ => Item.readNumber))
      (Item.list (named "Value" Item.number) r.values) r.values := by
    refine Item.inverts_list ?_ (length_named_pos _ _) r.values (length_value_lt hr "Values" (by simp))
    exact inverts_named Item.inverts_number (by decide)
  have hcounts : Reads (Item.readList (room + 3) (readNamed "Count" fun _ => Item.readNumber))
      (Item.list (named "Count" Item.number) r.counts) r.counts := by
    refine Item.inverts_list ?_ (length_named_pos _ _) r.counts (length_value_lt hr "Counts" (by simp))
    exact inverts_named Item.inverts_number (by decide)
  have hdists : Reads (Item.readList (room + 3) (readNamed "Dist" readDist)) (Item.list (named "Dist" dist) r.dists)
      r.dists := by
    refine Item.inverts_list ?_ (length_named_pos _ _) r.dists (length_value_lt hr "Dists" (by simp))
    exact inverts_named (inverts_dist room) (by decide)
  refine Reads.bind_nil (a := (⟨some r.time, some r.values, some r.counts, some r.dists⟩ : ReportDraft))
    (reads_record hr rfl (by decide) ?_) (Reads.ofOption r)
  exact ⟨_, (reads_fill htime).bind_nil (Reads.pure _), _, (reads_fill hvalues).bind_nil (Reads.pure _), _,
    (reads_fill hcounts).bind_nil (Reads.pure _), _, (reads_fill hdists).bind_nil (Reads.pure _), rfl⟩

/-! ## Tags and times -/

/-- a tag as it is written -/
def tag (e : String × String) : Bytes := Item.text e.1 ++ Item.text e.2

/-- **Tags**: written in the order of their keys, and put into a table again. -/
theorem reads_tags (room : Nat) {t : Tags} (hsize : t.toList.length < 2 ^ 32)
    (hlen : ∀ e ∈ t.toList, (Bytes.ofText e.1).length < 2 ^ 32 ∧ (Bytes.ofText e.2).length < 2 ^ 32) :
    Reads (readTags (room + 1)) (tags t) t := by
  have hentry : ∀ (s : Tags), ∀ e ∈ t.toList, Reads (readTag s) (tag e) (s.insert e.1 e.2) := by
    intro s e he
    exact (Item.reads_text (hlen e he).1).bind ((Item.reads_text (hlen e he).2).bind_nil (Reads.pure _))
  have hall := Reads.iterate hentry ∅
  rw [show t.toList.foldl (fun s e => s.insert e.1 e.2) ∅ = t from Table.ofList_toList t] at hall
  exact (Item.reads_mapHead hsize).bind hall

theorem inverts_tags (room : Nat) : Inverts (readTags (room + 1)) tags := by
  intro t ht
  have hwritten : tags t = Item.mapHead t.toList.length ++ t.toList.flatMap tag := rfl
  rw [hwritten, List.length_append] at ht
  have hpos : ∀ e, 0 < (tag e).length := by
    intro e
    have hkey := Item.length_text_pos e.1
    rw [tag, List.length_append]
    omega
  have hcard := Item.card_le_flatMap hpos t.toList
  refine reads_tags room (by omega) ?_
  intro e he
  have hle := Item.length_le_flatMap (w := tag) he
  rw [tag, Item.text, Item.text, List.length_append, List.length_append, List.length_append] at hle
  omega

theorem inverts_registration (room : Nat) : Inverts (readRegistration (room + 2)) fun t => record [("Tags", tags t)] := by
  intro t ht
  have htags : Reads (readTags (room + 1)) (tags t) t := inverts_tags room t (length_value_lt ht "Tags" (by simp))
  refine Reads.bind_nil (a := some t) (reads_record ht rfl (by decide) ?_) (Reads.pure t)
  exact ⟨_, reads_fill htags, rfl⟩

theorem inverts_time (room : Nat) : Inverts (readTime (room + 1)) fun t => record [("Timestamp", Item.int t.toInt)] := by
  intro t ht
  have htime : Reads Item.readInt64 (Item.int t.toInt) t :=
    Item.inverts_int64 t (length_value_lt ht "Timestamp" (by simp))
  refine Reads.bind_nil (a := some t) (reads_record ht rfl (by decide) ?_) (Reads.ofOption t)
  exact ⟨_, reads_fill htime, rfl⟩

/-! ## Messages -/

/-- **The body of any message.** -/
theorem reads_body (m : Message) (h : (encode m).length < 2 ^ 32) : Reads (reader m.method) (encode m) m := by
  cases m with
  | ping => exact Reads.pure Message.ping
  | pong => exact Reads.pure Message.pong
  | reportAll time => exact (inverts_time 1022 time h).map Message.reportAll
  | registerProcess tags => exact (inverts_registration 1021 tags h).map Message.registerProcess
  | statsPartial r => exact (inverts_report 1019 r h).map Message.statsPartial
  | statsComplete r => exact (inverts_report 1019 r h).map Message.statsComplete

theorem decode_encode (m : Message) (h : (encode m).length < 2 ^ 32) : decode m.method (encode m) = .ok m := by
  have hread := reads_body m h []
  rw [List.append_nil] at hread
  rw [decode, hread]

end MetricSurvey.Body

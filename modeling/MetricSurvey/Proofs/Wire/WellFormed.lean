/-
Well-formed items: what anybody may write, and what is taken when it is read or passed over.

- `WellFormed`: the items without extensions, in any form, nested at most so deep.
- `WellFormed.skip`: such an item is passed over whole, and nothing behind it.
- `Agree`: two readers that, where both succeed, take the same bytes. `takesOne_list`, `takesOne_record` and what stands
  beside them: a reader of values of some kind takes as much as is passed over. So whether a field is read or passed over,
  what follows it begins at the same byte.
- `wellFormed_int`, `wellFormed_list`, `wellFormed_record`: what is written is well-formed.
-/
import MetricSurvey.Proofs.Wire.Item
import MetricSurvey.Proofs.Wire.Truncation

namespace MetricSurvey

/-! ## Items of any form -/

namespace Item

/-- the forms of the length of binary data -/
def BinaryForm : Nat → Bytes → Prop := LengthForm 0 0 [(0xc4, 1), (0xc5, 2), (0xc6, 4)]

/-- the markers of numbers with the number of bytes behind them: floating numbers, then whole numbers without and with sign -/
def numberForms : List (Nat × Nat) :=
  [(0xca, 4), (0xcb, 8), (0xcc, 1), (0xcd, 2), (0xce, 4), (0xcf, 8), (0xd0, 1), (0xd1, 2), (0xd2, 4), (0xd3, 8)]

/-- An item without extensions, in which at most `room` arrays and maps are open at once. Numbers and lengths come in any
form that there is, keys of maps are any items, and a text may be any bytes. -/
inductive WellFormed : (room : Nat) → Bytes → Prop
  | nil {room : Nat} : WellFormed room [0xc0]
  | no {room : Nat} : WellFormed room [0xc2]
  | yes {room : Nat} : WellFormed room [0xc3]
  /-- a whole number in its marker -/
  | small {room n : Nat} (h : n < 0x80 ∨ 0xe0 ≤ n ∧ n < 0x100) : WellFormed room [UInt8.ofNat n]
  | number {room : Nat} {w : Nat × Nat} (hw : w ∈ numberForms) {digits : Bytes} (h : digits.length = w.2) :
    WellFormed room (UInt8.ofNat w.1 :: digits)
  | text {room : Nat} {head data : Bytes} (h : TextForm data.length head) : WellFormed room (head ++ data)
  | binary {room : Nat} {head data : Bytes} (h : BinaryForm data.length head) : WellFormed room (head ++ data)
  | array {room : Nat} {head : Bytes} {items : List Bytes} (h : ArrayForm items.length head)
    (hitems : ∀ i ∈ items, WellFormed room i) : WellFormed (room + 1) (head ++ items.flatten)
  | map {room : Nat} {head : Bytes} {entries : List (Bytes × Bytes)} (h : MapForm entries.length head)
    (hkeys : ∀ e ∈ entries, WellFormed room e.1) (hvalues : ∀ e ∈ entries, WellFormed room e.2) :
    WellFormed (room + 1) (head ++ entries.flatMap fun e => e.1 ++ e.2)

/-! ## Passing over items -/

/-- a head with which an item is complete -/
inductive Complete : Head → Prop
  | nil : Complete .nil
  | bool (b : Bool) : Complete (.bool b)
  | unsigned (n : Nat) : Complete (.unsigned n)
  | signed (i : Int) : Complete (.signed i)
  | float (x : Binary64) : Complete (.float x)

theorem BinaryForm.reads {n : Nat} {head : Bytes} (h : BinaryForm n head) : Reads Head.read head (.binary n) := by
  refine LengthForm.reads (fun n hn => absurd hn (Nat.not_lt_zero n)) ?_ h
  simp only [List.forall_mem_cons]
  exact ⟨⟨by decide, by decide, rfl⟩, ⟨by decide, by decide, rfl⟩, ⟨by decide, by decide, rfl⟩, by simp⟩

/-- a number behind its marker is some number -/
theorem reads_numberForm {w : Nat × Nat} (hw : w ∈ numberForms) {digits : Bytes} (h : digits.length = w.2) :
    ∃ head, Complete head ∧ Reads Head.read (UInt8.ofNat w.1 :: digits) head := by
  have hall : ∀ w ∈ numberForms, (0xc0 ≤ w.1 ∧ w.1 < 0xe0) ∧
      ∃ mk : Nat → Head, Head.readMarked w.1 = mk <$> Reader.number w.2 ∧ ∀ n, Complete (mk n) := by
    simp only [numberForms, List.forall_mem_cons]
    exact ⟨⟨by decide, _, rfl, fun _ => .float _⟩, ⟨by decide, _, rfl, fun _ => .float _⟩,
      ⟨by decide, _, rfl, fun _ => .unsigned _⟩, ⟨by decide, _, rfl, fun _ => .unsigned _⟩,
      ⟨by decide, _, rfl, fun _ => .unsigned _⟩, ⟨by decide, _, rfl, fun _ => .unsigned _⟩,
      ⟨by decide, _, rfl, fun _ => .signed _⟩, ⟨by decide, _, rfl, fun _ => .signed _⟩,
      ⟨by decide, _, rfl, fun _ => .signed _⟩, ⟨by decide, _, rfl, fun _ => .signed _⟩, by simp⟩
  obtain ⟨⟨hlow, hhigh⟩, mk, hread, hcomplete⟩ := hall w hw
  refine ⟨mk (Bytes.toNat digits), hcomplete _, Head.reads_marked w.1 hlow hhigh ?_⟩
  rw [hread, ← h]
  exact ((Reads.take digits).map Bytes.toNat).map mk

/-- a whole number in its marker -/
theorem reads_small {n : Nat} (h : n < 0x80 ∨ 0xe0 ≤ n ∧ n < 0x100) :
    ∃ head, Complete head ∧ Reads Head.read [UInt8.ofNat n] head := by
  rcases h with h | ⟨hlow, hhigh⟩
  · exact ⟨_, .unsigned n, Head.reads_fixUnsigned h⟩
  · refine ⟨_, .signed ((n : Int) - 0x100), ?_⟩
    have hsigned := Head.reads_fixSigned (i := (n : Int) - 0x100) (by omega) (by omega)
    rwa [show ((256 : Int) + ((n : Int) - 0x100)).toNat = n by omega] at hsigned

/-- an item that is complete with its head -/
theorem skip_complete (room : Nat) {bs : Bytes} {head : Head} (h : Reads Head.read bs head) (hc : Complete head) :
    Reads (skip room) bs () := by
  unfold skip
  refine h.bind_nil ?_
  cases hc <;> exact Reads.pure ()

/-- pieces that are passed over one after another -/
theorem reads_pieces {r : Reader Unit} {pieces : List Bytes} (h : ∀ p ∈ pieces, Reads r p ()) :
    Reads (Reader.iterate (fun _ => r) pieces.length ()) pieces.flatten () := by
  induction pieces with
  | nil => exact Reads.pure ()
  | cons p pieces ih =>
    have hfirst := h p List.mem_cons_self
    have hrest := ih fun q hq => h q (List.mem_cons_of_mem p hq)
    rw [List.flatten_cons, List.length_cons, Reader.iterate]
    exact hfirst.bind hrest

/-- **A well-formed item is passed over whole**, and nothing behind it. -/
theorem WellFormed.skip {room : Nat} {bs : Bytes} (h : WellFormed room bs) : Reads (skip room) bs () := by
  induction h with
  | nil => exact skip_complete _ (fun _ => rfl) .nil
  | no => exact skip_complete _ (fun _ => rfl) (.bool false)
  | yes => exact skip_complete _ (fun _ => rfl) (.bool true)
  | small h =>
    obtain ⟨head, hc, hread⟩ := reads_small h
    exact skip_complete _ hread hc
  | number hw h =>
    obtain ⟨head, hc, hread⟩ := reads_numberForm hw h
    exact skip_complete _ hread hc
  | @text room head data h =>
    unfold Item.skip
    exact h.reads.bind ((Reads.take data).map _)
  | @binary room head data h =>
    unfold Item.skip
    exact h.reads.bind ((Reads.take data).map _)
  | array h _ ih =>
    unfold Item.skip
    exact h.reads.bind (reads_pieces ih)
  | @map room head entries h _ _ ihkeys ihvalues =>
    -- keys and values in turn, so twice as many pieces as entries
    have hall : ∀ p ∈ entries.flatMap fun e => [e.1, e.2], Reads (Item.skip room) p () := by
      intro p hp
      obtain ⟨e, he, hpe⟩ := List.mem_flatMap.1 hp
      simp only [List.mem_cons, List.not_mem_nil, or_false] at hpe
      rcases hpe with rfl | rfl
      · exact ihkeys e he
      · exact ihvalues e he
    have hcount : (entries.flatMap fun e => [e.1, e.2]).length = 2 * entries.length := by
      rw [List.length_flatMap]
      simp [Nat.mul_comm]
    have hflat : (entries.flatMap fun e => [e.1, e.2]).flatten = entries.flatMap fun e => e.1 ++ e.2 := by
      rw [List.flatten_eq_flatMap, List.flatMap_assoc]
      simp
    have hpieces := reads_pieces hall
    rw [hcount, hflat] at hpieces
    unfold Item.skip
    exact h.reads.bind hpieces

end Item

/-! ## Readers that agree -/

/-- two readers that, where both succeed, take the same bytes -/
def Agree {α β : Type} (r : Reader α) (s : Reader β) : Prop :=
  ∀ bs a b rest rest', r bs = some (a, rest) → s bs = some (b, rest') → rest = rest'

namespace Agree

variable {α β γ δ σ : Type}

theorem pure (a : α) (b : β) : Agree (Pure.pure a : Reader α) (Pure.pure b : Reader β) := by
  intro bs a' b' rest rest' h h'
  cases h
  cases h'
  rfl

theorem refl (r : Reader α) : Agree r r := by
  intro bs a b rest rest' h h'
  rw [h] at h'
  cases h'
  rfl

theorem fail (s : Reader β) : Agree (Reader.fail : Reader α) s := by
  intro bs a b rest rest' h _
  cases h

theorem ite {c : Prop} [Decidable c] {r r' : Reader α} {s : Reader β} (h : Agree r s) (h' : Agree r' s) :
    Agree (if c then r else r') s := by
  split
  · exact h
  · exact h'

theorem bind {r : Reader α} {s : Reader β} {f : α → Reader γ} {g : β → Reader δ} (h : Agree r s)
    (hfg : ∀ a b, Agree (f a) (g b)) : Agree (r >>= f) (s >>= g) := by
  intro bs c d rest rest' hrf hsg
  obtain ⟨a, mid, ha, hc⟩ := Reader.bind_eq_some.1 hrf
  obtain ⟨b, mid', hb, hd⟩ := Reader.bind_eq_some.1 hsg
  obtain rfl := h bs a b mid mid' ha hb
  exact hfg a b mid c d rest rest' hc hd

/-- what begins with the same reader goes on from the same value -/
theorem after (r : Reader α) {f : α → Reader γ} {g : α → Reader δ} (hfg : ∀ a, Agree (f a) (g a)) :
    Agree (r >>= f) (r >>= g) := by
  intro bs c d rest rest' hrf hrg
  obtain ⟨a, mid, ha, hc⟩ := Reader.bind_eq_some.1 hrf
  obtain ⟨a', mid', ha', hd⟩ := Reader.bind_eq_some.1 hrg
  rw [ha] at ha'
  cases ha'
  exact hfg a mid c d rest rest' hc hd

/-- to go on and take nothing more -/
theorem onward {r : Reader α} {s : Reader β} {f : α → Reader γ} (h : Agree r s)
    (hf : ∀ a, Agree (f a) (Pure.pure () : Reader Unit)) : Agree (r >>= f) s := by
  intro bs c b rest rest' hrf hs
  obtain ⟨a, mid, ha, hc⟩ := Reader.bind_eq_some.1 hrf
  obtain rfl : rest = mid := hf a mid c () rest mid hc rfl
  exact h bs a b rest rest' ha hs

theorem map {r : Reader α} {s : Reader β} (h : Agree r s) (f : α → γ) : Agree (f <$> r) s :=
  h.onward fun a => pure (f a) ()

theorem ofOption (o : Option α) (b : β) : Agree (Reader.ofOption o) (Pure.pure b : Reader β) := by
  cases o with
  | none => exact fail _
  | some a => exact pure a b

theorem times {r : Reader α} {s : Reader Unit} (h : Agree r s) (n : Nat) :
    Agree (Reader.times r n) (Reader.iterate (fun _ => s) n ()) := by
  induction n with
  | zero => exact pure [] ()
  | succ n ih => exact h.bind fun a _ => ih.map (a :: ·)

/-- steps that take two items each -/
theorem iterate {step : σ → Reader σ} {s : Reader Unit} (h : ∀ x, Agree (step x) (s >>= fun _ => s)) (n : Nat) (x : σ) :
    Agree (Reader.iterate step n x) (Reader.iterate (fun _ => s) (2 * n) ()) := by
  induction n generalizing x with
  | zero => exact pure x ()
  | succ n ih =>
    intro bs c d rest rest' hstep hskip
    obtain ⟨y, mid, hy, hc⟩ := Reader.bind_eq_some.1 hstep
    obtain ⟨u, mid₁, hu, htail⟩ := Reader.bind_eq_some.1 hskip
    obtain ⟨v, mid₂, hv, hd⟩ := Reader.bind_eq_some.1 htail
    have hmid := h x bs y v mid mid₂ hy (Reader.bind_eq_some.2 ⟨u, mid₁, hu, hv⟩)
    rw [hmid] at hc
    exact ih y mid₂ c d rest rest' hc hd

end Agree

/-- where it succeeds, the reader takes as much as is passed over -/
abbrev TakesOne {α : Type} (r : Reader α) (room : Nat) : Prop := Agree r (Item.skip room)

namespace Item

variable {α : Type}

theorem takesOne_int64 (room : Nat) : TakesOne readInt64 room := by
  unfold TakesOne skip
  refine .after Head.read ?_
  intro h
  cases h with
  | unsigned n => exact .ite (.pure _ ()) (.fail _)
  | signed i => exact .pure _ ()
  | _ => exact .fail _

theorem takesOne_number (room : Nat) : TakesOne readNumber room := by
  unfold TakesOne skip
  refine .after Head.read ?_
  intro h
  cases h with
  | unsigned n | signed i | float x => exact .pure _ ()
  | _ => exact .fail _

theorem takesOne_text (room : Nat) : TakesOne readText room := by
  unfold TakesOne skip
  refine .after Head.read ?_
  intro h
  cases h with
  | text n | binary n => exact .after (Reader.take n) fun bs => .ofOption (Bytes.toText? bs) ()
  | _ => exact .fail _

theorem takesOne_list {item : Nat → Reader α} (h : ∀ room, TakesOne (item room) room) (room : Nat) :
    TakesOne (readList room item) room := by
  unfold TakesOne skip
  refine .after Head.read ?_
  intro head
  cases head with
  | nil => exact .pure [] ()
  | binary n =>
    cases n with
    | zero =>
      -- binary data of no length is the empty list, and its head is all there is of it
      intro bs a u rest rest' hlist hskip
      have hnothing : discard (Reader.take 0) bs = some ((), bs) := (Reads.take []).map _ bs
      have hskipped : discard (Reader.take 0) bs = some (u, rest') := hskip
      rw [hnothing] at hskipped
      cases hlist
      cases hskipped
      rfl
    | succ n => exact .fail _
  | array n =>
    cases room with
    | zero => exact .fail _
    | succ room => exact (h room).times n
  | _ => exact .fail _

theorem takesOne_numbers (room n : Nat) : TakesOne (readNumbers room n) room := by
  unfold TakesOne skip
  refine .after Head.read ?_
  intro h
  cases h with
  | array m =>
    cases room with
    | zero => exact .fail _
    | succ room =>
      by_cases hm : m = n
      · subst hm
        simpa using (takesOne_number room).times m
      · simpa [hm] using Agree.fail _
  | binary m => exact .after (Reader.take m) fun bs => .ite (.pure _ _) (.fail _)
  | _ => exact .fail _

end Item

/-! ## Records -/

namespace Body

variable {α δ : Type}

theorem takesOne_key (room : Nat) : TakesOne readKey room := by
  unfold TakesOne Item.skip
  refine .after Head.read ?_
  intro h
  cases h with
  | text n | binary n => exact .after (Reader.take n) fun bs => .pure _ ()
  | unsigned n => exact .pure _ ()
  | _ => exact .fail _

/-- an entry of a record takes two items, its key and its value -/
theorem agree_entry {room : Nat} (names : List String) {field : Nat → δ → Reader δ}
    (h : ∀ i d, TakesOne (field i d) room) (d : δ) :
    Agree (readEntry room names field d) (Item.skip room >>= fun _ => Item.skip room) := by
  refine (takesOne_key room).bind ?_
  intro key u
  cases hkey : key.resolve names with
  | some i => simpa only [hkey] using h i d
  | none =>
    have hskip : Agree (Item.skip room >>= fun _ => pure d) (Item.skip room) :=
      (Agree.refl _).onward fun _ => .pure d ()
    simpa only [hkey] using hskip

theorem agree_fields {room : Nat} {field : Nat → δ → Reader δ} (h : ∀ i d, TakesOne (field i d) room) (n i : Nat)
    (d : δ) : Agree (readFields field n i d) (Reader.iterate (fun _ => Item.skip room) n ()) := by
  induction n generalizing i d with
  | zero => exact .pure d ()
  | succ n ih => exact (h i d).bind fun d _ => ih (i + 1) d

/-- **A record** takes one item, if its fields do. -/
theorem takesOne_record {names : List String} {field : Nat → Nat → δ → Reader δ}
    (h : ∀ room i d, TakesOne (field room i d) room) (room : Nat) (start : δ) :
    TakesOne (readRecord room names field start) room := by
  unfold TakesOne Item.skip
  refine .after Head.read ?_
  intro head
  cases head with
  | map n =>
    cases room with
    | zero => exact .fail _
    | succ room => exact .iterate (agree_entry names (h room)) n start
  | array n =>
    cases room with
    | zero => exact .fail _
    | succ room => exact agree_fields (h room) n 0 start
  | _ => exact .fail _

theorem takesOne_fill (old : Option α) {r : Reader α} {room : Nat} (h : TakesOne r room) :
    TakesOne (fill old r) room := by
  cases old with
  | none => exact h.map some
  | some a => exact .fail _

theorem takesOne_named (field : String) {value : Nat → Reader α} (h : ∀ room, TakesOne (value room) room) (room : Nat) :
    TakesOne (readNamed field value room) room := by
  refine Agree.onward (takesOne_record ?_ room (none, none)) ?_
  · intro room i d
    match i with
    | 0 => exact (takesOne_fill d.1 (Item.takesOne_text room)).onward fun name => .pure _ ()
    | 1 => exact (takesOne_fill d.2 (h room)).onward fun v => .pure _ ()
    | _ + 2 => exact .fail _
  · intro d
    exact (Agree.ofOption d.1 ()).onward fun name => (Agree.ofOption d.2 ()).onward fun v => .pure _ ()

theorem takesOne_dist (room : Nat) : TakesOne (readDist room) room := by
  refine (Item.takesOne_numbers room 5).onward ?_
  intro parts
  split
  · exact .pure _ ()
  · exact .fail _

theorem takesOne_reportField (room i : Nat) (d : ReportDraft) : TakesOne (readReportField room i d) room := by
  have hvalues := Item.takesOne_list (takesOne_named "Value" Item.takesOne_number) room
  have hcounts := Item.takesOne_list (takesOne_named "Count" Item.takesOne_number) room
  have hdists := Item.takesOne_list (takesOne_named "Dist" takesOne_dist) room
  match i with
  | 0 => exact (takesOne_fill d.time (Item.takesOne_int64 room)).onward fun _ => .pure _ ()
  | 1 => exact (takesOne_fill d.values hvalues).onward fun _ => .pure _ ()
  | 2 => exact (takesOne_fill d.counts hcounts).onward fun _ => .pure _ ()
  | 3 => exact (takesOne_fill d.dists hdists).onward fun _ => .pure _ ()
  | _ + 4 => exact .fail _

theorem takesOne_tags (room : Nat) : TakesOne (readTags room) room := by
  have htag : ∀ room tags, Agree (readTag tags) (Item.skip room >>= fun _ => Item.skip room) := fun room tags =>
    (Item.takesOne_text room).bind fun key _ => (Item.takesOne_text room).onward fun value => .pure _ ()
  unfold TakesOne Item.skip
  refine .after Head.read ?_
  intro h
  cases h with
  | nil => exact .pure ∅ ()
  | map n =>
    cases room with
    | zero => exact .fail _
    | succ room => exact .iterate (htag room) n ∅
  | _ => exact .fail _

end Body

/-! ## What is written -/

namespace Item

theorem wellFormed_unsigned (room : Nat) {n : Nat} (h : n < 2 ^ 64) : WellFormed room (unsigned n) := by
  have hform : LengthForm 0 128 [(0xcc, 1), (0xcd, 2), (0xce, 4), (0xcf, 8)] n (unsigned n) :=
    lengthForm_lengthHead ⟨(0xcf, 8), by simp, h⟩
  revert hform
  generalize unsigned n = head
  intro hform
  cases hform with
  | short h =>
    rw [Nat.zero_add]
    exact .small (Or.inl h)
  | @long w hw h =>
    have hsub : [(0xcc, 1), (0xcd, 2), (0xce, 4), (0xcf, 8)] ⊆ numberForms := by decide
    exact .number (hsub hw) (Bytes.length_ofNat _ _)

theorem wellFormed_int (room : Nat) (t : Int64) : WellFormed room (int t.toInt) := by
  have hlow := t.le_toInt
  have hhigh := t.toInt_lt
  rw [int]
  split_ifs with h0 h1 h2 h3 h4
  · exact wellFormed_unsigned room (by omega)
  · exact .small (Or.inr (by omega))
  · exact .number (w := (0xd0, 1)) (by decide) (Bytes.length_ofNat _ _)
  · exact .number (w := (0xd1, 2)) (by decide) (Bytes.length_ofNat _ _)
  · exact .number (w := (0xd2, 4)) (by decide) (Bytes.length_ofNat _ _)
  · exact .number (w := (0xd3, 8)) (by decide) (Bytes.length_ofNat _ _)

theorem wellFormed_number (room : Nat) (x : Binary64) : WellFormed room (number x) :=
  .number (w := (0xcb, 8)) (by decide) (Bytes.length_ofNat _ _)

theorem wellFormed_text (room : Nat) {s : String} (h : (Bytes.ofText s).length < 2 ^ 32) : WellFormed room (text s) :=
  .text (textForm_textHead h)

theorem wellFormed_list {α : Type} {room : Nat} {w : α → Bytes} {l : List α} (hl : l.length < 2 ^ 32)
    (h : ∀ a ∈ l, WellFormed room (w a)) : WellFormed (room + 1) (list w l) := by
  have hitems : ∀ i ∈ l.map w, WellFormed room i := by
    intro i hi
    obtain ⟨a, ha, rfl⟩ := List.mem_map.1 hi
    exact h a ha
  have hform : ArrayForm (l.map w).length (arrayHead l.length) := by
    rw [List.length_map]
    exact arrayForm_arrayHead hl
  have harray := WellFormed.array hform hitems
  rwa [← List.flatMap_def] at harray

/-- a map as it is written, entry by entry -/
theorem wellFormed_map {α : Type} {room : Nat} {key value : α → Bytes} {l : List α} (hl : l.length < 2 ^ 32)
    (hkeys : ∀ a ∈ l, WellFormed room (key a)) (hvalues : ∀ a ∈ l, WellFormed room (value a)) :
    WellFormed (room + 1) (mapHead l.length ++ l.flatMap fun a => key a ++ value a) := by
  have hform : MapForm (l.map fun a => (key a, value a)).length (mapHead l.length) := by
    rw [List.length_map]
    exact mapForm_mapHead hl
  have hmap : WellFormed (room + 1) (mapHead l.length ++ (l.map fun a => (key a, value a)).flatMap fun e => e.1 ++ e.2) :=
    .map hform (by simpa using hkeys) (by simpa using hvalues)
  rwa [List.flatMap_map] at hmap

end Item

namespace Body

open Item (WellFormed)

theorem wellFormed_record {room : Nat} {fields : List (String × Bytes)} (hcount : fields.length < 2 ^ 32)
    (hlen : ∀ f ∈ fields, (Bytes.ofText f.1).length < 2 ^ 32) (h : ∀ f ∈ fields, WellFormed room f.2) :
    WellFormed (room + 1) (record fields) :=
  Item.wellFormed_map hcount (fun f hf => Item.wellFormed_text room (hlen f hf)) h

theorem wellFormed_named {α : Type} {room : Nat} {field : String} {w : α → Bytes} {n : Named α}
    (hname : (Bytes.ofText n.name).length < 2 ^ 32) (hlen : (Bytes.ofText field).length < 2 ^ 32)
    (hvalue : WellFormed room (w n.value)) : WellFormed (room + 1) (named field w n) := by
  refine wellFormed_record (by simp) ?_ ?_
  · simp only [List.forall_mem_cons]
    exact ⟨by decide, hlen, by simp⟩
  · simp only [List.forall_mem_cons]
    exact ⟨Item.wellFormed_text room hname, hvalue, by simp⟩

theorem wellFormed_dist (room : Nat) (d : Distribution Binary64) : WellFormed (room + 1) (dist d) :=
  Item.wellFormed_list (by simp [Distribution.parts]) fun x _ => Item.wellFormed_number room x

end Body

end MetricSurvey

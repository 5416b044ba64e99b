/-
Truncation: a body that is cut off is never taken for a shorter one.

Bytes behind the item that a body consists of are not looked at, so nothing but the item itself tells where it ends. A
reader is `SelfDelimiting` if whatever it takes it takes from a front part, whatever follows, and if it fails on everything
shorter than that front part.

- `SelfDelimiting.bind` and what stands beside it: readers put together of such readers are of this kind.
- `selfDelimiting_skip`, `selfDelimiting_record`, `selfDelimiting_reader`: so are the readers of all items and bodies, in
  every form that they take.
- `truncated_never_shorter`: what this says of bodies.
-/
import MetricSurvey.Proofs.Wire.Reader
import MetricSurvey.Wire.Body

namespace MetricSurvey

/-- what the reader takes it takes whatever follows, and on a shorter front part it fails -/
def SelfDelimiting {α : Type} (r : Reader α) : Prop :=
  ∀ bs a rest, r bs = some (a, rest) →
    ∃ front, bs = front ++ rest ∧ Reads r front a ∧ ∀ p, p <+: front → p ≠ front → r p = none

/-! ## Readers put together -/

/-- two readers in turn succeed just when both do -/
theorem Reader.bind_eq_some {α β : Type} {r : Reader α} {f : α → Reader β} {bs rest : Bytes} {b : β} :
    (r >>= f) bs = some (b, rest) ↔ ∃ a mid, r bs = some (a, mid) ∧ f a mid = some (b, rest) := by
  show (r bs).bind (fun p => f p.1 p.2) = some (b, rest) ↔ _
  rw [Option.bind_eq_some_iff]
  exact Prod.exists

theorem Reader.bind_eq_none {α β : Type} {r : Reader α} (f : α → Reader β) {bs : Bytes} (h : r bs = none) :
    (r >>= f) bs = none := by
  show (r bs).bind (fun p => f p.1 p.2) = none
  rw [h]
  rfl

theorem Reader.map_eq_none {α β : Type} {r : Reader α} (f : α → β) {bs : Bytes} (h : r bs = none) :
    (f <$> r) bs = none :=
  bind_eq_none (fun a => pure (f a)) h

namespace SelfDelimiting

variable {α β σ : Type}

theorem pure (a : α) : SelfDelimiting (Pure.pure a : Reader α) := by
  intro bs a' rest h
  cases h
  refine ⟨[], rfl, Reads.pure a, ?_⟩
  intro p hp hne
  exact absurd (List.prefix_nil.1 hp) hne

theorem fail : SelfDelimiting (Reader.fail : Reader α) := by
  intro bs a rest h
  cases h

theorem byte : SelfDelimiting Reader.byte := by
  intro bs b rest h
  cases bs with
  | nil => cases h
  | cons b bs =>
    cases h
    refine ⟨[b], rfl, fun _ => rfl, ?_⟩
    intro p hp hne
    rcases List.prefix_cons_iff.1 hp with rfl | ⟨t, rfl, ht⟩
    · rfl
    · exact absurd (by rw [List.prefix_nil.1 ht]) hne

theorem take (n : Nat) : SelfDelimiting (Reader.take n) := by
  intro bs front rest h
  simp only [Reader.take, List.splitAt_eq, Option.ite_none_right_eq_some, Option.some.injEq, Prod.mk.injEq] at h
  obtain ⟨hlen, rfl, rfl⟩ := h
  refine ⟨bs.take n, (List.take_append_drop n bs).symm, ?_, ?_⟩
  · have htake := Reads.take (bs.take n)
    rwa [hlen] at htake
  · intro p hp hne
    have hshort : p.length < n := by
      rw [← hlen]
      exact lt_of_le_of_ne hp.length_le fun heq => hne (hp.eq_of_length heq)
    simp only [Reader.take, List.splitAt_eq]
    rw [if_neg]
    rw [List.length_take]
    omega

/-- **One reader after another.** A part of what both take either ends within the first, or holds all of the first and a
part of the second. -/
theorem bind {r : Reader α} {f : α → Reader β} (hr : SelfDelimiting r) (hf : ∀ a, SelfDelimiting (f a)) :
    SelfDelimiting (r >>= f) := by
  intro bs b rest h
  obtain ⟨a, mid, ha, hb⟩ := Reader.bind_eq_some.1 h
  obtain ⟨x, rfl, hx, hxshort⟩ := hr bs a mid ha
  obtain ⟨y, rfl, hy, hyshort⟩ := hf a mid b rest hb
  refine ⟨x ++ y, (List.append_assoc x y rest).symm, hx.bind hy, ?_⟩
  intro p hp hne
  by_cases hpx : p <+: x ∧ p ≠ x
  · exact Reader.bind_eq_none f (hxshort p hpx.1 hpx.2)
  · obtain ⟨q, rfl⟩ : x <+: p := by
      rcases List.prefix_or_prefix_of_prefix hp (List.prefix_append x y) with hin | hout
      · by_cases heq : p = x
        · exact heq ▸ List.prefix_rfl
        · exact absurd ⟨hin, heq⟩ hpx
      · exact hout
    have hq : q <+: y := (List.prefix_append_right_inj x).1 hp
    show (r (x ++ q)).bind (fun u => f u.1 u.2) = none
    rw [hx q]
    exact hyshort q hq fun heq => hne (by rw [heq])

theorem map {r : Reader α} (hr : SelfDelimiting r) (f : α → β) : SelfDelimiting (f <$> r) :=
  hr.bind fun a => pure (f a)

theorem ite {c : Prop} [Decidable c] {r s : Reader α} (hr : SelfDelimiting r) (hs : SelfDelimiting s) :
    SelfDelimiting (if c then r else s) := by
  split
  · exact hr
  · exact hs

theorem discard {r : Reader α} (hr : SelfDelimiting r) : SelfDelimiting (Functor.discard r) := hr.map _

theorem ofOption (o : Option α) : SelfDelimiting (Reader.ofOption o) := by
  cases o with
  | none => exact fail
  | some a => exact pure a

theorem number (width : Nat) : SelfDelimiting (Reader.number width) := (take width).map Bytes.toNat

theorem times {r : Reader α} (hr : SelfDelimiting r) (n : Nat) : SelfDelimiting (Reader.times r n) := by
  induction n with
  | zero => exact pure []
  | succ n ih => exact hr.bind fun a => ih.bind fun as => pure (a :: as)

theorem iterate {step : σ → Reader σ} (h : ∀ s, SelfDelimiting (step s)) (n : Nat) (s : σ) :
    SelfDelimiting (Reader.iterate step n s) := by
  induction n generalizing s with
  | zero => exact pure s
  | succ n ih => exact (h s).bind ih

end SelfDelimiting

/-! ## Items -/

theorem Head.selfDelimiting_readMarked (marker : Nat) : SelfDelimiting (readMarked marker) := by
  unfold readMarked
  split <;> simp only [SelfDelimiting.pure, SelfDelimiting.fail, SelfDelimiting.map, SelfDelimiting.number]

theorem Head.selfDelimiting_read : SelfDelimiting read := by
  refine SelfDelimiting.byte.bind ?_
  intro b
  refine .ite (.pure _) (.ite (.pure _) (.ite (.pure _) (.ite (.pure _) (.ite ?_ (.pure _)))))
  exact selfDelimiting_readMarked b.toNat

namespace Item

theorem selfDelimiting_skip (room : Nat) : SelfDelimiting (skip room) := by
  induction room with
  | zero =>
    unfold skip
    refine Head.selfDelimiting_read.bind ?_
    intro h
    cases h with
    | text n | binary n => exact (SelfDelimiting.take n).discard
    | extension n | array n | map n => exact .fail
    | nil | bool b | unsigned n | signed i | float x => exact .pure ()
  | succ room ih =>
    unfold skip
    refine Head.selfDelimiting_read.bind ?_
    intro h
    cases h with
    | text n | binary n => exact (SelfDelimiting.take n).discard
    | extension n => exact (SelfDelimiting.take (n + 1)).discard
    | array n => exact .iterate (fun _ => ih) n ()
    | map n => exact .iterate (fun _ => ih) (2 * n) ()
    | nil | bool b | unsigned n | signed i | float x => exact .pure ()

theorem selfDelimiting_int64 : SelfDelimiting readInt64 := by
  refine Head.selfDelimiting_read.bind ?_
  intro h
  cases h with
  | unsigned n => exact .ite (.pure _) .fail
  | signed i => exact .pure _
  | _ => exact .fail

theorem selfDelimiting_number : SelfDelimiting readNumber := by
  refine Head.selfDelimiting_read.bind ?_
  intro h
  cases h with
  | unsigned n | signed i | float x => exact .pure _
  | _ => exact .fail

theorem selfDelimiting_text : SelfDelimiting readText := by
  refine Head.selfDelimiting_read.bind ?_
  intro h
  cases h with
  | text n | binary n => exact (SelfDelimiting.take n).bind fun bs => .ofOption (Bytes.toText? bs)
  | _ => exact .fail

variable {α : Type}

theorem selfDelimiting_list {item : Nat → Reader α} (h : ∀ room, SelfDelimiting (item room)) (room : Nat) :
    SelfDelimiting (readList room item) := by
  refine Head.selfDelimiting_read.bind ?_
  intro head
  cases head with
  | nil => exact .pure []
  | binary n =>
    cases n with
    | zero => exact .pure []
    | succ n => exact .fail
  | array n =>
    cases room with
    | zero => exact .fail
    | succ room => exact (h room).times n
  | _ => exact .fail

theorem selfDelimiting_numbers (room n : Nat) : SelfDelimiting (readNumbers room n) := by
  refine Head.selfDelimiting_read.bind ?_
  intro h
  cases h with
  | array m =>
    cases room with
    | zero => exact .fail
    | succ room => exact .ite (selfDelimiting_number.times n) .fail
  | binary m => exact (SelfDelimiting.take m).bind fun bs => .ite (.pure _) .fail
  | _ => exact .fail

end Item

/-! ## Records -/

namespace Body

variable {α δ : Type}

theorem selfDelimiting_key : SelfDelimiting readKey := by
  refine Head.selfDelimiting_read.bind ?_
  intro h
  cases h with
  | text n | binary n => exact (SelfDelimiting.take n).map FieldKey.name
  | unsigned n => exact .pure _
  | _ => exact .fail

theorem selfDelimiting_entry (room : Nat) (names : List String) {field : Nat → δ → Reader δ}
    (h : ∀ i d, SelfDelimiting (field i d)) (d : δ) : SelfDelimiting (readEntry room names field d) := by
  refine selfDelimiting_key.bind ?_
  intro key
  cases hkey : key.resolve names with
  | some i => simpa only [hkey] using h i d
  | none => simpa only [hkey] using (Item.selfDelimiting_skip room).bind fun _ => .pure d

theorem selfDelimiting_fields {field : Nat → δ → Reader δ} (h : ∀ i d, SelfDelimiting (field i d)) (n i : Nat) (d : δ) :
    SelfDelimiting (readFields field n i d) := by
  induction n generalizing i d with
  | zero => exact .pure d
  | succ n ih => exact (h i d).bind fun d => ih (i + 1) d

/-- **A record**, as a map or as an array, if its fields are. -/
theorem selfDelimiting_record {names : List String} {field : Nat → Nat → δ → Reader δ}
    (h : ∀ room i d, SelfDelimiting (field room i d)) (room : Nat) (start : δ) :
    SelfDelimiting (readRecord room names field start) := by
  refine Head.selfDelimiting_read.bind ?_
  intro head
  cases head with
  | map n =>
    cases room with
    | zero => exact .fail
    | succ room => exact .iterate (selfDelimiting_entry room names (h room)) n start
  | array n =>
    cases room with
    | zero => exact .fail
    | succ room => exact selfDelimiting_fields (h room) n 0 start
  | _ => exact .fail

theorem selfDelimiting_fill (old : Option α) {r : Reader α} (h : SelfDelimiting r) : SelfDelimiting (fill old r) := by
  cases old with
  | none => exact h.map some
  | some a => exact .fail

theorem selfDelimiting_named (field : String) {value : Nat → Reader α} (h : ∀ room, SelfDelimiting (value room))
    (room : Nat) : SelfDelimiting (readNamed field value room) := by
  refine SelfDelimiting.bind (selfDelimiting_record ?_ room (none, none)) ?_
  · intro room i d
    match i with
    | 0 => exact (selfDelimiting_fill d.1 Item.selfDelimiting_text).bind fun name => .pure _
    | 1 => exact (selfDelimiting_fill d.2 (h room)).bind fun v => .pure _
    | _ + 2 => exact .fail
  · intro d
    exact (SelfDelimiting.ofOption d.1).bind fun name => (SelfDelimiting.ofOption d.2).bind fun v => .pure _

theorem selfDelimiting_dist (room : Nat) : SelfDelimiting (readDist room) := by
  refine (Item.selfDelimiting_numbers room 5).bind ?_
  intro parts
  split
  · exact .pure _
  · exact .fail

/-! ## Bodies -/

theorem selfDelimiting_reportField (room i : Nat) (d : ReportDraft) : SelfDelimiting (readReportField room i d) := by
  have hvalues := Item.selfDelimiting_list (selfDelimiting_named "Value" fun _ => Item.selfDelimiting_number) room
  have hcounts := Item.selfDelimiting_list (selfDelimiting_named "Count" fun _ => Item.selfDelimiting_number) room
  have hdists := Item.selfDelimiting_list (selfDelimiting_named "Dist" selfDelimiting_dist) room
  match i with
  | 0 => exact (selfDelimiting_fill d.time Item.selfDelimiting_int64).bind fun _ => .pure _
  | 1 => exact (selfDelimiting_fill d.values hvalues).bind fun _ => .pure _
  | 2 => exact (selfDelimiting_fill d.counts hcounts).bind fun _ => .pure _
  | 3 => exact (selfDelimiting_fill d.dists hdists).bind fun _ => .pure _
  | _ + 4 => exact .fail

theorem selfDelimiting_report (room : Nat) : SelfDelimiting (readReport room) :=
  (selfDelimiting_record selfDelimiting_reportField room {}).bind fun d => .ofOption d.finish

theorem selfDelimiting_tags (room : Nat) : SelfDelimiting (readTags room) := by
  have htag : ∀ tags, SelfDelimiting (readTag tags) := fun tags =>
    Item.selfDelimiting_text.bind fun key => Item.selfDelimiting_text.bind fun value => .pure (tags.insert key value)
  refine Head.selfDelimiting_read.bind ?_
  intro h
  cases h with
  | nil => exact .pure ∅
  | map n =>
    cases room with
    | zero => exact .fail
    | succ room => exact .iterate htag n ∅
  | _ => exact .fail

theorem selfDelimiting_registration (room : Nat) : SelfDelimiting (readRegistration room) := by
  refine SelfDelimiting.bind (selfDelimiting_record ?_ room none) fun tags => .pure (tags.getD ∅)
  intro room i d
  match i with
  | 0 => exact selfDelimiting_fill d (selfDelimiting_tags room)
  | _ + 1 => exact .fail

theorem selfDelimiting_time (room : Nat) : SelfDelimiting (readTime room) := by
  refine SelfDelimiting.bind (selfDelimiting_record ?_ room none) fun time => .ofOption time
  intro room i d
  match i with
  | 0 => exact selfDelimiting_fill d Item.selfDelimiting_int64
  | _ + 1 => exact .fail

/-- **The readers of all bodies are self-delimiting.** -/
theorem selfDelimiting_reader (m : Method) : SelfDelimiting (reader m) := by
  cases m with
  | ping | pong => exact .pure _
  | reportAll => exact (selfDelimiting_time Item.depth).map Message.reportAll
  | registerProcess => exact (selfDelimiting_registration Item.depth).map Message.registerProcess
  | statsPartial => exact (selfDelimiting_report Item.depth).map Message.statsPartial
  | statsComplete => exact (selfDelimiting_report Item.depth).map Message.statsComplete

/-- the kinds of messages that have a body -/
def kinds : List Method := [.reportAll, .registerProcess, .statsPartial, .statsComplete]

/-- without a byte there is no body -/
theorem reader_nil {m : Method} (hm : m ∈ kinds) : reader m [] = none := by
  simp only [kinds, List.mem_cons, List.not_mem_nil, or_false] at hm
  rcases hm with rfl | rfl | rfl | rfl <;> rfl

theorem decode_eq_ok {m : Method} {bs : Bytes} {msg : Message} :
    decode m bs = .ok msg ↔ ∃ rest, reader m bs = some (msg, rest) := by
  unfold decode
  cases reader m bs with
  | none => simp
  | some r => simp [Prod.ext_iff]

theorem decode_of_none {m : Method} {bs : Bytes} (h : reader m bs = none) : decode m bs = .error .body := by
  rw [decode, h]

/-- **A body that is cut off is never taken for a shorter one.** Of any bytes that are a body of some kind, a front part, not
empty, makes the message: it does so whatever follows it, and nothing shorter makes any. -/
theorem truncated_never_shorter {m : Method} (hm : m ∈ kinds) {bs : Bytes} {msg : Message} (h : decode m bs = .ok msg) :
    ∃ k, 1 ≤ k ∧ k ≤ bs.length ∧ (∀ p, p <+: bs → p.length < k → decode m p = .error .body) ∧
      ∀ tail, decode m (bs.take k ++ tail) = .ok msg := by
  obtain ⟨rest, hread⟩ := decode_eq_ok.1 h
  obtain ⟨front, rfl, hfront, hshort⟩ := selfDelimiting_reader m bs msg rest hread
  refine ⟨front.length, ?_, ?_, ?_, ?_⟩
  · by_contra hempty
    obtain rfl : front = [] := List.eq_nil_of_length_eq_zero (by omega)
    have hnothing := hfront []
    rw [List.append_nil, reader_nil hm] at hnothing
    cases hnothing
  · rw [List.length_append]
    exact Nat.le_add_right _ _
  · intro p hp hlt
    have hpf : p <+: front := List.prefix_of_prefix_length_le hp (List.prefix_append front rest) hlt.le
    refine decode_of_none (hshort p hpf ?_)
    rintro rfl
    exact lt_irrefl _ hlt
  · intro tail
    rw [List.take_left]
    exact decode_eq_ok.2 ⟨tail, hfront tail⟩

/-- a report by the index of its time, with an unknown entry of nested items, and two bytes behind it -/
def looseBody : Bytes :=
  [0x82, 0x00, 0xcd, 0x00, 0x2a, 0xa1, 0x78, 0x92, 0xc0, 0x81, 0x01, 0xc4, 0x01, 0xff, 0x93, 0x07]

theorem truncated_never_shorter_loose :
    .statsPartial ∈ kinds ∧ decode .statsPartial looseBody = .ok (.statsPartial { time := 42 }) ∧
      (∃ k, 1 ≤ k ∧ k ≤ looseBody.length ∧
        (∀ p, p <+: looseBody → p.length < k → decode .statsPartial p = .error .body) ∧
        ∀ tail, decode .statsPartial (looseBody.take k ++ tail) = .ok (.statsPartial { time := 42 })) ∧
      decode .statsPartial (looseBody.take 13) = .error .body := by
  have hkind : Method.statsPartial ∈ kinds := by decide
  have hloose : decode .statsPartial looseBody = .ok (.statsPartial { time := 42 }) := by decide +kernel
  exact ⟨hkind, hloose, truncated_never_shorter hkind hloose, by decide +kernel⟩

end Body

end MetricSurvey

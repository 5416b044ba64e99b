/-
Items: what is written in the shortest form is read back.

- `LengthForm`: the forms of a length or of a whole number; each that holds it is read (`LengthForm.reads`), and what is
  written is the first of them (`lengthForm_lengthHead`). The proofs ask of a form only that it holds the number, so all the
  boundaries between forms are met at once.
- `reads_unsigned`, `reads_int`, `reads_float`: heads of numbers, the floating ones bit for bit.
- `Inverts r w`: the reader `r` reads back what `w` writes, as long as that has less than `2 ^ 32` bytes.
- `inverts_int64`, `inverts_number`, `inverts_list`, and `reads_text` for texts.
-/
import MetricSurvey.Proofs.Wire.Reader
import MetricSurvey.Wire.Item

namespace MetricSurvey

/-! ## Heads -/

namespace Head

/-- a head by its marker -/
theorem read_marker {n : Nat} (hn : n < 256) (bs : Bytes) : read (UInt8.ofNat n :: bs) =
    (if n < 0x80 then pure (.unsigned n)
      else if n < 0x90 then pure (.map (n - 0x80))
      else if n < 0xa0 then pure (.array (n - 0x90))
      else if n < 0xc0 then pure (.text (n - 0xa0))
      else if n < 0xe0 then readMarked n
      else pure (.signed ((n : Int) - 0x100)) : Reader Head) bs := by
  have hmarker : (UInt8.ofNat n).toNat = n := by
    rw [UInt8.toNat_ofNat']
    exact Nat.mod_eq_of_lt hn
  have hread : read (UInt8.ofNat n :: bs) =
      (if (UInt8.ofNat n).toNat < 0x80 then pure (.unsigned (UInt8.ofNat n).toNat)
        else if (UInt8.ofNat n).toNat < 0x90 then pure (.map ((UInt8.ofNat n).toNat - 0x80))
        else if (UInt8.ofNat n).toNat < 0xa0 then pure (.array ((UInt8.ofNat n).toNat - 0x90))
        else if (UInt8.ofNat n).toNat < 0xc0 then pure (.text ((UInt8.ofNat n).toNat - 0xa0))
        else if (UInt8.ofNat n).toNat < 0xe0 then readMarked (UInt8.ofNat n).toNat
        else pure (.signed (((UInt8.ofNat n).toNat : Int) - 0x100)) : Reader Head) bs := rfl
  rw [hread, hmarker]

theorem reads_fixUnsigned {n : Nat} (h : n < 128) : Reads read [UInt8.ofNat n] (.unsigned n) := by
  intro rest
  rw [List.singleton_append, read_marker (by omega), if_pos h]
  rfl

theorem reads_fixMap {n : Nat} (h : n < 16) : Reads read [UInt8.ofNat (0x80 + n)] (.map n) := by
  intro rest
  rw [List.singleton_append, read_marker (by omega), if_neg (by omega), if_pos (by omega), Nat.add_sub_cancel_left]
  rfl

theorem reads_fixArray {n : Nat} (h : n < 16) : Reads read [UInt8.ofNat (0x90 + n)] (.array n) := by
  intro rest
  rw [List.singleton_append, read_marker (by omega), if_neg (by omega), if_neg (by omega), if_pos (by omega),
    Nat.add_sub_cancel_left]
  rfl

theorem reads_fixText {n : Nat} (h : n < 32) : Reads read [UInt8.ofNat (0xa0 + n)] (.text n) := by
  intro rest
  rw [List.singleton_append, read_marker (by omega), if_neg (by omega), if_neg (by omega), if_neg (by omega),
    if_pos (by omega), Nat.add_sub_cancel_left]
  rfl

theorem reads_fixSigned {i : Int} (h : -32 ≤ i) (h' : i < 0) :
    Reads read [UInt8.ofNat (256 + i).toNat] (.signed i) := by
  intro rest
  have hcast : (((256 + i).toNat : Nat) : Int) = 256 + i := Int.toNat_of_nonneg (by omega)
  rw [List.singleton_append, read_marker (by omega), if_neg (by omega), if_neg (by omega), if_neg (by omega),
    if_neg (by omega), if_neg (by omega), hcast, show (256 : Int) + i - 0x100 = i by omega]
  rfl

/-- a marker that is followed by more -/
theorem reads_marked (marker : Nat) {bs : Bytes} {h : Head} (hlow : 0xc0 ≤ marker) (hhigh : marker < 0xe0)
    (hr : Reads (readMarked marker) bs h) : Reads read (UInt8.ofNat marker :: bs) h := by
  intro rest
  rw [List.cons_append, read_marker (by omega), if_neg (by omega), if_neg (by omega), if_neg (by omega),
    if_neg (by omega), if_pos hhigh]
  exact hr rest

end Head

namespace Item

/-! ## Lengths -/

/-- a form of a length or of a whole number: in the marker, or in so many bytes behind one of the markers at hand -/
inductive LengthForm (base limit : Nat) (wide : List (Nat × Nat)) (n : Nat) : Bytes → Prop
  | short (h : n < limit) : LengthForm base limit wide n [UInt8.ofNat (base + n)]
  | long {w : Nat × Nat} (hw : w ∈ wide) (h : n < 256 ^ w.2) :
    LengthForm base limit wide n (UInt8.ofNat w.1 :: Bytes.ofNat w.2 n)

/-- what is written is one of the forms -/
theorem lengthForm_lengthHead {base limit n : Nat} {wide : List (Nat × Nat)} (hn : ∃ w ∈ wide, n < 256 ^ w.2) :
    LengthForm base limit wide n (lengthHead base limit wide n) := by
  rw [lengthHead]
  split_ifs with hlimit
  · exact .short hlimit
  · cases hfind : wide.find? fun w => n < Nat.pow 256 w.2 with
    | none =>
      obtain ⟨w, hw, hfits⟩ := hn
      have hnone := List.find?_eq_none.1 hfind w hw
      exact absurd hfits (by simpa using hnone)
    | some w =>
      have hfits : n < 256 ^ w.2 := by simpa using List.find?_some hfind
      exact .long (List.mem_of_find?_eq_some hfind) hfits

/-- **A number in any of its forms.** -/
theorem LengthForm.reads {mk : Nat → Head} {base limit : Nat} {wide : List (Nat × Nat)}
    (hsmall : ∀ n < limit, Reads Head.read [UInt8.ofNat (base + n)] (mk n))
    (hwide : ∀ w ∈ wide, 0xc0 ≤ w.1 ∧ w.1 < 0xe0 ∧ Head.readMarked w.1 = mk <$> Reader.number w.2)
    {n : Nat} {head : Bytes} (h : LengthForm base limit wide n head) : Reads Head.read head (mk n) := by
  cases h with
  | short h => exact hsmall n h
  | @long w hw h =>
    obtain ⟨hlow, hhigh, hread⟩ := hwide w hw
    refine Head.reads_marked w.1 hlow hhigh ?_
    rw [hread]
    exact (Reads.number h).map mk

/-- the forms of the length of a text -/
def TextForm : Nat → Bytes → Prop := LengthForm 0xa0 32 [(0xd9, 1), (0xda, 2), (0xdb, 4)]

/-- the forms of the length of an array -/
def ArrayForm : Nat → Bytes → Prop := LengthForm 0x90 16 [(0xdc, 2), (0xdd, 4)]

/-- the forms of the length of a map -/
def MapForm : Nat → Bytes → Prop := LengthForm 0x80 16 [(0xde, 2), (0xdf, 4)]

theorem TextForm.reads {n : Nat} {head : Bytes} (h : TextForm n head) : Reads Head.read head (.text n) := by
  refine LengthForm.reads (fun n hn => Head.reads_fixText hn) ?_ h
  simp only [List.forall_mem_cons]
  exact ⟨⟨by decide, by decide, rfl⟩, ⟨by decide, by decide, rfl⟩, ⟨by decide, by decide, rfl⟩, by simp⟩

theorem ArrayForm.reads {n : Nat} {head : Bytes} (h : ArrayForm n head) : Reads Head.read head (.array n) := by
  refine LengthForm.reads (fun n hn => Head.reads_fixArray hn) ?_ h
  simp only [List.forall_mem_cons]
  exact ⟨⟨by decide, by decide, rfl⟩, ⟨by decide, by decide, rfl⟩, by simp⟩

theorem MapForm.reads {n : Nat} {head : Bytes} (h : MapForm n head) : Reads Head.read head (.map n) := by
  refine LengthForm.reads (fun n hn => Head.reads_fixMap hn) ?_ h
  simp only [List.forall_mem_cons]
  exact ⟨⟨by decide, by decide, rfl⟩, ⟨by decide, by decide, rfl⟩, by simp⟩

theorem textForm_textHead {n : Nat} (h : n < 2 ^ 32) : TextForm n (textHead n) :=
  lengthForm_lengthHead ⟨(0xdb, 4), by simp, h⟩

theorem arrayForm_arrayHead {n : Nat} (h : n < 2 ^ 32) : ArrayForm n (arrayHead n) :=
  lengthForm_lengthHead ⟨(0xdd, 4), by simp, h⟩

theorem mapForm_mapHead {n : Nat} (h : n < 2 ^ 32) : MapForm n (mapHead n) :=
  lengthForm_lengthHead ⟨(0xdf, 4), by simp, h⟩

theorem reads_textHead {n : Nat} (h : n < 2 ^ 32) : Reads Head.read (textHead n) (.text n) := (textForm_textHead h).reads

theorem reads_arrayHead {n : Nat} (h : n < 2 ^ 32) : Reads Head.read (arrayHead n) (.array n) :=
  (arrayForm_arrayHead h).reads

theorem reads_mapHead {n : Nat} (h : n < 2 ^ 32) : Reads Head.read (mapHead n) (.map n) := (mapForm_mapHead h).reads

/-! ## Numbers -/

theorem reads_unsigned {n : Nat} (h : n < 2 ^ 64) : Reads Head.read (unsigned n) (.unsigned n) := by
  refine LengthForm.reads (fun n hn => ?_) ?_ (lengthForm_lengthHead ⟨(0xcf, 8), by simp, h⟩)
  · rw [Nat.zero_add]
    exact Head.reads_fixUnsigned hn
  · simp only [List.forall_mem_cons]
    exact ⟨⟨by decide, by decide, rfl⟩, ⟨by decide, by decide, rfl⟩, ⟨by decide, by decide, rfl⟩,
      ⟨by decide, by decide, rfl⟩, by simp⟩

/-- a negative number in the complement of that many bits -/
theorem reads_complement {width : Nat} (marker : Nat) (hlow : 0xc0 ≤ marker) (hhigh : marker < 0xe0)
    (hread : Head.readMarked marker = (fun n => .signed (Bytes.signed (8 * width) n)) <$> Reader.number width)
    (hwidth : 0 < width) {i : Int} (hi : -2 ^ (8 * width - 1) ≤ i) (hneg : i < 0) :
    Reads Head.read (UInt8.ofNat marker :: Bytes.ofNat width (2 ^ (8 * width) + i).toNat) (.signed i) := by
  have hpow : (256 : Int) ^ width = 2 ^ (8 * width) := by rw [pow_mul]; norm_num
  have hhalf : (2 : Int) ^ (8 * width) = 2 * 2 ^ (8 * width - 1) := by
    rw [← pow_succ']
    congr 1
    omega
  have hfits : (2 ^ (8 * width) + i).toNat < 256 ^ width := by
    rw [← Int.ofNat_lt, Int.toNat_of_nonneg (by omega)]
    push_cast
    omega
  refine Head.reads_marked marker hlow hhigh ?_
  rw [hread]
  have hnumber := (Reads.number hfits).map fun n => Head.signed (Bytes.signed (8 * width) n)
  rwa [Bytes.signed_complement (by omega) hi hneg] at hnumber

/-- **A whole number of 64 bits**: the head of a negative one is signed, that of any other is not. -/
theorem reads_int {i : Int} (hlow : -2 ^ 63 ≤ i) (hhigh : i < 2 ^ 63) :
    Reads Head.read (int i) (if 0 ≤ i then .unsigned i.toNat else .signed i) := by
  rw [int]
  split_ifs with h0 h1 h2 h3 h4
  · exact reads_unsigned (by omega)
  · exact Head.reads_fixSigned h1 (by omega)
  · exact reads_complement 0xd0 (by decide) (by decide) rfl (by decide) h2 (by omega)
  · exact reads_complement 0xd1 (by decide) (by decide) rfl (by decide) h3 (by omega)
  · exact reads_complement 0xd2 (by decide) (by decide) rfl (by decide) h4 (by omega)
  · exact reads_complement 0xd3 (by decide) (by decide) rfl (by decide) hlow (by omega)

/-- **A floating number**, bit for bit. -/
theorem reads_float (x : Binary64) : Reads Head.read (number x) (.float x) := by
  have hbits : x.bits.toNat < 256 ^ 8 := x.bits.toNat_lt
  have hnumber := (Reads.number hbits).map fun n => Head.float ⟨UInt64.ofNat n⟩
  rw [UInt64.ofNat_toNat] at hnumber
  exact Head.reads_marked 0xcb (by decide) (by decide) hnumber

end Item

/-! ## Items -/

/-- the reader reads back what the writer writes, as long as its length has 32 bits -/
def Inverts {α : Type} (r : Reader α) (w : α → Bytes) : Prop := ∀ a, (w a).length < 2 ^ 32 → Reads r (w a) a

namespace Item

variable {α : Type}

theorem reads_int64 (t : Int64) : Reads readInt64 (int t.toInt) t := by
  have hhead := reads_int t.le_toInt t.toInt_lt
  refine hhead.bind_nil ?_
  split_ifs with h
  · have hlt : t.toInt.toNat < Nat.pow 2 63 := by
      have := t.toInt_lt
      rw [Nat.pow_eq]
      omega
    have hback : Int64.ofNat t.toInt.toNat = t := by
      rw [← Int64.ofInt_eq_ofNat, Int.toNat_of_nonneg h, Int64.ofInt_toInt]
    dsimp only
    rw [if_pos hlt, hback]
    exact Reads.pure t
  · dsimp only
    rw [Int64.ofInt_toInt]
    exact Reads.pure t

theorem inverts_int64 : Inverts readInt64 fun t : Int64 => int t.toInt := fun t _ => reads_int64 t

theorem reads_number (x : Binary64) : Reads readNumber (number x) x := (reads_float x).bind_nil (Reads.pure x)

theorem inverts_number : Inverts readNumber number := fun x _ => reads_number x

theorem length_text_pos (s : String) : 0 < (text s).length := by
  rw [text, List.length_append]
  rcases Nat.eq_zero_or_pos (Bytes.ofText s).length with h | h
  · rw [h]
    decide
  · omega

theorem reads_text {s : String} (hs : (Bytes.ofText s).length < 2 ^ 32) : Reads readText (text s) s := by
  refine (reads_textHead hs).bind ?_
  refine (Reads.take (Bytes.ofText s)).bind_nil ?_
  rw [Bytes.toText?_ofText]
  exact Reads.ofOption s

theorem length_le_flatMap {w : α → Bytes} {l : List α} {a : α} (h : a ∈ l) : (w a).length ≤ (l.flatMap w).length := by
  rw [List.length_flatMap]
  exact List.le_sum_of_mem (List.mem_map_of_mem h)

theorem card_le_flatMap {w : α → Bytes} (hw : ∀ a, 0 < (w a).length) (l : List α) : l.length ≤ (l.flatMap w).length := by
  induction l with
  | nil => exact Nat.le_refl 0
  | cons a l ih =>
    have ha := hw a
    rw [List.flatMap_cons, List.length_append, List.length_cons]
    omega

/-- **A list**, if its items are read back. -/
theorem reads_list {r : Nat → Reader α} {w : α → Bytes} {room : Nat} {l : List α} (hl : l.length < 2 ^ 32)
    (h : ∀ a ∈ l, Reads (r room) (w a) a) : Reads (readList (room + 1) r) (list w l) l :=
  (reads_arrayHead hl).bind (Reads.times h)

/-- a list of items that have some length -/
theorem inverts_list {r : Nat → Reader α} {w : α → Bytes} {room : Nat} (h : Inverts (r room) w)
    (hw : ∀ a, 0 < (w a).length) : Inverts (readList (room + 1) r) (list w) := by
  intro l hl
  rw [list, List.length_append] at hl
  have hcard := card_le_flatMap hw l
  refine reads_list (by omega) ?_
  intro a ha
  apply h
  have hle := length_le_flatMap (w := w) ha
  omega

end Item

end MetricSurvey

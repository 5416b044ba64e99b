/-
Frames: what reading a buffer answers is decided by its first bytes, and nothing is ever half read or half written.

- `parse_eq_ok_iff`: eight bytes are a header just when they are some header's bytes.
- `faults`: what is wrong with a header, in the order in which it counts; `faults_eq_nil_iff`: nothing is, just when the bytes
  are those of a header that announces no more than the limit.
- `read_of_fault`, `read_of_short`, `read_whole`: what reading answers, and what it leaves, in each case.
- `exact_and_atomic`: all of this together, and the same for writing.
-/
import MetricSurvey.Proofs.Wire.Chunks
import MetricSurvey.Proofs.Wire.Stream

namespace MetricSurvey

/-! ## Numbers and codes -/

namespace Bytes

/-- digits in front of a number -/
theorem foldl_toNat (bs : Bytes) (acc : Nat) :
    bs.foldl (fun n b => n * 256 + b.toNat) acc = acc * 256 ^ bs.length + toNat bs := by
  induction bs generalizing acc with
  | nil => simp [toNat]
  | cons b bs ih =>
    have hnumber : toNat (b :: bs) = b.toNat * 256 ^ bs.length + toNat bs := by
      rw [toNat, List.foldl_cons, ih, Nat.zero_mul, Nat.zero_add]
    rw [List.foldl_cons, ih, hnumber, List.length_cons, pow_succ]
    ring

theorem toNat_cons (b : UInt8) (bs : Bytes) : toNat (b :: bs) = b.toNat * 256 ^ bs.length + toNat bs := by
  rw [toNat, List.foldl_cons, foldl_toNat, Nat.zero_mul, Nat.zero_add]

theorem toNat_lt (bs : Bytes) : toNat bs < 256 ^ bs.length := by
  induction bs with
  | nil => exact Nat.one_pos
  | cons b bs ih =>
    have hdigit : b.toNat + 1 ≤ 256 := b.toNat_lt
    rw [toNat_cons, List.length_cons, pow_succ]
    calc b.toNat * 256 ^ bs.length + toNat bs
        < b.toNat * 256 ^ bs.length + 256 ^ bs.length := by omega
      _ = (b.toNat + 1) * 256 ^ bs.length := by ring
      _ ≤ 256 * 256 ^ bs.length := Nat.mul_le_mul_right _ hdigit
      _ = 256 ^ bs.length * 256 := Nat.mul_comm _ _

theorem toNat_four_lt (l0 l1 l2 l3 : UInt8) : toNat [l0, l1, l2, l3] < 2 ^ 32 := by
  have hlt := toNat_lt [l0, l1, l2, l3]
  simpa using hlt

/-- only the last digits count -/
theorem ofNat_add_mul (width a n : Nat) : ofNat width (a * 256 ^ width + n) = ofNat width n := by
  induction width generalizing a with
  | zero => rfl
  | succ w ih =>
    have hsplit : a * 256 ^ (w + 1) + n = a * 256 * 256 ^ w + n := by rw [pow_succ]; ring
    have hfirst : (a * 256 * 256 ^ w + n) / 256 ^ w = a * 256 + n / 256 ^ w := by
      rw [Nat.add_comm, Nat.add_mul_div_right _ _ (Nat.pow_pos (by decide)), Nat.add_comm]
    rw [hsplit, ofNat, ofNat, ih, Nat.pow_eq, hfirst]
    congr 1
    rw [← UInt8.toNat_inj, UInt8.toNat_ofNat', UInt8.toNat_ofNat']
    omega

/-- **Bytes are the digits of the number that they spell.** -/
theorem ofNat_toNat (bs : Bytes) : ofNat bs.length (toNat bs) = bs := by
  induction bs with
  | nil => rfl
  | cons b bs ih =>
    have hfirst : (b.toNat * 256 ^ bs.length + toNat bs) / 256 ^ bs.length = b.toNat := by
      rw [Nat.add_comm, Nat.add_mul_div_right _ _ (Nat.pow_pos (by decide)), Nat.div_eq_of_lt (toNat_lt bs), Nat.zero_add]
    rw [List.length_cons, ofNat, toNat_cons, Nat.pow_eq, hfirst, ofNat_add_mul, ih, UInt8.ofNat_toNat]

end Bytes

/-- a code belongs to one kind only -/
theorem Method.ofCode?_eq_some {c : UInt8} {m : Method} : ofCode? c = some m ↔ m.code = c := by
  constructor
  · intro h
    simpa using List.find?_some h
  · rintro rfl
    exact ofCode?_code m

/-! ## Headers -/

namespace FrameHeader

theorem parse_toBytes_self (h : FrameHeader) : parse h.toBytes = .ok h := by
  have hread := parse_toBytes h []
  rwa [List.append_nil] at hread

/-- a buffer that is long enough begins with the eight bytes of a header, right or wrong -/
theorem exists_cons_of_size_le {buf : Bytes} (h : size ≤ buf.length) :
    ∃ a b version code l0 l1 l2 l3 tail, buf = a :: b :: version :: code :: l0 :: l1 :: l2 :: l3 :: tail := by
  match buf, h with
  | a :: b :: version :: code :: l0 :: l1 :: l2 :: l3 :: tail, _ => exact ⟨a, b, version, code, l0, l1, l2, l3, tail, rfl⟩

/-- the length of a body is spelled by the last four bytes of its header -/
theorem toBytes_eq (m : Method) (l0 l1 l2 l3 : UInt8) :
    toBytes ⟨m, UInt32.ofNat (Bytes.toNat [l0, l1, l2, l3])⟩ = [0x83, 0x84, 0, m.code, l0, l1, l2, l3] := by
  have hlt := Bytes.toNat_four_lt l0 l1 l2 l3
  have hdigits : Bytes.ofNat 4 (Bytes.toNat [l0, l1, l2, l3]) = [l0, l1, l2, l3] := Bytes.ofNat_toNat [l0, l1, l2, l3]
  rw [toBytes, UInt32.toNat_ofNat', Nat.mod_eq_of_lt hlt, hdigits]
  rfl

/-- **Eight bytes are a header just when they are some header's bytes.** -/
theorem parse_eq_ok_iff {head : Bytes} (hsize : head.length = size) {h : FrameHeader} :
    parse head = .ok h ↔ h.toBytes = head := by
  constructor
  · intro hparse
    obtain ⟨a, b, version, code, l0, l1, l2, l3, tail, rfl⟩ := exists_cons_of_size_le hsize.ge
    obtain rfl : tail = [] := List.eq_nil_of_length_eq_zero (by simpa [size] using hsize)
    simp only [parse] at hparse
    split_ifs at hparse with hmagic hversion
    rw [not_or, not_not, not_not] at hmagic
    obtain ⟨rfl, rfl⟩ := hmagic
    obtain rfl := not_not.1 hversion
    split at hparse
    · cases hparse
    · rename_i m hcode
      cases hparse
      rw [toBytes_eq, Method.ofCode?_eq_some.1 hcode]
  · rintro rfl
    exact parse_toBytes_self h

end FrameHeader

/-! ## Faults -/

namespace Frame

variable {max : Nat} {buf rest : Bytes}

/-- what is wrong with the header in front of a buffer, in the order in which it counts -/
def faults (max : Nat) : Bytes → List ProtocolError
  | a :: b :: version :: code :: l0 :: l1 :: l2 :: l3 :: _ =>
    (if a = 0x83 ∧ b = 0x84 then [] else [.badMagic a b])
      ++ (if version = 0 then [] else [.unsupportedVersion version])
      ++ (if ∃ m ∈ Method.all, m.code = code then [] else [.unknownMethod code])
      ++ (if Bytes.toNat [l0, l1, l2, l3] ≤ max then [] else [.frameTooLarge (Bytes.toNat [l0, l1, l2, l3]) max])
  | _ => []

/-- **Nothing is wrong with a header** just when it is one, and announces no more than the limit. -/
theorem faults_eq_nil_iff (hsize : FrameHeader.size ≤ buf.length) : faults max buf = [] ↔
    ∃ (h : FrameHeader) (tail : Bytes), buf = h.toBytes ++ tail ∧ h.bodyLength.toNat ≤ max := by
  obtain ⟨a, b, version, code, l0, l1, l2, l3, tail, rfl⟩ := FrameHeader.exists_cons_of_size_le hsize
  have hlt := Bytes.toNat_four_lt l0 l1 l2 l3
  simp only [faults, List.append_eq_nil_iff, ite_eq_left_iff, List.cons_ne_nil, imp_false, not_not]
  constructor
  · rintro ⟨⟨⟨⟨rfl, rfl⟩, rfl⟩, m, -, rfl⟩, hmax⟩
    refine ⟨⟨m, UInt32.ofNat (Bytes.toNat [l0, l1, l2, l3])⟩, tail, by rw [FrameHeader.toBytes_eq]; rfl, ?_⟩
    rwa [UInt32.toNat_ofNat', Nat.mod_eq_of_lt hlt]
  · rintro ⟨⟨m, n⟩, tail', hbuf, hmax⟩
    obtain ⟨d0, d1, d2, d3, hdigits⟩ : ∃ d0 d1 d2 d3, Bytes.ofNat 4 n.toNat = [d0, d1, d2, d3] := ⟨_, _, _, _, rfl⟩
    have hnumber : Bytes.toNat (Bytes.ofNat 4 n.toNat) = n.toNat := Bytes.toNat_ofNat n.toNat_lt
    simp only [FrameHeader.toBytes, hdigits, List.cons_append, List.nil_append, List.cons.injEq] at hbuf
    obtain ⟨rfl, rfl, rfl, rfl, rfl, rfl, rfl, rfl, -⟩ := hbuf
    rw [hdigits] at hnumber
    exact ⟨⟨⟨⟨rfl, rfl⟩, rfl⟩, m, by cases m <;> decide, rfl⟩, hnumber ▸ hmax⟩

/-- **The first fault is what is answered**, and the buffer stays as it is. -/
theorem read_of_fault {e : ProtocolError} (h : (faults max buf).head? = some e) : read max buf = (.error e, buf) := by
  have hsize : FrameHeader.size ≤ buf.length := by
    by_contra hshort
    unfold faults at h
    split at h
    · exact hshort (by simp [FrameHeader.size])
    · cases h
  obtain ⟨a, b, version, code, l0, l1, l2, l3, tail, rfl⟩ := FrameHeader.exists_cons_of_size_le hsize
  have hlt := Bytes.toNat_four_lt l0 l1 l2 l3
  unfold read
  rw [if_neg (Nat.not_lt.2 hsize)]
  simp only [FrameHeader.parse]
  simp only [faults] at h
  by_cases hmagic : a = 0x83 ∧ b = 0x84
  · rw [if_pos hmagic, List.nil_append] at h
    rw [if_neg (by rwa [not_or, not_not, not_not])]
    by_cases hversion : version = 0
    · rw [if_pos hversion, List.nil_append] at h
      rw [if_neg (not_not.2 hversion)]
      cases hcode : Method.ofCode? code with
      | none =>
        have hunknown : ¬ ∃ m ∈ Method.all, m.code = code := by
          rintro ⟨m, -, hm⟩
          rw [Method.ofCode?_eq_some.2 hm] at hcode
          cases hcode
        rw [if_neg hunknown] at h
        cases h
        rfl
      | some m =>
        have hknown : ∃ m ∈ Method.all, m.code = code :=
          ⟨m, List.mem_of_find?_eq_some hcode, Method.ofCode?_eq_some.1 hcode⟩
        rw [if_pos hknown, List.nil_append] at h
        dsimp only
        rw [UInt32.toNat_ofNat', Nat.mod_eq_of_lt hlt]
        split_ifs at h with hmax
        · cases h
        · cases h
          rw [if_pos (Nat.not_le.1 hmax)]
    · rw [if_neg hversion] at h
      cases h
      rw [if_pos hversion]
  · rw [if_neg hmagic] at h
    cases h
    rw [if_pos (by rwa [← not_and_or])]

/-! ## Bodies -/

/-- a body is a message of its kind, or it is none -/
theorem decoded_cases (h : FrameHeader) (body : Bytes) :
    (∃ m, decoded h body = .ok (some m)) ∨ decoded h body = .error .body := by
  unfold decoded Body.decode
  cases Body.reader h.method body with
  | none => exact Or.inr rfl
  | some r => exact Or.inl ⟨r.1, rfl⟩

/-- while the body is not all there, more is waited for -/
theorem read_of_short {h : FrameHeader} {tail : Bytes} (hmax : h.bodyLength.toNat ≤ max)
    (hshort : tail.length < h.bodyLength.toNat) : read max (h.toBytes ++ tail) = (.ok none, h.toBytes ++ tail) := by
  rw [read_header (FrameHeader.length_toBytes h) (FrameHeader.parse_toBytes_self h), if_neg (Nat.not_lt.2 hmax),
    if_pos hshort]

/-- **A whole frame** is taken off, and nothing behind it. -/
theorem read_whole {h : FrameHeader} {body : Bytes} (hbody : body.length = h.bodyLength.toNat)
    (hmax : h.bodyLength.toNat ≤ max) (rest : Bytes) :
    read max (h.toBytes ++ body ++ rest) = (decoded h body, rest) := by
  rw [List.append_assoc, read_header (FrameHeader.length_toBytes h) (FrameHeader.parse_toBytes_self h),
    if_neg (Nat.not_lt.2 hmax), if_neg (by rw [List.length_append]; omega), ← hbody, List.take_left, List.drop_left]

/-- what a buffer holds in front: too little for a header, a faulty header, a part of a frame, or a whole one -/
theorem read_cases (max : Nat) (buf : Bytes) :
    (buf.length < FrameHeader.size ∧ read max buf = (.ok none, buf)) ∨
    (∃ e, (faults max buf).head? = some e ∧ read max buf = (.error e, buf)) ∨
    (∃ (h : FrameHeader) (tail : Bytes), buf = h.toBytes ++ tail ∧ h.bodyLength.toNat ≤ max ∧
      tail.length < h.bodyLength.toNat ∧ read max buf = (.ok none, buf)) ∨
    ∃ (h : FrameHeader) (body rest : Bytes), buf = h.toBytes ++ body ++ rest ∧ h.bodyLength.toNat ≤ max ∧
      body.length = h.bodyLength.toNat ∧ read max buf = (decoded h body, rest) := by
  by_cases hsize : buf.length < FrameHeader.size
  · refine Or.inl ⟨hsize, ?_⟩
    rw [read, if_pos hsize]
  · refine Or.inr ?_
    cases hfaults : faults max buf with
    | cons e es => exact Or.inl ⟨e, rfl, read_of_fault (by rw [hfaults]; rfl)⟩
    | nil =>
      obtain ⟨h, tail, rfl, hmax⟩ := (faults_eq_nil_iff (Nat.not_lt.1 hsize)).1 hfaults
      refine Or.inr ?_
      by_cases hshort : tail.length < h.bodyLength.toNat
      · exact Or.inl ⟨h, tail, rfl, hmax, hshort, read_of_short hmax hshort⟩
      · have hbody : (tail.take h.bodyLength.toNat).length = h.bodyLength.toNat :=
          List.length_take_of_le (Nat.not_lt.1 hshort)
        have hcut : h.toBytes ++ tail = h.toBytes ++ tail.take h.bodyLength.toNat ++ tail.drop h.bodyLength.toNat := by
          rw [List.append_assoc, List.take_append_drop]
        rw [hcut]
        exact Or.inr ⟨h, _, _, rfl, hmax, hbody, read_whole hbody hmax _⟩

/-- **More is waited for** just when a header or the body behind it is not all there. -/
theorem read_eq_none_iff : (read max buf).1 = .ok none ↔ buf.length < FrameHeader.size ∨
    ∃ (h : FrameHeader) (tail : Bytes), buf = h.toBytes ++ tail ∧ h.bodyLength.toNat ≤ max ∧
      buf.length < FrameHeader.size + h.bodyLength.toNat := by
  constructor
  · intro hnone
    rcases read_cases max buf with
      ⟨hsize, -⟩ | ⟨e, -, hread⟩ | ⟨h, tail, rfl, hmax, hshort, -⟩ | ⟨h, body, rest, -, -, -, hread⟩
    · exact Or.inl hsize
    · rw [hread] at hnone
      cases hnone
    · refine Or.inr ⟨h, tail, rfl, hmax, ?_⟩
      rw [List.length_append, FrameHeader.length_toBytes]
      omega
    · rw [hread] at hnone
      exact absurd hnone (decoded_ne_none h body)
  · rintro (hsize | ⟨h, tail, rfl, hmax, hshort⟩)
    · rw [read, if_pos hsize]
    · rw [List.length_append, FrameHeader.length_toBytes] at hshort
      rw [read_of_short hmax (by omega)]

/-- no fault of a header is one of a body -/
theorem body_not_mem_faults (max : Nat) (buf : Bytes) : .body ∉ faults max buf := by
  unfold faults
  split
  · simp only [List.mem_append, List.mem_ite_nil_left, List.mem_singleton, reduceCtorEq, and_false, or_self,
      not_false_eq_true]
  · exact List.not_mem_nil

/-- **What is taken off a buffer** is a whole frame, whether its body is a message or none. -/
theorem eq_append_of_read (h : (∃ m, (read max buf).1 = .ok (some m)) ∨ (read max buf).1 = .error .body) :
    ∃ (h : FrameHeader) (body : Bytes), h.bodyLength.toNat ≤ max ∧ body.length = h.bodyLength.toNat ∧
      buf = h.toBytes ++ body ++ (read max buf).2 := by
  have hwaits : (read max buf).1 ≠ .ok none := by
    intro hnone
    rw [hnone] at h
    rcases h with ⟨m, hm⟩ | hbody
    · cases hm
    · cases hbody
  rcases read_cases max buf with
    ⟨-, hread⟩ | ⟨e, he, hread⟩ | ⟨-, -, -, -, -, hread⟩ | ⟨h', body, rest, hbuf, hmax, hbody, hread⟩
  · exact absurd (congrArg Prod.fst hread) hwaits
  · rw [hread] at h
    rcases h with ⟨m, hm⟩ | hbody
    · cases hm
    · cases hbody
      exact absurd (List.mem_of_head? he) (body_not_mem_faults max buf)
  · exact absurd (congrArg Prod.fst hread) hwaits
  · exact ⟨h', body, hmax, hbody, by rw [hread, ← hbuf]⟩

/-- who waits, or has found a fault, leaves the buffer as it is -/
theorem snd_read_of_untouched (h : (read max buf).1 = .ok none ∨ faults max buf ≠ []) : (read max buf).2 = buf := by
  rcases h with hnone | hfaults
  · exact eq_of_read_none (Prod.ext hnone rfl)
  · obtain ⟨e, es, hes⟩ := List.exists_cons_of_ne_nil hfaults
    rw [read_of_fault (e := e) (by rw [hes]; rfl)]

/-! ## Writing -/

/-- **A message is appended whole or not at all**: it is, just when it is within the limits. -/
theorem append_of_fits {m : Message} (h : Fits max m) (buf : Bytes) : append max m buf = (.ok (), buf ++ bytes m) := by
  rw [append, write_of_fits h]

theorem append_of_not_fits {m : Message} (h : ¬ Fits max m) (buf : Bytes) :
    append max m buf = (.error (.frameTooLarge (Body.encode m).length max), buf) := by
  have htooLarge : max < (Body.encode m).length ∨ Nat.pow 2 32 ≤ (Body.encode m).length := by
    rw [Nat.pow_eq]
    by_contra hfits
    rw [not_or, Nat.not_lt, Nat.not_le] at hfits
    exact h hfits
  have hwrite : write max m = .error (.frameTooLarge (Body.encode m).length max) := by
    unfold write
    rw [if_pos htooLarge]
  rw [append, hwrite]

/-! ## The law -/

/-- **Reading and writing frames is exact, and all or nothing**, whatever the limit.

- Eight bytes are a header just when they are the bytes of some header, and it is the one that is read.
- More is waited for just when eight bytes are not there yet, or a header is there that announces no more than the limit, and
  its body is not all there.
- If the eight bytes are no header, or announce more than the limit, the first of their faults is answered: wrong magic, a
  wrong version, an unknown kind, too large a body.
- In all these cases the buffer stays as it is. Otherwise exactly the frame in front is taken off, and the answer, which is
  a message or says that the body is none, depends on nothing behind it.
- A message is appended to a buffer as one frame that reading takes off again, if it is within the limits; otherwise the
  buffer stays as it is. -/
theorem exact_and_atomic (max : Nat) :
    (∀ (head : Bytes) (h : FrameHeader), head.length = 8 → (FrameHeader.parse head = .ok h ↔ h.toBytes = head)) ∧
    (∀ buf : Bytes, (read max buf).1 = .ok none ↔ buf.length < 8 ∨
      ∃ (h : FrameHeader) (tail : Bytes), buf = h.toBytes ++ tail ∧ h.bodyLength.toNat ≤ max ∧
        buf.length < 8 + h.bodyLength.toNat) ∧
    (∀ buf : Bytes, 8 ≤ buf.length →
      (faults max buf ≠ [] ↔ ¬ ∃ (h : FrameHeader) (tail : Bytes), buf = h.toBytes ++ tail ∧ h.bodyLength.toNat ≤ max) ∧
      ∀ e, (faults max buf).head? = some e → (read max buf).1 = .error e) ∧
    ((∀ buf : Bytes, (read max buf).1 = .ok none ∨ faults max buf ≠ [] → (read max buf).2 = buf) ∧
      (∀ (h : FrameHeader) (body : Bytes), h.bodyLength.toNat ≤ max → body.length = h.bodyLength.toNat →
        ∃ answer, ((∃ m, answer = .ok (some m)) ∨ answer = .error .body) ∧
          ∀ rest, read max (h.toBytes ++ body ++ rest) = (answer, rest)) ∧
      ∀ buf : Bytes, (∃ m, (read max buf).1 = .ok (some m)) ∨ (read max buf).1 = .error .body →
        ∃ (h : FrameHeader) (body : Bytes), h.bodyLength.toNat ≤ max ∧ body.length = h.bodyLength.toNat ∧
          buf = h.toBytes ++ body ++ (read max buf).2) ∧
    ∀ (m : Message) (buf : Bytes),
      (Fits max m → append max m buf = (.ok (), buf ++ bytes m) ∧
        ∀ rest, read max (bytes m ++ rest) = (.ok (some m), rest)) ∧
      (¬ Fits max m → append max m buf = (.error (.frameTooLarge (Body.encode m).length max), buf)) := by
  refine ⟨fun head h hsize => FrameHeader.parse_eq_ok_iff hsize, ?_, ?_, ⟨?_, ?_, ?_⟩, ?_⟩
  · intro buf
    exact read_eq_none_iff
  · intro buf hsize
    exact ⟨not_congr (faults_eq_nil_iff hsize), fun e he => by rw [read_of_fault he]⟩
  · intro buf h
    exact snd_read_of_untouched h
  · intro h body hmax hbody
    exact ⟨decoded h body, decoded_cases h body, read_whole hbody hmax⟩
  · intro buf h
    exact eq_append_of_read h
  · intro m buf
    exact ⟨fun h => ⟨append_of_fits h buf, read_frame h⟩, fun h => append_of_not_fits h buf⟩

/-- of several faults the first is answered -/
example : let buf : Bytes := [0x83, 0x84, 1, 0x99, 0, 0, 0, 9]
    read 3 buf = (.error (.unsupportedVersion 1), buf) := by
  rfl

end Frame

end MetricSurvey

/-
Streams: messages that were written one after another are read back, however the bytes arrive.

- `read_frame`: a frame at the front of a buffer is taken off, and is its message.
- `read_part`: a part of a frame is left in the buffer, and more is waited for, wherever the frame is cut.
- `drainAll_frames`: so a buffer that begins with whole frames yields their messages and keeps what is left over.
- `round_trip`: fed in any pieces, a stream of frames yields the messages that were written, in order, and nothing is left.
-/
import MetricSurvey.Proofs.Wire.Body
import MetricSurvey.Wire.Stream

namespace MetricSurvey

/-! ## Frames -/

namespace FrameHeader

@[simp] theorem length_toBytes (h : FrameHeader) : h.toBytes.length = size := by
  rw [toBytes, List.length_append, Bytes.length_ofNat]
  rfl

/-- **A header is read back** from the front of anything. -/
theorem parse_toBytes (h : FrameHeader) (rest : Bytes) : parse (h.toBytes ++ rest) = .ok h := by
  have hlength : Bytes.toNat (Bytes.ofNat 4 h.bodyLength.toNat) = h.bodyLength.toNat :=
    Bytes.toNat_ofNat h.bodyLength.toNat_lt
  obtain ⟨method, bodyLength⟩ := h
  obtain ⟨l0, l1, l2, l3, hdigits⟩ : ∃ l0 l1 l2 l3, Bytes.ofNat 4 bodyLength.toNat = [l0, l1, l2, l3] :=
    ⟨_, _, _, _, rfl⟩
  rw [hdigits] at hlength
  simp only [toBytes, hdigits, List.cons_append, List.nil_append, parse, Method.ofCode?_code, hlength]
  simp

end FrameHeader

namespace Frame

/-- a message's body is within the limit, and its length has 32 bits -/
def Fits (max : Nat) (m : Message) : Prop := (Body.encode m).length ≤ max ∧ (Body.encode m).length < 2 ^ 32

/-- the header of a message's frame -/
def header (m : Message) : FrameHeader := ⟨m.method, UInt32.ofNat (Body.encode m).length⟩

/-- the frame of a message -/
def bytes (m : Message) : Bytes := (header m).toBytes ++ Body.encode m

variable {max : Nat} {m : Message}

theorem write_of_fits (h : Fits max m) : write max m = .ok (bytes m) := by
  have hfits : ¬ (max < (Body.encode m).length ∨ Nat.pow 2 32 ≤ (Body.encode m).length) := by
    rw [not_or, Nat.pow_eq]
    exact ⟨Nat.not_lt.2 h.1, Nat.not_le.2 h.2⟩
  rw [write, if_neg hfits]
  rfl

theorem length_bytes (m : Message) : (bytes m).length = FrameHeader.size + (Body.encode m).length := by
  rw [bytes, List.length_append, FrameHeader.length_toBytes]

theorem bodyLength_header (h : Fits max m) : (header m).bodyLength.toNat = (Body.encode m).length := by
  rw [header, UInt32.toNat_ofNat']
  exact Nat.mod_eq_of_lt h.2

/-- **A frame at the front of a buffer** is taken off. -/
theorem read_frame (h : Fits max m) (rest : Bytes) : read max (bytes m ++ rest) = (.ok (some m), rest) := by
  have hparse : FrameHeader.parse (bytes m ++ rest) = .ok (header m) := by
    rw [bytes, List.append_assoc]
    exact FrameHeader.parse_toBytes _ _
  have hbody : ((bytes m ++ rest).drop FrameHeader.size).splitAt (Body.encode m).length = (Body.encode m, rest) := by
    rw [bytes, List.append_assoc, ← FrameHeader.length_toBytes (header m), List.drop_left, List.splitAt_eq,
      List.take_left, List.drop_left]
  have hlong : (bytes m ++ rest).length = FrameHeader.size + (Body.encode m).length + rest.length := by
    rw [List.length_append, length_bytes]
  rw [read, if_neg (by omega), hparse]
  dsimp only
  rw [bodyLength_header h, if_neg (Nat.not_lt.2 h.1), if_neg (by omega), hbody]
  dsimp only
  rw [show (header m).method = m.method from rfl, Body.decode_encode m h.2]

/-- **A part of a frame** is left where it is. -/
theorem read_part (h : Fits max m) {part : Bytes} (hpart : part <+: bytes m) (hshort : part.length < (bytes m).length) :
    read max part = (.ok none, part) := by
  rw [read]
  split_ifs with hsize
  · rfl
  · -- the whole header is there, but not the whole body
    obtain ⟨rest, hrest⟩ := hpart
    obtain ⟨body, rfl⟩ : ∃ body, part = (header m).toBytes ++ body := by
      refine ⟨part.drop FrameHeader.size, ?_⟩
      have htake : part.take FrameHeader.size = (header m).toBytes := by
        have hfront : (part ++ rest).take FrameHeader.size = (header m).toBytes := by
          rw [hrest, bytes, ← FrameHeader.length_toBytes (header m), List.take_left]
        rwa [List.take_append_of_le_length (by omega)] at hfront
      rw [← htake, List.take_append_drop]
    rw [FrameHeader.parse_toBytes]
    dsimp only
    rw [length_bytes] at hshort
    rw [bodyLength_header h, if_neg (Nat.not_lt.2 h.1), if_pos hshort]

end Frame

/-! ## Streams -/

namespace Stream

open MetricSurvey.Frame

variable {max : Nat}

/-- what is answered for these messages, when more is waited for after them -/
def answers (ms : List Message) : List Outcome := ms.map (fun m => .ok (some m)) ++ [.ok none]

theorem drain_frames {ms : List Message} (hfit : ∀ m ∈ ms, Fits max m) {left : Bytes}
    (hleft : Frame.read max left = (.ok none, left)) {attempts : Nat} (h : ms.length < attempts) :
    drain max attempts (ms.flatMap bytes ++ left) = (answers ms, left) := by
  induction ms generalizing attempts with
  | nil =>
    obtain ⟨n, rfl⟩ : ∃ n, attempts = n + 1 := ⟨attempts - 1, by simp at h; omega⟩
    rw [List.flatMap_nil, List.nil_append, drain, hleft]
    rfl
  | cons m ms ih =>
    obtain ⟨n, rfl⟩ : ∃ n, attempts = n + 1 := ⟨attempts - 1, by omega⟩
    rw [List.length_cons, Nat.add_lt_add_iff_right] at h
    have hrest := ih (fun m' hm => hfit m' (List.mem_cons_of_mem m hm)) h
    rw [List.flatMap_cons, List.append_assoc, drain, read_frame (hfit m List.mem_cons_self)]
    dsimp only
    rw [hrest]
    rfl

/-- **A buffer that begins with whole frames** yields their messages; there are always enough attempts. -/
theorem drainAll_frames {ms : List Message} (hfit : ∀ m ∈ ms, Fits max m) {left : Bytes}
    (hleft : Frame.read max left = (.ok none, left)) :
    drainAll max (ms.flatMap bytes ++ left) = (answers ms, left) := by
  have hlength : FrameHeader.size * ms.length ≤ (ms.flatMap bytes ++ left).length := by
    rw [List.length_append]
    refine Nat.le_add_right_of_le ?_
    induction ms with
    | nil => exact Nat.le_refl 0
    | cons m ms ih =>
      have hrest := ih fun m' hm => hfit m' (List.mem_cons_of_mem m hm)
      rw [List.flatMap_cons, List.length_append, length_bytes, List.length_cons, Nat.mul_succ]
      omega
  refine drain_frames hfit hleft ?_
  rw [attemptsFor, Nat.lt_succ_iff, Nat.le_div_iff_mul_le (by decide), Nat.mul_comm]
  exact hlength

/-- bytes with which the frames of these messages begin, too few for the first of them -/
structure PartOf (part : Bytes) (ms : List Message) : Prop where
  isPrefix : part <+: ms.flatMap bytes
  short : ∀ m ∈ ms.head?, part.length < (bytes m).length

theorem PartOf.read {part : Bytes} {ms : List Message} (h : PartOf part ms) (hfit : ∀ m ∈ ms, Fits max m) :
    Frame.read max part = (.ok none, part) := by
  cases ms with
  | nil =>
    rw [List.prefix_nil.1 h.isPrefix]
    rfl
  | cons m ms =>
    have hshort := h.short m rfl
    have hfirst : bytes m <+: (m :: ms).flatMap bytes := List.prefix_append _ _
    exact read_part (hfit m List.mem_cons_self) (List.prefix_of_prefix_length_le h.isPrefix hfirst hshort.le) hshort

/-- **Wherever a stream of frames is cut**, there are whole frames before the cut, and a part of the next. -/
theorem exists_partOf {ms : List Message} {buf : Bytes} (h : buf <+: ms.flatMap bytes) :
    ∃ before after part, ms = before ++ after ∧ buf = before.flatMap bytes ++ part ∧ PartOf part after := by
  induction ms generalizing buf with
  | nil => exact ⟨[], [], buf, rfl, rfl, h, by simp⟩
  | cons m ms ih =>
    by_cases hshort : buf.length < (bytes m).length
    · refine ⟨[], m :: ms, buf, rfl, rfl, h, ?_⟩
      intro m' hm
      cases hm
      exact hshort
    · have hfirst : bytes m <+: (m :: ms).flatMap bytes := List.prefix_append _ _
      obtain ⟨rest, rfl⟩ := List.prefix_of_prefix_length_le hfirst h (Nat.not_lt.1 hshort)
      rw [List.flatMap_cons, List.prefix_append_right_inj] at h
      obtain ⟨before, after, part, rfl, rfl, hpart⟩ := ih h
      exact ⟨m :: before, after, part, rfl, by rw [List.flatMap_cons, List.append_assoc], hpart⟩

/-- bytes arrive piece by piece, and each time everything is read that the buffer holds -/
def feed (max : Nat) (buf : Bytes) : List Bytes → List (List Outcome) × Bytes
  | [] => ([], buf)
  | chunk :: chunks =>
    let (out, left) := drainAll max (buf ++ chunk)
    let (outs, left) := feed max left chunks
    (out :: outs, left)

theorem feed_frames {ms : List Message} (hfit : ∀ m ∈ ms, Fits max m) {buf : Bytes} {chunks : List Bytes}
    (hbuf : PartOf buf ms) (h : buf ++ chunks.flatten = ms.flatMap bytes) :
    ∃ pieces : List (List Message), pieces.length = chunks.length ∧ pieces.flatten = ms ∧
      feed max buf chunks = (pieces.map answers, []) := by
  induction chunks generalizing ms buf with
  | nil =>
    rw [List.flatten_nil, List.append_nil] at h
    cases ms with
    | nil => exact ⟨[], rfl, rfl, by rw [h]; rfl⟩
    | cons m ms =>
      -- a part of a frame is not the whole of it
      have hshort := hbuf.short m rfl
      rw [h, List.flatMap_cons, List.length_append] at hshort
      omega
  | cons chunk chunks ih =>
    have hprefix : buf ++ chunk <+: ms.flatMap bytes := ⟨chunks.flatten, by rw [← h, List.flatten_cons, List.append_assoc]⟩
    obtain ⟨before, after, part, rfl, hcut, hpart⟩ := exists_partOf hprefix
    have hbefore : ∀ m ∈ before, Fits max m := fun m hm => hfit m (List.mem_append_left after hm)
    have hafter : ∀ m ∈ after, Fits max m := fun m hm => hfit m (List.mem_append_right before hm)
    have hmore : part ++ chunks.flatten = after.flatMap bytes := by
      rw [List.flatten_cons, ← List.append_assoc, hcut, List.flatMap_append, List.append_assoc] at h
      exact List.append_cancel_left h
    obtain ⟨pieces, hlen, hpieces, hfeed⟩ := ih hafter hpart hmore
    refine ⟨before :: pieces, by rw [List.length_cons, List.length_cons, hlen], by rw [List.flatten_cons, hpieces], ?_⟩
    rw [feed, hcut, drainAll_frames hbefore (hpart.read hafter)]
    dsimp only
    rw [hfeed]
    rfl

theorem mapM_write {ms : List Message} (hfit : ∀ m ∈ ms, Fits max m) :
    ms.mapM (Frame.write max) = .ok (ms.map bytes) := by
  induction ms with
  | nil => rfl
  | cons m ms ih =>
    have hrest := ih fun m' hm => hfit m' (List.mem_cons_of_mem m hm)
    rw [List.mapM_cons, write_of_fits (hfit m List.mem_cons_self), hrest]
    rfl

/-- **What is written is read back.** Whatever messages are written, if each has a body within the limit whose length has
32 bits, then all of them are written; and however the bytes are cut into pieces, feeding the pieces one after another yields
those messages in order, the answers to every piece ending with one that waits for more, and no answer being an error; and
nothing is left in the buffer. -/
theorem round_trip {ms : List Message}
    (hfit : ∀ m ∈ ms, (Body.encode m).length ≤ max ∧ (Body.encode m).length < 2 ^ 32) :
    ms.mapM (Frame.write max) = .ok (ms.map bytes) ∧
    ∀ chunks : List Bytes, chunks.flatten = (ms.map bytes).flatten →
      ∃ pieces : List (List Message), pieces.length = chunks.length ∧ pieces.flatten = ms ∧
        feed max [] chunks = (pieces.map fun piece => piece.map (fun m => .ok (some m)) ++ [.ok none], []) := by
  refine ⟨mapM_write hfit, ?_⟩
  intro chunks hchunks
  have hstart : PartOf [] ms := by
    refine ⟨List.nil_prefix, ?_⟩
    intro m _
    rw [length_bytes]
    exact Nat.add_pos_left (by decide) _
  refine feed_frames hfit hstart ?_
  rw [List.nil_append, hchunks, List.flatMap_def]

/-- A stream of three messages, cut inside the header of the first and inside the body of the second. The last holds a NaN. -/
theorem round_trip_cut :
    let ms : List Message :=
      [.ping, .reportAll (-129), .statsComplete { time := -1, values := [⟨"latency", ⟨0x7ff8000000000001⟩⟩] }]
    let stream := (ms.map bytes).flatten
    let chunks := [stream.take 3, (stream.drop 3).take 15, (stream.drop 3).drop 15]
    (∀ m ∈ ms, (Body.encode m).length ≤ 100 ∧ (Body.encode m).length < 2 ^ 32) ∧ chunks.flatten = stream ∧
    ms.mapM (Frame.write 100) = .ok (ms.map bytes) ∧
    ∃ pieces : List (List Message), pieces.length = 3 ∧ pieces.flatten = ms ∧
      feed 100 [] chunks = (pieces.map fun piece => piece.map (fun m => .ok (some m)) ++ [.ok none], []) := by
  intro ms stream chunks
  have hfit : ∀ m ∈ ms, (Body.encode m).length ≤ 100 ∧ (Body.encode m).length < 2 ^ 32 := by decide
  have hchunks : chunks.flatten = stream := by
    simp only [chunks, List.flatten_cons, List.flatten_nil, List.append_nil, List.take_append_drop]
  obtain ⟨hwrite, hread⟩ := round_trip hfit
  exact ⟨hfit, hchunks, hwrite, hread chunks hchunks⟩

end Stream

end MetricSurvey

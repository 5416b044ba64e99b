/-
Chunks: however bytes are cut before they arrive, they are read as the same messages and end the same way. This holds of
any bytes, rubbish included.

- `read_append`: what reading decides on a short buffer it decides on every longer one, and the bytes behind stay behind.
- `drain_stops`: reading over and over stops by itself, since every message takes a header's length off the buffer.
- `readAll_append`: reading a buffer and then more bytes is reading all of them, as long as nothing was wrong.
- `chunking_never_matters`: so no cut makes a difference.
-/
import Mathlib.Tactic
import MetricSurvey.Wire.Stream

namespace MetricSurvey

/-! ## Decisions stand -/

/-- the header is spelled by the first eight bytes -/
theorem FrameHeader.parse_append {head : Bytes} (h : head.length = size) (tail : Bytes) :
    parse (head ++ tail) = parse head := by
  obtain ⟨a, b, c, d, e, f, g, i, rfl⟩ : ∃ a b c d e f g i, head = [a, b, c, d, e, f, g, i] := by
    match head, h with
    | [a, b, c, d, e, f, g, i], _ => exact ⟨a, b, c, d, e, f, g, i, rfl⟩
  rfl

namespace Frame

variable {max : Nat} {buf rest : Bytes} {m : Message}

/-- what a body is read as -/
def decoded (h : FrameHeader) (body : Bytes) : Except ProtocolError (Option Message) :=
  (Body.decode h.method body).map some

theorem decoded_ne_none (h : FrameHeader) (body : Bytes) : decoded h body ≠ .ok none := by
  unfold decoded
  cases Body.decode h.method body with
  | error e =>
    intro h
    cases h
  | ok m =>
    intro h
    cases h

/-- reading behind a header that is there -/
theorem read_header {head : Bytes} (hsize : head.length = FrameHeader.size) {h : FrameHeader}
    (hparse : FrameHeader.parse head = .ok h) (tail : Bytes) :
    read max (head ++ tail) =
      if max < h.bodyLength.toNat then (.error (.frameTooLarge h.bodyLength.toNat max), head ++ tail)
      else if tail.length < h.bodyLength.toNat then (.ok none, head ++ tail)
      else (decoded h (tail.take h.bodyLength.toNat), tail.drop h.bodyLength.toNat) := by
  have hlength : (head ++ tail).length = FrameHeader.size + tail.length := by rw [List.length_append, hsize]
  unfold read
  rw [if_neg (by omega), FrameHeader.parse_append hsize, hparse, ← hsize, List.drop_left, hsize]
  dsimp only
  congr 1
  simp only [hlength, Nat.add_lt_add_iff_left, List.splitAt_eq]
  congr 1
  unfold decoded
  cases Body.decode h.method (tail.take h.bodyLength.toNat) <;> rfl

/-- The three things that reading can do. What it decides it decides on a front part of the buffer, whatever follows. -/
inductive Reads (max : Nat) : Bytes → Prop where
  /-- more is needed, and the buffer stays as it is -/
  | waiting {buf : Bytes} (h : read max buf = (.ok none, buf)) : Reads max buf
  /-- the header is refused, and the buffer stays as it is -/
  | refused {head : Bytes} {e : ProtocolError} (rest : Bytes)
      (h : ∀ tail, read max (head ++ tail) = (.error e, head ++ tail)) : Reads max (head ++ rest)
  /-- a frame is taken off -/
  | taken {frame : Bytes} {answer : Except ProtocolError (Option Message)} (rest : Bytes)
      (hsize : FrameHeader.size ≤ frame.length) (hanswer : answer ≠ .ok none)
      (h : ∀ tail, read max (frame ++ tail) = (answer, tail)) : Reads max (frame ++ rest)

theorem reads (max : Nat) (buf : Bytes) : Reads max buf := by
  by_cases hshort : buf.length < FrameHeader.size
  · refine .waiting ?_
    unfold read
    rw [if_pos hshort]
  · obtain ⟨head, tail, rfl, hsize⟩ : ∃ head tail, buf = head ++ tail ∧ head.length = FrameHeader.size :=
      ⟨buf.take FrameHeader.size, buf.drop FrameHeader.size, (List.take_append_drop _ _).symm,
        List.length_take_of_le (Nat.not_lt.1 hshort)⟩
    cases hparse : FrameHeader.parse head with
    | error e =>
      refine .refused tail (e := e) ?_
      intro tail
      unfold read
      rw [if_neg (by rw [List.length_append]; omega), FrameHeader.parse_append hsize, hparse]
    | ok h =>
      by_cases hlarge : max < h.bodyLength.toNat
      · refine .refused tail (e := .frameTooLarge h.bodyLength.toNat max) ?_
        intro tail
        rw [read_header hsize hparse, if_pos hlarge]
      · by_cases hpart : tail.length < h.bodyLength.toNat
        · refine .waiting ?_
          rw [read_header hsize hparse, if_neg hlarge, if_pos hpart]
        · obtain ⟨body, rest, rfl, hbody⟩ : ∃ body rest, tail = body ++ rest ∧ body.length = h.bodyLength.toNat :=
            ⟨tail.take h.bodyLength.toNat, tail.drop h.bodyLength.toNat, (List.take_append_drop _ _).symm,
              List.length_take_of_le (Nat.not_lt.1 hpart)⟩
          rw [← List.append_assoc]
          refine .taken rest ?_ (decoded_ne_none h body) ?_
          · rw [List.length_append]
            omega
          · intro rest
            rw [List.append_assoc, read_header hsize hparse, if_neg hlarge, if_neg (by rw [List.length_append]; omega),
              ← hbody, List.take_left, List.drop_left]

/-- **What is decided on a short buffer is decided on every longer one**, and the bytes behind it stay behind. -/
theorem read_append {answer : Except ProtocolError (Option Message)} (h : read max buf = (answer, rest))
    (hdecided : answer ≠ .ok none) (more : Bytes) : read max (buf ++ more) = (answer, rest ++ more) := by
  cases reads max buf with
  | waiting hread =>
    rw [hread] at h
    cases h
    exact absurd rfl hdecided
  | refused tail hread =>
    rw [hread] at h
    cases h
    rw [List.append_assoc, hread]
  | taken tail hsize hanswer hread =>
    rw [hread] at h
    cases h
    rw [List.append_assoc, hread]

/-- waiting for more leaves the buffer as it is -/
theorem eq_of_read_none (h : read max buf = (.ok none, rest)) : rest = buf := by
  cases reads max buf with
  | waiting hread =>
    rw [hread] at h
    cases h
    rfl
  | refused tail hread =>
    rw [hread] at h
    cases h
  | taken tail hsize hanswer hread =>
    rw [hread] at h
    cases h
    exact absurd rfl hanswer

/-- a message takes at least its header off the buffer -/
theorem length_of_read_message (h : read max buf = (.ok (some m), rest)) :
    rest.length + FrameHeader.size ≤ buf.length := by
  cases reads max buf with
  | waiting hread =>
    rw [hread] at h
    cases h
  | refused tail hread =>
    rw [hread] at h
    cases h
  | taken tail hsize hanswer hread =>
    rw [hread] at h
    cases h
    rw [List.length_append]
    omega

end Frame

namespace Stream

variable {max : Nat} {buf rest : Bytes} {m : Message}

/-! ## Reading over and over -/

theorem drain_of_message (h : Frame.read max buf = (.ok (some m), rest)) (n : Nat) :
    drain max (n + 1) buf = (.ok (some m) :: (drain max n rest).1, (drain max n rest).2) := by
  rw [drain, h]

theorem drain_of_decided {answer : Outcome} (h : Frame.read max buf = (answer, rest)) (hno : ∀ m, answer ≠ .ok (some m))
    (n : Nat) : drain max (n + 1) buf = ([answer], rest) := by
  rw [drain, h]
  split
  · rename_i m' rest' heq
    cases heq
    exact absurd rfl (hno m')
  · rename_i o rest' _ heq
    cases heq
    rfl

/-- the last answer is no message, so reading has stopped by itself -/
def Stopped (answers : List Outcome) : Prop := ∃ last ∈ answers.getLast?, ∀ m, last ≠ .ok (some m)

theorem attemptsFor_of_message (h : Frame.read max buf = (.ok (some m), rest)) :
    attemptsFor rest + 1 ≤ attemptsFor buf := by
  have hlength := Frame.length_of_read_message h
  unfold attemptsFor
  unfold FrameHeader.size at hlength ⊢
  omega

/-- **Reading stops by itself.** However many attempts are allowed, no more are made than one for every header's length in
the buffer, and one. -/
theorem drain_stops (max : Nat) {attempts : Nat} {buf : Bytes} (h : attemptsFor buf ≤ attempts) :
    drain max attempts buf = drainAll max buf ∧ Stopped (drainAll max buf).1 ∧
      (drainAll max buf).1.length ≤ attemptsFor buf := by
  unfold drainAll
  -- any allowance that is large enough does the same, by induction on it
  suffices hall : ∀ (k : Nat) (buf : Bytes), attemptsFor buf ≤ k → ∀ n, attemptsFor buf ≤ n →
      drain max n buf = drain max k buf ∧ Stopped (drain max k buf).1 ∧ (drain max k buf).1.length ≤ attemptsFor buf by
    exact hall (attemptsFor buf) buf le_rfl attempts h
  intro k
  induction k with
  | zero =>
    intro buf hk
    exact absurd hk (Nat.not_succ_le_zero _)
  | succ k ih =>
    intro buf hk n hn
    obtain ⟨n, rfl⟩ := Nat.exists_eq_add_of_le' ((Nat.le_add_left 1 _).trans hn)
    rcases hread : Frame.read max buf with ⟨answer, rest⟩
    by_cases hmessage : ∃ m, answer = .ok (some m)
    · obtain ⟨m, rfl⟩ := hmessage
      have hshorter := attemptsFor_of_message hread
      obtain ⟨hsame, hstopped, hcalls⟩ := ih rest (by omega) n (by omega)
      rw [drain_of_message hread, drain_of_message hread, hsame]
      refine ⟨rfl, ?_, ?_⟩
      · obtain ⟨last, hlast, hno⟩ := hstopped
        refine ⟨last, ?_, hno⟩
        rw [List.getLast?_cons, Option.mem_def.1 hlast]
        rfl
      · rw [List.length_cons]
        omega
    · have hno : ∀ m, answer ≠ .ok (some m) := fun m hm => hmessage ⟨m, hm⟩
      rw [drain_of_decided hread hno, drain_of_decided hread hno]
      refine ⟨rfl, ⟨answer, rfl, hno⟩, ?_⟩
      unfold attemptsFor
      exact Nat.le_add_left 1 _

/-! ## What is read -/

/-- what was read of a stream, and how that ended: with bytes that wait for more, or with an error -/
structure Readout where
  messages : List Message
  ending : Except ProtocolError Bytes

namespace Readout

/-- the message of an answer -/
def message? : Outcome → Option Message
  | .ok answer => answer
  | .error _ => none

/-- what the answers of a loop say, when these bytes are left -/
def ofAnswers (answers : List Outcome) (left : Bytes) : Readout where
  messages := answers.filterMap message?
  ending := match answers.getLast? with
    | some (.error e) => .error e
    | _ => .ok left

/-- go on with the bytes that are left, unless something is wrong -/
def andThen (r : Readout) (next : Bytes → Readout) : Readout :=
  match r.ending with
  | .ok left => ⟨r.messages ++ (next left).messages, (next left).ending⟩
  | .error _ => r

/-- put a message in front -/
def after (m : Message) (r : Readout) : Readout := ⟨m :: r.messages, r.ending⟩

theorem andThen_after (m : Message) (r : Readout) (next : Bytes → Readout) :
    (after m r).andThen next = after m (r.andThen next) := by
  obtain ⟨messages, ending⟩ := r
  cases ending <;> rfl

end Readout

open Readout

/-- read a buffer until more bytes are needed or something is wrong -/
def readAll (max : Nat) (buf : Bytes) : Readout := .ofAnswers (drainAll max buf).1 (drainAll max buf).2

/-- bytes arrive chunk by chunk, and after each the buffer is read; an error ends this for good -/
def readChunks (max : Nat) (buf : Bytes) : List Bytes → Readout
  | [] => ⟨[], .ok buf⟩
  | chunk :: chunks => (readAll max (buf ++ chunk)).andThen fun left => readChunks max left chunks

theorem readAll_of_message (h : Frame.read max buf = (.ok (some m), rest)) :
    readAll max buf = after m (readAll max rest) := by
  have hshorter := attemptsFor_of_message h
  obtain ⟨n, hn⟩ : ∃ n, attemptsFor buf = n + 1 := ⟨attemptsFor buf - 1, by omega⟩
  have henough : attemptsFor rest ≤ n := by omega
  obtain ⟨hsame, hstopped, -⟩ := drain_stops max henough
  obtain ⟨last, hlast, -⟩ := hstopped
  unfold readAll
  rw [drainAll, hn, drain_of_message h, hsame]
  unfold ofAnswers after
  rw [List.getLast?_cons, Option.mem_def.1 hlast]
  rfl

theorem readAll_of_error {e : ProtocolError} (h : Frame.read max buf = (.error e, rest)) :
    readAll max buf = ⟨[], .error e⟩ := by
  unfold readAll drainAll attemptsFor
  rw [drain_of_decided h (by simp)]
  rfl

theorem readAll_of_none (h : Frame.read max buf = (.ok none, rest)) : readAll max buf = ⟨[], .ok buf⟩ := by
  obtain rfl := Frame.eq_of_read_none h
  unfold readAll drainAll attemptsFor
  rw [drain_of_decided h (by simp)]
  rfl

/-- what is left to wait holds nothing to read -/
theorem readAll_left {left : Bytes} (h : (readAll max buf).ending = .ok left) : readAll max left = ⟨[], .ok left⟩ := by
  induction hn : buf.length using Nat.strong_induction_on generalizing buf with
  | _ n ih =>
    rcases hread : Frame.read max buf with ⟨_ | _ | m, rest⟩
    · rw [readAll_of_error hread] at h
      cases h
    · rw [readAll_of_none hread] at h
      cases h
      exact readAll_of_none hread
    · rw [readAll_of_message hread] at h
      have hlength := Frame.length_of_read_message hread
      exact ih rest.length (by unfold FrameHeader.size at hlength; omega) h rfl

/-- **Reading a buffer and then more bytes is reading all of them**, as long as nothing was wrong. -/
theorem readAll_append (max : Nat) (buf more : Bytes) :
    readAll max (buf ++ more) = (readAll max buf).andThen fun left => readAll max (left ++ more) := by
  induction hn : buf.length using Nat.strong_induction_on generalizing buf with
  | _ n ih =>
    rcases hread : Frame.read max buf with ⟨_ | _ | m, rest⟩
    · rw [readAll_of_error hread, readAll_of_error (Frame.read_append hread (by simp) more)]
      rfl
    · rw [readAll_of_none hread]
      rfl
    · have hlength := Frame.length_of_read_message hread
      have hrest := ih rest.length (by unfold FrameHeader.size at hlength; omega) rest rfl
      rw [readAll_of_message hread, readAll_of_message (Frame.read_append hread (by simp) more), hrest, andThen_after]

theorem readChunks_eq_readAll {buf : Bytes} (hbuf : readAll max buf = ⟨[], .ok buf⟩) (chunks : List Bytes) :
    readChunks max buf chunks = readAll max (buf ++ chunks.flatten) := by
  induction chunks generalizing buf with
  | nil => rw [readChunks, List.flatten_nil, List.append_nil, hbuf]
  | cons chunk chunks ih =>
    rw [readChunks, List.flatten_cons, ← List.append_assoc, readAll_append max (buf ++ chunk)]
    unfold andThen
    cases hending : (readAll max (buf ++ chunk)).ending with
    | error e => rfl
    | ok left =>
      dsimp only
      rw [ih (readAll_left hending)]

/-- **Chunking never matters.** Any bytes, however they are cut into chunks, are read as the same messages and with the same
ending as when they arrive at once: the same error, or the same bytes left to wait. And reading what a buffer holds stops by
itself, after at most one call for every eight bytes in it, and one; more attempts would change nothing. -/
theorem chunking_never_matters (max : Nat) :
    (∀ chunks : List Bytes, readChunks max [] chunks = readChunks max [] [chunks.flatten]) ∧
    ∀ (buf : Bytes) (attempts : Nat), buf.length / 8 + 1 ≤ attempts →
      Stopped (drain max attempts buf).1 ∧ (drain max attempts buf).1.length ≤ buf.length / 8 + 1 ∧
        drain max attempts buf = drainAll max buf := by
  constructor
  · intro chunks
    have hwaits : Frame.read max [] = (.ok none, []) := rfl
    have hnothing : readAll max [] = ⟨[], .ok []⟩ := readAll_of_none hwaits
    rw [readChunks_eq_readAll hnothing, readChunks_eq_readAll hnothing, List.flatten_singleton]
  · intro buf attempts h
    obtain ⟨hsame, hstopped, hcalls⟩ := drain_stops max h
    rw [hsame]
    exact ⟨hstopped, hcalls, rfl⟩

/-- rubbish after a ping, cut inside both headers -/
example :
    let bytes : Bytes := [0x83, 0x84, 0, 0x28, 0, 0, 0, 0, 0x83, 0x85, 0, 0x28, 0, 0, 0, 0, 0x83]
    readChunks 100 [] [bytes.take 3, (bytes.drop 3).take 8, bytes.drop 11] = ⟨[.ping], .error (.badMagic 0x83 0x85)⟩ := by
  rfl

end Stream

end MetricSurvey

/-
Bytes in transit: what one end has framed and the other has not yet taken, in order. They lie in three places: in the
buffer of the end that reads, in the pipe, and with the end that writes.

- `arrive`, `depart`, `write`: bytes that move on stay in transit, and a message that is framed comes last.
- `read`: the end that reads finds a message that was framed, the oldest, or waits; it never finds anything wrong.
- `nil_of_waiting`: when nothing lies elsewhere and the reader waits, nothing is in transit at all.
-/
import MetricSurvey.Proofs.Wire.Stream

namespace MetricSurvey

/-- The bytes in the reader's buffer, in the pipe and with the writer are the frames of these messages. -/
def InTransit (buffer held pending : Bytes) (ms : List Message) : Prop :=
  buffer ++ held ++ pending = ms.flatMap Frame.bytes

namespace InTransit

variable {buffer held pending bs : Bytes} {ms : List Message} {max : Nat}

theorem nothing : InTransit [] [] [] [] := rfl

/-- bytes arrive in the reader's buffer -/
theorem arrive (h : InTransit buffer held pending ms) (hbs : bs <+: held) :
    InTransit (buffer ++ bs) (held.drop bs.length) pending ms := by
  obtain ⟨rest, rfl⟩ := hbs
  rw [List.drop_left]
  unfold InTransit at h ⊢
  rw [← h]
  simp only [List.append_assoc]

/-- the pipe takes bytes from the writer -/
theorem depart (h : InTransit buffer held pending ms) (n : Nat) :
    InTransit buffer (held ++ pending.take n) (pending.drop n) ms := by
  unfold InTransit at h ⊢
  rw [← h, List.append_assoc, List.append_assoc, List.append_assoc, List.take_append_drop]

/-- a message is framed -/
theorem write (h : InTransit buffer held pending ms) (m : Message) :
    InTransit buffer held (pending ++ Frame.bytes m) (ms ++ [m]) := by
  unfold InTransit at h ⊢
  rw [← List.append_assoc, h, List.flatMap_append, List.flatMap_singleton]

/-- **The reader finds the oldest message, or waits.** -/
theorem read (h : InTransit buffer held pending ms) (hfit : ∀ m ∈ ms, Frame.Fits max m) :
    Frame.read max buffer = (.ok none, buffer) ∨
      ∃ m rest ms', Frame.read max buffer = (.ok (some m), rest) ∧ ms = m :: ms' ∧ InTransit rest held pending ms' := by
  have hprefix : buffer <+: ms.flatMap Frame.bytes := ⟨held ++ pending, by rw [← List.append_assoc, h]⟩
  obtain ⟨before, after, part, rfl, rfl, hpart⟩ := Stream.exists_partOf hprefix
  cases before with
  | nil => exact Or.inl (hpart.read hfit)
  | cons m before =>
    right
    refine ⟨m, before.flatMap Frame.bytes ++ part, before ++ after, ?_, rfl, ?_⟩
    · rw [List.flatMap_cons, List.append_assoc, Frame.read_frame (hfit m (by simp))]
    · unfold InTransit at h ⊢
      simp only [List.flatMap_append, List.flatMap_cons, List.append_assoc, List.cons_append] at h ⊢
      exact List.append_cancel_left h

/-- **Nothing is in transit** when the reader waits and nothing lies elsewhere. -/
theorem nil_of_waiting (h : InTransit buffer [] [] ms) (hfit : ∀ m ∈ ms, Frame.Fits max m)
    (hread : (Frame.read max buffer).1 = .ok none) : buffer = [] ∧ ms = [] := by
  unfold InTransit at h
  rw [List.append_nil, List.append_nil] at h
  cases ms with
  | nil => exact ⟨h, rfl⟩
  | cons m ms =>
    rw [h, List.flatMap_cons, Frame.read_frame (hfit m List.mem_cons_self)] at hread
    cases hread

end InTransit

end MetricSurvey

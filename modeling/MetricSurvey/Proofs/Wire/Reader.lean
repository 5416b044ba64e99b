/-
Readers that take back what was written.

`Reads r bs a`: off the front of anything that begins with `bs`, the reader takes `bs` and answers `a`.

- `Reads.bind` and what follows it: readers that read one piece after another read the pieces put together.
- `reads_number`: a number that fits its width is read back.
- `toText?_ofText`: the bytes of a text are those of no other.
-/
import Mathlib.Tactic
import MetricSurvey.Wire.Bytes

namespace MetricSurvey

namespace Bytes

@[simp] theorem length_ofNat (width n : Nat) : (ofNat width n).length = width := by
  induction width with
  | zero => rfl
  | succ w ih => rw [ofNat, List.length_cons, ih]

/-- digits that follow a number -/
theorem foldl_ofNat (width n acc : Nat) :
    (ofNat width n).foldl (fun n b => n * 256 + b.toNat) acc = acc * 256 ^ width + n % 256 ^ width := by
  induction width generalizing acc with
  | zero => simp [ofNat, Nat.mod_one]
  | succ w ih =>
    have hdigit : (UInt8.ofNat (n / 256 ^ w)).toNat = n / 256 ^ w % 256 := UInt8.toNat_ofNat'
    have hsplit : n % 256 ^ (w + 1) = n % 256 ^ w + 256 ^ w * (n / 256 ^ w % 256) := by
      rw [pow_succ, Nat.mod_mul]
    rw [ofNat, List.foldl_cons, ih, hsplit, Nat.pow_eq, hdigit, pow_succ]
    ring

/-- **A number that fits its width is the one that its bytes spell.** -/
theorem toNat_ofNat {width n : Nat} (h : n < 256 ^ width) : toNat (ofNat width n) = n := by
  rw [toNat, foldl_ofNat, Nat.zero_mul, Nat.zero_add, Nat.mod_eq_of_lt h]

/-- **The bytes of a text are those of no other.** -/
theorem toText?_ofText (s : String) : toText? (ofText s) = some s := by
  have hbytes : (⟨(ofText s).toArray⟩ : ByteArray) = s.toUTF8 := by
    rw [ofText, Array.toArray_toList]
  rw [toText?, hbytes, String.fromUTF8?, String.toUTF8_eq_toByteArray, dif_pos s.isValidUTF8]
  rfl

theorem ofText_injective : Function.Injective ofText := by
  intro s t h
  have hs := toText?_ofText s
  rw [h, toText?_ofText] at hs
  exact (Option.some.inj hs).symm

theorem ofText_append (s t : String) : ofText (s ++ t) = ofText s ++ ofText t := by
  unfold ofText
  simp

/-- the bytes of texts put together -/
theorem ofText_join (texts : List String) : ofText (String.join texts) = texts.flatMap ofText := by
  induction texts with
  | nil => rfl
  | cons s texts ih => rw [String.join_cons, ofText_append, ih, List.flatMap_cons]

/-- the two's complement of a negative number reads as that number -/
theorem signed_complement {bits : Nat} {i : Int} (hbits : 0 < bits) (hlow : -2 ^ (bits - 1) ≤ i) (hneg : i < 0) :
    signed bits (2 ^ bits + i).toNat = i := by
  obtain ⟨b, rfl⟩ : ∃ b, bits = b + 1 := ⟨bits - 1, by omega⟩
  rw [Nat.add_sub_cancel] at hlow
  have hdouble : (2 : Int) ^ (b + 1) = 2 * 2 ^ b := by ring
  have hcast : ((2 ^ (b + 1) + i).toNat : Int) = 2 ^ (b + 1) + i := Int.toNat_of_nonneg (by omega)
  have hge : ¬ (2 ^ (b + 1) + i).toNat < Nat.pow 2 (b + 1 - 1) := by
    rw [Nat.add_sub_cancel, Nat.pow_eq, not_lt, ← Int.ofNat_le, hcast]
    push_cast
    omega
  rw [signed, if_neg hge, hcast, Nat.pow_eq]
  push_cast
  ring

end Bytes

/-- off the front of anything that begins with these bytes, the reader takes them and answers this value -/
def Reads {α : Type} (r : Reader α) (bs : Bytes) (a : α) : Prop := ∀ rest, r (bs ++ rest) = some (a, rest)

namespace Reads

variable {α β σ : Type} {bs bs' : Bytes}

theorem pure (a : α) : Reads (Pure.pure a : Reader α) [] a := by
  intro rest
  rfl

/-- to go on from what has been read -/
theorem bind_apply {r : Reader α} {a : α} (h : Reads r bs a) (f : α → Reader β) (rest : Bytes) :
    (r >>= f) (bs ++ rest) = f a rest := by
  show (r (bs ++ rest)).bind (fun p => f p.1 p.2) = f a rest
  rw [h]
  rfl

theorem bind {r : Reader α} {f : α → Reader β} {a : α} {b : β} (h : Reads r bs a) (hf : Reads (f a) bs' b) :
    Reads (r >>= f) (bs ++ bs') b := by
  intro rest
  rw [List.append_assoc, h.bind_apply]
  exact hf rest

/-- to read something and then nothing more -/
theorem bind_nil {r : Reader α} {f : α → Reader β} {a : α} {b : β} (h : Reads r bs a) (hf : Reads (f a) [] b) :
    Reads (r >>= f) bs b := by
  have hboth := h.bind hf
  rwa [List.append_nil] at hboth

theorem map {r : Reader α} {a : α} (h : Reads r bs a) (f : α → β) : Reads (f <$> r) bs (f a) := by
  intro rest
  show (r (bs ++ rest)).bind (fun p => some (f p.1, p.2)) = some (f a, rest)
  rw [h]
  rfl

theorem ofOption (a : α) : Reads (Reader.ofOption (some a)) [] a := pure a

theorem take (bs : Bytes) : Reads (Reader.take bs.length) bs bs := by
  intro rest
  simp [Reader.take]

theorem number {width n : Nat} (h : n < 256 ^ width) : Reads (Reader.number width) (Bytes.ofNat width n) n := by
  have hdigits : Reads (Reader.take width) (Bytes.ofNat width n) (Bytes.ofNat width n) := by
    have htake := take (Bytes.ofNat width n)
    rwa [Bytes.length_ofNat] at htake
  have hnumber := hdigits.map Bytes.toNat
  rwa [Bytes.toNat_ofNat h] at hnumber

/-- one value after another -/
theorem times {r : Reader α} {w : α → Bytes} {as : List α} (h : ∀ a ∈ as, Reads r (w a) a) :
    Reads (Reader.times r as.length) (as.flatMap w) as := by
  induction as with
  | nil => exact pure []
  | cons a as ih =>
    have hfirst := h a List.mem_cons_self
    have hrest := ih fun b hb => h b (List.mem_cons_of_mem a hb)
    rw [List.flatMap_cons, List.length_cons, Reader.times]
    exact hfirst.bind (hrest.bind_nil (pure _))

/-- one step after another, each with something of its own -/
theorem iterate {step : σ → Reader σ} {w : α → Bytes} {f : σ → α → σ} {as : List α}
    (h : ∀ s, ∀ a ∈ as, Reads (step s) (w a) (f s a)) (s : σ) :
    Reads (Reader.iterate step as.length s) (as.flatMap w) (as.foldl f s) := by
  induction as generalizing s with
  | nil => exact pure s
  | cons a as ih =>
    have hfirst := h s a List.mem_cons_self
    have hrest := ih (fun s b hb => h s b (List.mem_cons_of_mem a hb)) (f s a)
    rw [List.flatMap_cons, List.length_cons, List.foldl_cons, Reader.iterate]
    exact hfirst.bind hrest

end Reads

end MetricSurvey

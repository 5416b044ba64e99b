/-
Limits: whether a server whose configuration is accepted can say what it has to say.

A server sends requests, pings and pongs. The limit on bodies holds for what it sends as for what it is sent, and no
demand is made of the limit when a configuration is checked.

- `length_request`: the length of a request, by the width of its time.
- `fits_of_ofServer`: twenty bytes are enough for all that a server sends.
- `tooLarge_handle`: then a body that is too large was announced by the peer, in every run of a session.
- `room_for_requests`: what an accepted configuration lets its server say, and what becomes of a session that may not.
- `accepted_but_speechless`: an accepted configuration under which the first survey ends a session.
-/
import MetricSurvey.Config.Document
import MetricSurvey.Proofs.Connection.Forwarding

namespace MetricSurvey

/-! ## Lengths of bodies -/

namespace Item

/-- how many bytes a whole number takes -/
def intWidth (i : Int) : Nat :=
  if -32 ≤ i ∧ i < 2 ^ 7 then 1
  else if -2 ^ 7 ≤ i ∧ i < 2 ^ 8 then 2
  else if -2 ^ 15 ≤ i ∧ i < 2 ^ 16 then 3
  else if -2 ^ 31 ≤ i ∧ i < 2 ^ 32 then 5
  else 9

/-- the forms of an unsigned number, the first that holds it -/
theorem unsigned_eq (n : Nat) : unsigned n =
    if n < 128 then [UInt8.ofNat (0 + n)]
    else if n < 256 ^ 1 then 0xcc :: Bytes.ofNat 1 n
    else if n < 256 ^ 2 then 0xcd :: Bytes.ofNat 2 n
    else if n < 256 ^ 4 then 0xce :: Bytes.ofNat 4 n
    else if n < 256 ^ 8 then 0xcf :: Bytes.ofNat 8 n
    else [] := by
  unfold unsigned lengthHead
  simp only [List.find?_cons, List.find?_nil, Nat.pow_eq]
  split_ifs with h0 h1 h2 h3 h4
  · rfl
  · rw [decide_eq_true h1]
    rfl
  · rw [decide_eq_false h1, decide_eq_true h2]
    rfl
  · rw [decide_eq_false h1, decide_eq_false h2, decide_eq_true h3]
    rfl
  · rw [decide_eq_false h1, decide_eq_false h2, decide_eq_false h3, decide_eq_true h4]
    rfl
  · rw [decide_eq_false h1, decide_eq_false h2, decide_eq_false h3, decide_eq_false h4]

theorem length_int {i : Int} (h : i < 2 ^ 64) : (int i).length = intWidth i := by
  have hunsigned : ∀ n : Nat, n < 2 ^ 64 → (unsigned n).length = intWidth n := by
    intro n hn
    rw [unsigned_eq, intWidth]
    split_ifs <;> first | omega | simp
  unfold int
  split_ifs with h0 h1 h2 h3 h4
  · obtain ⟨n, rfl⟩ := Int.eq_ofNat_of_zero_le h0
    exact hunsigned n (by omega)
  · rw [intWidth, if_pos ⟨h1, by omega⟩]
    rfl
  all_goals
    rw [List.length_cons, Bytes.length_ofNat, intWidth]
    simp only [Nat.pow_eq] at *
    split_ifs <;> omega

theorem intWidth_le (i : Int) : intWidth i ≤ 9 := by
  unfold intWidth
  split_ifs <;> decide

end Item

namespace Body

/-- how long the body of a request is -/
def requestLength (time : SurveyTime) : Nat := 11 + Item.intWidth time.toInt

/-- **The length of a request**: the name of its field, and its time in the shortest form. -/
theorem length_request (time : SurveyTime) : (encode (.reportAll time)).length = requestLength time := by
  have htime : (Item.int time.toInt).length = Item.intWidth time.toInt :=
    Item.length_int (time.toInt_lt.trans (by decide))
  have hname : (Item.mapHead 1 ++ Item.text "Timestamp").length = 11 := by decide
  rw [encode, record, List.flatMap_singleton, ← List.append_assoc, List.length_append, htime]
  exact congrArg (· + Item.intWidth time.toInt) hname

theorem requestLength_le (time : SurveyTime) : requestLength time ≤ 20 :=
  Nat.add_le_add_left (Item.intWidth_le time.toInt) 11

end Body

/-- what a server sends to its clients -/
def Message.ofServer : Message → Bool
  | .ping | .pong | .reportAll _ => true
  | _ => false

namespace Frame

/-- **Twenty bytes are enough** for all that a server sends. -/
theorem fits_of_ofServer {m : Message} (hm : m.ofServer = true) {max : Nat} (hmax : 20 ≤ max) : Fits max m := by
  have hlength : (Body.encode m).length ≤ 20 := by
    cases m with
    | reportAll time => exact (Body.length_request time).trans_le (Body.requestLength_le time)
    | ping => exact Nat.zero_le 20
    | pong => exact Nat.zero_le 20
    | _ => cases hm
  exact ⟨hlength.trans hmax, hlength.trans_lt (by decide)⟩

theorem write_request (max : Nat) (time : SurveyTime) : write max (.reportAll time) =
    if Body.requestLength time ≤ max then .ok (bytes (.reportAll time))
    else .error (.frameTooLarge (Body.requestLength time) max) := by
  have hle := Body.requestLength_le time
  split_ifs with hfits
  · refine write_of_fits ⟨?_, ?_⟩
    · rwa [Body.length_request]
    · rw [Body.length_request]
      omega
  · simp only [write, Body.length_request]
    rw [if_pos (Or.inl (Nat.not_le.1 hfits))]

/-- all requests are written just when the widest is -/
theorem write_requests_iff (max : Nat) : (∀ time, ∃ bs, write max (.reportAll time) = .ok bs) ↔ 20 ≤ max := by
  constructor
  · intro h
    obtain ⟨bs, hbs⟩ := h Int64.maxValue
    rw [write_request, show Body.requestLength Int64.maxValue = 20 by decide] at hbs
    by_contra hshort
    rw [if_neg hshort] at hbs
    cases hbs
  · intro hmax time
    exact ⟨_, write_of_fits (fits_of_ofServer rfl hmax)⟩

end Frame

/-! ## Sessions under a limit -/

namespace Session

variable {s : Session}

/-- a session has begun to end because a body was too large -/
def RefusedBody (s : Session) (size max : Nat) : Prop :=
  ∃ deadline, s.phase = .closing deadline (some (.protocol (.frameTooLarge size max)))

/-- who gives a session messages to send gives it a server's -/
def Input.Own : Input → Prop
  | .send m => m.ofServer = true
  | _ => True

/-- all that waits to be sent is a server's -/
def QueueOwn (s : Session) : Prop := ∀ m ∈ s.queue, m.ofServer = true

theorem queue_write (now : Duration) (s : Session) (m : Message) : (s.write now m).queue = s.queue := by
  unfold write
  split <;> rfl

theorem queue_hear (now : Duration) (s : Session) (m : Message) : (s.hear now m).1.queue = s.queue := by
  cases m with
  | ping => exact queue_write now s .pong
  | _ => rfl

/-- an event takes messages off the queue, if anything -/
theorem queue_react (now : Duration) (s : Session) (e : SessionEvent) : (s.react now e).1.queue <:+ s.queue := by
  have hsame : s.queue <:+ s.queue := List.suffix_refl _
  unfold react
  split
  · split <;> exact hsame
  · unfold serve
    split
    · split <;> exact hsame
    · exact hsame
    · unfold readFrame
      split
      · rw [queue_hear]
      · exact hsame
      · exact hsame
    · exact hsame
    · exact hsame
    · split
      · rename_i m rest hqueue
        rw [queue_write, hqueue]
        exact List.suffix_cons m rest
      · exact hsame
    · split <;> exact hsame
    · split
      · rw [queue_write]
      · exact hsame
    · split <;> exact hsame
    · exact hsame
  · unfold awaitWrite
    split
    · exact hsame
    · split <;> exact hsame
    · exact hsame
    · split <;> exact hsame
    · exact hsame
  · split <;> exact hsame
  · exact hsame

theorem queueOwn_handle (h : s.QueueOwn) {i : Input} (hi : i.Own) : (s.handle i).1.QueueOwn := by
  cases i with
  | event now e =>
    intro m hm
    exact h m ((queue_react now s e).subset hm)
  | cancel => exact h
  | send m =>
    intro m' hm'
    simp only [handle, send] at hm'
    split_ifs at hm'
    · exact h m' hm'
    · rcases List.mem_append.1 hm' with hold | hnew
      · exact h m' hold
      · rwa [List.mem_singleton.1 hnew]
    · exact h m' hm'

theorem queueOwn_run (id : ClientId) (limits : SessionLimits) {is : List Input} (his : ∀ i ∈ is, i.Own) :
    ((History.start (.new id limits)).run is).session.QueueOwn := by
  induction is using List.reverseRecOn with
  | nil => exact nofun
  | append_singleton is i ih =>
    rw [History.run_snoc]
    exact queueOwn_handle (ih fun j hj => his j (List.mem_append_left [i] hj)) (his i (by simp))

/-! ## Who announces too much -/

variable {now : Duration} {size max : Nat}

/-- a session that goes on has refused no body -/
theorem not_refusedBody_of_live (h : s.isOver = false) : ¬ s.RefusedBody size max := by
  rintro ⟨deadline, hphase⟩
  rw [isOver, hphase] at h
  cases h

/-- nor has a session that ends for a reason of another kind -/
theorem not_refusedBody_finish (now : Duration) (s : Session) {reason : Option SessionError}
    (h : ∀ size max, reason ≠ some (.protocol (.frameTooLarge size max))) :
    ¬ (s.finish now reason).RefusedBody size max := by
  rintro ⟨deadline, hphase⟩
  simp only [finish, SessionPhase.closing.injEq] at hphase
  exact h size max hphase.2

theorem not_refusedBody_write {m : Message} (hm : m.ofServer = true) (hmax : 20 ≤ s.limits.maxFrame) :
    ¬ (s.write now m).RefusedBody size max := by
  rw [write, Frame.write_of_fits (Frame.fits_of_ofServer hm hmax)]
  exact not_refusedBody_of_live rfl

theorem not_refusedBody_hear (m : Message) (hover : s.isOver = false) (hmax : 20 ≤ s.limits.maxFrame) :
    ¬ (s.hear now m).1.RefusedBody size max := by
  cases m with
  | ping => exact not_refusedBody_write rfl hmax
  | reportAll time => exact not_refusedBody_finish now s nofun
  | _ => exact not_refusedBody_of_live hover

/-- looking at what has arrived, a session refuses just what the bytes announce -/
theorem tooLarge_readFrame (hover : s.isOver = false) (hmax : 20 ≤ s.limits.maxFrame)
    (h : (s.readFrame now).1.RefusedBody size max) :
    (Frame.read s.limits.maxFrame s.incoming).1 = .error (.frameTooLarge size max) := by
  unfold readFrame at h
  split at h
  · rename_i m rest _
    exact absurd h (not_refusedBody_hear (s := { s with incoming := rest, lastHeard := now }) m hover hmax)
  · exact absurd h (not_refusedBody_of_live hover)
  · rename_i e rest hread
    obtain ⟨deadline, hreason⟩ := h
    simp only [finish, SessionPhase.closing.injEq, Option.some.injEq, SessionError.protocol.injEq] at hreason
    rw [hread, hreason.2]

theorem tooLarge_serve (hown : s.QueueOwn) (hover : s.isOver = false) (hmax : 20 ≤ s.limits.maxFrame) {e : SessionEvent}
    (h : (s.serve now e).1.RefusedBody size max) :
    e = .frame ∧ (Frame.read s.limits.maxFrame s.incoming).1 = .error (.frameTooLarge size max) := by
  have hsame : ¬ s.RefusedBody size max := not_refusedBody_of_live hover
  cases e with
  | frame => exact ⟨rfl, tooLarge_readFrame hover hmax h⟩
  | arrival bytes => exact absurd h (not_refusedBody_of_live (s := { s with incoming := s.incoming ++ bytes }) hover)
  | outbound =>
    simp only [serve] at h
    split at h
    · rename_i m rest hqueue
      exact absurd h (not_refusedBody_write (hown m (by simp [hqueue])) hmax)
    · exact absurd h hsame
  | pingTime =>
    simp only [serve] at h
    split at h
    · exact absurd h (not_refusedBody_write rfl hmax)
    · exact absurd h hsame
  | endOfStream =>
    refine absurd h (not_refusedBody_finish now s ?_)
    split <;> simp
  | readFailure => exact absurd h (not_refusedBody_finish now s (by simp))
  | cancellation | release | idleTime =>
    simp only [serve] at h
    split at h
    · exact absurd h (not_refusedBody_finish now s (by simp))
    · exact absurd h hsame
  | _ => exact absurd h hsame

theorem not_refusedBody_awaitWrite (hover : s.isOver = false) (deadline : Duration) (e : SessionEvent) :
    ¬ (s.awaitWrite now deadline e).1.RefusedBody size max := by
  cases e with
  | taken n => exact not_refusedBody_of_live (s := (s.take n).1) hover
  | writeFailure => exact not_refusedBody_finish now s (by simp)
  | flushed =>
    simp only [awaitWrite]
    split
    · exact not_refusedBody_of_live rfl
    · exact not_refusedBody_of_live hover
  | writeDeadline =>
    simp only [awaitWrite]
    split
    · exact not_refusedBody_finish now s (by simp)
    · exact not_refusedBody_of_live hover
  | _ => exact not_refusedBody_of_live hover

/-- **A body that is too large was announced by the peer**, if the limit leaves room for what a server sends: whatever
happens to a session that still goes on, only looking at what has arrived can make it refuse a body. -/
theorem tooLarge_handle (hown : s.QueueOwn) (hover : s.isOver = false) (hmax : 20 ≤ s.limits.maxFrame) {i : Input}
    (h : (s.handle i).1.RefusedBody size max) :
    (∃ now, i = .event now .frame) ∧ (Frame.read s.limits.maxFrame s.incoming).1 = .error (.frameTooLarge size max) := by
  cases i with
  | cancel => exact absurd h (not_refusedBody_of_live (s := s.cancel) hover)
  | send m =>
    refine absurd h (not_refusedBody_of_live ?_)
    simp only [handle, send]
    split_ifs <;> exact hover
  | event now e =>
    simp only [handle, react] at h
    split at h
    · split at h
      · exact absurd h (not_refusedBody_of_live rfl)
      · exact absurd h (not_refusedBody_of_live hover)
    · obtain ⟨rfl, hread⟩ := tooLarge_serve hown hover hmax h
      exact ⟨⟨now, rfl⟩, hread⟩
    · exact absurd h (not_refusedBody_awaitWrite hover _ e)
    · rename_i deadline reason hphase
      rw [isOver, hphase] at hover
      cases hover
    · exact absurd h (not_refusedBody_of_live hover)

theorem write_request (now : Duration) (s : Session) (time : SurveyTime) : s.write now (.reportAll time) =
    if Body.requestLength time ≤ s.limits.maxFrame then
      { s with
        outgoing := s.outgoing ++ Frame.bytes (.reportAll time)
        phase := .writing (now + s.limits.writeTimeout) }
    else s.finish now (some (.protocol (.frameTooLarge (Body.requestLength time) s.limits.maxFrame))) := by
  rw [write, Frame.write_request]
  split_ifs <;> rfl

end Session

/-! ## The law -/

namespace ServerConfig

open MetricSurvey.Session

/-- **What an accepted configuration lets its server say.**

- The limit on bodies does not matter for being accepted.
- Pings and pongs are always written. A request is written just when its body, eleven bytes and the width of its time, is
  within the limit; so all requests are written just when the limit is at least twenty.
- A session that has a request to send frames it if it is written, and otherwise ends.
- If the limit is at least twenty, then in every run of a session that is given messages of a server to send, a body is
  refused only for what the peer announced. -/
theorem room_for_requests {c : ServerConfig} (haccepted : c.validate = .ok ()) :
    (∀ max, ({ c with maxFrameBytes := max } : ServerConfig).validate = .ok ()) ∧
    (Frame.write c.maxFrameBytes.toNat .ping = .ok (Frame.bytes .ping) ∧
      Frame.write c.maxFrameBytes.toNat .pong = .ok (Frame.bytes .pong) ∧
      (∀ time, Frame.write c.maxFrameBytes.toNat (.reportAll time) =
        if 11 + Item.intWidth time.toInt ≤ c.maxFrameBytes.toNat then .ok (Frame.bytes (.reportAll time))
        else .error (.frameTooLarge (11 + Item.intWidth time.toInt) c.maxFrameBytes.toNat)) ∧
      ((∀ m : Message, m.ofServer = true → ∃ bs, Frame.write c.maxFrameBytes.toNat m = .ok bs) ↔ 20 ≤ c.maxFrameBytes)) ∧
    (∀ (s : Session) (now : Duration) (time : SurveyTime) (rest : List Message), s.limits = c.sessionLimits →
      s.phase = .serving → s.queue = .reportAll time :: rest → s.react now .outbound =
        (if 11 + Item.intWidth time.toInt ≤ c.maxFrameBytes.toNat then
          { s with
            queue := rest
            outgoing := s.outgoing ++ Frame.bytes (.reportAll time)
            phase := .writing (now + c.writeTimeout) }
        else { s with queue := rest }.finish now
          (some (.protocol (.frameTooLarge (11 + Item.intWidth time.toInt) c.maxFrameBytes.toNat))), [])) ∧
    (20 ≤ c.maxFrameBytes → ∀ (id : ClientId) (is : List Input), (∀ m, .send m ∈ is → m.ofServer = true) →
      let s := ((History.start (.new id c.sessionLimits)).run is).session
      s.isOver = false → ∀ i size max, (s.handle i).1.RefusedBody size max → (∃ now, i = .event now .frame) ∧
        (Frame.read c.maxFrameBytes.toNat s.incoming).1 = .error (.frameTooLarge size max)) := by
  have htwenty : 20 ≤ c.maxFrameBytes ↔ 20 ≤ c.maxFrameBytes.toNat := UInt64.le_iff_toNat_le
  refine ⟨fun max => haccepted, ⟨rfl, rfl, Frame.write_request _, ?_⟩, ?_, ?_⟩
  · rw [htwenty]
    constructor
    · intro h
      exact (Frame.write_requests_iff _).1 fun time => h (.reportAll time) rfl
    · intro hmax m hm
      exact ⟨_, Frame.write_of_fits (Frame.fits_of_ofServer hm hmax)⟩
  · intro s now time rest hlimits hphase hqueue
    obtain ⟨id, limits, state, phase, cancelled, queue, queueOpen, incoming, outgoing, lastHeard, lastPing⟩ := s
    cases hlimits
    cases hphase
    cases hqueue
    exact congrArg (·, []) (write_request now _ time)
  · intro hmax id is hsent s hover i size max hrefused
    have hlimits : s.limits = c.sessionLimits := (faithful id c.sessionLimits is).sameLimits
    have hown : s.QueueOwn := by
      refine queueOwn_run id c.sessionLimits fun i hi => ?_
      cases i with
      | send m => exact hsent m hi
      | _ => trivial
    have htooLarge := tooLarge_handle hown hover (hlimits ▸ htwenty.1 hmax) hrefused
    rwa [hlimits] at htooLarge

/-- The configuration with all its defaults: every request is written, and a session refuses no body by sending. -/
theorem room_for_requests_default :
    let c : ServerConfig := {}
    let s := ((History.start (.new 1 c.sessionLimits)).run [.event .zero .start, .send (.reportAll 1700000000)]).session
    c.validate = .ok () ∧ (∀ m : Message, m.ofServer = true → ∃ bs, Frame.write c.maxFrameBytes.toNat m = .ok bs) ∧
    (s.react .zero .outbound).1.phase = .writing (.ofSecs 1) ∧
    ∀ size max, ¬ (s.react .zero .outbound).1.RefusedBody size max := by
  intro c s
  have haccepted : c.validate = .ok () := by decide
  obtain ⟨-, ⟨-, -, -, hall⟩, hsession, hrun⟩ := room_for_requests haccepted
  have houtbound := hsession s .zero 1700000000 [] (by decide) (by decide) (by decide)
  rw [if_pos (by decide)] at houtbound
  refine ⟨haccepted, hall.2 (by decide), by rw [houtbound]; decide, ?_⟩
  intro size max hrefused
  have hsent : ∀ m, .send m ∈ [Input.event .zero .start, .send (.reportAll 1700000000)] → m.ofServer = true := by
    intro m hm
    simp only [List.mem_cons, List.not_mem_nil, or_false, reduceCtorEq, false_or, Input.send.injEq] at hm
    rw [hm]
    rfl
  obtain ⟨⟨now, hframe⟩, -⟩ := hrun (by decide) 1 _ hsent (by decide) (.event .zero .outbound) size max hrefused
  cases hframe

/-- With a limit of fifteen bytes a configuration is accepted, but a request of the present has sixteen: it is not written,
and a session that has it to send ends. -/
theorem accepted_but_speechless :
    let c : ServerConfig := { maxFrameBytes := 15 }
    let s := ((History.start (.new 1 c.sessionLimits)).run [.event .zero .start, .send (.reportAll 1700000000)]).session
    c.validate = .ok () ∧
    Frame.write c.maxFrameBytes.toNat (.reportAll 1700000000) = .error (.frameTooLarge 16 15) ∧
    ¬ (∀ m : Message, m.ofServer = true → ∃ bs, Frame.write c.maxFrameBytes.toNat m = .ok bs) ∧
    (s.react .zero .outbound).1.phase = .closing (.ofSecs 1) (some (.protocol (.frameTooLarge 16 15))) := by
  intro c s
  have hwrite : Frame.write c.maxFrameBytes.toNat (.reportAll 1700000000) = .error (.frameTooLarge 16 15) := by
    decide +kernel
  refine ⟨by decide, hwrite, ?_, by decide +kernel⟩
  intro hall
  obtain ⟨bs, hbs⟩ := hall (.reportAll 1700000000) rfl
  rw [hwrite] at hbs
  cases hbs

end ServerConfig

end MetricSurvey

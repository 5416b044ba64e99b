/-
Framing: what a session writes is whole frames, however little of them the transport takes at a time, and however the session
ends.

The loop writes for three causes: a ping was read, a message was given to it to send, or it is time for a ping of its own. It
attends to nothing else while a frame is written, and when it ends it goes on with what it has framed.

- `framed_handle`: an input makes the loop write one message, or leaves what is framed as it is.
- `Transcript`: a history with the messages that were accepted to be sent and those that the loop came to write, with causes.
- `Written.handle`, `written`: what was framed is what the loop came to write, after every input.
- `writes_whole_frames`: so what the transport has taken is a prefix of whole frames, and is read as their messages.
-/
import MetricSurvey.Proofs.Connection.Limits
import MetricSurvey.Proofs.Connection.Turns
import MetricSurvey.Proofs.Wire.Frame

namespace MetricSurvey

open MetricSurvey.Stream MetricSurvey.Stream.Readout

/-! ## Reading what was written -/

namespace Frame

instance (max : Nat) (m : Message) : Decidable (Fits max m) := inferInstanceAs (Decidable (_ ∧ _))

/-- a message that is taken under a limit is taken under every higher one -/
theorem read_message_mono {max max' : Nat} (hmax : max ≤ max') {buf rest : Bytes} {m : Message}
    (h : read max buf = (.ok (some m), rest)) : read max' buf = (.ok (some m), rest) := by
  unfold read at h ⊢
  split_ifs at h ⊢ with hsize
  · cases h
  · cases hparse : FrameHeader.parse buf with
    | error e =>
      rw [hparse] at h
      cases h
    | ok header =>
      simp only [hparse] at h ⊢
      by_cases hlarge : max < header.bodyLength.toNat
      · rw [if_pos hlarge] at h
        cases h
      · rw [if_neg hlarge] at h
        rwa [if_neg fun hlarge' => hlarge (hmax.trans_lt hlarge')]

end Frame

namespace Stream

variable {max max' : Nat}

/-- who reads under a lower limit may stop earlier -/
theorem messages_readAll_mono (hmax : max ≤ max') (buf : Bytes) :
    (readAll max buf).messages <+: (readAll max' buf).messages := by
  induction hn : buf.length using Nat.strong_induction_on generalizing buf with
  | _ n ih =>
    rcases hread : Frame.read max buf with ⟨_ | _ | m, rest⟩
    · rw [readAll_of_error hread]
      exact List.nil_prefix
    · rw [readAll_of_none hread]
      exact List.nil_prefix
    · have hlength := Frame.length_of_read_message hread
      rw [readAll_of_message hread, readAll_of_message (Frame.read_message_mono hmax hread)]
      exact (List.prefix_cons_inj m).2 (ih rest.length (by unfold FrameHeader.size at hlength; omega) rest rfl)

/-- **A prefix of whole frames** is read as the first of their messages, and nothing is wrong with it. -/
theorem readAll_of_cut {ms : List Message} (hfit : ∀ m ∈ ms, Frame.Fits max m) {buf : Bytes}
    (h : buf <+: ms.flatMap Frame.bytes) :
    (readAll max buf).messages <+: ms ∧ ∃ left, (readAll max buf).ending = .ok left := by
  obtain ⟨before, after, part, rfl, rfl, hpart⟩ := exists_partOf h
  have hread := hpart.read fun m hm => hfit m (List.mem_append_right before hm)
  unfold readAll
  rw [drainAll_frames (fun m hm => hfit m (List.mem_append_left after hm)) hread]
  refine ⟨?_, part, ?_⟩
  · have hall : (answers before).filterMap message? = before := by
      rw [answers, List.filterMap_append, List.filterMap_map]
      simp [Function.comp_def, message?]
    show (answers before).filterMap message? <+: _
    rw [hall]
    exact List.prefix_append _ _
  · simp [ofAnswers, answers]

end Stream

/-! ## Causes -/

/-- why a session writes a message -/
inductive Cause where
  /-- a ping was read -/
  | reply
  /-- it was given to the session to be sent -/
  | queued
  /-- nothing was heard for a while -/
  | keepalive
deriving DecidableEq

namespace Session

variable {s : Session}

/-- why an event makes a session write -/
def cause : SessionEvent → Cause
  | .frame => .reply
  | .outbound => .queued
  | _ => .keepalive

/-- the message that the loop comes to write, and why -/
def handles (s : Session) : Input → Option (Cause × Message)
  | .event now e => (s.writes now e).map fun m => (cause e, m)
  | _ => none

/-- the message that is accepted to be sent -/
def admits (s : Session) : Input → Option Message
  | .send m => if (s.send m).2 = none then some m else none
  | _ => none

/-! ## Writing -/

/-- writing appends to what is framed, or leaves it as it is -/
theorem outgoing_write (now : Duration) (s : Session) (m : Message) :
    (s.write now m).outgoing = (Frame.append s.limits.maxFrame m s.outgoing).2 := by
  unfold write Frame.append
  cases Frame.write s.limits.maxFrame m <;> rfl

theorem outgoing_write_eq (now : Duration) (s : Session) (m : Message) :
    (s.write now m).outgoing = s.outgoing ++ if Frame.Fits s.limits.maxFrame m then Frame.bytes m else [] := by
  rw [outgoing_write]
  split_ifs with hfits
  · rw [Frame.append_of_fits hfits]
  · rw [Frame.append_of_not_fits hfits, List.append_nil]

/-- a message that cannot be framed ends the session -/
theorem parting?_write {m : Message} (hfits : ¬ Frame.Fits s.limits.maxFrame m) (now : Duration) :
    (s.write now m).parting? =
      some (some (.protocol (.frameTooLarge (Body.encode m).length s.limits.maxFrame))) := by
  have happend := Frame.append_of_not_fits hfits s.outgoing
  unfold Frame.append at happend
  unfold write
  cases hwrite : Frame.write s.limits.maxFrame m with
  | ok bs => simp [hwrite] at happend
  | error e =>
    simp only [hwrite, Prod.mk.injEq, Except.error.injEq, and_true] at happend
    rw [happend]
    rfl

/-- What an input makes of what is framed and of what waits to be: a message is accepted to be sent, or the loop comes to
write one, or neither, and then what the transport takes is taken off the front. -/
inductive Framed (s : Session) : Option (Cause × Message) → Option Message → Session × List SessionEffect → Prop where
  | same {s' : Session} {effects : List SessionEffect} (hqueue : s'.queue = s.queue)
    (hbytes : sent effects ++ s'.outgoing = s.outgoing) : Framed s none none (s', effects)
  | accepted {s' : Session} {m : Message} (hqueue : s'.queue = s.queue ++ [m]) (hbytes : s'.outgoing = s.outgoing) :
    Framed s none (some m) (s', [])
  /-- the queue loses its first message just when that is written -/
  | written (now : Duration) {s' : Session} {c : Cause} {m : Message} (hover : s.isOver = false)
    (hlimits : s'.limits = s.limits) (hbytes : s'.outgoing = s.outgoing)
    (hqueue : s.queue = (if c = .queued then [m] else []) ++ s'.queue) : Framed s (some (c, m)) none (s'.write now m, [])

theorem sent_passOn (r : Report Binary64) : sent (passOn r) = [] := by
  unfold passOn
  split_ifs <;> rfl

/-- looking at what has arrived, a session answers a ping -/
theorem framed_readFrame (now : Duration) (hphase : s.phase = .serving) :
    Framed s (s.handles (.event now .frame)) none (s.readFrame now) := by
  have hover : s.isOver = false := by rw [isOver, hphase]
  simp only [handles, writes, hears, hphase, if_true]
  unfold readFrame
  rcases Frame.read s.limits.maxFrame s.incoming with ⟨_ | _ | m, rest⟩
  · exact .same rfl rfl
  · exact .same rfl rfl
  · cases m with
    | ping => exact @Framed.written s now { s with incoming := rest, lastHeard := now } _ _ hover rfl rfl rfl
    | statsPartial r => exact .same rfl (by rw [sent_passOn, List.nil_append])
    | statsComplete r => exact .same rfl (by rw [sent_append, sent_passOn]; rfl)
    | _ => exact .same rfl rfl

theorem framed_serve (now : Duration) (hphase : s.phase = .serving) (e : SessionEvent) :
    Framed s (s.handles (.event now e)) none (s.serve now e) := by
  have hover : s.isOver = false := by rw [isOver, hphase]
  cases e with
  | frame => exact framed_readFrame now hphase
  | outbound =>
    simp only [handles, writes, hphase, if_true, serve]
    cases hqueue : s.queue with
    | nil => exact .same rfl rfl
    | cons m rest => exact @Framed.written s now { s with queue := rest } _ _ hover rfl rfl hqueue
  | pingTime =>
    simp only [handles, writes, hphase, if_true, serve]
    split_ifs with hdue
    · exact @Framed.written s now { s with lastPing := now } _ _ hover rfl rfl rfl
    · exact .same rfl rfl
  | cancellation | release | idleTime =>
    simp only [handles, writes, hphase, if_true, serve]
    split_ifs <;> exact .same rfl rfl
  | _ =>
    simp only [handles, writes, hphase, if_true, serve]
    exact .same rfl rfl

theorem framed_awaitWrite (now deadline : Duration) (s : Session) (e : SessionEvent) :
    Framed s none none (s.awaitWrite now deadline e) := by
  cases e with
  | taken n => exact .same rfl (by simp [sent])
  | flushed | writeDeadline =>
    simp only [awaitWrite]
    split_ifs <;> exact .same rfl rfl
  | _ => exact .same rfl rfl

theorem framed_react (now : Duration) (s : Session) (e : SessionEvent) :
    Framed s (s.handles (.event now e)) none (s.react now e) := by
  by_cases hserving : s.phase = .serving
  · have hreact : s.react now e = s.serve now e := by simp only [react, hserving]
    rw [hreact]
    exact framed_serve now hserving e
  · have hnone : s.handles (.event now e) = none := by simp [handles, writes, hserving]
    rw [hnone]
    unfold react
    cases hphase : s.phase with
    | serving => exact absurd hphase hserving
    | writing deadline => exact framed_awaitWrite now deadline s e
    | unstarted => cases e <;> exact .same rfl rfl
    | closing deadline reason =>
      cases e with
      | taken n => exact .same rfl (by simp [sent])
      | _ => exact .same rfl rfl
    | ended reason => exact .same rfl rfl

/-- **What an input makes of what is framed.** -/
theorem framed_handle (s : Session) (i : Input) : Framed s (s.handles i) (s.admits i) (s.handle i) := by
  cases i with
  | event now e => exact framed_react now s e
  | cancel => exact .same rfl rfl
  | send m =>
    show Framed s none (if (s.send m).2 = none then some m else none) ((s.send m).1, [])
    by_cases hopen : s.queueOpen = true
    · by_cases hroom : s.queue.length < s.capacity
      · have hsend : s.send m = ({ s with queue := s.queue ++ [m] }, none) := by simp [send, hopen, hroom]
        rw [hsend]
        exact .accepted rfl rfl
      · have hsend : s.send m = (s, some .queueFull) := by simp [send, hopen, hroom]
        rw [hsend]
        exact .same rfl rfl
    · have hsend : s.send m = (s, some .closed) := by simp [send, hopen]
      rw [hsend]
      exact .same rfl rfl

section Consequences

variable {r : Session × List SessionEffect} {handled : Option (Cause × Message)} {admitted : Option Message}

theorem Framed.bytes (h : Framed s handled admitted r) : sent r.2 ++ r.1.outgoing = s.outgoing ++
    ((handled.toList.map Prod.snd).filter fun m => decide (Frame.Fits s.limits.maxFrame m)).flatMap Frame.bytes := by
  cases h with
  | same hqueue hbytes => simpa using hbytes
  | accepted hqueue hbytes => simpa [sent] using hbytes
  | @written now s₀ c m hover hlimits hbytes hqueue =>
    rw [outgoing_write_eq, hbytes, hlimits]
    by_cases hfits : Frame.Fits s.limits.maxFrame m <;> simp [sent, hfits]

theorem Framed.queue (h : Framed s handled admitted r) :
    (handled.toList.filter fun h => h.1 = .queued).map Prod.snd ++ r.1.queue = s.queue ++ admitted.toList := by
  cases h with
  | same hqueue hbytes => simpa using hqueue
  | accepted hqueue hbytes => simpa using hqueue
  | @written now s₀ c m hover hlimits hbytes hqueue =>
    rw [queue_write, hqueue]
    by_cases hc : c = .queued <;> simp [hc]

/-- only a session that goes on comes to write a message, and one that cannot be framed ends it -/
theorem Framed.refused {c : Cause} {m : Message} (h : Framed s (some (c, m)) admitted r) :
    s.isOver = false ∧ (¬ Frame.Fits s.limits.maxFrame m → r.1.parting? =
      some (some (.protocol (.frameTooLarge (Body.encode m).length s.limits.maxFrame)))) := by
  cases h with
  | written now hover hlimits hbytes hqueue =>
    rw [← hlimits]
    exact ⟨hover, fun hfits => parting?_write hfits now⟩

end Consequences

/-- a session answers just the pings that it reads -/
theorem reply_handles (s : Session) (i : Input) :
    ((s.handles i).toList.filter fun h => h.1 = .reply).map Prod.snd =
      List.replicate ((s.hears i).toList.count .ping) .pong := by
  cases i with
  | event now e =>
    cases e with
    | frame =>
      by_cases hphase : s.phase = .serving
      · by_cases hping : s.hears (.event now .frame) = some .ping
        · simp [handles, writes, hphase, hping, cause]
        · have hcount : (s.hears (.event now .frame)).toList.count .ping = 0 := by
            rw [List.count_eq_zero, Option.mem_toList]
            exact hping
          simp [handles, writes, hping, hcount]
      · simp [handles, writes, hears, hphase]
    | outbound => cases hwrites : s.writes now .outbound <;> simp [handles, hears, cause, hwrites]
    | pingTime => cases hwrites : s.writes now .pingTime <;> simp [handles, hears, cause, hwrites]
    | _ => simp [handles, hears, writes]
  | _ => rfl

theorem keepalive_handles {i : Input} {m : Message} (h : s.handles i = some (.keepalive, m)) : m = .ping := by
  cases i with
  | event now e =>
    obtain ⟨m', hm, heq⟩ := Option.map_eq_some_iff.1 h
    unfold writes at hm
    cases e <;> simp_all [cause]
  | _ => cases h

/-- a session that has begun to end goes on ending for the same reason -/
theorem parting?_handle {reason : Option SessionError} (h : s.parting? = some reason) (i : Input) :
    (s.handle i).1.parting? = some reason := by
  cases i with
  | send m =>
    simp only [handle, send]
    split_ifs <;> exact h
  | cancel => exact h
  | event now e =>
    unfold parting? at h
    unfold handle react
    cases hphase : s.phase with
    | closing deadline reason' =>
      rw [hphase] at h
      cases e <;> simpa [parting?, take, hphase] using h
    | ended reason' =>
      rw [hphase] at h
      simpa [parting?, hphase] using h
    | _ => simp [hphase] at h

theorem isOver_of_parting {reason : Option SessionError} (h : s.parting? = some reason) : s.isOver = true := by
  unfold parting? at h
  unfold isOver
  cases hphase : s.phase <;> simp_all

/-! ## Transcripts -/

/-- a history, with what was accepted to be sent and what the loop came to write -/
structure Transcript where
  history : History
  accepted : List Message
  handled : List (Cause × Message)

namespace Transcript

def start (s : Session) : Transcript := ⟨.start s, [], []⟩

def handle (t : Transcript) (i : Input) : Transcript where
  history := t.history.handle i
  accepted := t.accepted ++ (t.history.session.admits i).toList
  handled := t.handled ++ (t.history.session.handles i).toList

def run (t : Transcript) (is : List Input) : Transcript := is.foldl handle t

theorem run_snoc (t : Transcript) (is : List Input) (i : Input) : t.run (is ++ [i]) = (t.run is).handle i :=
  List.foldl_append

/-- the history in a transcript is the history of the inputs -/
theorem history_run (s : Session) (is : List Input) : ((start s).run is).history = (History.start s).run is := by
  induction is using List.reverseRecOn with
  | nil => rfl
  | append_singleton is i ih => rw [run_snoc, History.run_snoc, ← ih]; rfl

/-- the messages that the loop came to write and that can be framed, in order -/
def framed (t : Transcript) : List Message :=
  (t.handled.map Prod.snd).filter fun m => decide (Frame.Fits t.history.session.limits.maxFrame m)

/-- the messages that the loop came to write for a cause -/
def writtenFor (t : Transcript) (c : Cause) : List Message := (t.handled.filter fun h => h.1 = c).map Prod.snd

end Transcript

/-- What is framed is what the loop came to write, and it came to write what it should. -/
structure Written (limits : SessionLimits) (t : Transcript) : Prop where
  sameLimits : t.history.session.limits = limits
  bytes : sent t.history.effects ++ t.history.session.outgoing = t.framed.flatMap Frame.bytes
  replies : t.writtenFor .reply = List.replicate (t.history.heard.count .ping) .pong
  queued : t.writtenFor .queued ++ t.history.session.queue = t.accepted
  keepalives : ∀ m ∈ t.writtenFor .keepalive, m = .ping
  /-- a message that cannot be framed is the last, and has ended the session -/
  refused : ∀ before c m after, t.handled = before ++ (c, m) :: after → ¬ Frame.Fits limits.maxFrame m →
    after = [] ∧ t.history.session.parting? =
      some (some (.protocol (.frameTooLarge (Body.encode m).length limits.maxFrame)))

namespace Written

variable {limits : SessionLimits} {t : Transcript}

theorem framed_snoc (t : Transcript) (i : Input) : (t.handle i).framed = t.framed ++
    ((t.history.session.handles i).toList.map Prod.snd).filter
      fun m => decide (Frame.Fits t.history.session.limits.maxFrame m) := by
  have hlimits : (t.handle i).history.session.limits = t.history.session.limits := limits_handle _ i
  rw [Transcript.framed, hlimits]
  simp [Transcript.framed, Transcript.handle]

theorem writtenFor_snoc (t : Transcript) (i : Input) (c : Cause) : (t.handle i).writtenFor c = t.writtenFor c ++
    (((t.history.session.handles i).toList.filter fun h => h.1 = c).map Prod.snd) := by
  simp [Transcript.writtenFor, Transcript.handle]

/-- **Whatever an input does, what is framed is what the loop came to write.** -/
theorem handle (hw : Written limits t) (i : Input) : Written limits (t.handle i) := by
  have hlimits := hw.sameLimits
  have hframed := framed_handle t.history.session i
  refine ⟨(limits_handle _ i).trans hlimits, ?_, ?_, ?_, ?_, ?_⟩
  · show sent (t.history.effects ++ (t.history.session.handle i).2) ++ (t.history.session.handle i).1.outgoing = _
    rw [sent_append, List.append_assoc, hframed.bytes, ← List.append_assoc, hw.bytes, framed_snoc, List.flatMap_append]
  · show _ = List.replicate ((t.history.heard ++ _).count .ping) Message.pong
    rw [writtenFor_snoc, hw.replies, reply_handles, ← List.replicate_add, List.count_append]
  · show _ ++ (t.history.session.handle i).1.queue = t.accepted ++ _
    rw [writtenFor_snoc, List.append_assoc, hframed.queue, ← List.append_assoc, hw.queued]
  · rw [writtenFor_snoc]
    intro m hm
    rcases List.mem_append.1 hm with hold | hnew
    · exact hw.keepalives m hold
    · obtain ⟨⟨c, m⟩, hmem, rfl⟩ := List.mem_map.1 hnew
      obtain ⟨hmem, hc⟩ := List.mem_filter.1 hmem
      obtain rfl : c = .keepalive := of_decide_eq_true hc
      exact keepalive_handles (Option.mem_toList.1 hmem)
  · intro before c m after hsplit hfits
    rcases append_eq_append_cons hsplit with ⟨more, hold, rfl⟩ | ⟨more, -, hnew⟩
    · -- it was refused before, and then nothing else is written
      obtain ⟨rfl, hparting⟩ := hw.refused before c m more hold hfits
      refine ⟨?_, parting?_handle hparting i⟩
      cases hhandles : t.history.session.handles i with
      | none => rfl
      | some h =>
        rw [hhandles] at hframed
        have hover := (Framed.refused hframed).1
        rw [isOver_of_parting hparting] at hover
        cases hover
    · cases hhandles : t.history.session.handles i with
      | none =>
        rw [hhandles] at hnew
        cases more <;> cases hnew
      | some h =>
        rw [hhandles] at hnew hframed
        obtain ⟨rfl, heq⟩ : more = [] ∧ [h] = [(c, m)] ++ after := by
          cases more with
          | nil => exact ⟨rfl, hnew⟩
          | cons _ more => cases more <;> simp at hnew
        cases heq
        refine ⟨rfl, ?_⟩
        rw [← hlimits] at hfits ⊢
        exact (Framed.refused hframed).2 hfits

end Written

/-- **Whatever happens to a new session, what is framed is what its loop came to write.** -/
theorem written (id : ClientId) (limits : SessionLimits) (is : List Input) :
    Written limits ((Transcript.start (.new id limits)).run is) := by
  induction is using List.reverseRecOn with
  | nil =>
    refine ⟨rfl, rfl, rfl, rfl, nofun, ?_⟩
    intro before c m after hsplit
    cases before <;> cases hsplit
  | append_singleton is i ih =>
    rw [Transcript.run_snoc]
    exact ih.handle i

/-! ## The law -/

/-- **What a session writes is whole frames.** Whatever happens to a new session, in whatever order, and however little the
transport takes at a time:

- what the transport has taken, and what it has still to take, are the frames of the messages that the loop came to write and
  that can be framed, in order;
- so whatever has reached the peer is a prefix of whole frames, and the peer, at any limit, reads the first of their messages
  and no others, and finds nothing wrong with them if its limit is not below that of the session;
- the loop came to write a pong for every ping that it read, and the messages that were accepted to be sent, in order, but
  for those that still wait, and otherwise only pings;
- a message that cannot be framed is the last that it came to write, adds no byte, and has ended the session. -/
theorem writes_whole_frames (id : ClientId) (limits : SessionLimits) (is : List Input) :
    let t := (Transcript.start (.new id limits)).run is
    let framed := (t.handled.map Prod.snd).filter fun m => decide (Frame.Fits limits.maxFrame m)
    sent t.history.effects ++ t.history.session.outgoing = framed.flatMap Frame.bytes ∧
    (∀ reached, reached <+: sent t.history.effects → reached <+: framed.flatMap Frame.bytes ∧
      ∀ max, (readAll max reached).messages <+: framed ∧
        (limits.maxFrame ≤ max → ∃ left, (readAll max reached).ending = .ok left)) ∧
    (t.writtenFor .reply = List.replicate (t.history.heard.count .ping) .pong ∧
      t.writtenFor .queued ++ t.history.session.queue = t.accepted ∧ ∀ m ∈ t.writtenFor .keepalive, m = .ping) ∧
    ∀ before c m after, t.handled = before ++ (c, m) :: after → ¬ Frame.Fits limits.maxFrame m →
      after = [] ∧ framed = before.map Prod.snd ∧ t.history.session.parting? =
        some (some (.protocol (.frameTooLarge (Body.encode m).length limits.maxFrame))) := by
  intro t framed
  have hw : Written limits t := written id limits is
  have hframed : t.framed = framed := by rw [Transcript.framed, hw.sameLimits]
  have hbytes : sent t.history.effects ++ t.history.session.outgoing = framed.flatMap Frame.bytes := hframed ▸ hw.bytes
  refine ⟨hbytes, fun reached hreached => ?_, ⟨hw.replies, hw.queued, hw.keepalives⟩, ?_⟩
  · have hcut : reached <+: framed.flatMap Frame.bytes := hbytes ▸ hreached.trans (List.prefix_append _ _)
    have hfit : ∀ max, limits.maxFrame ≤ max → ∀ m ∈ framed, Frame.Fits max m := by
      intro max hmax m hm
      have hsmall : Frame.Fits limits.maxFrame m := of_decide_eq_true (List.mem_filter.1 hm).2
      exact ⟨hsmall.1.trans hmax, hsmall.2⟩
    refine ⟨hcut, fun max => ⟨?_, fun hmax => (readAll_of_cut (hfit max hmax) hcut).2⟩⟩
    have hhigher := (readAll_of_cut (hfit _ (le_max_right max limits.maxFrame)) hcut).1
    exact (messages_readAll_mono (le_max_left max limits.maxFrame) reached).trans hhigher
  · intro before c m after hsplit hfits
    obtain ⟨rfl, hparting⟩ := hw.refused before c m after hsplit hfits
    refine ⟨rfl, ?_, hparting⟩
    have hbefore : ∀ m' ∈ before.map Prod.snd, Frame.Fits limits.maxFrame m' := by
      intro m' hm'
      obtain ⟨⟨c', m'⟩, hmem, rfl⟩ := List.mem_map.1 hm'
      by_contra hfits'
      obtain ⟨before', after', rfl⟩ := List.append_of_mem hmem
      have hlast := (hw.refused before' c' m' (after' ++ [(c, m)]) (by rw [hsplit]; simp) hfits').1
      simp at hlast
    show (t.handled.map Prod.snd).filter _ = _
    rw [hsplit, List.map_append, List.filter_append, List.filter_eq_self.2 fun m' hm' => decide_eq_true (hbefore m' hm')]
    simp [hfits]

/-- a pong is taken in two parts, and behind it a request that is too large for the limit is given up -/
example :
    let is : List Input := [.event .zero .start, .event .zero (.arrival (Frame.bytes .ping)), .event .zero .frame,
      .event .zero (.taken 3), .send (.reportAll 7), .event .zero (.taken 5), .event .zero .flushed, .event .zero .outbound]
    let t := (Transcript.start (.new 1 { maxFrame := 4 })).run is
    t.handled = [(.reply, .pong), (.queued, .reportAll 7)] ∧ sent t.history.effects = Frame.bytes .pong ∧
      t.history.session.parting? = some (some (.protocol (.frameTooLarge 12 4))) := by
  decide +kernel

end Session

end MetricSurvey

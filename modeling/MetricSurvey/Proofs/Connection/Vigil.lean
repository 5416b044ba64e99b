/-
Vigils: a session alone with the clock. Bytes come to it when they come, messages are given to it, and whatever is at hand is
handled in any order; time passes only while nothing is at hand, and never past a deadline.

What is written is taken at once, which is to say before time passes. Left out are being told to close, transports that fail
or end, and nobody being left who could give the session a message.

- `atHand`: what can go on at a moment. The loop that runs picks one of these (`atHand_of_next`).
- `step`: what can happen to a vigil, and what it makes of it. It keeps the moments at which whole frames came, and those at
  which the loop came to write a ping of its own.
- `Turn`: what can go on does one of few things.
- `Turn.work_lt`: and then less is left to be done, so what is at hand is not at hand for ever.
-/
import MetricSurvey.Proofs.Connection.Framing

namespace MetricSurvey

open MetricSurvey.Stream MetricSurvey.Stream.Readout

namespace Duration

theorem le_def {a b : Duration} : a ≤ b ↔ a.nanos ≤ b.nanos := Iff.rfl

theorem lt_def {a b : Duration} : a < b ↔ a.nanos < b.nanos := Iff.rfl

@[simp] theorem nanos_add (a b : Duration) : (a + b).nanos = a.nanos + b.nanos := rfl

@[simp] theorem nanos_max (a b : Duration) : (max a b).nanos = max a.nanos b.nanos := by
  show (if a.nanos ≤ b.nanos then b else a).nanos = _
  split_ifs <;> omega

@[simp] theorem nanos_min (a b : Duration) : (min a b).nanos = min a.nanos b.nanos := by
  show (if a.nanos ≤ b.nanos then a else b).nanos = _
  split_ifs <;> omega

theorem ext_nanos {a b : Duration} (h : a.nanos = b.nanos) : a = b := by
  cases a
  cases b
  cases h
  rfl

end Duration

/-! ## What is at hand -/

/-- whether there is nothing wrong with what was read, and no request in it -/
def Stream.Readout.wellFormed (r : Readout) : Bool := r.ending.isOk && r.messages.all fun m => m.method ≠ .reportAll

namespace SessionLimits

/-- the silence after which the peer is pinged, and pinged again -/
def pingPeriod (l : SessionLimits) : Duration := min l.pingAfter Session.farthest

/-- the silence after which the peer is given up -/
def patience (l : SessionLimits) : Duration := min l.idleDeadline Session.farthest

end SessionLimits

namespace Session

variable {s : Session} {now : Duration} {inbound : Bytes} {e : SessionEvent}

/-- whether an event can happen at a moment, when these bytes have come and the transport takes whatever is written -/
def atHand (now : Duration) (inbound : Bytes) (s : Session) (e : SessionEvent) : Bool :=
  match s.phase, e with
  | .serving, .arrival bytes => !bytes.isEmpty && bytes.isPrefixOf inbound
  | .serving, .frame => !Conversation.waits s.limits.maxFrame s.incoming
  | .serving, .outbound => !s.queue.isEmpty
  | .serving, .pingTime => s.pingAt ≤ now
  | .serving, .idleTime => s.giveUpAt ≤ now
  | .writing _, .taken n => 0 < n && !s.outgoing.isEmpty
  | .writing _, .flushed => s.outgoing.isEmpty
  | .closing _ _, .taken n => 0 < n && !s.outgoing.isEmpty
  | .closing _ _, .shut => s.outgoing.isEmpty
  | _, _ => false

/-- whether nothing is at hand -/
def rests (now : Duration) (inbound : Bytes) (s : Session) : Bool :=
  match s.phase with
  | .serving => inbound.isEmpty && Conversation.waits s.limits.maxFrame s.incoming && s.queue.isEmpty &&
    !decide (s.pingAt ≤ now) && !decide (s.giveUpAt ≤ now)
  | .writing _ | .closing _ _ => false
  | _ => true

theorem rests_iff : s.rests now inbound = true ↔ ∀ e, s.atHand now inbound e = false := by
  constructor
  · intro h e
    unfold rests at h
    unfold atHand
    cases hphase : s.phase with
    | serving =>
      simp only [hphase, Bool.and_eq_true, Bool.not_eq_true'] at h
      obtain ⟨⟨⟨⟨hinbound, hwaits⟩, hqueue⟩, hping⟩, hidle⟩ := h
      cases e with
      | arrival bytes =>
        rw [List.isEmpty_iff.1 hinbound]
        cases bytes <;> rfl
      | frame => simp [hwaits]
      | outbound => simp [hqueue]
      | pingTime => exact hping
      | idleTime => exact hidle
      | _ => rfl
    | writing deadline => simp [hphase] at h
    | closing deadline reason => simp [hphase] at h
    | _ => cases e <;> rfl
  · intro h
    unfold rests
    unfold atHand at h
    cases hphase : s.phase with
    | serving =>
      simp only [hphase] at h
      have hinbound : inbound.isEmpty = true := by
        cases inbound with
        | nil => rfl
        | cons b rest => simpa using h (.arrival [b])
      have hwaits := h .frame
      have hqueue := h .outbound
      have hping := h .pingTime
      have hidle := h .idleTime
      simp_all
    | writing deadline =>
      simp only [hphase] at h
      have htaken := h (.taken 1)
      have hflushed := h .flushed
      simp_all
    | closing deadline reason =>
      simp only [hphase] at h
      have htaken := h (.taken 1)
      have hshut := h .shut
      simp_all
    | _ => rfl

section Loop

-- the session is not told to close, and its pipes are open and have room
variable {wire outlet : Pipe} (hcancelled : s.cancelled = false) (hwire : wire.finished = false)
  (houtlet : outlet.abandoned = false) (hroom : 0 < outlet.room)
include hcancelled hwire houtlet hroom

/-- **The loop that runs picks what is at hand.** -/
theorem atHand_of_next (h : s.next now wire outlet = some e) : s.atHand now wire.held e = true := by
  unfold next at h
  unfold atHand
  cases hphase : s.phase with
  | serving =>
    simp only [hphase, nextServing, hcancelled, hwire, Bool.false_eq_true, if_false] at h
    split at h
    · rename_i m hread
      obtain rfl := Option.some.inj h
      simp [Conversation.waits, hread]
    · rename_i error hread
      obtain rfl := Option.some.inj h
      simp [Conversation.waits, hread]
    · split_ifs at h with hheld hqueue hping hidle <;> obtain rfl := Option.some.inj h <;> simp_all
  | writing deadline =>
    simp only [hphase, houtlet, Bool.false_eq_true, if_false, hroom, if_true] at h
    split_ifs at h with hout <;> obtain rfl := Option.some.inj h
    · exact hout
    · simp [hout, hroom]
  | closing deadline reason =>
    simp only [hphase, houtlet, Bool.or_false, hroom, if_true] at h
    split_ifs at h with hout <;> obtain rfl := Option.some.inj h
    · exact hout
    · simp [hout, hroom]
  | _ => simp [hphase] at h

/-- **And when it picks nothing, nothing is at hand.** -/
theorem rests_of_next (h : s.next now wire outlet = none) : s.rests now wire.held = true := by
  unfold next at h
  unfold rests
  cases hphase : s.phase with
  | serving =>
    simp only [hphase, nextServing, hcancelled, hwire, Bool.false_eq_true, if_false] at h
    split at h
    · cases h
    · cases h
    · rename_i hread
      split_ifs at h with hheld hqueue hping hidle
      have hwaits := Conversation.waits_iff.2 hread
      simp_all
  | writing deadline =>
    simp only [hphase, houtlet, Bool.false_eq_true, if_false, hroom, if_true] at h
    split_ifs at h
  | closing deadline reason =>
    simp only [hphase, houtlet, Bool.or_false, hroom, if_true] at h
    split_ifs at h
  | _ => rfl

end Loop

/-! ## Turns -/

/-- What becomes of a session, of the bytes that have come, and of the record of its pings. -/
inductive Turn (now : Duration) (inbound : Bytes) (s : Session) : Session → Bytes → List Duration → Prop where
  | gets {bytes : Bytes} (hphase : s.phase = .serving) (hsome : bytes ≠ []) (hcome : bytes <+: inbound) :
    Turn now inbound s { s with incoming := s.incoming ++ bytes } (inbound.drop bytes.length) []
  | hears {m : Message} {rest : Bytes} (state : SessionState) (hphase : s.phase = .serving)
    (hread : Frame.read s.limits.maxFrame s.incoming = (.ok (some m), rest)) :
    Turn now inbound s { s with incoming := rest, lastHeard := now, state } inbound []
  | answers {rest : Bytes} (hphase : s.phase = .serving)
    (hread : Frame.read s.limits.maxFrame s.incoming = (.ok (some .ping), rest)) :
    Turn now inbound s { s with
      incoming := rest
      lastHeard := now
      outgoing := s.outgoing ++ Frame.bytes .pong
      phase := .writing (now + s.limits.writeTimeout) } inbound []
  | forwards {m : Message} {rest : List Message} (hphase : s.phase = .serving) (hqueue : s.queue = m :: rest) :
    Turn now inbound s { s with
      queue := rest
      outgoing := s.outgoing ++ Frame.bytes m
      phase := .writing (now + s.limits.writeTimeout) } inbound []
  | pings (hphase : s.phase = .serving) (hdue : s.pingAt ≤ now) :
    Turn now inbound s { s with
      lastPing := now
      outgoing := s.outgoing ++ Frame.bytes .ping
      phase := .writing (now + s.limits.writeTimeout) } inbound [now]
  | givesUp (hphase : s.phase = .serving) (hdue : s.giveUpAt ≤ now) :
    Turn now inbound s (s.finish now (some (.idle s.limits.idleDeadline))) inbound []
  | hands {n : Nat} (hphase : s.isWriting = true) (hn : 0 < n) (hsome : s.outgoing ≠ []) :
    Turn now inbound s { s with outgoing := s.outgoing.drop n } inbound []
  | goesOn {deadline : Duration} (hphase : s.phase = .writing deadline) (hnone : s.outgoing = []) :
    Turn now inbound s { s with phase := .serving } inbound []
  | ends {deadline : Duration} {reason : Option SessionError} (hphase : s.phase = .closing deadline reason)
    (hnone : s.outgoing = []) : Turn now inbound s { s with phase := .ended reason } inbound []

/-- the pings of its own that the loop comes to write at an event, with their moment -/
def pingsAt (now : Duration) (s : Session) (e : SessionEvent) : List Duration :=
  if s.handles (.event now e) = some (.keepalive, .ping) then [now] else []

/-- what is at hand is read without an error, and is no request -/
theorem exists_read (hreadable : (readAll s.limits.maxFrame (s.incoming ++ inbound)).wellFormed = true)
    (hhand : Conversation.waits s.limits.maxFrame s.incoming = false) :
    ∃ m rest, Frame.read s.limits.maxFrame s.incoming = (.ok (some m), rest) ∧ m.method ≠ .reportAll := by
  rcases hread : Frame.read s.limits.maxFrame s.incoming with ⟨error | _ | m, rest⟩
  · rw [readAll_of_error (Frame.read_append hread nofun inbound)] at hreadable
    cases hreadable
  · simp [Conversation.waits, hread] at hhand
  · rw [readAll_of_message (Frame.read_append hread nofun inbound)] at hreadable
    refine ⟨m, rest, rfl, ?_⟩
    simp only [wellFormed, after, List.all_cons, Bool.and_eq_true, decide_eq_true_eq] at hreadable
    exact hreadable.2.1

theorem fits_pong (max : Nat) : Frame.Fits max .pong := ⟨Nat.zero_le max, by decide⟩

theorem fits_ping (max : Nat) : Frame.Fits max .ping := ⟨Nat.zero_le max, by decide⟩

theorem turn_frame (hphase : s.phase = .serving)
    (hreadable : (readAll s.limits.maxFrame (s.incoming ++ inbound)).wellFormed = true)
    (hhand : Conversation.waits s.limits.maxFrame s.incoming = false) :
    Turn now inbound s (s.readFrame now).1 inbound [] := by
  obtain ⟨m, rest, hread, hm⟩ := exists_read hreadable hhand
  unfold readFrame
  rw [hread]
  dsimp only
  cases m with
  | ping =>
    simp only [hear]
    rw [Conversation.write_eq now { s with incoming := rest, lastHeard := now } (fits_pong _)]
    exact .answers hphase hread
  | reportAll time => exact absurd rfl hm
  | registerProcess tags => exact .hears .registered hphase hread
  | _ => exact .hears s.state hphase hread

/-- **What is at hand does one of few things**, if what has come can be read and what waits can be framed. -/
theorem turn (hserving : s.phase = .serving → (∀ m ∈ s.queue, Frame.Fits s.limits.maxFrame m) ∧
      (readAll s.limits.maxFrame (s.incoming ++ inbound)).wellFormed = true)
    (hhand : s.atHand now inbound e = true) :
    Turn now inbound s (s.react now e).1 (inbound.drop (s.gets (.event now e)).length) (s.pingsAt now e) := by
  unfold atHand at hhand
  cases hphase : s.phase with
  | serving =>
    have hreact : s.react now e = s.serve now e := by simp only [react, hphase]
    obtain ⟨hfits, hreadable⟩ := hserving hphase
    rw [hreact]
    simp only [hphase] at hhand
    cases e with
    | arrival bytes =>
      simp only [Bool.and_eq_true, Bool.not_eq_true', List.isEmpty_eq_false_iff, List.isPrefixOf_iff_prefix] at hhand
      have hnone : s.pingsAt now (.arrival bytes) = [] := by simp [pingsAt, handles, writes]
      rw [hnone, show s.gets (.event now (.arrival bytes)) = bytes from if_pos hphase]
      exact .gets hphase hhand.1 hhand.2
    | frame =>
      have hnone : s.pingsAt now .frame = [] := by simp [pingsAt, handles, cause]
      rw [hnone]
      exact turn_frame hphase hreadable (by simpa using hhand)
    | outbound =>
      have hnone : s.pingsAt now .outbound = [] := by simp [pingsAt, handles, cause]
      rw [hnone]
      cases hqueue : s.queue with
      | nil => simp [hqueue] at hhand
      | cons m rest =>
        simp only [serve, hqueue]
        rw [Conversation.write_eq now { s with queue := rest } (hfits m (by simp [hqueue]))]
        exact .forwards hphase hqueue
    | pingTime =>
      have hdue : s.pingAt ≤ now := of_decide_eq_true hhand
      have hping : s.pingsAt now .pingTime = [now] := by simp [pingsAt, handles, writes, cause, hphase, hdue]
      rw [hping, serve, if_pos hdue, Conversation.write_eq now { s with lastPing := now } (fits_ping _)]
      exact .pings hphase hdue
    | idleTime =>
      have hdue : s.giveUpAt ≤ now := of_decide_eq_true hhand
      have hnone : s.pingsAt now .idleTime = [] := by simp [pingsAt, handles, writes]
      rw [hnone, serve, if_pos hdue]
      exact .givesUp hphase hdue
    | _ => cases hhand
  | writing deadline =>
    have hnone : s.pingsAt now e = [] := by simp [pingsAt, handles, writes, hphase]
    have hgets : s.gets (.event now e) = [] := by cases e <;> simp [gets, hphase]
    have hreact : s.react now e = s.awaitWrite now deadline e := by simp only [react, hphase]
    rw [hnone, hgets, hreact]
    simp only [hphase] at hhand
    cases e with
    | taken n =>
      simp only [Bool.and_eq_true, decide_eq_true_eq, Bool.not_eq_true', List.isEmpty_eq_false_iff] at hhand
      exact .hands (by simp [isWriting, hphase]) hhand.1 hhand.2
    | flushed =>
      rw [awaitWrite, if_pos hhand]
      exact .goesOn hphase (List.isEmpty_iff.1 hhand)
    | _ => cases hhand
  | closing deadline reason =>
    have hnone : s.pingsAt now e = [] := by simp [pingsAt, handles, writes, hphase]
    have hgets : s.gets (.event now e) = [] := by cases e <;> simp [gets, hphase]
    rw [hnone, hgets]
    simp only [hphase] at hhand
    simp only [react, hphase]
    cases e with
    | taken n =>
      simp only [Bool.and_eq_true, decide_eq_true_eq, Bool.not_eq_true', List.isEmpty_eq_false_iff] at hhand
      exact .hands (by simp [isWriting, hphase]) hhand.1 hhand.2
    | shut => exact .ends hphase (List.isEmpty_iff.1 hhand)
    | _ => cases hhand
  | _ => simp [hphase] at hhand

/-! ## Coming to rest -/

/-- how much is left to do for what a session is busy with -/
def phaseWork : SessionPhase → Nat
  | .writing _ => 3
  | .serving => 2
  | .closing _ _ => 1
  | _ => 0

/-- how much is left to do for a ping that is due -/
def pingWork (now : Duration) (s : Session) : Nat := if s.pingAt ≤ now then 10 else 0

/-- how much is left to do at a moment -/
def work (now : Duration) (inbound : Bytes) (s : Session) : Nat :=
  4 * inbound.length + 3 * s.incoming.length + (s.queue.map fun m => (Frame.bytes m).length + 2).sum + s.outgoing.length +
    s.pingWork now + phaseWork s.phase

theorem nanos_pingAt (s : Session) :
    s.pingAt.nanos = max s.lastHeard.nanos s.lastPing.nanos + s.limits.pingPeriod.nanos := by
  simp [pingAt, later, SessionLimits.pingPeriod]

theorem nanos_giveUpAt (s : Session) : s.giveUpAt.nanos = s.lastHeard.nanos + s.limits.patience.nanos := by
  simp [giveUpAt, later, SessionLimits.patience]

/-- **Less is left to do** after a turn. -/
theorem Turn.work_lt {s' : Session} {inbound' : Bytes} {pings : List Duration}
    (h : Turn now inbound s s' inbound' pings) (hperiod : 0 < s.limits.pingPeriod.nanos) :
    work now inbound' s' < work now inbound s := by
  -- once the silence is broken, or a ping is written, no ping is due
  have hsilent : ∀ s₀ : Session, s₀.limits = s.limits → now ≤ s₀.lastHeard ∨ now ≤ s₀.lastPing → s₀.pingWork now = 0 := by
    intro s₀ hlimits hlate
    refine if_neg ?_
    rw [Duration.le_def, nanos_pingAt, hlimits]
    simp only [Duration.le_def] at hlate
    omega
  have hpong : (Frame.bytes .pong).length = 8 := rfl
  have hping : (Frame.bytes .ping).length = 8 := rfl
  cases h with
  | @gets bytes hphase hsome hcome =>
    have hsame : pingWork now { s with incoming := s.incoming ++ bytes } = s.pingWork now := rfl
    have hlength := hcome.length_le
    have hpos := List.length_pos_iff.2 hsome
    simp only [work, hsame, List.length_drop, List.length_append]
    omega
  | @hears m rest state hphase hread =>
    have hshorter := Frame.length_of_read_message hread
    have hnone := hsilent { s with incoming := rest, lastHeard := now, state } rfl (Or.inl (Nat.le_refl _))
    simp only [work, hnone]
    unfold FrameHeader.size at hshorter
    omega
  | @answers rest hphase hread =>
    have hshorter := Frame.length_of_read_message hread
    have hnone := hsilent { s with
      incoming := rest
      lastHeard := now
      outgoing := s.outgoing ++ Frame.bytes .pong
      phase := .writing (now + s.limits.writeTimeout) } rfl (Or.inl (Nat.le_refl _))
    simp only [work, hnone, hphase, phaseWork, List.length_append, hpong]
    unfold FrameHeader.size at hshorter
    omega
  | @forwards m rest hphase hqueue =>
    have hsame : pingWork now { s with
      queue := rest
      outgoing := s.outgoing ++ Frame.bytes m
      phase := .writing (now + s.limits.writeTimeout) } = s.pingWork now := rfl
    simp only [work, hsame, hphase, phaseWork, hqueue, List.map_cons, List.sum_cons, List.length_append]
    omega
  | pings hphase hdue =>
    have hnone := hsilent { s with
      lastPing := now
      outgoing := s.outgoing ++ Frame.bytes .ping
      phase := .writing (now + s.limits.writeTimeout) } rfl (Or.inr (Nat.le_refl _))
    have hten : s.pingWork now = 10 := if_pos hdue
    simp only [work, hnone, hten, hphase, phaseWork, List.length_append, hping]
    omega
  | givesUp hphase hdue =>
    have hsame : pingWork now (s.finish now (some (.idle s.limits.idleDeadline))) = s.pingWork now := rfl
    simp only [work, hsame, hphase]
    simp only [finish, phaseWork]
    omega
  | @hands n hphase hn hsome =>
    have hsame : pingWork now { s with outgoing := s.outgoing.drop n } = s.pingWork now := rfl
    have hpos := List.length_pos_iff.2 hsome
    simp only [work, hsame, List.length_drop]
    omega
  | goesOn hphase hnone =>
    have hsame : pingWork now { s with phase := .serving } = s.pingWork now := rfl
    simp only [work, hsame, hphase, phaseWork]
    omega
  | @ends deadline reason hphase hnone =>
    have hsame : pingWork now { s with phase := .ended reason } = s.pingWork now := rfl
    simp only [work, hsame, hphase, phaseWork]
    omega

end Session

/-! ## Vigils -/

/-- a session, the clock, and what has happened -/
structure Vigil where
  now : Duration
  history : Session.History
  /-- bytes that have come, and that the session has not read -/
  inbound : Bytes
  /-- the start, or when the last whole frame came -/
  since : Duration
  /-- the moments that were this before -/
  earlier : List Duration
  /-- when the loop came to write a ping of its own -/
  pings : List Duration
  /-- when the session ended, and why -/
  ended : Option (Duration × Option SessionError)

namespace Vigil

/-- a new session begins to serve at a moment -/
def start (id : ClientId) (limits : SessionLimits) (moment : Duration) : Vigil :=
  ⟨moment, (Session.History.start (.new id limits)).handle (.event moment .start), [], moment, [], [], none⟩

def session (v : Vigil) : Session := v.history.session

/-- what all the bytes say that have come, with these behind them -/
def readout (v : Vigil) (bytes : Bytes) : Readout :=
  readAll v.session.limits.maxFrame (v.history.received ++ v.inbound ++ bytes)

/-- whether a whole frame comes with these bytes -/
def completes (v : Vigil) (bytes : Bytes) : Bool :=
  decide ((v.readout []).messages.length < (v.readout bytes).messages.length)

/-- whether a timer of the silence is due just now: a whole number of periods has passed, or all patience -/
def timerDue (v : Vigil) : Bool :=
  decide (v.since < v.now) && (v.now.nanos - v.since.nanos) % v.session.limits.pingPeriod.nanos == 0 ||
    v.now == v.since + v.session.limits.patience

inductive Act where
  /-- bytes come -/
  | arrive (bytes : Bytes)
  /-- the session is given a message to send -/
  | send (m : Message)
  /-- something that is at hand is handled -/
  | goOn (e : SessionEvent)
  /-- time passes -/
  | wait (moment : Duration)
deriving DecidableEq

/-- bytes come, and perhaps with them a whole frame -/
def arrive (v : Vigil) (bytes : Bytes) : Vigil :=
  if v.completes bytes then
    { v with inbound := v.inbound ++ bytes, since := v.now, earlier := v.earlier ++ [v.since] }
  else { v with inbound := v.inbound ++ bytes }

/-- something that is at hand is handled -/
def goOn (v : Vigil) (e : SessionEvent) : Vigil :=
  let history := v.history.handle (.event v.now e)
  { v with
    history
    inbound := v.inbound.drop (v.session.gets (.event v.now e)).length
    pings := v.pings ++ v.session.pingsAt v.now e
    ended := v.ended.or (history.session.ending?.map fun reason => (v.now, reason)) }

/-- What can happen. Whole frames come while the session goes on, are valid and no requests, and come at no moment at which a
timer is due; what is sent can be framed; and time passes only while nothing is at hand, and not past a deadline. -/
def can (v : Vigil) : Act → Bool
  | .arrive bytes => !v.session.isOver && (v.readout bytes).wellFormed && (!v.completes bytes || !v.timerDue)
  | .send m => decide (Frame.Fits v.session.limits.maxFrame m)
  | .goOn e => v.session.atHand v.now v.inbound e
  | .wait moment => v.session.rests v.now v.inbound && decide (v.now ≤ moment) &&
    v.session.deadline?.all fun deadline => decide (moment ≤ deadline)

/-- what cannot happen changes nothing -/
def step (v : Vigil) (a : Act) : Vigil :=
  if v.can a then
    match a with
    | .arrive bytes => v.arrive bytes
    | .send m => { v with history := v.history.handle (.send m) }
    | .goOn e => v.goOn e
    | .wait moment => { v with now := moment }
  else v

def run (v : Vigil) (as : List Act) : Vigil := as.foldl step v

theorem run_append (v : Vigil) (as bs : List Act) : v.run (as ++ bs) = (v.run as).run bs := List.foldl_append

theorem run_snoc (v : Vigil) (as : List Act) (a : Act) : v.run (as ++ [a]) = (v.run as).step a := run_append v as [a]

end Vigil

end MetricSurvey

/-
Keepalive: when a session pings its peer, and when it gives its peer up.

A silence begins with the session, and again whenever a whole frame comes. In a silence the session pings after every period,
and when its patience is over it ends. Two reference points carry this, the last frame that was read and the last ping; both
are looked at again on every turn of a loop that other events turn as well.

- `Ledger`: the pings so far are those that the silences call for.
- `Live`: while the session goes on, its reference points are where the silence puts them, no deadline is behind, and a frame
  that has come and is not read has come just now.
- `Live.turn`, `Live.arrivePart`, `Live.arriveWhole`, `Live.wait`: what a step keeps.
- `settles`, `reaches`: what is at hand is handled, and time goes on.
- `keepalive`: the law.
-/
import MetricSurvey.Proofs.Connection.Vigil

namespace MetricSurvey

open MetricSurvey.Stream MetricSurvey.Stream.Readout

namespace Vigil

/-! ## Silences -/

/-- the silence in which a moment lies began then -/
structure SilentSince (marks : List Duration) (r t : Duration) : Prop where
  mem : r ∈ marks
  le : r ≤ t
  last : ∀ r' ∈ marks, r' ≤ t → r' ≤ r

/-- a whole number of periods has passed, and not none -/
def Beat (period r t : Duration) : Prop := ∃ k, 1 ≤ k ∧ t.nanos = r.nanos + k * period.nanos

theorem Beat.lt {period r t : Duration} (h : Beat period r t) (hperiod : 0 < period.nanos) : r < t := by
  obtain ⟨k, hk, ht⟩ := h
  rw [Duration.lt_def, ht]
  exact Nat.lt_add_of_pos_right (Nat.mul_pos hk hperiod)

variable {now since t r : Duration} {earlier pings : List Duration}

theorem le_of_mem_snoc (hle : ∀ r' ∈ earlier, r' ≤ since) (h : r ∈ earlier ++ [since]) : r ≤ since := by
  rcases List.mem_append.1 h with hr | hr
  · exact hle r hr
  · rw [List.mem_singleton.1 hr]
    exact Nat.le_refl _

/-- what is not before the last silence lies in it -/
theorem SilentSince.eq (h : SilentSince (earlier ++ [since]) r t) (hle : ∀ r' ∈ earlier, r' ≤ since) (ht : since ≤ t) :
    r = since :=
  Duration.ext_nanos (Nat.le_antisymm (le_of_mem_snoc hle h.mem) (h.last since (by simp) ht))

theorem silentSince (hle : ∀ r' ∈ earlier, r' ≤ since) (ht : since ≤ t) : SilentSince (earlier ++ [since]) since t :=
  ⟨by simp, ht, fun _ hr' _ => le_of_mem_snoc hle hr'⟩

/-- a new silence does not change when those before it began -/
theorem silentSince_snoc (ht : t < now) :
    SilentSince (earlier ++ [now]) r t ↔ SilentSince earlier r t := by
  have hnow : ¬ now ≤ t := Nat.not_le.2 ht
  constructor
  · rintro ⟨hmem, hle, hlast⟩
    refine ⟨?_, hle, fun r' hr' => hlast r' (List.mem_append_left _ hr')⟩
    rcases List.mem_append.1 hmem with hr | hr
    · exact hr
    · rw [List.mem_singleton.1 hr] at hle
      exact absurd hle hnow
  · rintro ⟨hmem, hle, hlast⟩
    refine ⟨List.mem_append_left _ hmem, hle, fun r' hr' hr't => ?_⟩
    rcases List.mem_append.1 hr' with hr | hr
    · exact hlast r' hr hr't
    · rw [List.mem_singleton.1 hr] at hr't
      exact absurd hr't hnow

/-! ## Ledgers -/

/-- The pings so far are those that the silences call for, but for one that may be due just now. -/
structure Ledger (now : Duration) (s : Session) (since : Duration) (earlier pings : List Duration) : Prop where
  sinceLe : since ≤ now
  earlierLe : ∀ r ∈ earlier, r ≤ since
  increasing : pings.Pairwise (· < ·)
  past : ∀ t ∈ pings, t ≤ s.lastPing
  lastPingLe : s.lastPing ≤ now
  onBeat : ∀ t ∈ pings, ∃ r, SilentSince (earlier ++ [since]) r t ∧ Beat s.limits.pingPeriod r t ∧
    t ≤ r + s.limits.patience
  complete : ∀ r t, SilentSince (earlier ++ [since]) r t → Beat s.limits.pingPeriod r t → t < r + s.limits.patience →
    t ≤ now → t ∈ pings ∨ t = now ∧ s.isOver = false ∧ s.pingAt ≤ now

variable {s s' : Session} {inbound inbound' : Bytes}

/-- what changes neither the last ping nor whether one is due changes nothing in the ledger -/
theorem Ledger.keeps (hg : Ledger now s since earlier pings) (hlimits : s'.limits = s.limits)
    (hlast : s'.lastPing = s.lastPing) (hdue : s.isOver = false → s.pingAt ≤ now → now < since + s.limits.patience →
      s'.isOver = false ∧ s'.pingAt ≤ now) : Ledger now s' since earlier pings where
  sinceLe := hg.sinceLe
  earlierLe := hg.earlierLe
  increasing := hg.increasing
  past := by
    rw [hlast]
    exact hg.past
  lastPingLe := by
    rw [hlast]
    exact hg.lastPingLe
  onBeat := by
    rw [hlimits]
    exact hg.onBeat
  complete := by
    rw [hlimits]
    intro r t hsilent hbeat hpatient hle
    rcases hg.complete r t hsilent hbeat hpatient hle with hin | ⟨rfl, hover, hat⟩
    · exact Or.inl hin
    · obtain rfl := hsilent.eq hg.earlierLe hg.sinceLe
      exact Or.inr ⟨rfl, hdue hover hat hpatient⟩

/-! ## Sessions that go on -/

/-- what can be read of what has come -/
def pending (s : Session) (inbound : Bytes) : Readout := readAll s.limits.maxFrame (s.incoming ++ inbound)

/-- While the session goes on: its reference points are where the silence puts them, no deadline is behind, and a frame that
has come and is not read has come just now. -/
structure Live (now : Duration) (s : Session) (inbound : Bytes) (since : Duration) : Prop where
  busy : s.phase = .serving ∨ ∃ deadline, s.phase = .writing deadline
  settled : s.phase = .serving → s.outgoing = []
  fits : ∀ m ∈ s.queue, Frame.Fits s.limits.maxFrame m
  readable : (pending s inbound).wellFormed = true
  caughtUp : (pending s inbound).messages = [] → s.lastHeard = since
  behind : (pending s inbound).messages ≠ [] → now = since ∧ now < s.pingAt ∧ now < s.giveUpAt
  ahead : now ≤ s.pingAt ∧ now ≤ s.giveUpAt
  round : (pending s inbound).messages = [] →
    ∃ j, max s.lastHeard.nanos s.lastPing.nanos = since.nanos + j * s.limits.pingPeriod.nanos

/-- How the session stands: it goes on, or its patience is over, and then it ends at once. -/
inductive Stance (now : Duration) (s : Session) (inbound : Bytes) (since : Duration) :
    Option (Duration × Option SessionError) → Prop where
  | live (h : Live now s inbound since) : Stance now s inbound since none
  | leaving {deadline : Duration} (hphase : s.phase = .closing deadline (some (.idle s.limits.idleDeadline)))
    (hnone : s.outgoing = []) (hnow : now = since + s.limits.patience) : Stance now s inbound since none
  | left (hphase : s.phase = .ended (some (.idle s.limits.idleDeadline))) (hnone : s.outgoing = [])
    (hpast : since + s.limits.patience ≤ now) :
    Stance now s inbound since (some (since + s.limits.patience, some (.idle s.limits.idleDeadline)))

namespace Live

theorem isOver (h : Live now s inbound since) : s.isOver = false := by
  rcases h.busy with hphase | ⟨deadline, hphase⟩ <;> rw [Session.isOver, hphase]

/-- where the reference points are when a deadline has come: all frames are read -/
theorem caughtUp_of_due (h : Live now s inbound since) (hdue : s.pingAt ≤ now ∨ s.giveUpAt ≤ now) :
    (pending s inbound).messages = [] := by
  by_contra hbehind
  obtain ⟨-, hping, hidle⟩ := h.behind hbehind
  rcases hdue with hdue | hdue
  · exact absurd hdue (Nat.not_le.2 hping)
  · exact absurd hdue (Nat.not_le.2 hidle)

end Live

/-- what becomes of a session when a turn leaves what has come and its reference points as they are -/
theorem Live.keeps (h : Live now s inbound since) (hlimits : s'.limits = s.limits)
    (hpending : s'.incoming ++ inbound' = s.incoming ++ inbound) (hheard : s'.lastHeard = s.lastHeard)
    (hping : s'.lastPing = s.lastPing) (hbusy : s'.phase = .serving ∨ ∃ deadline, s'.phase = .writing deadline)
    (hsettled : s'.phase = .serving → s'.outgoing = []) (hqueue : ∀ m ∈ s'.queue, Frame.Fits s.limits.maxFrame m) :
    Live now s' inbound' since := by
  have hsame : pending s' inbound' = pending s inbound := by rw [pending, hlimits, hpending, pending]
  have hpingAt : s'.pingAt = s.pingAt := by rw [Session.pingAt, hheard, hping, hlimits, Session.pingAt]
  have hgiveUpAt : s'.giveUpAt = s.giveUpAt := by rw [Session.giveUpAt, hheard, hlimits, Session.giveUpAt]
  refine ⟨hbusy, hsettled, ?_, ?_, ?_, ?_, ?_, ?_⟩
  · rw [hlimits]
    exact hqueue
  · rw [hsame]
    exact h.readable
  · rw [hsame, hheard]
    exact h.caughtUp
  · rw [hsame, hpingAt, hgiveUpAt]
    exact h.behind
  · rw [hpingAt, hgiveUpAt]
    exact h.ahead
  · rw [hsame, hheard, hping, hlimits]
    exact h.round

/-- a session that goes on has not ended -/
theorem Live.stance (hl : Live now s inbound since) :
    Stance now s inbound since (s.ending?.map fun reason => (now, reason)) := by
  have hnone : s.ending? = none := by
    rcases hl.busy with hphase | ⟨deadline, hphase⟩ <;> rw [Session.ending?, hphase]
  rw [hnone]
  exact .live hl

/-! ## Turns -/

section Turns

variable (hperiod : 0 < s.limits.pingPeriod.nanos) (hpatience : 0 < s.limits.patience.nanos)

include hperiod hpatience in
/-- **A frame is read**: it came just now, and the silence begins anew. -/
theorem Live.reads (hl : Live now s inbound since) (hg : Ledger now s since earlier pings) {m : Message} {rest : Bytes}
    (hread : Frame.read s.limits.maxFrame s.incoming = (.ok (some m), rest)) (hlimits : s'.limits = s.limits)
    (hincoming : s'.incoming = rest) (hheard : s'.lastHeard = now) (hping : s'.lastPing = s.lastPing)
    (hqueue : s'.queue = s.queue) (hbusy : s'.phase = .serving ∨ ∃ deadline, s'.phase = .writing deadline)
    (hsettled : s'.phase = .serving → s'.outgoing = []) :
    Live now s' inbound since ∧ Ledger now s' since earlier pings := by
  have hmessage : pending s inbound = after m (pending s' inbound) := by
    rw [pending, pending, hlimits, hincoming]
    exact readAll_of_message (Frame.read_append hread nofun inbound)
  obtain ⟨hnow, hnotPing, -⟩ := hl.behind (by rw [hmessage]; exact List.cons_ne_nil _ _)
  have hlast := hg.lastPingLe
  have hreadable := hl.readable
  rw [hmessage] at hreadable
  simp only [wellFormed, after, List.all_cons, Bool.and_eq_true] at hreadable
  have hpingAt : now < s'.pingAt := by
    rw [Duration.lt_def, Session.nanos_pingAt, hheard, hping, hlimits]
    omega
  have hgiveUpAt : now < s'.giveUpAt := by
    rw [Duration.lt_def, Session.nanos_giveUpAt, hheard, hlimits]
    omega
  refine ⟨⟨hbusy, hsettled, ?_, ?_, ?_, ?_, ?_, ?_⟩, hg.keeps hlimits hping ?_⟩
  · rw [hqueue, hlimits]
    exact hl.fits
  · simp only [wellFormed, Bool.and_eq_true]
    exact ⟨hreadable.1, hreadable.2.2⟩
  · intro _
    rw [hheard, hnow]
  · intro _
    exact ⟨hnow, hpingAt, hgiveUpAt⟩
  · exact ⟨Nat.le_of_lt hpingAt, Nat.le_of_lt hgiveUpAt⟩
  · intro _
    refine ⟨0, ?_⟩
    rw [hheard, hping, ← hnow, Nat.zero_mul, Nat.add_zero]
    exact Nat.max_eq_left hlast
  · intro _ hdue
    exact absurd hdue (Nat.not_le.2 hnotPing)

/-- a deadline that has come is met just now -/
theorem Live.pingAt_eq (hl : Live now s inbound since) (hdue : s.pingAt ≤ now) : s.pingAt = now :=
  Duration.ext_nanos (Nat.le_antisymm hdue hl.ahead.1)

include hperiod in
/-- **A ping is written** at the next beat. -/
theorem Live.beats (hl : Live now s inbound since) (hg : Ledger now s since earlier pings) (hdue : s.pingAt ≤ now)
    (deadline : Duration) :
    let s' := { s with
      lastPing := now
      outgoing := s.outgoing ++ Frame.bytes .ping
      phase := .writing deadline }
    Live now s' inbound since ∧ Ledger now s' since earlier (pings ++ [now]) := by
  intro s'
  have hread := hl.caughtUp_of_due (Or.inl hdue)
  have hheard : s.lastHeard = since := hl.caughtUp hread
  obtain ⟨j, hround⟩ := hl.round hread
  have hat : s.pingAt.nanos = now.nanos := congrArg Duration.nanos (hl.pingAt_eq hdue)
  rw [Session.nanos_pingAt, hround] at hat
  have hnext : now.nanos = since.nanos + (j + 1) * s.limits.pingPeriod.nanos := by
    rw [Nat.succ_mul]
    omega
  have hbefore : s.lastPing < now := by
    rw [Duration.lt_def]
    omega
  have hsince : since ≤ now := hg.sinceLe
  have hpatient : now ≤ since + s.limits.patience := by
    have hahead := hl.ahead.2
    rw [Duration.le_def, Session.nanos_giveUpAt, hheard] at hahead
    exact hahead
  have hsame : pending s' inbound = pending s inbound := rfl
  have hpingAt : now ≤ s'.pingAt := by
    rw [Duration.le_def, Session.nanos_pingAt]
    show now.nanos ≤ max s.lastHeard.nanos now.nanos + s.limits.pingPeriod.nanos
    omega
  refine ⟨⟨Or.inr ⟨deadline, rfl⟩, nofun, hl.fits, hl.readable, fun _ => hheard, ?_, ⟨hpingAt, hl.ahead.2⟩, ?_⟩,
    ⟨hsince, hg.earlierLe, ?_, ?_, Nat.le_refl _, ?_, ?_⟩⟩
  · intro hbehind
    exact absurd hread hbehind
  · intro _
    refine ⟨j + 1, ?_⟩
    show max s.lastHeard.nanos now.nanos = _
    rw [hheard, ← hnext]
    exact Nat.max_eq_right hsince
  · rw [List.pairwise_append]
    refine ⟨hg.increasing, List.pairwise_singleton _ _, ?_⟩
    intro t ht t' ht'
    rw [List.mem_singleton.1 ht']
    exact Nat.lt_of_le_of_lt (hg.past t ht) hbefore
  · intro t ht
    rcases List.mem_append.1 ht with hold | hnew
    · exact Nat.le_trans (hg.past t hold) (Nat.le_of_lt hbefore)
    · rw [List.mem_singleton.1 hnew]
      exact Nat.le_refl _
  · intro t ht
    rcases List.mem_append.1 ht with hold | hnew
    · exact hg.onBeat t hold
    · rw [List.mem_singleton.1 hnew]
      exact ⟨since, silentSince hg.earlierLe hsince, ⟨j + 1, Nat.le_add_left 1 j, hnext⟩, hpatient⟩
  · intro r t hsilent hbeat hpatient' hle
    rcases hg.complete r t hsilent hbeat hpatient' hle with hold | ⟨rfl, -⟩
    · exact Or.inl (List.mem_append_left _ hold)
    · exact Or.inl (by simp)

/-- the peer is given up when its patience is just over -/
theorem Live.givesUp (hl : Live now s inbound since) (hdue : s.giveUpAt ≤ now) : now = since + s.limits.patience := by
  have hheard := hl.caughtUp (hl.caughtUp_of_due (Or.inr hdue))
  have hahead := hl.ahead.2
  rw [Duration.le_def, Session.nanos_giveUpAt, hheard] at hdue hahead
  exact Duration.ext_nanos (Nat.le_antisymm hahead hdue)

include hperiod hpatience in
/-- **What a turn keeps.** -/
theorem Live.turn (hl : Live now s inbound since) (hg : Ledger now s since earlier pings) {ps : List Duration}
    (h : Session.Turn now inbound s s' inbound' ps) :
    Stance now s' inbound' since (s'.ending?.map fun reason => (now, reason)) ∧
      Ledger now s' since earlier (pings ++ ps) := by
  have hover := hl.isOver
  have hwriting : ∀ deadline, SessionPhase.writing deadline ≠ .serving := by
    intro deadline hserving
    cases hserving
  cases h with
  | @gets bytes hphase hsome hcome =>
    obtain ⟨rest, rfl⟩ := hcome
    have hlive : Live now { s with incoming := s.incoming ++ bytes } ((bytes ++ rest).drop bytes.length) since :=
      hl.keeps rfl (by simp) rfl rfl hl.busy hl.settled hl.fits
    rw [List.append_nil]
    exact ⟨hlive.stance, hg.keeps rfl rfl fun _ hdue _ => ⟨hover, hdue⟩⟩
  | @hears m rest state hphase hread =>
    let s' : Session := { s with incoming := rest, lastHeard := now, state }
    have hkeeps : Live now s' inbound since ∧ Ledger now s' since earlier pings :=
      hl.reads hperiod hpatience hg hread rfl rfl rfl rfl rfl hl.busy hl.settled
    rw [List.append_nil]
    exact ⟨hkeeps.1.stance, hkeeps.2⟩
  | @answers rest hphase hread =>
    let s' : Session := { s with
      incoming := rest
      lastHeard := now
      outgoing := s.outgoing ++ Frame.bytes .pong
      phase := .writing (now + s.limits.writeTimeout) }
    have hkeeps : Live now s' inbound since ∧ Ledger now s' since earlier pings :=
      hl.reads hperiod hpatience hg hread rfl rfl rfl rfl rfl (Or.inr ⟨_, rfl⟩) fun hserving => absurd hserving (hwriting _)
    rw [List.append_nil]
    exact ⟨hkeeps.1.stance, hkeeps.2⟩
  | @forwards m rest hphase hqueue =>
    let s' : Session := { s with
      queue := rest
      outgoing := s.outgoing ++ Frame.bytes m
      phase := .writing (now + s.limits.writeTimeout) }
    have hrest : ∀ m' ∈ rest, Frame.Fits s.limits.maxFrame m' :=
      fun m' hm' => hl.fits m' (by rw [hqueue]; exact List.mem_cons_of_mem m hm')
    have hlive : Live now s' inbound since :=
      hl.keeps rfl rfl rfl rfl (Or.inr ⟨_, rfl⟩) (fun hserving => absurd hserving (hwriting _)) hrest
    rw [List.append_nil]
    exact ⟨hlive.stance, hg.keeps rfl rfl fun _ hdue _ => ⟨rfl, hdue⟩⟩
  | pings hphase hdue =>
    obtain ⟨hlive, hledger⟩ := hl.beats hperiod hg hdue (now + s.limits.writeTimeout)
    exact ⟨hlive.stance, hledger⟩
  | givesUp hphase hdue =>
    have hnow := hl.givesUp hdue
    rw [List.append_nil]
    refine ⟨.leaving rfl (hl.settled hphase) hnow, hg.keeps rfl rfl ?_⟩
    intro _ _ hpatient
    rw [← hnow] at hpatient
    exact absurd hpatient (Nat.lt_irrefl _)
  | @hands n hphase hn hsome =>
    have hlive : Live now { s with outgoing := s.outgoing.drop n } inbound since :=
      hl.keeps rfl rfl rfl rfl hl.busy (fun hserving => absurd (hl.settled hserving) hsome) hl.fits
    rw [List.append_nil]
    exact ⟨hlive.stance, hg.keeps rfl rfl fun _ hdue _ => ⟨hover, hdue⟩⟩
  | goesOn hphase hnone =>
    have hlive : Live now { s with phase := .serving } inbound since :=
      hl.keeps rfl rfl rfl rfl (Or.inl rfl) (fun _ => hnone) hl.fits
    rw [List.append_nil]
    exact ⟨hlive.stance, hg.keeps rfl rfl fun _ hdue _ => ⟨rfl, hdue⟩⟩
  | ends hphase hnone =>
    rw [Session.isOver, hphase] at hover
    cases hover

include hperiod hpatience in
/-- **What a turn keeps**, also when the session leaves. -/
theorem Stance.turn {ended : Option (Duration × Option SessionError)} (hs : Stance now s inbound since ended)
    (hg : Ledger now s since earlier pings) {ps : List Duration} (h : Session.Turn now inbound s s' inbound' ps) :
    Stance now s' inbound' since (ended.or (s'.ending?.map fun reason => (now, reason))) ∧
      Ledger now s' since earlier (pings ++ ps) := by
  cases hs with
  | live hl => exact hl.turn hperiod hpatience hg h
  | @leaving deadline hleaving hnone hnow =>
    cases h with
    | hands hphase hn hsome => exact absurd hnone hsome
    | ends hphase _ =>
      rw [hleaving] at hphase
      cases hphase
      have hleft : Stance now { s with phase := .ended (some (.idle s.limits.idleDeadline)) } inbound since
          (some (since + s.limits.patience, some (.idle s.limits.idleDeadline))) := .left rfl hnone (hnow ▸ Nat.le_refl _)
      rw [← hnow] at hleft
      rw [List.append_nil]
      refine ⟨hleft, hg.keeps rfl rfl ?_⟩
      intro hover
      rw [Session.isOver, hleaving] at hover
      cases hover
    | gets hphase | hears _ hphase | answers hphase | forwards hphase | pings hphase | givesUp hphase | goesOn hphase =>
      rw [hleaving] at hphase
      cases hphase
  | left hleft hnone hpast =>
    cases h with
    | hands hphase hn hsome => exact absurd hnone hsome
    | gets hphase | hears _ hphase | answers hphase | forwards hphase | pings hphase | givesUp hphase | goesOn hphase
    | ends hphase =>
      rw [hleft] at hphase
      cases hphase

end Turns

/-! ## Bytes that come -/

/-- more bytes do not take back what was read -/
theorem messages_readAll_append (max : Nat) (buf more : Bytes) :
    (readAll max buf).messages <+: (readAll max (buf ++ more)).messages := by
  rw [readAll_append]
  unfold andThen
  split
  · exact List.prefix_append _ _
  · exact List.prefix_refl _

theorem messages_pending_append (s : Session) (inbound bytes : Bytes) :
    (pending s inbound).messages <+: (pending s (inbound ++ bytes)).messages := by
  unfold pending
  rw [← List.append_assoc]
  exact messages_readAll_append _ _ _

/-- **A part of a frame** changes nothing. -/
theorem Live.arrivePart (hl : Live now s inbound since) {bytes : Bytes}
    (hreadable : (pending s (inbound ++ bytes)).wellFormed = true)
    (hpart : (pending s (inbound ++ bytes)).messages.length ≤ (pending s inbound).messages.length) :
    Live now s (inbound ++ bytes) since := by
  have hsame : (pending s (inbound ++ bytes)).messages = (pending s inbound).messages :=
    ((messages_pending_append s inbound bytes).eq_of_length_le hpart).symm
  refine ⟨hl.busy, hl.settled, hl.fits, hreadable, ?_, ?_, hl.ahead, ?_⟩
  · rw [hsame]
    exact hl.caughtUp
  · rw [hsame]
    exact hl.behind
  · rw [hsame]
    exact hl.round

/-- **A whole frame** begins a new silence, if no timer is due. -/
theorem Live.arriveWhole (hperiod : 0 < s.limits.pingPeriod.nanos) (hl : Live now s inbound since)
    (hg : Ledger now s since earlier pings) {bytes : Bytes}
    (hreadable : (pending s (inbound ++ bytes)).wellFormed = true)
    (hwhole : (pending s inbound).messages.length < (pending s (inbound ++ bytes)).messages.length)
    (hbeat : ¬ Beat s.limits.pingPeriod since now) (hpatient : now ≠ since + s.limits.patience) :
    Live now s (inbound ++ bytes) now ∧ Ledger now s now (earlier ++ [since]) pings := by
  have hsome : (pending s (inbound ++ bytes)).messages ≠ [] := List.ne_nil_of_length_pos (Nat.zero_lt_of_lt hwhole)
  have hdeadlines : now < s.pingAt ∧ now < s.giveUpAt := by
    by_cases hread : (pending s inbound).messages = []
    · obtain ⟨j, hround⟩ := hl.round hread
      obtain ⟨hping, hidle⟩ := hl.ahead
      rw [Duration.le_def, Session.nanos_pingAt, hround] at hping
      rw [Duration.le_def, Session.nanos_giveUpAt, hl.caughtUp hread] at hidle
      rw [Duration.lt_def, Duration.lt_def, Session.nanos_pingAt, hround, Session.nanos_giveUpAt, hl.caughtUp hread]
      constructor
      · refine Nat.lt_of_le_of_ne hping fun heq => hbeat ⟨j + 1, Nat.le_add_left 1 j, ?_⟩
        rw [Nat.succ_mul, heq, Nat.add_assoc]
      · exact Nat.lt_of_le_of_ne hidle fun heq => hpatient (Duration.ext_nanos heq)
    · exact (hl.behind hread).2
  refine ⟨⟨hl.busy, hl.settled, hl.fits, hreadable, fun hnone => absurd hnone hsome, fun _ => ⟨rfl, hdeadlines⟩, hl.ahead,
    fun hnone => absurd hnone hsome⟩, ⟨Nat.le_refl _, ?_, hg.increasing, hg.past, hg.lastPingLe, ?_, ?_⟩⟩
  · intro r hr
    exact Nat.le_trans (le_of_mem_snoc hg.earlierLe hr) hg.sinceLe
  · intro t ht
    obtain ⟨r, hsilent, hbeat', hpatient'⟩ := hg.onBeat t ht
    have hle : t ≤ now := Nat.le_trans (hg.past t ht) hg.lastPingLe
    have hlt : t < now := by
      refine Nat.lt_of_le_of_ne hle fun heq => hbeat ?_
      obtain rfl : t = now := Duration.ext_nanos heq
      obtain rfl := hsilent.eq hg.earlierLe hg.sinceLe
      exact hbeat'
    exact ⟨r, (silentSince_snoc hlt).2 hsilent, hbeat', hpatient'⟩
  · intro r t hsilent hbeat' hpatient' hle
    have hlt : t < now := by
      refine Nat.lt_of_le_of_ne hle fun heq => ?_
      obtain rfl : t = now := Duration.ext_nanos heq
      have hlate := hsilent.last t (by simp) (Nat.le_refl _)
      exact absurd (hbeat'.lt hperiod) (Nat.not_lt.2 hlate)
    rcases hg.complete r t ((silentSince_snoc hlt).1 hsilent) hbeat' hpatient' hle with hin | ⟨rfl, -⟩
    · exact Or.inl hin
    · exact absurd hlt (Nat.lt_irrefl _)

/-! ## Time that passes -/

/-- while nothing is at hand, everything that came is read -/
theorem Live.serving_of_rests (hl : Live now s inbound since) (hrests : s.rests now inbound = true) :
    s.phase = .serving ∧ (pending s inbound).messages = [] ∧ now < s.pingAt ∧ now < s.giveUpAt := by
  obtain hphase | ⟨deadline, hphase⟩ := hl.busy
  · simp only [Session.rests, hphase, Bool.and_eq_true, Bool.not_eq_true', decide_eq_false_iff_not,
      List.isEmpty_iff] at hrests
    obtain ⟨⟨⟨⟨rfl, hwaits⟩, -⟩, hping⟩, hidle⟩ := hrests
    rcases hread : Frame.read s.limits.maxFrame s.incoming with ⟨answer, rest⟩
    rw [Conversation.waits_iff, hread] at hwaits
    obtain rfl : answer = .ok none := hwaits
    refine ⟨hphase, ?_, Nat.not_le.1 hping, Nat.not_le.1 hidle⟩
    rw [pending, List.append_nil, readAll_of_none hread]
  · simp [Session.rests, hphase] at hrests

/-- **Time passes** up to the next deadline. -/
theorem Live.wait {moment : Duration} (hl : Live now s inbound since) (hg : Ledger now s since earlier pings)
    (hrests : s.rests now inbound = true) (hlater : now ≤ moment) (hping : moment ≤ s.pingAt)
    (hidle : moment ≤ s.giveUpAt) :
    Live moment s inbound since ∧ Ledger moment s since earlier pings := by
  obtain ⟨hphase, hread, hpingAt, hgiveUpAt⟩ := hl.serving_of_rests hrests
  refine ⟨⟨hl.busy, hl.settled, hl.fits, hl.readable, hl.caughtUp, fun hbehind => absurd hread hbehind, ⟨hping, hidle⟩,
    hl.round⟩, ⟨Nat.le_trans hg.sinceLe hlater, hg.earlierLe, hg.increasing, hg.past, Nat.le_trans hg.lastPingLe hlater,
    hg.onBeat, ?_⟩⟩
  intro r t hsilent hbeat hpatient hle
  by_cases hold : t ≤ now
  · rcases hg.complete r t hsilent hbeat hpatient hold with hin | ⟨-, -, hdue⟩
    · exact Or.inl hin
    · exact absurd hdue (Nat.not_le.2 hpingAt)
  · -- the next beat is the time for the next ping
    have hnew : now < t := Nat.not_le.1 hold
    have hr := hsilent.eq hg.earlierLe (Nat.le_trans hg.sinceLe (Nat.le_of_lt hnew))
    obtain ⟨k, -, ht⟩ := hbeat
    rw [hr] at ht
    obtain ⟨j, hround⟩ := hl.round hread
    have hbefore : since.nanos + j * s.limits.pingPeriod.nanos ≤ now.nanos := by
      rw [← hround, hl.caughtUp hread]
      exact Nat.max_le.2 ⟨hg.sinceLe, hg.lastPingLe⟩
    have hmore : j < k := by
      rw [Duration.lt_def, ht] at hnew
      refine Nat.lt_of_mul_lt_mul_right (a := s.limits.pingPeriod.nanos) ?_
      omega
    have hat : s.pingAt ≤ t := by
      have hstep := Nat.mul_le_mul_right s.limits.pingPeriod.nanos (Nat.succ_le_of_lt hmore)
      rw [Nat.succ_mul] at hstep
      rw [Duration.le_def, Session.nanos_pingAt, hround, ht]
      omega
    obtain rfl : t = moment := Duration.ext_nanos (Nat.le_antisymm hle (Nat.le_trans hping hat))
    exact Or.inr ⟨rfl, hl.isOver, hat⟩

/-- after the end the ledger is closed -/
theorem Stance.wait {ended : Option (Duration × Option SessionError)} {moment : Duration}
    (hs : Stance now s inbound since ended) (hg : Ledger now s since earlier pings)
    (hrests : s.rests now inbound = true) (hlater : now ≤ moment)
    (hdeadline : ∀ deadline ∈ s.deadline?, moment ≤ deadline) :
    Stance moment s inbound since ended ∧ Ledger moment s since earlier pings := by
  cases hs with
  | live hl =>
    have hnext : s.deadline? = some (min s.pingAt s.giveUpAt) := by
      rw [Session.deadline?, (hl.serving_of_rests hrests).1]
    have hle : moment.nanos ≤ min s.pingAt.nanos s.giveUpAt.nanos := by
      rw [← Duration.nanos_min]
      exact hdeadline _ hnext
    obtain ⟨hlive, hledger⟩ := hl.wait hg hrests hlater (Nat.le_trans hle (Nat.min_le_left _ _))
      (Nat.le_trans hle (Nat.min_le_right _ _))
    exact ⟨.live hlive, hledger⟩
  | leaving hphase => simp [Session.rests, hphase] at hrests
  | left hphase hnone hpast =>
    refine ⟨.left hphase hnone (Nat.le_trans hpast hlater), Nat.le_trans hg.sinceLe hlater, hg.earlierLe, hg.increasing,
      hg.past, Nat.le_trans hg.lastPingLe hlater, hg.onBeat, ?_⟩
    intro r t hsilent hbeat hpatient hle
    by_cases hold : t ≤ now
    · rcases hg.complete r t hsilent hbeat hpatient hold with hin | ⟨-, hover, -⟩
      · exact Or.inl hin
      · rw [Session.isOver, hphase] at hover
        cases hover
    · have hnew : now < t := Nat.not_le.1 hold
      have hr := hsilent.eq hg.earlierLe (Nat.le_trans hg.sinceLe (Nat.le_of_lt hnew))
      rw [hr] at hpatient
      exact absurd (Nat.lt_of_le_of_lt hpast hnew) (Nat.lt_asymm hpatient)

/-! ## Runs -/

/-- what a vigil keeps -/
structure Kept (id : ClientId) (limits : SessionLimits) (v : Vigil) : Prop where
  faithful : Session.Faithful id limits v.history
  stance : Stance v.now v.session v.inbound v.since v.ended
  ledger : Ledger v.now v.session v.since v.earlier v.pings

variable {id : ClientId} {limits : SessionLimits} {v : Vigil}

theorem readout_eq (hf : Session.Faithful id limits v.history) (hover : v.session.isOver = false) (bytes : Bytes) :
    v.readout bytes = prepend v.history.heard (pending v.session (v.inbound ++ bytes)) := by
  have hlimits : v.session.limits = limits := hf.sameLimits
  have hlive := hf.live hover
  unfold readout pending
  rw [hlimits, List.append_assoc, readAll_append, hlive, andThen_prepend, ← readAll_append]
  rfl

theorem wellFormed_of_prepend {ms : List Message} {r : Readout} (h : (prepend ms r).wellFormed = true) :
    r.wellFormed = true := by
  simp only [wellFormed, prepend, List.all_append, Bool.and_eq_true] at h ⊢
  exact ⟨h.1, h.2.2⟩

theorem Stance.live_of {ended : Option (Duration × Option SessionError)} (h : Stance now s inbound since ended)
    (hover : s.isOver = false) : ended = none ∧ Live now s inbound since := by
  cases h with
  | live hl => exact ⟨rfl, hl⟩
  | leaving hphase =>
    rw [Session.isOver, hphase] at hover
    cases hover
  | left hphase =>
    rw [Session.isOver, hphase] at hover
    cases hover

theorem Stance.serving {ended : Option (Duration × Option SessionError)} (h : Stance now s inbound since ended)
    (hphase : s.phase = .serving) : (∀ m ∈ s.queue, Frame.Fits s.limits.maxFrame m) ∧
      (readAll s.limits.maxFrame (s.incoming ++ inbound)).wellFormed = true := by
  obtain ⟨-, hl⟩ := h.live_of (by rw [Session.isOver, hphase])
  exact ⟨hl.fits, hl.readable⟩

/-- a message that can be framed may be given to the session at any time -/
theorem Stance.send {ended : Option (Duration × Option SessionError)} (h : Stance now s inbound since ended)
    {m : Message} (hfits : Frame.Fits s.limits.maxFrame m) : Stance now (s.send m).1 inbound since ended := by
  unfold Session.send
  split_ifs
  · exact h
  · cases h with
    | live hl =>
      refine .live (hl.keeps rfl rfl rfl rfl hl.busy hl.settled ?_)
      intro m' hm'
      rcases List.mem_append.1 hm' with hold | hnew
      · exact hl.fits m' hold
      · rwa [List.mem_singleton.1 hnew]
    | leaving hphase hnone hnow => exact .leaving hphase hnone hnow
    | left hphase hnone hpast => exact .left hphase hnone hpast
  · exact h

theorem Ledger.send (hg : Ledger now s since earlier pings) (m : Message) :
    Ledger now (s.send m).1 since earlier pings := by
  unfold Session.send
  split_ifs
  · exact hg
  · exact hg.keeps rfl rfl fun hover hdue _ => ⟨hover, hdue⟩
  · exact hg

section Positive

variable (hperiod : 0 < limits.pingPeriod.nanos) (hpatience : 0 < limits.patience.nanos)

include hperiod in
theorem Kept.arrive (hk : Kept id limits v) {bytes : Bytes} (hcan : v.can (.arrive bytes) = true) :
    Kept id limits (v.arrive bytes) := by
  have hlimits : v.session.limits = limits := hk.faithful.sameLimits
  simp only [can, Bool.and_eq_true, Bool.not_eq_true', Bool.or_eq_true] at hcan
  obtain ⟨⟨hover, hreadable⟩, htimer⟩ := hcan
  obtain ⟨hended, hl⟩ := hk.stance.live_of hover
  have hreadable' : (pending v.session (v.inbound ++ bytes)).wellFormed = true :=
    wellFormed_of_prepend (readout_eq hk.faithful hover bytes ▸ hreadable)
  have hcompletes : v.completes bytes = true ↔
      (pending v.session v.inbound).messages.length < (pending v.session (v.inbound ++ bytes)).messages.length := by
    unfold completes
    rw [decide_eq_true_eq, readout_eq hk.faithful hover, readout_eq hk.faithful hover, List.append_nil]
    simp only [prepend, List.length_append, Nat.add_lt_add_iff_left]
  unfold Vigil.arrive
  by_cases hwhole : v.completes bytes = true
  · have hsilent : v.timerDue = false := htimer.resolve_left (by simp [hwhole])
    simp only [timerDue, Bool.or_eq_false_iff, Bool.and_eq_false_iff, decide_eq_false_iff_not, beq_eq_false_iff_ne,
      ne_eq] at hsilent
    have hbeat : ¬ Beat v.session.limits.pingPeriod v.since v.now := by
      intro hbeat
      have hlt := hbeat.lt (hlimits ▸ hperiod)
      obtain ⟨k, -, hk⟩ := hbeat
      refine hsilent.1.elim (fun hnot => hnot hlt) fun hmod => hmod ?_
      rw [hk, Nat.add_sub_cancel_left, Nat.mul_mod_left]
    obtain ⟨hlive, hledger⟩ := hl.arriveWhole (hlimits ▸ hperiod) hk.ledger hreadable' (hcompletes.1 hwhole) hbeat hsilent.2
    rw [if_pos hwhole]
    refine ⟨hk.faithful, ?_, hledger⟩
    show Stance _ _ _ _ v.ended
    rw [hended]
    exact .live hlive
  · rw [if_neg hwhole]
    refine ⟨hk.faithful, ?_, hk.ledger⟩
    show Stance _ _ _ _ v.ended
    rw [hended]
    exact .live (hl.arrivePart hreadable' (Nat.not_lt.1 (mt hcompletes.2 hwhole)))

include hperiod hpatience in
theorem Kept.goOn (hk : Kept id limits v) {e : SessionEvent} (hcan : v.can (.goOn e) = true) :
    Kept id limits (v.goOn e) := by
  have hlimits : v.session.limits = limits := hk.faithful.sameLimits
  obtain ⟨hstance, hledger⟩ := hk.stance.turn (hlimits ▸ hperiod) (hlimits ▸ hpatience) hk.ledger
    (Session.turn hk.stance.serving hcan)
  exact ⟨hk.faithful.does (Session.does _ (.event v.now e)), hstance, hledger⟩

theorem Kept.wait (hk : Kept id limits v) {moment : Duration} (hcan : v.can (.wait moment) = true) :
    Kept id limits { v with now := moment } := by
  simp only [can, Bool.and_eq_true, decide_eq_true_eq] at hcan
  obtain ⟨⟨hrests, hlater⟩, hdeadline⟩ := hcan
  obtain ⟨hstance, hledger⟩ := hk.stance.wait hk.ledger hrests hlater fun deadline hd => by
    rw [Option.mem_def.1 hd] at hdeadline
    exact of_decide_eq_true hdeadline
  exact ⟨hk.faithful, hstance, hledger⟩

include hperiod hpatience in
/-- **Whatever can happen, a vigil is kept.** -/
theorem Kept.step (hk : Kept id limits v) (a : Act) : Kept id limits (v.step a) := by
  unfold Vigil.step
  split
  · rename_i hcan
    cases a with
    | arrive bytes => exact hk.arrive hperiod hcan
    | send m =>
      have hfits : Frame.Fits v.session.limits.maxFrame m := of_decide_eq_true hcan
      exact ⟨hk.faithful.does (Session.does _ (.send m)), hk.stance.send hfits, hk.ledger.send m⟩
    | goOn e => exact hk.goOn hperiod hpatience hcan
    | wait moment => exact hk.wait hcan
  · exact hk

include hperiod in
theorem kept_start (id : ClientId) (moment : Duration) : Kept id limits (.start id limits moment) := by
  have hnothing : readAll limits.maxFrame [] = ⟨[], .ok []⟩ := readAll_of_none rfl
  refine ⟨(Session.faithful_start id limits).does (Session.does _ (.event moment .start)), .live ?_, ?_⟩
  · refine ⟨Or.inl rfl, fun _ => rfl, nofun, ?_, fun _ => rfl, ?_, ?_, fun _ => ⟨0, ?_⟩⟩
    · show (readAll limits.maxFrame []).wellFormed = true
      rw [hnothing]
      rfl
    · show (readAll limits.maxFrame []).messages ≠ [] → _
      rw [hnothing]
      exact fun hsome => absurd rfl hsome
    · rw [Duration.le_def, Duration.le_def, Session.nanos_pingAt, Session.nanos_giveUpAt]
      exact ⟨Nat.le_add_right_of_le (Nat.le_max_left _ _), Nat.le_add_right _ _⟩
    · show max moment.nanos moment.nanos = _
      rw [Nat.max_self, Nat.zero_mul]
      rfl
  · refine ⟨Nat.le_refl _, nofun, List.Pairwise.nil, nofun, Nat.le_refl _, nofun, ?_⟩
    intro r t hsilent hbeat _ hle
    obtain rfl : r = moment := List.mem_singleton.1 hsilent.mem
    exact absurd (hbeat.lt hperiod) (Nat.not_lt.2 hle)

include hperiod hpatience in
theorem Kept.run (hk : Kept id limits v) (as : List Act) : Kept id limits (v.run as) := by
  induction as using List.reverseRecOn with
  | nil => exact hk
  | append_singleton as a ih =>
    rw [run_snoc]
    exact ih.step hperiod hpatience a

end Positive

/-! ## Going on -/

/-- what happens by itself: what is at hand is handled, and time passes -/
def Act.isOwn : Act → Bool
  | .goOn _ | .wait _ => true
  | _ => false

/-- nothing is at hand -/
def AtRest (v : Vigil) : Prop := ∀ e, v.session.atHand v.now v.inbound e = false

theorem atRest_iff : v.AtRest ↔ v.session.rests v.now v.inbound = true := Session.rests_iff.symm

section Positive

variable (hperiod : 0 < limits.pingPeriod.nanos) (hpatience : 0 < limits.patience.nanos)

include hperiod hpatience in
/-- **What is at hand is handled** before time passes: there is less left to do after every turn. -/
theorem settles (hk : Kept id limits v) : ∃ as, (∀ a ∈ as, a.isOwn = true) ∧ (v.run as).AtRest ∧
    (v.run as).now = v.now ∧ (v.run as).since = v.since ∧ (v.run as).earlier = v.earlier := by
  induction hn : v.session.work v.now v.inbound using Nat.strong_induction_on generalizing v with
  | _ n ih =>
    by_cases hrest : v.AtRest
    · exact ⟨[], nofun, hrest, rfl, rfl, rfl⟩
    · obtain ⟨e, he⟩ := not_forall.1 hrest
      have hhand : v.can (.goOn e) = true := Bool.eq_true_of_not_eq_false he
      have hstep : v.step (.goOn e) = v.goOn e := if_pos hhand
      have hless := (Session.turn hk.stance.serving hhand).work_lt (hk.faithful.sameLimits ▸ hperiod)
      obtain ⟨as, hown, hat, hnow, hsince, hearlier⟩ := ih _ (hn ▸ hless) (hk.goOn hperiod hpatience hhand) rfl
      refine ⟨.goOn e :: as, ?_, ?_⟩
      · intro a ha
        rcases List.mem_cons.1 ha with rfl | ha
        · rfl
        · exact hown a ha
      · rw [show v.run (.goOn e :: as) = (v.goOn e).run as from congrArg (Vigil.run · as) hstep]
        exact ⟨hat, hnow, hsince, hearlier⟩

/-- time can pass while nothing is at hand -/
theorem can_wait {moment : Duration} (hrests : v.session.rests v.now v.inbound = true) (hlater : v.now ≤ moment)
    (hdeadline : ∀ deadline ∈ v.session.deadline?, moment ≤ deadline) : v.can (.wait moment) = true := by
  simp only [can, hrests, hlater, decide_true, Bool.and_self, Bool.true_and]
  cases hd : v.session.deadline? with
  | none => rfl
  | some deadline => exact decide_eq_true (hdeadline deadline hd)

theorem exists_wait (hk : Kept id limits v) (hrest : v.AtRest) (hlater : v.now < t) :
    ∃ moment, v.now < moment ∧ moment ≤ t ∧ v.can (.wait moment) = true := by
  have hrests := atRest_iff.1 hrest
  obtain ⟨-, hstance, -⟩ := hk
  generalize hended : v.ended = ended at hstance
  cases hstance with
  | live hl =>
    obtain ⟨hphase, -, hping, hidle⟩ := hl.serving_of_rests hrests
    have hnext : v.now < min (min v.session.pingAt v.session.giveUpAt) t := by
      rw [Duration.lt_def, Duration.nanos_min, Duration.nanos_min]
      exact Nat.lt_min.2 ⟨Nat.lt_min.2 ⟨hping, hidle⟩, hlater⟩
    refine ⟨_, hnext, ?_, can_wait hrests (Nat.le_of_lt hnext) ?_⟩
    · rw [Duration.le_def, Duration.nanos_min]
      exact Nat.min_le_right _ _
    · intro deadline hdeadline
      rw [Session.deadline?, hphase] at hdeadline
      obtain rfl := Option.some.inj hdeadline
      rw [Duration.le_def, Duration.nanos_min]
      exact Nat.min_le_left _ _
  | leaving hphase => simp [Session.rests, hphase] at hrests
  | left hphase =>
    refine ⟨t, hlater, Nat.le_refl _, can_wait hrests (Nat.le_of_lt hlater) ?_⟩
    rw [Session.deadline?, hphase]
    nofun

include hperiod hpatience in
/-- **Time goes on** to any moment, when nothing comes. -/
theorem reaches (hk : Kept id limits v) (hlater : v.now ≤ t) : ∃ as, (∀ a ∈ as, a.isOwn = true) ∧ (v.run as).AtRest ∧
    (v.run as).now = t ∧ (v.run as).since = v.since ∧ (v.run as).earlier = v.earlier := by
  induction hn : t.nanos - v.now.nanos using Nat.strong_induction_on generalizing v with
  | _ n ih =>
    obtain ⟨as, hown, hrest, hnow, hsince, hearlier⟩ := settles hperiod hpatience hk
    rcases Nat.eq_or_lt_of_le hlater with heq | hlt
    · exact ⟨as, hown, hrest, hnow.trans (Duration.ext_nanos heq), hsince, hearlier⟩
    · have hkept : Kept id limits (v.run as) := hk.run hperiod hpatience as
      have hlt' : (v.run as).now < t := by
        rw [hnow]
        exact hlt
      obtain ⟨moment, hmoment, hle, hcan⟩ := exists_wait hkept hrest hlt'
      have hstep : (v.run as).step (.wait moment) = { v.run as with now := moment } := if_pos hcan
      rw [hnow, Duration.lt_def] at hmoment
      obtain ⟨bs, hown', hrest', hnow', hsince', hearlier'⟩ :=
        ih (t.nanos - moment.nanos) (by rw [Duration.le_def] at hle; omega) (hkept.wait hcan) hle rfl
      refine ⟨as ++ .wait moment :: bs, ?_, ?_⟩
      · intro a ha
        rcases List.mem_append.1 ha with ha | ha
        · exact hown a ha
        · rcases List.mem_cons.1 ha with rfl | ha
          · rfl
          · exact hown' a ha
      · rw [run_append, show (v.run as).run (.wait moment :: bs) = Vigil.run { v.run as with now := moment } bs from
          congrArg (Vigil.run · bs) hstep]
        exact ⟨hrest', hnow', hsince'.trans hsince, hearlier'.trans hearlier⟩

end Positive

/-! ## The law -/

/-- all that could happen at a moment has happened -/
def Done (v : Vigil) (t : Duration) : Prop := t < v.now ∨ v.AtRest ∧ t ≤ v.now

/-- patience is not over while the session goes on -/
theorem Live.le_patience (hl : Live now s inbound since) : now ≤ since + s.limits.patience := by
  by_cases hread : (pending s inbound).messages = []
  · have hahead := hl.ahead.2
    rwa [Duration.le_def, Session.nanos_giveUpAt, hl.caughtUp hread] at hahead
  · rw [(hl.behind hread).1]
    exact Nat.le_add_right _ _

theorem Kept.ended_of_done (hk : Kept id limits v) (hdone : v.Done (v.since + limits.patience)) :
    v.ended = some (v.since + limits.patience, some (.idle limits.idleDeadline)) := by
  have hlimits : v.session.limits = limits := hk.faithful.sameLimits
  obtain ⟨-, hstance, -⟩ := hk
  subst hlimits
  generalize hended : v.ended = ended at hstance
  cases hstance with
  | live hl =>
    rcases hdone with hpast | ⟨hrest, hpast⟩
    · exact absurd hpast (Nat.not_lt.2 hl.le_patience)
    · obtain ⟨-, hread, -, hidle⟩ := hl.serving_of_rests (atRest_iff.1 hrest)
      rw [Duration.lt_def, Session.nanos_giveUpAt, hl.caughtUp hread] at hidle
      exact absurd hidle (Nat.not_lt.2 hpast)
  | leaving hphase hnone hnow =>
    rcases hdone with hpast | ⟨hrest, -⟩
    · rw [← hnow] at hpast
      exact absurd hpast (Nat.lt_irrefl _)
    · have hrests := atRest_iff.1 hrest
      simp [Session.rests, hphase] at hrests
  | left hphase hnone hpast => rfl

theorem Kept.ended_eq (hk : Kept id limits v) {reason : Option SessionError} (h : v.ended = some (t, reason)) :
    t = v.since + limits.patience ∧ reason = some (.idle limits.idleDeadline) := by
  have hlimits : v.session.limits = limits := hk.faithful.sameLimits
  obtain ⟨-, hstance, -⟩ := hk
  subst hlimits
  rw [h] at hstance
  cases hstance
  exact ⟨rfl, rfl⟩

theorem Kept.mem_pings_of_done (hk : Kept id limits v) (hsilent : SilentSince (v.earlier ++ [v.since]) r t)
    (hbeat : Beat limits.pingPeriod r t) (hpatient : t < r + limits.patience) (hdone : v.Done t) : t ∈ v.pings := by
  have hlimits : v.session.limits = limits := hk.faithful.sameLimits
  obtain ⟨-, hstance, hledger⟩ := hk
  subst hlimits
  have hle : t ≤ v.now := hdone.elim Nat.le_of_lt And.right
  rcases hledger.complete r t hsilent hbeat hpatient hle with hin | ⟨rfl, hover, hdue⟩
  · exact hin
  · rcases hdone with hlt | ⟨hrest, -⟩
    · exact absurd hlt (Nat.lt_irrefl _)
    · obtain ⟨-, hl⟩ := hstance.live_of hover
      obtain ⟨-, -, hping, -⟩ := hl.serving_of_rests (atRest_iff.1 hrest)
      exact absurd hdue (Nat.not_le.2 hping)

theorem Kept.outgoing_of_rest (hk : Kept id limits v) (hrest : v.AtRest) : v.session.outgoing = [] := by
  obtain ⟨-, hstance, -⟩ := hk
  generalize v.ended = ended at hstance
  cases hstance with
  | live hl => exact hl.settled (hl.serving_of_rests (atRest_iff.1 hrest)).1
  | leaving hphase hnone hnow => exact hnone
  | left hphase hnone hpast => exact hnone

/-- **Keepalive.** Both delays are positive. Bytes come when they come, in any pieces, whole frames at no moment at which a
timer of the silence is due; messages are given to the session when they are; what is at hand is handled in any order, and
whatever is written is taken at once. Nobody tells the session to close, and its peer and the transport stay. Then, whatever
has happened:

- if the session has ended, then for want of traffic, and just when the last silence had lasted for the whole patience;
- and it has ended when that moment is over;
- it has pinged its peer once at a time, and only after a whole number of periods of the silence of that moment, while patience
  lasted;
- and it has pinged at every such moment that is over, unless patience was over with it;
- nothing that was written waits when nothing is at hand;
- and time goes on to any moment at which nothing is left at hand, if nothing else comes.

Neither messages that are sent nor parts of frames begin a silence, so these times do not depend on them. -/
theorem keepalive (id : ClientId) {limits : SessionLimits} (hping : .zero < limits.pingAfter)
    (hidle : .zero < limits.idleDeadline) (moment : Duration) (as : List Act) :
    let v := (Vigil.start id limits moment).run as
    let marks := v.earlier ++ [v.since]
    (∀ t reason, v.ended = some (t, reason) →
      t = v.since + limits.patience ∧ reason = some (.idle limits.idleDeadline)) ∧
    (v.Done (v.since + limits.patience) →
      v.ended = some (v.since + limits.patience, some (.idle limits.idleDeadline))) ∧
    (v.pings.Pairwise (· < ·) ∧
      ∀ t ∈ v.pings, ∃ r, SilentSince marks r t ∧ Beat limits.pingPeriod r t ∧ t ≤ r + limits.patience) ∧
    (∀ r t, SilentSince marks r t → Beat limits.pingPeriod r t → t < r + limits.patience → v.Done t → t ∈ v.pings) ∧
    (v.AtRest → v.session.outgoing = []) ∧
    ∀ t, v.now ≤ t → ∃ bs, (∀ b ∈ bs, b.isOwn = true) ∧ (v.run bs).AtRest ∧ (v.run bs).now = t ∧
      (v.run bs).since = v.since ∧ (v.run bs).earlier = v.earlier := by
  intro v marks
  have hfarthest : 0 < Session.farthest.nanos := by decide
  have hperiod : 0 < limits.pingPeriod.nanos := by
    rw [SessionLimits.pingPeriod, Duration.nanos_min]
    exact Nat.lt_min.2 ⟨hping, hfarthest⟩
  have hpatience : 0 < limits.patience.nanos := by
    rw [SessionLimits.patience, Duration.nanos_min]
    exact Nat.lt_min.2 ⟨hidle, hfarthest⟩
  have hk : Kept id limits v := (kept_start hperiod id moment).run hperiod hpatience as
  have hlimits : v.session.limits = limits := hk.faithful.sameLimits
  refine ⟨fun t reason h => hk.ended_eq h, hk.ended_of_done, ⟨hk.ledger.increasing, ?_⟩, fun r t => hk.mem_pings_of_done,
    hk.outgoing_of_rest, fun t => reaches hperiod hpatience hk⟩
  rw [← hlimits]
  exact hk.ledger.onBeat

/-- A pong comes in two parts, at 3 s and at 4 s, and nothing after it; a request is sent at 10 s. The periods of 5 s are
counted from 4 s on, and so is the patience of 12 s. -/
theorem keepalive_interrupted :
    let limits : SessionLimits := { pingAfter := .ofSecs 5, idleDeadline := .ofSecs 12 }
    let pong := Frame.bytes .pong
    let as : List Act := [.wait (.ofSecs 3), .arrive (pong.take 3), .goOn (.arrival (pong.take 3)), .wait (.ofSecs 4),
      .arrive (pong.drop 3), .goOn (.arrival (pong.drop 3)), .goOn .frame, .wait (.ofSecs 9), .goOn .pingTime,
      .goOn (.taken 8), .goOn .flushed, .wait (.ofSecs 10), .send (.reportAll 7), .goOn .outbound, .goOn (.taken 100),
      .goOn .flushed, .wait (.ofSecs 14), .goOn .pingTime, .goOn (.taken 8), .goOn .flushed, .wait (.ofSecs 16),
      .goOn .idleTime, .goOn .shut]
    let v := (Vigil.start 1 limits .zero).run as
    v.ended = some (.ofSecs 16, some (.idle (.ofSecs 12))) ∧ .ofSecs 9 ∈ v.pings ∧ .ofSecs 14 ∈ v.pings ∧
      .ofSecs 5 ∉ v.pings := by
  intro limits pong as v
  have hmarks : v.earlier ++ [v.since] = [.zero, .ofSecs 4] := by decide +kernel
  have hsince : v.since = .ofSecs 4 := by decide +kernel
  have hnow : v.now = .ofSecs 16 := by decide +kernel
  have hrest : v.AtRest := atRest_iff.2 (by decide +kernel)
  have hlaw := @keepalive 1 limits (by decide) (by decide) .zero as
  -- the run need not be evaluated again
  simp only [show (Vigil.start 1 limits .zero).run as = v from rfl] at hlaw
  clear_value v
  obtain ⟨-, hended, ⟨-, honBeat⟩, hpinged, -⟩ := hlaw
  have hperiod : limits.pingPeriod = .ofSecs 5 := by decide +kernel
  have hend : Duration.ofSecs 4 + limits.patience = .ofSecs 16 := by decide +kernel
  rw [hsince, hend] at hended
  rw [hmarks, hperiod] at honBeat hpinged
  have hsilent : ∀ t, .ofSecs 4 ≤ t → SilentSince [.zero, .ofSecs 4] (.ofSecs 4) t := by
    have hall : ∀ r' ∈ [.zero, .ofSecs 4], r' ≤ Duration.ofSecs 4 := by decide +kernel
    exact fun t ht => ⟨by simp, ht, fun r' hr' _ => hall r' hr'⟩
  have hbeat : ∀ k, 1 ≤ k → Duration.ofSecs (4 + k * 5) < .ofSecs 16 → .ofSecs (4 + k * 5) ∈ v.pings := by
    intro k hk hlt
    refine hpinged (.ofSecs 4) _ (hsilent _ ?_) ⟨k, hk, ?_⟩ (by rwa [hend]) (Or.inr ⟨hrest, ?_⟩)
    · simp only [Duration.le_def, Duration.ofSecs]
      omega
    · simp only [Duration.ofSecs]
      omega
    · rw [hnow]
      exact Nat.le_of_lt hlt
  refine ⟨hended (Or.inr ⟨hrest, ?_⟩), hbeat 1 (by decide) (by decide +kernel), hbeat 2 (by decide) (by decide +kernel), ?_⟩
  · rw [hnow]
    exact Nat.le_refl _
  · intro hfive
    obtain ⟨r, hr, ⟨k, hk, hfive⟩, -⟩ := honBeat _ hfive
    obtain rfl : r = .ofSecs 4 := @SilentSince.eq _ _ _ [.zero] hr (by decide +kernel) (by decide +kernel)
    simp only [Duration.ofSecs] at hfive
    omega

end Vigil

end MetricSurvey

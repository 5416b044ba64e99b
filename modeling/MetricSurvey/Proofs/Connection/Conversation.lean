/-
Conversations: a reporter and a session understand each other for as long as nobody gives up.

- `Poise.sessionTurn`, `Poise.reporterTurn`: nobody leaves before the session is released, and nobody leaves in anger.
- `Flow.sessionTurn`, `Flow.reporterTurn`: no request, answer or ping is lost, doubled or overtaken.
- `sound_run`: so it is in every conversation in which the bodies fit.
- `conversation_holds`: neither end ever fails; requests are answered in order, once each; no ping gets two pongs.
-/
import MetricSurvey.Proofs.Connection.Turns

namespace MetricSurvey

namespace Conversation

variable {c c' : Conversation} {down up : List Message}

/-! ## What is kept -/

namespace Poise

/-- the session goes on without leaving -/
theorem session (hp : Poise c) {s : Session} {wires : Duplex} (told : List SessionEffect) (asked : List Message)
    (hended : s.hasEnded = c.session.hasEnded) (hsettled : s.isWriting = false → s.outgoing = [])
    (hleft : s.parting? = c.session.parting?) (hends : c.wires.SameEnds wires) :
    Poise { c with session := s, wires, told, asked } where
  settled := hsettled
  reporterSettled := hp.reporterSettled
  left reason h := hp.left reason (hleft ▸ h)
  reporterLeft reason h := ⟨(hp.reporterLeft reason h).1, hended.trans (hp.reporterLeft reason h).2⟩
  unrefused := hp.unrefused
  toServer := ⟨hends.serverFinished.trans hp.toServer.1, hends.serverAbandoned.trans (hp.toServer.2.trans hended.symm)⟩
  toClient := ⟨hends.clientFinished.trans (hp.toClient.1.trans hended.symm), hends.clientAbandoned.trans hp.toClient.2⟩

/-- the session goes on with what it does while it is not leaving -/
theorem stays (hp : Poise c) {s : Session} (asked : List Message) (hbefore : c.session.parting? = none)
    (hafter : s.parting? = none) (hsettled : s.isWriting = false → s.outgoing = []) :
    Poise { c with session := s, asked } := by
  refine hp.session _ _ ?_ hsettled (hafter.trans hbefore.symm) ⟨rfl, rfl, rfl, rfl⟩
  rw [Session.hasEnded_of_parting hafter, Session.hasEnded_of_parting hbefore]

theorem sessionTurn (hp : Poise c) (ht : SessionTurn c c') : Poise c' := by
  have hsame : c.wires.SameEnds c.wires := ⟨rfl, rfl, rfl, rfl⟩
  cases ht with
  | nothing => exact hp
  | release => exact { hp with left := fun reason h => ⟨(hp.left reason h).1, rfl⟩ }
  | begins now hphase =>
    refine hp.stays _ (by rw [Session.parting?, hphase]) rfl ?_
    intro _
    exact hp.settled (by rw [Session.isWriting, hphase])
  | gets hphase hbytes => exact hp.session _ _ rfl hp.settled rfl ⟨rfl, rfl, rfl, rfl⟩
  | hears now hphase hread => exact hp.session _ _ rfl hp.settled rfl hsame
  | asks now hphase hqueue hfits =>
    refine hp.stays _ (by rw [Session.parting?, hphase]) rfl ?_
    intro hidle
    cases hidle
  | pings now hphase =>
    refine hp.stays _ (by rw [Session.parting?, hphase]) rfl ?_
    intro hidle
    cases hidle
  | hands n hphase =>
    refine hp.session _ _ rfl ?_ rfl ⟨rfl, rfl, rfl, rfl⟩
    intro hidle
    exact absurd (hphase.symm.trans hidle) (by decide)
  | goesOn hphase hout =>
    exact hp.stays _ (by rw [Session.parting?, hphase]) rfl fun _ => hout
  | leaves now hphase =>
    have hended : c.session.hasEnded = false := by simp [Session.hasEnded, Session.ending?, hphase]
    refine { hp with settled := ?_, left := ?_, reporterLeft := ?_, toServer := ?_, toClient := ?_ }
    · intro hidle
      cases hidle
    · intro reason h
      cases h
      exact ⟨rfl, rfl⟩
    · intro reason h
      have hleft := (hp.reporterLeft reason h).2
      rw [hended] at hleft
      cases hleft
    · exact ⟨hp.toServer.1, hp.toServer.2.trans hended⟩
    · exact ⟨hp.toClient.1.trans hended, hp.toClient.2⟩
  | @ends deadline reason hphase hout =>
    obtain ⟨rfl, hreleased⟩ := hp.left reason (by rw [Session.parting?, hphase])
    refine { hp with settled := fun _ => hout, left := ?_, reporterLeft := ?_, toServer := ?_, toClient := ?_ }
    · intro reason h
      cases h
      exact ⟨rfl, hreleased⟩
    · intro reason h
      exact ⟨(hp.reporterLeft reason h).1, rfl⟩
    · exact ⟨hp.toServer.1, rfl⟩
    · exact ⟨rfl, hp.toClient.2⟩

/-- the reporter goes on without leaving -/
theorem reporter (hp : Poise c) {r : Reporter} {wires : Duplex} (reported : List ReporterEffect) (answered : List Message)
    (hending : r.ending? = c.reporter.ending?) (hsettled : r.isWriting = false → r.outgoing = [])
    (hreported : ∀ refusal, .registered refusal ∈ reported → refusal = none) (hends : c.wires.SameEnds wires) :
    Poise { c with reporter := r, wires, reported, answered } := by
  have hended : r.hasEnded = c.reporter.hasEnded := by rw [Reporter.hasEnded, hending, Reporter.hasEnded]
  exact {
    settled := hp.settled
    reporterSettled := hsettled
    left := hp.left
    reporterLeft := fun reason h => hp.reporterLeft reason (hending ▸ h)
    unrefused := hreported
    toServer :=
      ⟨hends.serverFinished.trans (hp.toServer.1.trans hended.symm), hends.serverAbandoned.trans hp.toServer.2⟩
    toClient :=
      ⟨hends.clientFinished.trans hp.toClient.1, hends.clientAbandoned.trans (hp.toClient.2.trans hended.symm)⟩ }

theorem reporterTurn (hp : Poise c) (ht : ReporterTurn c c') : Poise c' := by
  have hsame : c.wires.SameEnds c.wires := ⟨rfl, rfl, rfl, rfl⟩
  cases ht with
  | nothing => exact hp
  | registers now tags hphase =>
    refine hp.reporter _ _ (by simp [Reporter.ending?, hphase]) ?_ hp.unrefused hsame
    intro hidle
    cases hidle
  | begins hphase =>
    refine hp.reporter _ _ (by simp [Reporter.ending?, hphase]) ?_ hp.unrefused hsame
    intro _
    exact hp.reporterSettled (by rw [Reporter.isWriting, hphase])
  | gets hphase hbytes => exact hp.reporter _ _ rfl hp.reporterSettled hp.unrefused ⟨rfl, rfl, rfl, rfl⟩
  | answers now registry hphase hread hanswer =>
    refine hp.reporter _ _ (by simp [Reporter.ending?, hphase]) ?_ hp.unrefused hsame
    intro hidle
    cases hidle
  | hands n hphase =>
    refine hp.reporter _ _ rfl ?_ ?_ ⟨rfl, rfl, rfl, rfl⟩
    · intro hidle
      exact absurd (hphase.symm.trans hidle) (by decide)
    · intro refusal h
      exact hp.unrefused refusal (by simpa using h)
  | goesOn hphase hout =>
    exact hp.reporter _ _ (by simp [Reporter.ending?, hphase]) (fun _ => hout) hp.unrefused hsame
  | registered hphase hout =>
    refine hp.reporter _ _ (by simp [Reporter.ending?, hphase]) (fun _ => hout) ?_ hsame
    intro refusal h
    rcases List.mem_append.1 h with h | h
    · exact hp.unrefused refusal h
    · simpa using h
  | ends hphase hend =>
    refine { hp with reporterSettled := ?_, reporterLeft := ?_, toServer := ?_, toClient := ?_ }
    · intro _
      exact hp.reporterSettled (by rw [Reporter.isWriting, hphase])
    · intro reason h
      cases h
      exact ⟨rfl, hp.toClient.1.symm.trans hend⟩
    · exact ⟨rfl, hp.toServer.2⟩
    · exact ⟨hp.toClient.1, rfl⟩

end Poise

namespace Flow

/-- the session frames a message -/
theorem asks (hf : Flow down up c) {m : Message} {s : Session} (hm : m.method = .ping ∨ m.method = .reportAll)
    (hfits : Frame.Fits Reporter.maxFrame m) (hlimits : s.limits = c.session.limits)
    (hqueue : Message.requests c.session.queue = m.requestTime?.toList ++ Message.requests s.queue)
    (hrest : ∀ m' ∈ s.queue, m'.method = .reportAll) (hincoming : s.incoming = c.session.incoming)
    (hout : s.outgoing = c.session.outgoing ++ Frame.bytes m) :
    Flow (down ++ [m]) up { c with session := s, asked := c.asked ++ [m] } where
  downBytes := by
    rw [hout]
    exact hf.downBytes.write m
  upBytes := by
    rw [hincoming]
    exact hf.upBytes
  downFits := by
    intro m' hm'
    rcases List.mem_append.1 hm' with hm' | hm'
    · exact hf.downFits m' hm'
    · rwa [List.mem_singleton.1 hm']
  upFits := by
    rw [hlimits]
    exact hf.upFits
  downKind := by
    intro m' hm'
    rcases List.mem_append.1 hm' with hm' | hm'
    · exact hf.downKind m' hm'
    · rwa [List.mem_singleton.1 hm']
  upKind := hf.upKind
  queued := hrest
  times := by
    rw [hf.times, hqueue]
    simp
  asked := by simp [hf.asked]
  answered := hf.answered
  pings := by
    rw [List.count_append, List.count_append, hf.pings]
    exact Nat.add_assoc _ _ _
  sent := by
    rw [hout, ← List.append_assoc, hf.sent]
    simp
  reporterSent := hf.reporterSent

/-- **What the session does keeps the flow.** -/
theorem sessionTurn (hf : Flow down up c) (ht : SessionTurn c c')
    (hfits : ∀ m ∈ c'.asked, Frame.Fits Reporter.maxFrame m) : ∃ down' up', Flow down' up' c' := by
  cases ht with
  | nothing => exact ⟨down, up, hf⟩
  | release => exact ⟨down, up, { hf with }⟩
  | begins now hphase => exact ⟨down, up, { hf with }⟩
  | gets hphase hbytes => exact ⟨down, up, { hf with upBytes := hf.upBytes.arrive hbytes }⟩
  | @hears now m rest hphase hread =>
    rcases hf.upBytes.read hf.upFits with hnone | ⟨m', rest', up', hread', rfl, hup⟩
    · rw [hread] at hnone
      cases hnone
    · rw [hread] at hread'
      cases hread'
      refine ⟨down, up', { hf with
        upBytes := hup, upFits := ?_, upKind := ?_, times := ?_, answered := ?_, sent := ?_ }⟩
      · exact fun m' hm' => hf.upFits m' (List.mem_cons_of_mem m hm')
      · exact fun m' hm' => hf.upKind m' (List.mem_cons_of_mem m hm')
      · simp [hf.times]
      · simp [hf.answered]
      · simpa using hf.sent
  | @asks now m rest hphase hqueue hfit =>
    have hm : m.method = .reportAll := hf.queued m (by rw [hqueue]; exact List.mem_cons_self)
    have hrest : ∀ m' ∈ rest, m'.method = .reportAll :=
      fun m' hm' => hf.queued m' (by rw [hqueue]; exact List.mem_cons_of_mem m hm')
    refine ⟨down ++ [m], up, hf.asks (Or.inr hm) (hfits m (by simp)) rfl ?_ hrest rfl rfl⟩
    rw [hqueue, Message.requests_cons]
  | pings now hphase =>
    refine ⟨down ++ [.ping], up, ?_⟩
    apply hf.asks (m := .ping) (Or.inl rfl) (hfits .ping (by simp))
    · rfl
    · rfl
    · exact hf.queued
    · rfl
    · rfl
  | hands n hphase =>
    refine ⟨down, up, { hf with downBytes := hf.downBytes.depart n, times := ?_, answered := ?_, sent := ?_ }⟩
    · simp [hf.times, Session.completed]
    · simp [hf.answered, Session.completed]
    · have hsent : Session.sent [.sent (c.session.outgoing.take n)] = c.session.outgoing.take n := by
        simp [Session.sent]
      rw [Session.sent_append, hsent, List.append_assoc, List.take_append_drop]
      exact hf.sent
  | goesOn hphase hout => exact ⟨down, up, { hf with }⟩
  | leaves now hphase => exact ⟨down, up, { hf with }⟩
  | ends hphase hout =>
    refine ⟨down, up, { hf with times := ?_, answered := ?_, sent := ?_ }⟩
    · simp [hf.times, Session.completed]
    · simp [hf.answered, Session.completed]
    · simpa [Session.sent] using hf.sent

/-- the reporter frames a message, maybe after taking one -/
theorem answers (hf : Flow down up c) {m : Message} {r : Reporter} {down' : List Message}
    (hm : m.method = .pong ∨ m.method = .registerProcess ∨ m.method = .statsComplete)
    (hfits : Frame.Fits c.session.limits.maxFrame m) (hdown : down' <:+ down)
    (hbytes : InTransit r.incoming c.wires.toClient.held c.session.outgoing down')
    (htimes : Message.requests down = m.answerTime?.toList ++ Message.requests down')
    (hpings : down.count .ping = [m].count .pong + down'.count .ping)
    (hout : r.outgoing = c.reporter.outgoing ++ Frame.bytes m) :
    Flow down' (up ++ [m]) { c with reporter := r, answered := c.answered ++ [m] } where
  downBytes := hbytes
  upBytes := by
    rw [hout]
    exact hf.upBytes.write m
  downFits m' hm' := hf.downFits m' (hdown.subset hm')
  upFits := by
    intro m' hm'
    rcases List.mem_append.1 hm' with hm' | hm'
    · exact hf.upFits m' hm'
    · rwa [List.mem_singleton.1 hm']
  downKind m' hm' := hf.downKind m' (hdown.subset hm')
  upKind := by
    intro m' hm'
    rcases List.mem_append.1 hm' with hm' | hm'
    · exact hf.upKind m' hm'
    · rwa [List.mem_singleton.1 hm']
  queued := hf.queued
  times := by
    rw [hf.times, htimes]
    simp
  asked := by simp [hf.asked, htimes]
  answered := by simp [hf.answered]
  pings := by
    rw [List.count_append, hf.pings, hpings]
    exact (Nat.add_assoc _ _ _).symm
  sent := hf.sent
  reporterSent := by
    rw [hout, ← List.append_assoc, hf.reporterSent]
    simp

/-- **What the reporter does keeps the flow.** -/
theorem reporterTurn (hf : Flow down up c) (ht : ReporterTurn c c')
    (hfits : ∀ m ∈ c'.answered, Frame.Fits c.session.limits.maxFrame m) : ∃ down' up', Flow down' up' c' := by
  cases ht with
  | nothing => exact ⟨down, up, hf⟩
  | registers now tags hphase =>
    refine ⟨down, up ++ [.registerProcess tags], ?_⟩
    apply hf.answers (m := .registerProcess tags) (Or.inr (Or.inl rfl)) (hfits _ (by simp)) List.suffix_rfl
    · exact hf.downBytes
    · rfl
    · simp
    · rfl
  | begins hphase => exact ⟨down, up, { hf with }⟩
  | gets hphase hbytes => exact ⟨down, up, { hf with downBytes := hf.downBytes.arrive hbytes }⟩
  | @answers now m answer rest registry hphase hread hanswer =>
    rcases hf.downBytes.read hf.downFits with hnone | ⟨m', rest', down', hread', rfl, hdown⟩
    · rw [hread] at hnone
      cases hnone
    · rw [hread] at hread'
      cases hread'
      have hfit := hfits answer (by simp)
      have hsuffix : down' <:+ m :: down' := List.suffix_cons m down'
      refine ⟨down', up ++ [answer], ?_⟩
      rcases hanswer with ⟨rfl, rfl⟩ | ⟨r, rfl, rfl⟩
      · apply hf.answers (Or.inl rfl) hfit hsuffix hdown
        · rfl
        · simp [Nat.add_comm]
        · rfl
      · apply hf.answers (Or.inr (Or.inr rfl)) hfit hsuffix hdown
        · rfl
        · simp
        · rfl
  | hands n hphase =>
    refine ⟨down, up, { hf with upBytes := hf.upBytes.depart n, reporterSent := ?_ }⟩
    have hsent : Reporter.sent [.sent (c.reporter.outgoing.take n)] = c.reporter.outgoing.take n := by
      simp [Reporter.sent]
    rw [Reporter.sent_append, hsent, List.append_assoc, List.take_append_drop]
    exact hf.reporterSent
  | goesOn hphase hout => exact ⟨down, up, { hf with }⟩
  | registered hphase hout =>
    refine ⟨down, up, { hf with reporterSent := ?_ }⟩
    simpa [Reporter.sent] using hf.reporterSent
  | ends hphase hend => exact ⟨down, up, { hf with }⟩

end Flow

/-! ## Whole conversations -/

theorem poise_start (id : ClientId) (limits : SessionLimits) (registry : Registry Binary64 Binary64) (capacity : Nat) :
    Poise (start id limits registry capacity) := by
  refine ⟨fun _ => rfl, fun _ => rfl, nofun, nofun, nofun, ⟨rfl, rfl⟩, ⟨rfl, rfl⟩⟩

theorem flow_start (id : ClientId) (limits : SessionLimits) (registry : Registry Binary64 Binary64) (capacity : Nat) :
    Flow [] [] (start id limits registry capacity) := by
  refine ⟨rfl, rfl, nofun, nofun, nofun, nofun, nofun, rfl, rfl, rfl, rfl, rfl, rfl⟩

/-- a request is queued, or nothing changes -/
theorem step_request (c : Conversation) (time : SurveyTime) : c.step (.request time) = c ∨
    c.step (.request time) = { c with
      session := { c.session with queue := c.session.queue ++ [.reportAll time] }
      accepted := c.accepted ++ [time] } := by
  simp only [step, Session.send]
  split_ifs
  · exact Or.inl rfl
  · exact Or.inr rfl
  · exact Or.inl rfl

/-- an end keeps what it has come to write, and its limits -/
theorem prefix_step (c : Conversation) (m : Move) : c.asked <+: (c.step m).asked ∧ c.answered <+: (c.step m).answered ∧
    (c.step m).session.limits = c.session.limits := by
  cases m with
  | request time =>
    rcases c.step_request time with h | h <;> rw [h] <;> exact ⟨List.prefix_rfl, List.prefix_rfl, rfl⟩
  | record registry => exact ⟨List.prefix_rfl, List.prefix_rfl, rfl⟩
  | session now e =>
    simp only [step]
    split_ifs
    · exact ⟨List.prefix_append _ _, List.prefix_rfl, Session.limits_handle c.session (.event now e)⟩
    · exact ⟨List.prefix_rfl, List.prefix_rfl, rfl⟩
  | reporter now e =>
    simp only [step]
    split_ifs
    · exact ⟨List.prefix_rfl, List.prefix_append _ _, rfl⟩
    · exact ⟨List.prefix_rfl, List.prefix_rfl, rfl⟩

/-- every body that an end came to write is within the limits of both -/
def BodiesFit (limits : SessionLimits) (c : Conversation) : Prop :=
  ∀ m ∈ c.asked ++ c.answered, (Body.encode m).length ≤ limits.maxFrame ∧ (Body.encode m).length ≤ Reporter.maxFrame

instance (limits : SessionLimits) (c : Conversation) : Decidable (BodiesFit limits c) :=
  inferInstanceAs (Decidable (∀ m ∈ c.asked ++ c.answered,
    (Body.encode m).length ≤ limits.maxFrame ∧ (Body.encode m).length ≤ Reporter.maxFrame))

theorem BodiesFit.fits {limits : SessionLimits} (h : BodiesFit limits c) {m : Message} (hm : m ∈ c.asked ++ c.answered) :
    Frame.Fits limits.maxFrame m ∧ Frame.Fits Reporter.maxFrame m := by
  obtain ⟨hlimits, hreporter⟩ := h m hm
  have hsize : (Body.encode m).length < 2 ^ 32 := lt_of_le_of_lt hreporter (by decide)
  exact ⟨⟨hlimits, hsize⟩, ⟨hreporter, hsize⟩⟩

/-- **Whatever happens, both ends stay in poise, and nothing is lost on the way.** -/
theorem sound_step (hf : Flow down up c) (hp : Poise c) (m : Move) (hfit : BodiesFit c.session.limits (c.step m)) :
    (∃ down' up', Flow down' up' (c.step m)) ∧ Poise (c.step m) := by
  cases m with
  | request time =>
    rcases c.step_request time with h | h
    · rw [h]
      exact ⟨⟨down, up, hf⟩, hp⟩
    · rw [h]
      refine ⟨⟨down, up, { hf with queued := ?_, times := ?_ }⟩, { hp with }⟩
      · intro m hm
        rcases List.mem_append.1 hm with hm | hm
        · exact hf.queued m hm
        · rw [List.mem_singleton.1 hm]
          rfl
      · simp [hf.times, Message.requestTime?]
  | record registry => exact ⟨⟨down, up, { hf with }⟩, { hp with }⟩
  | session now e =>
    simp only [step] at hfit ⊢
    split_ifs at hfit ⊢ with hcan
    · have hwrites : ∀ m, c.session.writes now e = some m → Frame.Fits c.session.limits.maxFrame m := by
        intro m hm
        exact (hfit.fits (m := m) (by simp [sessionReacts, hm])).1
      have hturn : SessionTurn c (c.sessionReacts now e) := sessionTurn hf hp hcan hwrites
      exact ⟨hf.sessionTurn hturn fun m hm => (hfit.fits (List.mem_append_left _ hm)).2, hp.sessionTurn hturn⟩
    · exact ⟨⟨down, up, hf⟩, hp⟩
  | reporter now e =>
    simp only [step] at hfit ⊢
    split_ifs at hfit ⊢ with hcan
    · have hwrites : ∀ m, c.reporter.writes e = some m → Frame.Fits Reporter.maxFrame m := by
        intro m hm
        exact (hfit.fits (m := m) (by simp [reporterReacts, hm])).2
      have hturn : ReporterTurn c (c.reporterReacts now e) := reporterTurn hf hp hcan hwrites
      exact ⟨hf.reporterTurn hturn fun m hm => (hfit.fits (List.mem_append_right _ hm)).1, hp.reporterTurn hturn⟩
    · exact ⟨⟨down, up, hf⟩, hp⟩

theorem limits_run (c : Conversation) (ms : List Move) : (c.run ms).session.limits = c.session.limits := by
  induction ms using List.reverseRecOn with
  | nil => rfl
  | append_singleton ms m ih =>
    rw [run_snoc, (prefix_step _ m).2.2, ih]

/-- **Every conversation is sound** in which the bodies fit. -/
theorem sound_run (hf : Flow down up c) (hp : Poise c) (ms : List Move) (hfit : BodiesFit c.session.limits (c.run ms)) :
    (∃ down' up', Flow down' up' (c.run ms)) ∧ Poise (c.run ms) := by
  induction ms using List.reverseRecOn with
  | nil => exact ⟨⟨down, up, hf⟩, hp⟩
  | append_singleton ms m ih =>
    rw [run_snoc] at hfit ⊢
    obtain ⟨hasked, hanswered, -⟩ := prefix_step (c.run ms) m
    have hbefore : BodiesFit c.session.limits (c.run ms) := by
      intro m' hm'
      rcases List.mem_append.1 hm' with hm' | hm'
      · exact hfit m' (List.mem_append_left _ (hasked.subset hm'))
      · exact hfit m' (List.mem_append_right _ (hanswered.subset hm'))
    obtain ⟨⟨down', up', hf'⟩, hp'⟩ := ih hbefore
    apply sound_step hf' hp' m
    rwa [limits_run]

/-- until the session is released nobody has left, and the pipes say so -/
theorem Poise.together (hp : Poise c) (hreleased : c.released = false) :
    c.session.parting? = none ∧ c.reporter.ending? = none ∧ c.wires.toServer.finished = false ∧
      c.wires.toServer.abandoned = false ∧ c.wires.toClient.abandoned = false := by
  have hparting : c.session.parting? = none := by
    rw [Option.eq_none_iff_forall_ne_some]
    intro reason h
    rw [(hp.left reason h).2] at hreleased
    cases hreleased
  have hsession : c.session.hasEnded = false := Session.hasEnded_of_parting hparting
  have hreporter : c.reporter.ending? = none := by
    rw [Option.eq_none_iff_forall_ne_some]
    intro reason h
    rw [(hp.reporterLeft reason h).2] at hsession
    cases hsession
  have hended : c.reporter.hasEnded = false := by rw [Reporter.hasEnded, hreporter]; rfl
  exact ⟨hparting, hreporter, hp.toServer.1.trans hended, hp.toServer.2.trans hsession, hp.toClient.2.trans hended⟩

/-- What the loop of the session would do next is one of the moves, but for being told to close and for deadlines. -/
theorem sessionCan_of_next (hp : Poise c) (hreleased : c.released = false) {now : Duration} {e : SessionEvent}
    (h : c.session.next now c.wires.toServer c.wires.toClient = some e) :
    c.sessionCan e = true ∨ e = .cancellation ∨ e = .idleTime ∨ e = .writeDeadline := by
  obtain ⟨hparting, -, -, -, hgone⟩ := hp.together hreleased
  unfold Session.next at h
  cases hphase : c.session.phase with
  | unstarted => simp [hphase] at h
  | serving =>
    simp only [hphase, Session.nextServing] at h
    split at h
    · cases h
      exact Or.inr (Or.inl rfl)
    · split at h
      · cases h
        exact Or.inl rfl
      · cases h
        exact Or.inl rfl
      · rename_i hwaits
        split_ifs at h with hheld hend hqueue hping hidle
        · cases h
          left
          simp [sessionCan, hphase]
        · cases h
          left
          simpa [sessionCan, Pipe.atEnd, hend, waits_iff.2 hwaits] using hheld
        · cases h
          exact Or.inl rfl
        · cases h
          exact Or.inl rfl
        · cases h
          exact Or.inr (Or.inr (Or.inl rfl))
  | writing deadline =>
    simp only [hphase, hgone, Bool.false_eq_true, if_false] at h
    split_ifs at h
    · cases h
      exact Or.inl rfl
    · cases h
      exact Or.inl rfl
    · cases h
      exact Or.inr (Or.inr (Or.inr rfl))
  | closing deadline reason => simp [Session.parting?, hphase] at hparting
  | ended reason => simp [hphase] at h

/-- What the loop of the reporter would do next is one of the moves, but for its deadline. -/
theorem reporterCan_of_next (hp : Poise c) (hreleased : c.released = false) {now : Duration} {e : ReporterEvent}
    (h : c.reporter.next now c.wires.toClient c.wires.toServer = some e) :
    c.reporterCan e = true ∨ e = .writeDeadline := by
  obtain ⟨-, -, -, hgone, -⟩ := hp.together hreleased
  unfold Reporter.next at h
  cases hphase : c.reporter.phase with
  | unstarted => simp [hphase] at h
  | serving =>
    simp only [hphase] at h
    split at h
    · cases h
      exact Or.inl rfl
    · cases h
      exact Or.inl rfl
    · rename_i hwaits
      split_ifs at h with hheld hend
      · cases h
        left
        simp [reporterCan, hphase]
      · cases h
        left
        simpa [reporterCan, Pipe.atEnd, hend, waits_iff.2 hwaits] using hheld
  | writing deadline serves =>
    simp only [hphase, hgone, Bool.false_eq_true, if_false] at h
    split_ifs at h
    · cases h
      exact Or.inl rfl
    · cases h
      exact Or.inl rfl
    · cases h
      exact Or.inr rfl
  | ended reason => simp [hphase] at h

/-- nothing waits, and no byte is on its way -/
structure Quiet (c : Conversation) : Prop where
  queue : c.session.queue = []
  down : c.reporter.incoming ++ c.wires.toClient.held ++ c.session.outgoing = []
  up : c.session.incoming ++ c.wires.toServer.held ++ c.reporter.outgoing = []

theorem completed_of_quiet (hf : Flow down up c) (hq : Quiet c) : Session.completed c.told = c.accepted := by
  have hnone : ∀ {ms : List Message}, ms.flatMap Frame.bytes = [] → ms = [] := by
    intro ms hms
    rw [List.eq_nil_iff_forall_not_mem]
    intro m hm
    have hbytes := List.flatMap_eq_nil_iff.1 hms m hm
    have hlength := Frame.length_bytes m
    rw [hbytes] at hlength
    simp [FrameHeader.size] at hlength
    omega
  have hdown : down = [] := hnone (hf.downBytes.symm.trans hq.down)
  have hup : up = [] := hnone (hf.upBytes.symm.trans hq.up)
  rw [hf.times, hdown, hup, hq.queue]
  simp

/-- **A reporter and a session understand each other.** Let a reporter say which process it is and then answer, and let only
requests be queued for the session. Then, however the loops of the two interleave and however bytes are cut on their way,
as long as every body that either comes to write is within both limits:

- neither end has ended, or is about to end, with an error, and saying which process it is has not failed; as long as the
  session is not released neither ends at all, and what the loops would do next is among the moves considered here, but for
  deadlines and for being told to close;
- the survey times that the coordinator has heard to be complete are the first of those that the reporter has answered, these
  the first of those that it was asked for, and these the first of those that the session has accepted; and when nothing
  waits and no byte is on its way they are all of them;
- the reporter has come to write no more pongs than the session pings, and what either has come to write is what it has
  sent and what is still to be taken. -/
theorem conversation_holds (id : ClientId) (limits : SessionLimits) (registry : Registry Binary64 Binary64)
    (capacity : Nat) (ms : List Move) (hfit : BodiesFit limits ((start id limits registry capacity).run ms)) :
    let c := (start id limits registry capacity).run ms
    ((∀ reason, c.session.parting? = some reason → reason = none) ∧
      (∀ reason, c.reporter.ending? = some reason → reason = none) ∧
      ∀ refusal, .registered refusal ∈ c.reported → refusal = none) ∧
    (c.released = false → c.session.parting? = none ∧ c.reporter.ending? = none ∧
      (∀ now e, c.session.next now c.wires.toServer c.wires.toClient = some e →
        c.sessionCan e = true ∨ e = .cancellation ∨ e = .idleTime ∨ e = .writeDeadline) ∧
      ∀ now e, c.reporter.next now c.wires.toClient c.wires.toServer = some e →
        c.reporterCan e = true ∨ e = .writeDeadline) ∧
    (Session.completed c.told <+: Message.answers c.answered ∧
      Message.answers c.answered <+: Message.requests c.asked ∧ Message.requests c.asked <+: c.accepted ∧
      (Quiet c → Session.completed c.told = c.accepted)) ∧
    c.answered.count .pong ≤ c.asked.count .ping ∧
    Session.sent c.told ++ c.session.outgoing = c.asked.flatMap Frame.bytes ∧
    Reporter.sent c.reported ++ c.reporter.outgoing = c.answered.flatMap Frame.bytes := by
  intro c
  obtain ⟨⟨down, up, hf⟩, hp⟩ :=
    sound_run (flow_start id limits registry capacity) (poise_start id limits registry capacity) ms hfit
  refine ⟨⟨?_, ?_, hp.unrefused⟩, ?_, ⟨?_, ?_, ?_, completed_of_quiet hf⟩, ?_, hf.sent, hf.reporterSent⟩
  · exact fun reason h => (hp.left reason h).1
  · exact fun reason h => (hp.reporterLeft reason h).1
  · intro hreleased
    obtain ⟨hparting, hending, -⟩ := hp.together hreleased
    exact ⟨hparting, hending, fun _ _ => sessionCan_of_next hp hreleased, fun _ _ => reporterCan_of_next hp hreleased⟩
  · exact ⟨_, hf.answered.symm⟩
  · exact ⟨_, hf.asked.symm⟩
  · refine ⟨Message.requests c.session.queue, ?_⟩
    rw [hf.times, hf.asked, hf.answered]
  · rw [hf.pings]
    exact Nat.le_add_right _ _

/-- A request is cut in two, a ping is sent behind it, and the registration and both answers arrive at once. -/
theorem conversation_holds_pinged :
    let request := Frame.bytes (.reportAll 7)
    let answer := Frame.bytes (.statsComplete { time := 7 })
    let ms : List Move :=
      [.session .zero .start, .reporter .zero (.register .empty), .reporter .zero (.taken 64), .reporter .zero .flushed,
        .reporter .zero .start, .request 7, .session .zero .outbound, .session .zero (.taken 5),
        .reporter .zero (.arrival (request.take 5)), .reporter .zero .frame, .session .zero (.taken 64),
        .session .zero .flushed, .session (.ofSecs 5) .pingTime, .session (.ofSecs 5) (.taken 64),
        .session (.ofSecs 5) .flushed, .reporter (.ofSecs 5) (.arrival (request.drop 5 ++ Frame.bytes .ping)),
        .reporter (.ofSecs 5) .frame, .reporter (.ofSecs 5) (.taken 64), .reporter (.ofSecs 5) .flushed,
        .reporter (.ofSecs 5) .frame, .reporter (.ofSecs 5) (.taken 64), .reporter (.ofSecs 5) .flushed,
        .session (.ofSecs 6) (.arrival (Frame.bytes (.registerProcess .empty) ++ answer ++ Frame.bytes .pong)),
        .session (.ofSecs 6) .frame, .session (.ofSecs 6) .frame, .session (.ofSecs 6) .frame]
    let c := (start 1 {} .empty 64).run ms
    BodiesFit {} c ∧ c.released = false ∧ (c.session.parting? = none ∧ c.reporter.ending? = none) ∧
    (Session.completed c.told = [7] ∧ Session.completed c.told = c.accepted) ∧
    (c.answered.count .pong = 1 ∧ c.answered.count .pong ≤ c.asked.count .ping) := by
  intro request answer ms c
  have hfit : BodiesFit {} c := by decide +kernel
  have hreleased : c.released = false := by decide +kernel
  have hquiet : Quiet c := ⟨by decide +kernel, by decide +kernel, by decide +kernel⟩
  obtain ⟨-, htogether, ⟨-, -, -, hall⟩, hpongs, -⟩ := conversation_holds 1 {} .empty 64 ms hfit
  obtain ⟨hsession, hreporter, -⟩ := htogether hreleased
  exact ⟨hfit, hreleased, ⟨hsession, hreporter⟩, ⟨by decide +kernel, hall hquiet⟩, by decide +kernel, hpongs⟩

end Conversation

end MetricSurvey

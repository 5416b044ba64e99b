/-
Patience: how long a survey can stay open, and how early it can time out.

No survey outlives its timeout:
- `Awaits`: a timeout that was armed waits, in the scheduler or in the tray.
- `awaits_run`: while a survey is open, its own timeout waits, and is due a patience after the survey was opened.
- `open_of_run`: a survey that is open after a run was opened in it, or was open before and no timeout of its time has
  been handled.
- `no_survey_outlives_patience`: so whoever moves the scheduler on by a patience and handles what then lies in the tray
  has closed every survey that was opened before.

Timeouts are not cancelled, and carry nothing but a time:
- `underWay_run`: every timeout was armed for some survey of its time, and is in the tray only if that survey has been given
  its patience.
- `NotBefore.run`: what is not due before some time does not fall into the tray earlier.
- `timeout_after_patience`: so a survey is given its patience if no timeout of its time was under way when it was opened.
- `early_timeout`: if one was, it may close the new survey early.
-/
import MetricSurvey.Proofs.Survey.Desk

namespace MetricSurvey.Desk

variable {P : Type} {d : Desk P}

/-! ## Waiting for the timeout -/

/-- a timeout with this deadline waits in the scheduler, or one of its time lies in the tray -/
def Awaits (d : Desk P) (deadline : Duration) (time : SurveyTime) : Prop :=
  (deadline, time) ∈ d.timers.pending ∨ time ∈ d.tray

/-- what falls into the tray was due -/
theorem due_of_mem_arrivals {m : Move P} {time : SurveyTime} (h : time ∈ d.arrivals m) :
    ∃ deadline, (deadline, time) ∈ d.timers.pending ∧ deadline ≤ (d.step m).timers.elapsed := by
  cases m with
  | elapse by_ =>
    rw [arrivals] at h
    split_ifs at h
    · exact Scheduler.mem_advance.1 h
    · cases h
  | _ => cases h

/-- and what is due falls into it -/
theorem mem_arrivals_of_due {by_ deadline : Duration} {time : SurveyTime} (h : (deadline, time) ∈ d.timers.pending)
    (hdue : deadline ≤ d.timers.elapsed + by_) (hopen : d.trayOpen = true) : time ∈ d.arrivals (.elapse by_) := by
  rw [arrivals, if_pos hopen]
  exact Scheduler.mem_advance.2 ⟨deadline, h, hdue⟩

/-- a timeout leaves the tray only to be handled, and comes nearer to the top whenever another is handled -/
theorem mem_take_tray_step {m : Move P} {time : SurveyTime} {n : Nat}
    (h : time ∈ d.tray.take (n + if m.isNext then 1 else 0)) (hm : ∀ s, d.input? m ≠ some (s, .timeout time)) :
    time ∈ (d.step m).tray.take n := by
  have hrest : time ∈ (d.tray.drop (if m.isNext then 1 else 0)).take n := by
    cases m with
    | next accepts =>
      cases htray : d.tray with
      | nil =>
        rw [htray, List.take_nil] at h
        cases h
      | cons x rest =>
        rw [htray] at h
        rcases List.mem_cons.1 h with rfl | h
        · exact absurd (by simp [input?, htray]) (hm ⟨d.now, accepts⟩)
        · exact h
    | _ => exact h
  rw [tray_step]
  exact ((List.prefix_append _ _).take n).subset hrest

theorem mem_tray_step {m : Move P} {time : SurveyTime} (h : time ∈ d.tray)
    (hm : ∀ s, d.input? m ≠ some (s, .timeout time)) : time ∈ (d.step m).tray := by
  have hall : d.tray.take (d.tray.length + if m.isNext then 1 else 0) = d.tray := List.take_of_length_le (Nat.le_add_right _ _)
  exact List.mem_of_mem_take (mem_take_tray_step (hall.symm ▸ h) hm)

/-- a survey that is opened awaits its timeout -/
theorem Awaits.of_opens {m : Move P} {time : SurveyTime} (ho : d.opens m = some time)
    (h : ((d.step m).coordinator.book.get? time).isSome = true) :
    (d.step m).Awaits (d.timers.elapsed + d.patience) time := by
  have hm : ∀ by_, m ≠ .elapse by_ := by
    rintro by_ rfl
    cases ho
  left
  rw [pending_step d hm, ho]
  refine List.mem_append_right _ ?_
  simp [Option.filter, h]

/-- and it does so while it is open -/
theorem Awaits.step {deadline : Duration} {time : SurveyTime} (h : d.Awaits deadline time) {m : Move P}
    (hopen : (d.step m).trayOpen = true) (hm : ∀ s, d.input? m ≠ some (s, .timeout time)) :
    (d.step m).Awaits deadline time := by
  rcases h with h | h
  · by_cases he : ∃ by_, m = .elapse by_
    · obtain ⟨by_, rfl⟩ := he
      by_cases hdue : deadline ≤ d.timers.elapsed + by_
      · right
        rw [tray_step]
        exact List.mem_append_right _ (mem_arrivals_of_due h hdue (trayOpen_of_step hopen))
      · exact Or.inl (Scheduler.mem_pending_advance.2 ⟨h, hdue⟩)
    · left
      rw [pending_step d (not_exists.1 he)]
      exact List.mem_append_left _ h
  · exact Or.inr (mem_tray_step h hm)

/-- **An open survey awaits its own timeout**, which is due a patience after the survey was opened. -/
theorem awaits_run {start : Reading} {patience : Duration} {ms : List (Move P)} {time : SurveyTime}
    (hopen : ((new start patience).run ms).trayOpen = true)
    (h : (((new start patience).run ms).coordinator.book.get? time).isSome = true) :
    ∃ before m after, ms = before ++ m :: after ∧ ((new start patience).run before).opens m = some time ∧
      time ∉ ((new start patience).run (before ++ [m])).opened after ∧
      ((new start patience).run ms).Awaits (((new start patience).run before).timers.elapsed + patience) time := by
  induction ms using List.reverseRecOn with
  | nil => cases h
  | append_singleton ms m ih =>
    rw [run_snoc] at hopen h ⊢
    obtain ⟨hm, ho⟩ := isSome_of_step (wellFormed_run_new start patience ms) h
    by_cases hnew : ((new start patience).run ms).opens m = some time
    · refine ⟨ms, m, [], rfl, hnew, List.not_mem_nil, ?_⟩
      have hawaits := Awaits.of_opens hnew h
      rwa [patience_run] at hawaits
    · have hold := ho.resolve_left hnew
      obtain ⟨before, m₀, after, rfl, hopened, hlast, hawaits⟩ := ih (trayOpen_of_step hopen) hold
      refine ⟨before, m₀, after ++ [m], by simp, hopened, ?_, hawaits.step hopen hm⟩
      rw [opened_snoc, List.mem_append, not_or]
      refine ⟨hlast, ?_⟩
      rw [← run_append, List.append_assoc, List.singleton_append]
      simpa using hnew

/-! ## Handling what lies in the tray -/

/-- **A survey that is open after a run** was opened in it, or was open before and its time is not among those of the
timeouts that the run has handled. -/
theorem open_of_run (hd : d.coordinator.book.WellFormed) {ms : List (Move P)} {time : SurveyTime}
    (h : ((d.run ms).coordinator.book.get? time).isSome = true) : time ∈ d.opened ms ∨
      (d.coordinator.book.get? time).isSome = true ∧ time ∉ d.tray.take (ms.countP Move.isNext) := by
  induction ms generalizing d with
  | nil => exact Or.inr ⟨h, by simp⟩
  | cons m ms ih =>
    rw [opened, List.mem_append]
    rcases ih (wellFormed_step hd m) h with hin | ⟨hopen, hleft⟩
    · exact Or.inl (Or.inr hin)
    · obtain ⟨hm, ho⟩ := isSome_of_step hd hopen
      rcases ho with ho | ho
      · exact Or.inl (Or.inl (by simp [ho]))
      · refine Or.inr ⟨ho, ?_⟩
        intro htake
        rw [List.countP_cons] at htake
        exact hleft (mem_take_tray_step htake hm)

/-- to clear the tray is to handle what lies in it, one timeout after another -/
theorem clearTray_eq_run (accepts : P → Bool) (d : Desk P) :
    (d.clearTray accepts).1 = d.run (List.replicate d.tray.length (.next accepts)) := by
  have key : ∀ (ts : List SurveyTime) (d : Desk P),
      (collect (fun d time => d.handle accepts (.timeout time)) { d with tray := [] } ts).1 =
        { d with tray := ts }.run (List.replicate ts.length (.next accepts)) := by
    intro ts
    induction ts with
    | nil => exact fun d => rfl
    | cons time ts ih =>
      intro d
      rw [collect_cons]
      exact ih ({ d with tray := [] }.handle accepts (.timeout time)).1
  rw [clearTray, foldl_eq_collect (fun (d : Desk P) time => d.handle accepts (.timeout time))]
  exact key d.tray d

theorem countP_isNext_replicate (n : Nat) (accepts : P → Bool) :
    (List.replicate n (Move.next accepts)).countP Move.isNext = n := by
  simp [List.countP_replicate, Move.isNext]

theorem opened_replicate_next (d : Desk P) (n : Nat) (accepts : P → Bool) :
    d.opened (List.replicate n (.next accepts)) = [] := by
  induction n generalizing d with
  | zero => rfl
  | succ n ih =>
    rw [List.replicate_succ, opened, ih, List.append_nil, opens, input?]
    cases d.tray <;> rfl

/-- **No survey outlives its timeout.** Take any run at the end of which timeouts still reach the tray.
- Every open survey was opened by some move and not again since, and its timeout waits: in the scheduler, due a patience
  after what the scheduler showed when the survey was opened, or in the tray.
- If the scheduler moves on by a patience or more, and what then lies in the tray is handled, nothing is open.
- If anything else happens before all of it is handled, or after it, only surveys are open that were opened since. -/
theorem no_survey_outlives_patience {start : Reading} {patience : Duration} {ms : List (Move P)}
    (hopen : ((new start patience).run ms).trayOpen = true) :
    let d := (new start patience).run ms
    (∀ time, (d.coordinator.book.get? time).isSome = true →
      ∃ before m after, ms = before ++ m :: after ∧ ((new start patience).run before).opens m = some time ∧
        time ∉ ((new start patience).run (before ++ [m])).opened after ∧
        ((((new start patience).run before).timers.elapsed + patience, time) ∈ d.timers.pending ∨ time ∈ d.tray)) ∧
    ∀ by_, patience ≤ by_ →
      (∀ accepts, ((d.elapse by_).1.clearTray accepts).1.coordinator.book.isEmpty = true) ∧
      ∀ later, (d.elapse by_).1.tray.length ≤ later.countP Move.isNext →
        ∀ time, (((d.elapse by_).1.run later).coordinator.book.get? time).isSome = true →
          time ∈ (d.elapse by_).1.opened later := by
  intro d
  have hawaits := fun time (h : (d.coordinator.book.get? time).isSome = true) => awaits_run hopen h
  refine ⟨hawaits, ?_⟩
  intro by_ hby
  -- whatever is open has its timeout in the tray now
  have htray : ∀ time, (d.coordinator.book.get? time).isSome = true → time ∈ (d.elapse by_).1.tray := by
    intro time h
    obtain ⟨before, m, after, hms, -, -, hwait⟩ := hawaits time h
    rcases hwait with hpending | htray
    · have hlater := elapsed_le_run ((new start patience).run before) (m :: after)
      rw [← run_append, ← hms] at hlater
      have harrives := mem_arrivals_of_due hpending (Duration.add_le_add hlater hby) hopen
      show time ∈ (d.step (.elapse by_)).tray
      rw [tray_step]
      exact List.mem_append_right _ harrives
    · exact mem_tray_step (m := .elapse by_) htray (by simp [input?])
  have hlater : ∀ later, (d.elapse by_).1.tray.length ≤ later.countP Move.isNext →
      ∀ time, (((d.elapse by_).1.run later).coordinator.book.get? time).isSome = true →
        time ∈ (d.elapse by_).1.opened later := by
    intro later hall time h
    have hwf : (d.elapse by_).1.coordinator.book.WellFormed := wellFormed_run_new start patience ms
    rcases open_of_run hwf h with hin | ⟨hold, hleft⟩
    · exact hin
    · rw [List.take_of_length_le hall] at hleft
      exact absurd (htray time hold) hleft
  refine ⟨?_, hlater⟩
  intro accepts
  rw [clearTray_eq_run]
  refine Table.isEmpty_iff.2 ?_
  intro time
  by_contra h
  rw [Bool.not_eq_false] at h
  have hin := hlater _ (countP_isNext_replicate _ accepts).ge time h
  rw [opened_replicate_next] at hin
  cases hin

/-- Two surveys are open, and the scheduler has moved on in between. Moved on by a patience, both their timeouts are in the
tray. If a tick comes before these are handled, the survey that it opens is the only one left. -/
theorem no_survey_outlives_patience_overlapping :
    let all : Nat → Bool := fun _ => true
    let ms : List (Move Nat) := [.handle all (.register 1 10), .handle all (.tick 1000), .elapse ⟨600⟩,
      .handle all (.tick 1010)]
    let later : List (Move Nat) := [.next all, .handle all (.tick 1020), .next all]
    let d := (new ⟨0⟩ ⟨1000⟩).run ms
    d.trayOpen = true ∧ d.coordinator.book.openTimes = [1000, 1010] ∧
    (∃ before m after, ms = before ++ m :: after ∧ ((new ⟨0⟩ ⟨1000⟩).run before).opens m = some 1010 ∧
      1010 ∉ ((new ⟨0⟩ ⟨1000⟩).run (before ++ [m])).opened after ∧
      ((((new ⟨0⟩ ⟨1000⟩).run before).timers.elapsed + ⟨1000⟩, 1010) ∈ d.timers.pending ∨ 1010 ∈ d.tray)) ∧
    ((d.elapse ⟨1000⟩).1.clearTray all).1.coordinator.book.isEmpty = true ∧
    ((d.elapse ⟨1000⟩).1.run later).coordinator.book.openTimes = [1020] ∧ 1020 ∈ (d.elapse ⟨1000⟩).1.opened later := by
  intro all ms later d
  have hopen : ((new ⟨0⟩ ⟨1000⟩).run ms).trayOpen = true := by decide
  obtain ⟨hwaits, hafter⟩ := no_survey_outlives_patience hopen
  obtain ⟨hclear, hlater⟩ := hafter ⟨1000⟩ (Duration.le_refl _)
  have helapse : (((new ⟨0⟩ ⟨1000⟩).run ms).elapse ⟨1000⟩).1 = (new ⟨0⟩ ⟨1000⟩).run (ms ++ [.elapse ⟨1000⟩]) :=
    (run_snoc (new ⟨0⟩ ⟨1000⟩) ms (.elapse ⟨1000⟩)).symm
  have hfired : (((new ⟨0⟩ ⟨1000⟩).run ms).elapse ⟨1000⟩).1.tray.length = 2 := by
    rw [helapse, run_inOrder]
    decide
  have hleft : ((((new ⟨0⟩ ⟨1000⟩).run ms).elapse ⟨1000⟩).1.run later).coordinator.book.openTimes = [1020] := by
    rw [helapse, ← run_append, run_inOrder]
    decide
  simp only [d]
  refine ⟨hopen, by decide, ?_, hclear all, hleft, ?_⟩
  · exact hwaits 1010 (by decide)
  · refine hlater later ?_ 1020 ?_
    · exact hfired.le
    · rw [← SurveyBook.mem_openTimes, hleft]
      exact List.mem_singleton_self 1020

/-! ## Timeouts that are under way -/

/-- a timeout of this time waits, in the scheduler or in the tray -/
def UnderWay (d : Desk P) (time : SurveyTime) : Prop := ∃ deadline, d.Awaits deadline time

/-- a timeout of this time is not due before `due`, and lies in the tray only from then on -/
structure NotBefore (d : Desk P) (due : Duration) (time : SurveyTime) : Prop where
  pending : ∀ deadline, (deadline, time) ∈ d.timers.pending → due ≤ deadline
  tray : time ∈ d.tray → due ≤ d.timers.elapsed

theorem notBefore_of_not_underWay {time : SurveyTime} (h : ¬ d.UnderWay time) (due : Duration) : d.NotBefore due time where
  pending deadline hp := absurd ⟨deadline, Or.inl hp⟩ h
  tray ht := absurd ⟨.zero, Or.inr ht⟩ h

/-- what waits in the scheduler after a move waited before it, or is due a patience from now -/
theorem mem_pending_of_step {m : Move P} {deadline : Duration} {time : SurveyTime}
    (h : (deadline, time) ∈ (d.step m).timers.pending) : (deadline, time) ∈ d.timers.pending ∨
      d.opens m = some time ∧ deadline = d.timers.elapsed + d.patience := by
  by_cases he : ∃ by_, m = .elapse by_
  · obtain ⟨by_, rfl⟩ := he
    exact Or.inl (Scheduler.mem_pending_advance.1 h).1
  · rw [pending_step d (not_exists.1 he)] at h
    rcases List.mem_append.1 h with h | h
    · exact Or.inl h
    · right
      obtain ⟨t, ht, heq⟩ := List.mem_map.1 h
      cases heq
      exact ⟨(Option.mem_filter_iff.1 (Option.mem_toList.1 ht)).1, rfl⟩

/-- what lies in the tray after a move lay there before it, or has become due -/
theorem mem_tray_of_step {m : Move P} {time : SurveyTime} (h : time ∈ (d.step m).tray) : time ∈ d.tray ∨
    ∃ deadline, (deadline, time) ∈ d.timers.pending ∧ deadline ≤ (d.step m).timers.elapsed := by
  rw [tray_step] at h
  rcases List.mem_append.1 h with h | h
  · exact Or.inl (List.mem_of_mem_drop h)
  · exact Or.inr (due_of_mem_arrivals h)

theorem NotBefore.step {due : Duration} {time : SurveyTime} (h : d.NotBefore due time)
    (hdue : due ≤ d.timers.elapsed + d.patience) (m : Move P) : (d.step m).NotBefore due time where
  pending := by
    intro deadline hp
    rcases mem_pending_of_step hp with hp | ⟨-, rfl⟩
    · exact h.pending deadline hp
    · exact hdue
  tray := by
    intro ht
    rcases mem_tray_of_step ht with ht | ⟨deadline, hp, hle⟩
    · exact Duration.le_trans (h.tray ht) (elapsed_le_step d m)
    · exact Duration.le_trans (h.pending deadline hp) hle

/-- **What is not due before some time does not fall into the tray earlier.** -/
theorem NotBefore.run {due : Duration} {time : SurveyTime} (h : d.NotBefore due time)
    (hdue : due ≤ d.timers.elapsed + d.patience) (ms : List (Move P)) : (d.run ms).NotBefore due time := by
  induction ms generalizing d with
  | nil => exact h
  | cons m ms ih =>
    refine ih (h.step hdue m) ?_
    rw [patience_step]
    exact Duration.le_trans hdue (Duration.add_le_add (elapsed_le_step d m) (Duration.le_refl _))

/-- some move of a run opened a survey of this time, when the scheduler showed `since` -/
def OpenedAt (d : Desk P) (ms : List (Move P)) (time : SurveyTime) (since : Duration) : Prop :=
  ∃ before m after, ms = before ++ m :: after ∧ (d.run before).opens m = some time ∧
    since = (d.run before).timers.elapsed

theorem OpenedAt.snoc {ms : List (Move P)} {time : SurveyTime} {since : Duration} (h : d.OpenedAt ms time since)
    (m : Move P) : d.OpenedAt (ms ++ [m]) time since := by
  obtain ⟨before, m₀, after, rfl, ho, hs⟩ := h
  exact ⟨before, m₀, after ++ [m], by simp, ho, hs⟩

theorem OpenedAt.mem_opened {ms : List (Move P)} {time : SurveyTime} {since : Duration} (h : d.OpenedAt ms time since) :
    time ∈ d.opened ms := by
  obtain ⟨before, m, after, rfl, ho, -⟩ := h
  induction before generalizing d with
  | nil =>
    rw [List.nil_append, opened]
    exact List.mem_append_left _ (by simpa using ho)
  | cons m' before ih =>
    rw [List.cons_append, opened]
    exact List.mem_append_right _ (ih ho)

/-- **Every timeout was armed for a survey of its time**, and is due a patience after that was opened. -/
theorem underWay_run (start : Reading) (patience : Duration) (ms : List (Move P)) (time : SurveyTime) :
    let d := (new start patience).run ms
    (∀ deadline, (deadline, time) ∈ d.timers.pending →
      ∃ since, (new start patience).OpenedAt ms time since ∧ deadline = since + patience) ∧
    (time ∈ d.tray → ∃ since, (new start patience).OpenedAt ms time since ∧ since + patience ≤ d.timers.elapsed) := by
  induction ms using List.reverseRecOn with
  | nil =>
    constructor
    · intro deadline h
      cases h
    · intro h
      cases h
  | append_singleton ms m ih =>
    obtain ⟨hpending, htray⟩ := ih
    simp only [run_snoc]
    constructor
    · intro deadline h
      rcases mem_pending_of_step h with h | ⟨ho, rfl⟩
      · obtain ⟨since, hs, hdue⟩ := hpending deadline h
        exact ⟨since, hs.snoc m, hdue⟩
      · exact ⟨_, ⟨ms, m, [], rfl, ho, rfl⟩, by rw [patience_run]; rfl⟩
    · intro h
      rcases mem_tray_of_step h with h | ⟨deadline, h, hle⟩
      · obtain ⟨since, hs, hdue⟩ := htray h
        exact ⟨since, hs.snoc m, Duration.le_trans hdue (elapsed_le_step _ m)⟩
      · obtain ⟨since, hs, rfl⟩ := hpending deadline h
        exact ⟨since, hs.snoc m, hle⟩

/-- a timeout is under way only for a time of which a survey was opened -/
theorem mem_opened_of_underWay {start : Reading} {patience : Duration} {ms : List (Move P)} {time : SurveyTime}
    (h : ((new start patience).run ms).UnderWay time) : time ∈ (new start patience).opened ms := by
  obtain ⟨hpending, htray⟩ := underWay_run start patience ms time
  obtain ⟨deadline, hp | ht⟩ := h
  · obtain ⟨since, hs, -⟩ := hpending deadline hp
    exact hs.mem_opened
  · obtain ⟨since, hs, -⟩ := htray ht
    exact hs.mem_opened

/-- **When a timeout comes.** Take any run at the end of which the timeout of some time is the next to be handled.
- Some survey of this time was opened a patience ago or earlier, as the scheduler counts.
- So was every survey of this time that was opened while no timeout of its time was under way, and in particular the first
  survey of this time. -/
theorem timeout_after_patience {start : Reading} {patience : Duration} {ms : List (Move P)} {time : SurveyTime}
    (hnext : ((new start patience).run ms).tray.head? = some time) :
    let now := ((new start patience).run ms).timers.elapsed
    (∃ since, (new start patience).OpenedAt ms time since ∧ since + patience ≤ now) ∧
    ∀ before m after, ms = before ++ m :: after → ((new start patience).run before).opens m = some time →
      ¬ ((new start patience).run before).UnderWay time ∨ time ∉ (new start patience).opened before →
        ((new start patience).run before).timers.elapsed + patience ≤ now := by
  intro now
  have htray : time ∈ ((new start patience).run ms).tray := List.mem_of_mem_head? hnext
  refine ⟨(underWay_run start patience ms time).2 htray, ?_⟩
  rintro before m after rfl - hnone
  have hclear : ¬ ((new start patience).run before).UnderWay time := by
    rcases hnone with h | h
    · exact h
    · exact fun hu => h (mem_opened_of_underWay hu)
  have hearlier := notBefore_of_not_underWay hclear (((new start patience).run before).timers.elapsed + patience)
  have hdue : ((new start patience).run before).timers.elapsed + patience ≤
      ((new start patience).run before).timers.elapsed + ((new start patience).run before).patience := by
    rw [patience_run]
    exact Duration.le_refl _
  have hlater := hearlier.run hdue (m :: after)
  rw [← run_append] at hlater
  exact hlater.tray htray

/-- A survey has been answered, its timeout has come and found nothing, and a survey of the same time is opened. The next
timeout comes a patience after that. -/
theorem timeout_after_patience_reopened :
    let all : Nat → Bool := fun _ => true
    let before : List (Move Nat) := [.handle all (.register 1 10), .handle all (.tick 1000), .handle all (.complete 1 1000),
      .elapse (.ofMillis 1000), .next all]
    let after : List (Move Nat) := [.elapse (.ofMillis 1500)]
    let d := (new ⟨0⟩ (.ofMillis 1000)).run before
    d.opens (.handle all (.tick 1000)) = some 1000 ∧ ¬ d.UnderWay 1000 ∧
    ((new ⟨0⟩ (.ofMillis 1000)).run (before ++ .handle all (.tick 1000) :: after)).tray.head? = some 1000 ∧
    d.timers.elapsed + .ofMillis 1000 ≤
      ((new ⟨0⟩ (.ofMillis 1000)).run (before ++ .handle all (.tick 1000) :: after)).timers.elapsed := by
  intro all before after d
  have hopens : d.opens (.handle all (.tick 1000)) = some 1000 := by
    simp only [d]
    rw [run_inOrder]
    decide
  have hnone : ¬ d.UnderWay 1000 := by
    have hpending : d.timers.pending = [] := by
      simp only [d]
      rw [run_inOrder]
      decide
    have htray : d.tray = [] := by
      simp only [d]
      rw [run_inOrder]
      decide
    rintro ⟨deadline, h | h⟩
    · rw [hpending] at h
      cases h
    · rw [htray] at h
      cases h
  have hnext : ((new ⟨0⟩ (.ofMillis 1000)).run (before ++ .handle all (.tick 1000) :: after)).tray.head? = some 1000 := by
    rw [run_inOrder]
    decide
  simp only [d] at hopens hnone ⊢
  refine ⟨hopens, hnone, hnext, ?_⟩
  exact (timeout_after_patience hnext).2 before _ after rfl hopens (Or.inl hnone)

/-- **A timeout can close a later survey early.** A survey is answered before its timeout comes, and a survey of the same
time is opened. The timeout of the first closes the second, before the second has been given its patience. -/
theorem early_timeout :
    let all : Nat → Bool := fun _ => true
    let before : List (Move Nat) := [.handle all (.register 1 10), .handle all (.tick 1000), .handle all (.complete 1 1000),
      .elapse (.ofMillis 600)]
    let ms : List (Move Nat) := before ++ [.handle all (.tick 1000), .elapse (.ofMillis 400)]
    let desk := new ⟨1000000⟩ (.ofMillis 1000)
    (desk.run before).opens (.handle all (.tick 1000)) = some 1000 ∧
    (desk.run ms).tray = [1000] ∧
    ((desk.run ms).coordinator.book.get? 1000).isSome = true ∧
    (desk.run (ms ++ [.next all])).coordinator.book.get? 1000 = none ∧
    ¬ (desk.run before).timers.elapsed + .ofMillis 1000 ≤ (desk.run (ms ++ [.next all])).timers.elapsed := by
  intro all before ms desk
  simp only [desk]
  simp only [run_inOrder]
  decide

end MetricSurvey.Desk

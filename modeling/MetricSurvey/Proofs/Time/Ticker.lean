/-
Ticks of a ticker that is waited for early or late.

Every tick is due at a boundary of the clock. One that comes half a period late, or later, is given the time of a boundary
that is still to come, and the next tick is due at that very boundary: so two ticks in a row may give one time.

- `deadline_tick`: the next tick is due at the first boundary behind the tick.
- `Tick.toInt_time`: a tick gives the boundary nearest to its moment.
- `times_of_ticks`: times never go back; two ticks in a row give the same time in one case only, and three never do.
- `late_tick_repeats`: that case does arise.
-/
import MetricSurvey.Proofs.Time.Clock
import MetricSurvey.Time.Ticker

namespace MetricSurvey

namespace Ticker

/-- a tick: when it was due and when it came, counted from the start, and the survey time that it gave -/
structure Tick where
  due : Duration
  moment : Duration
  time : Int64
deriving DecidableEq

/-- how late a tick came, in whole milliseconds -/
def Tick.late (t : Tick) : Nat := t.moment.millis - t.due.millis

/-- the ticks of a ticker when each time, so long after the tick before it, the next tick is waited for -/
def ticks (start : Reading) (k : Ticker) (moment : Duration) : List Duration → List Tick
  | [] => []
  | delay :: delays =>
    ⟨k.deadline, (k.tick (moment + delay)).1, k.timeAt start (k.tick (moment + delay)).1⟩ ::
      ticks start (k.tick (moment + delay)).2 (k.tick (moment + delay)).1 delays

/-- the ticks of a new ticker -/
def ticksFrom (start : Reading) (period : Duration) (delays : List Duration) : List Tick :=
  ticks start (.new period start) .zero delays

variable {seconds : Nat} {start : Reading} {k : Ticker} {a b c t : Tick}

/-! ## Deadlines -/

/-- The next tick is due at a boundary of the clock, a whole number of milliseconds from the start. -/
structure OnBoundary (seconds : Nat) (start : Reading) (k : Ticker) : Prop where
  period : k.period = .ofSecs seconds
  aligned : seconds * 1000 ∣ start.ms.toNat + k.deadline.millis
  whole : k.deadline.nanos = k.deadline.millis * 1000000

theorem onBoundary_new (hpos : 1 ≤ seconds) (hsmall : seconds * 1000 < 2 ^ 64) (start : Reading) :
    OnBoundary seconds start (.new (.ofSecs seconds) start) := by
  have hperiod : max (Duration.ofSecs seconds) (.ofMillis 1) = .ofSecs seconds := by
    show (if seconds * 1000000000 ≤ 1 * 1000000 then _ else _) = _
    rw [if_neg (by omega)]
  have hmillis : (Duration.ofSecs seconds).millis % Nat.pow 2 64 = seconds * 1000 := by
    rw [Duration.millis_ofSecs]
    exact Nat.mod_eq_of_lt hsmall
  have hdeadline : (new (.ofSecs seconds) start).deadline =
      .ofMillis (seconds * 1000 - start.ms.toNat % (seconds * 1000)) := by
    simp only [new, hperiod, hmillis]
  have hrest : start.ms.toNat % (seconds * 1000) < seconds * 1000 := Nat.mod_lt _ (by omega)
  refine ⟨hperiod, ?_, ?_⟩
  · rw [hdeadline, Duration.millis_ofMillis]
    refine ⟨start.ms.toNat / (seconds * 1000) + 1, ?_⟩
    calc start.ms.toNat + (seconds * 1000 - start.ms.toNat % (seconds * 1000))
        = seconds * 1000 * (start.ms.toNat / (seconds * 1000)) + start.ms.toNat % (seconds * 1000) +
            (seconds * 1000 - start.ms.toNat % (seconds * 1000)) := by rw [Nat.div_add_mod]
      _ = seconds * 1000 * (start.ms.toNat / (seconds * 1000)) + seconds * 1000 := by
          rw [Nat.add_assoc, Nat.add_sub_cancel' hrest.le]
      _ = seconds * 1000 * (start.ms.toNat / (seconds * 1000) + 1) := (Nat.mul_succ _ _).symm
  · rw [hdeadline, Duration.millis_ofMillis]
    rfl

theorem deadline_le_tick (k : Ticker) (waiting : Duration) : k.deadline ≤ (k.tick waiting).1 := by
  show k.deadline.nanos ≤ (if waiting.nanos ≤ k.deadline.nanos then k.deadline else waiting).nanos
  split_ifs with h
  · exact le_rfl
  · exact (Nat.not_le.1 h).le

/-- a tick that was not missed is no whole period late, so the rule for missed ticks holds of it too -/
theorem nanos_deadline_tick (hslack : slack.nanos < k.period.nanos) (waiting : Duration) :
    (k.tick waiting).2.deadline.nanos = k.deadline.nanos +
      (((k.tick waiting).1.nanos - k.deadline.nanos) / k.period.nanos + 1) * k.period.nanos := by
  have hle : k.deadline.nanos ≤ (max waiting k.deadline).nanos := deadline_le_tick k waiting
  simp only [tick]
  generalize max waiting k.deadline = now at hle
  split_ifs with hmissed
  · have hlate := Nat.div_add_mod (now.nanos - k.deadline.nanos) k.period.nanos
    calc now.nanos + k.period.nanos - (now.nanos - k.deadline.nanos) % k.period.nanos
        = k.deadline.nanos + (k.period.nanos * ((now.nanos - k.deadline.nanos) / k.period.nanos) + k.period.nanos) := by
          omega
      _ = k.deadline.nanos + ((now.nanos - k.deadline.nanos) / k.period.nanos + 1) * k.period.nanos := by
          rw [← Nat.mul_succ, Nat.mul_comm]
  · rw [Nat.div_eq_of_lt (by omega), Nat.zero_add, Nat.one_mul]

/-- **The next tick is due at the first boundary behind the tick**, whether it was missed or not. -/
theorem deadline_tick (hpos : 1 ≤ seconds) (hk : OnBoundary seconds start k) (waiting : Duration) :
    (k.tick waiting).2.deadline = .ofMillis (k.deadline.millis +
      (((k.tick waiting).1.millis - k.deadline.millis) / (seconds * 1000) + 1) * (seconds * 1000)) := by
  have hperiod : k.period.nanos = 1000000 * (seconds * 1000) := by
    rw [hk.period]
    show seconds * 1000000000 = _
    omega
  have hslack : slack.nanos < k.period.nanos := by
    rw [hperiod]
    show 5 * 1000000 < _
    omega
  -- whole periods late, counted in nanoseconds and in milliseconds
  have hlate : ((k.tick waiting).1.nanos - k.deadline.nanos) / k.period.nanos =
      ((k.tick waiting).1.millis - k.deadline.millis) / (seconds * 1000) := by
    rw [hperiod, ← Nat.div_div_eq_div_mul, hk.whole, Nat.mul_comm k.deadline.millis, Nat.sub_mul_div]
    rfl
  have hnanos := nanos_deadline_tick hslack waiting
  rw [hlate, hperiod, hk.whole] at hnanos
  have hnext : (k.tick waiting).2.deadline = ⟨(k.tick waiting).2.deadline.nanos⟩ := rfl
  rw [hnext, hnanos, Duration.ofMillis, Duration.mk.injEq]
  ring

theorem OnBoundary.tick (hpos : 1 ≤ seconds) (hk : OnBoundary seconds start k) (waiting : Duration) :
    OnBoundary seconds start (k.tick waiting).2 := by
  have hnext := deadline_tick hpos hk waiting
  refine ⟨hk.period, ?_, ?_⟩
  · rw [hnext, Duration.millis_ofMillis, ← Nat.add_assoc]
    exact Dvd.dvd.add hk.aligned (Dvd.intro_left _ rfl)
  · rw [hnext, Duration.millis_ofMillis]
    rfl

/-! ## Runs of ticks -/

/-- a tick was due at a boundary, did not come before, and gave the time of its moment -/
structure Tick.Sound (seconds : Nat) (start : Reading) (t : Tick) : Prop where
  aligned : seconds * 1000 ∣ start.ms.toNat + t.due.millis
  notEarly : t.due.millis ≤ t.moment.millis
  time : t.time = align (start.plus t.moment) (.ofSecs seconds)

/-- a tick was due at the first boundary behind another -/
def Tick.Follows (seconds : Nat) (a b : Tick) : Prop :=
  b.due.millis = a.due.millis + (a.late / (seconds * 1000) + 1) * (seconds * 1000)

/-- **What ticks there are**: each is sound, and each follows the one before. -/
theorem ticks_sound (hpos : 1 ≤ seconds) (hk : OnBoundary seconds start k) (moment : Duration) (delays : List Duration) :
    (∀ t ∈ ticks start k moment delays, t.Sound seconds start) ∧
      (ticks start k moment delays).IsChain (Tick.Follows seconds) := by
  induction delays generalizing k moment with
  | nil => exact ⟨nofun, .nil⟩
  | cons delay delays ih =>
    obtain ⟨hsound, hchain⟩ := ih (hk.tick hpos (moment + delay)) (k.tick (moment + delay)).1
    refine ⟨?_, ?_⟩
    · intro t ht
      rcases List.mem_cons.1 ht with rfl | ht
      · refine ⟨hk.aligned, Duration.millis_mono (deadline_le_tick k _), ?_⟩
        rw [← hk.period]
        rfl
      · exact hsound t ht
    · apply List.isChain_cons.2
      refine ⟨?_, hchain⟩
      intro b hb
      cases delays with
      | nil => cases hb
      | cons delay' delays =>
        cases hb
        show (k.tick (moment + delay)).2.deadline.millis = _
        rw [deadline_tick hpos hk, Duration.millis_ofMillis]
        rfl

/-- the boundary nearest to the moment of a tick lies so many periods behind the one at which it was due -/
theorem Tick.Sound.toInt_time (ht : t.Sound seconds start) (hpos : 1 ≤ seconds) (hsmall : seconds * 1000 < 2 ^ 64)
    (hfit : start.ms.toNat + t.moment.millis + seconds * 500 < 2 ^ 64) : ∃ n,
    start.ms.toNat + t.due.millis = seconds * 1000 * n ∧
      t.time.toInt = ((n + (t.late + seconds * 500) / (seconds * 1000)) * seconds : Nat) := by
  obtain ⟨n, hn⟩ := ht.aligned
  have hclock : (start.plus t.moment).ms.toNat = start.ms.toNat + t.moment.millis := Reading.toNat_ms_plus (by omega)
  refine ⟨n, hn, ?_⟩
  rw [ht.time, toInt_align hpos hsmall (by rwa [hclock]), hclock]
  congr 2
  have hlate : start.ms.toNat + t.moment.millis + seconds * 500 = t.late + seconds * 500 + seconds * 1000 * n := by
    have hmoment := ht.notEarly
    unfold Tick.late
    omega
  rw [hlate, Nat.add_mul_div_left _ _ (by omega), Nat.add_comm]

/-- rounding up from half a period on -/
theorem add_half_div (late : Nat) (hpos : 1 ≤ seconds) : (late + seconds * 500) / (seconds * 1000) =
    late / (seconds * 1000) + if seconds * 500 ≤ late % (seconds * 1000) then 1 else 0 := by
  have hrest : late % (seconds * 1000) < seconds * 1000 := Nat.mod_lt _ (by omega)
  have hsplit : late + seconds * 500 =
      late % (seconds * 1000) + seconds * 500 + seconds * 1000 * (late / (seconds * 1000)) := by
    have hlate := Nat.div_add_mod late (seconds * 1000)
    omega
  rw [hsplit, Nat.add_mul_div_left _ _ (by omega), Nat.add_comm]
  congr 1
  split_ifs with hhalf
  · exact Nat.div_eq_of_lt_le (by omega) (by omega)
  · exact Nat.div_eq_of_lt (by omega)

/-! ## Times -/

/-- two ticks in a row are due so many boundaries apart -/
theorem Tick.Follows.boundary (h : a.Follows seconds b) (hpos : 1 ≤ seconds) {m n : Nat}
    (hm : start.ms.toNat + a.due.millis = seconds * 1000 * m) (hn : start.ms.toNat + b.due.millis = seconds * 1000 * n) :
    n = m + (a.late / (seconds * 1000) + 1) := by
  have hperiod : 0 < seconds * 1000 := by omega
  apply Nat.eq_of_mul_eq_mul_left hperiod
  calc seconds * 1000 * n
      = start.ms.toNat + a.due.millis + (a.late / (seconds * 1000) + 1) * (seconds * 1000) := by
        rw [← hn, h, Nat.add_assoc]
    _ = seconds * 1000 * (m + (a.late / (seconds * 1000) + 1)) := by
        rw [hm]
        ring

/-- how the times of two ticks in a row compare -/
theorem Tick.Follows.times (h : a.Follows seconds b) (ha : a.Sound seconds start) (hb : b.Sound seconds start)
    (hpos : 1 ≤ seconds) (hsmall : seconds * 1000 < 2 ^ 64)
    (hfita : start.ms.toNat + a.moment.millis + seconds * 500 < 2 ^ 64)
    (hfitb : start.ms.toNat + b.moment.millis + seconds * 500 < 2 ^ 64) :
    a.time ≤ b.time ∧ (a.time = b.time ↔ seconds * 500 ≤ a.late % (seconds * 1000) ∧ b.late < seconds * 500) := by
  obtain ⟨m, hm, hatime⟩ := ha.toInt_time hpos hsmall hfita
  obtain ⟨n, hn, hbtime⟩ := hb.toInt_time hpos hsmall hfitb
  have hboundary := h.boundary hpos hm hn
  have hrounded := add_half_div a.late hpos
  have hzero : (b.late + seconds * 500) / (seconds * 1000) = 0 ↔ b.late < seconds * 500 := by
    rw [Nat.div_eq_zero_iff]
    omega
  rw [Int64.le_iff_toInt_le, ← Int64.toInt_inj, hatime, hbtime, Int.ofNat_le, Int.ofNat_inj,
    Nat.mul_left_inj (by omega)]
  generalize (b.late + seconds * 500) / (seconds * 1000) = rounded at hzero
  refine ⟨Nat.mul_le_mul_right seconds ?_, ?_⟩
  · split_ifs at hrounded <;> omega
  · rw [← hzero]
    split_ifs at hrounded with hhalf
    · simp only [hhalf, true_and]
      omega
    · simp only [hhalf, false_and, iff_false]
      omega

/-- of three ticks in a row the last gives a later time than the first -/
theorem Tick.Follows.lt_of_third (hab : a.Follows seconds b) (hbc : b.Follows seconds c) (ha : a.Sound seconds start)
    (hb : b.Sound seconds start) (hc : c.Sound seconds start) (hpos : 1 ≤ seconds) (hsmall : seconds * 1000 < 2 ^ 64)
    (hfita : start.ms.toNat + a.moment.millis + seconds * 500 < 2 ^ 64)
    (hfitc : start.ms.toNat + c.moment.millis + seconds * 500 < 2 ^ 64) : a.time < c.time := by
  obtain ⟨l, hl, hatime⟩ := ha.toInt_time hpos hsmall hfita
  obtain ⟨m, hm⟩ := hb.aligned
  obtain ⟨n, hn, hctime⟩ := hc.toInt_time hpos hsmall hfitc
  have hfirst := hab.boundary hpos hl hm
  have hsecond := hbc.boundary hpos hm hn
  have hrounded := add_half_div a.late hpos
  rw [Int64.lt_iff_toInt_lt, hatime, hctime, Int.ofNat_lt]
  apply Nat.mul_lt_mul_of_pos_right _ hpos
  generalize (a.late + seconds * 500) / (seconds * 1000) = rounded at hrounded ⊢
  generalize a.late / (seconds * 1000) = periods at hfirst hrounded
  generalize b.late / (seconds * 1000) = morePeriods at hsecond
  generalize (c.late + seconds * 500) / (seconds * 1000) = lastRounded
  split_ifs at hrounded <;> omega

theorem length_ticks (start : Reading) (k : Ticker) (moment : Duration) (delays : List Duration) :
    (ticks start k moment delays).length = delays.length := by
  induction delays generalizing k moment with
  | nil => rfl
  | cons delay delays ih => rw [ticks, List.length_cons, List.length_cons, ih]

/-- **The times of ticks.** Let a ticker with a period of whole seconds be waited for at any moments, each time after the
tick before, by a clock that moves along; and let no reading come within half a period of the last that there is. Then there
is a tick each time, and:

- no tick gives an earlier time than the tick before it, and the two give the same time just when the first came half a
  period or more behind the boundary before it, and the second less than half a period late;
- of three ticks in a row the last gives a later time than the first;
- so while every tick comes less than half a period behind a boundary, each gives a later time than all before. -/
theorem times_of_ticks (hpos : 1 ≤ seconds) (hsmall : seconds * 1000 < 2 ^ 64) (start : Reading) (delays : List Duration)
    (hfit : ∀ t ∈ ticksFrom start (.ofSecs seconds) delays,
      start.ms.toNat + t.moment.millis + seconds * 500 < 2 ^ 64) :
    let ts := ticksFrom start (.ofSecs seconds) delays
    ts.length = delays.length ∧
    (∀ (before : List Tick) (a b : Tick) (after : List Tick), ts = before ++ a :: b :: after → a.time ≤ b.time ∧
      (a.time = b.time ↔ seconds * 500 ≤ a.late % (seconds * 1000) ∧ b.late < seconds * 500)) ∧
    (∀ (before : List Tick) (a b c : Tick) (after : List Tick), ts = before ++ a :: b :: c :: after → a.time < c.time) ∧
    ((∀ t ∈ ts, t.late % (seconds * 1000) < seconds * 500) → (ts.map Tick.time).Pairwise (· < ·)) := by
  intro ts
  obtain ⟨hsound, hchain⟩ : (∀ t ∈ ts, t.Sound seconds start) ∧ ts.IsChain (Tick.Follows seconds) :=
    ticks_sound hpos (onBoundary_new hpos hsmall start) .zero delays
  rw [List.isChain_iff_forall_rel_of_append_cons_cons] at hchain
  have htimes : ∀ (before : List Tick) (a b : Tick) (after : List Tick), ts = before ++ a :: b :: after →
      a.time ≤ b.time ∧
      (a.time = b.time ↔ seconds * 500 ≤ a.late % (seconds * 1000) ∧ b.late < seconds * 500) := by
    intro before a b after hsplit
    have ha : a ∈ ts := by simp [hsplit]
    have hb : b ∈ ts := by simp [hsplit]
    exact (hchain hsplit).times (hsound a ha) (hsound b hb) hpos hsmall (hfit a ha) (hfit b hb)
  refine ⟨length_ticks _ _ _ _, htimes, ?_, ?_⟩
  · intro before a b c after hsplit
    have ha : a ∈ ts := by simp [hsplit]
    have hb : b ∈ ts := by simp [hsplit]
    have hc : c ∈ ts := by simp [hsplit]
    have hbc : b.Follows seconds c := @hchain b c (before ++ [a]) after (by simp [hsplit])
    exact (hchain hsplit).lt_of_third hbc (hsound a ha) (hsound b hb) (hsound c hc) hpos hsmall (hfit a ha) (hfit c hc)
  · intro hprompt
    rw [← List.isChain_iff_pairwise, List.isChain_map, List.isChain_iff_forall_rel_of_append_cons_cons]
    intro a b before after hsplit
    obtain ⟨hle, heq⟩ := htimes before a b after hsplit
    apply Int64.lt_iff_le_and_ne.2
    refine ⟨hle, ?_⟩
    intro hsame
    exact absurd (heq.1 hsame).1 (Nat.not_le.2 (hprompt a (by simp [hsplit])))

/-- The clock shows :03.5 at the start. The first tick comes at :10, on time; the second is due at :20 and comes at :26, so it
gives :30; and the third is due at :30 and comes then. -/
theorem times_of_ticks_late :
    let start : Reading := ⟨1003500⟩
    let ts := ticksFrom start (.ofSecs 10) [.zero, .ofSecs 16, .zero]
    (∀ t ∈ ts, start.ms.toNat + t.moment.millis + 10 * 500 < 2 ^ 64) ∧ ts.length = 3 ∧
    ∃ a b c, ts = [a, b, c] ∧ a.time < c.time ∧ b.time = c.time ∧
      10 * 500 ≤ b.late % (10 * 1000) ∧ c.late < 10 * 500 := by
  intro start ts
  have hfit : ∀ t ∈ ts, start.ms.toNat + t.moment.millis + 10 * 500 < 2 ^ 64 := by decide +kernel
  obtain ⟨hlength, hpairs, htriples, -⟩ := times_of_ticks (by decide) (by norm_num) start _ hfit
  obtain ⟨a, b, c, hts⟩ : ∃ a b c, ts = [a, b, c] := List.length_eq_three.1 hlength
  have hlate : 10 * 500 ≤ b.late % (10 * 1000) ∧ c.late < 10 * 500 := by
    have hall : ts.map Tick.late = [0, 6000, 0] := by decide +kernel
    rw [hts] at hall
    obtain ⟨-, hb, hc, -⟩ : a.late = 0 ∧ b.late = 6000 ∧ c.late = 0 ∧ True := by simpa using hall
    rw [hb, hc]
    decide
  have hthird : a.time < c.time := htriples [] a b c [] hts
  exact ⟨hfit, hlength, a, b, c, hts, hthird, (hpairs [a] b c [] hts).2.2 hlate, hlate⟩

/-- **A late tick and the next one can give the same time.** -/
theorem late_tick_repeats : (ticksFrom ⟨1003500⟩ (.ofSecs 10) [.zero, .ofSecs 16, .zero]).map Tick.time =
      [1010, 1030, 1030] ∧
    ¬ ((ticksFrom ⟨1003500⟩ (.ofSecs 10) [.zero, .ofSecs 16, .zero]).map Tick.time).Pairwise (· < ·) := by
  have htimes : (ticksFrom ⟨1003500⟩ (.ofSecs 10) [.zero, .ofSecs 16, .zero]).map Tick.time = [1010, 1030, 1030] := by
    decide
  refine ⟨htimes, ?_⟩
  rw [htimes]
  decide

end Ticker

end MetricSurvey

/-
When tasks run: anything is called on a scheduler that is moved by hand, and tasks that run may schedule others.

A diary is kept beside the scheduler. It has a booking for every task that was scheduled, by a call or by a task that ran, and
a round for every advance. That a booking has run is told from the diary alone: in the first round that had not begun when
the booking was made and that reaches its deadline (`Reaches`). The scheduler does not know bookings; what it keeps pending is
always what the diary says still waits (`Told.pending`).

- `pairwise_mergeSort_stable`: sorting keeps what was in order before, where neither of two is strictly less.
- `advance_eq`: what an advance does to bookings that wait; `advanceTwice_eq`: an advance can be split.
- `scheduler_foldl`: the scheduler in a diary goes its own way.
- `Told.book`, `Told.elapse`: the step lemmas, for what is scheduled and for time that moves on.
- `fires_once_on_time_in_order`: each task runs once, on time and in order, and advances can be split.
-/
import MetricSurvey.Proofs.Time.Scheduler

namespace MetricSurvey

variable {α τ : Type}

/-! ## Sorting -/

/-- **Sorting is stable**: what is in order before stays in that order, unless one is strictly less. -/
theorem pairwise_mergeSort_stable {le : α → α → Bool} (htrans : ∀ a b c, le a b = true → le b c = true → le a c = true)
    (htotal : ∀ a b, (le a b || le b a) = true) {earlier : α → α → Prop} {l : List α} (h : l.Pairwise earlier) :
    (l.mergeSort le).Pairwise fun a b => le a b = true ∧ (le b a = true → earlier a b) := by
  induction l with
  | nil => simp
  | cons a l ih =>
    obtain ⟨ha, hl⟩ := List.pairwise_cons.1 h
    -- the first element goes before all that are not strictly less
    obtain ⟨front, back, hcons, hrest, hless⟩ := List.mergeSort_cons htrans htotal a l
    have hsorted := List.pairwise_mergeSort htrans htotal (a :: l)
    have hstable := ih hl
    rw [hcons, List.pairwise_append, List.pairwise_cons] at hsorted
    rw [hrest, List.pairwise_append] at hstable
    rw [hcons, List.pairwise_append, List.pairwise_cons]
    refine ⟨hstable.1, ⟨?_, hstable.2.1⟩, ?_⟩
    · intro b hb
      have hmem : b ∈ l.mergeSort le := by
        rw [hrest]
        exact List.mem_append_right front hb
      exact ⟨hsorted.2.1.1 b hb, fun _ => ha b (List.mem_mergeSort.1 hmem)⟩
    · intro x hx y hy
      rcases List.mem_cons.1 hy with rfl | hy
      · refine ⟨hsorted.2.2 x hx y List.mem_cons_self, ?_⟩
        intro hle
        have hnot := hless x hx
        rw [hle] at hnot
        cases hnot
      · exact hstable.2.2 x hx y hy

/-! ## Bookings -/

/-- a task that was scheduled: the how-manyeth it was, how many advances had begun and how much time had gone by then, and
how long it was to wait -/
structure Booking (τ : Type) where
  number : Nat
  begun : Nat
  made : Duration
  delay : Duration
  task : τ

namespace Booking

def deadline (b : Booking τ) : Duration := b.made + b.delay

/-- by deadline, and in scheduling order where deadlines are equal -/
def Before (a b : Booking τ) : Prop := a.deadline < b.deadline ∨ a.deadline = b.deadline ∧ a.number < b.number

/-- a booking as a scheduler keeps it -/
def entry (b : Booking τ) : Duration × τ := (b.deadline, b.task)

/-- entries that are scheduled one after another, numbered from the first -/
def numbered (first begun : Nat) (made : Duration) : List (Duration × τ) → List (Booking τ)
  | [] => []
  | e :: entries => ⟨first, begun, made, e.1, e.2⟩ :: numbered (first + 1) begun made entries

/-- the bookings whose deadline has come, in the order in which they run -/
def due (t : Duration) (bs : List (Booking τ)) : List (Booking τ) :=
  (bs.filter fun b => decide (b.deadline ≤ t)).mergeSort fun a b => decide (a.deadline ≤ b.deadline)

/-- the bookings whose deadline is still to come -/
def later (t : Duration) (bs : List (Booking τ)) : List (Booking τ) := bs.filter fun b => !decide (b.deadline ≤ t)

variable {a b c : Booking τ} {t u : Duration} {bs : List (Booking τ)}

instance : Std.Asymm (Before (τ := τ)) where
  asymm a b := by
    rintro (h | ⟨heq, h⟩) (h' | ⟨heq', h'⟩)
    · exact Nat.lt_asymm h h'
    · exact Nat.lt_irrefl _ (heq' ▸ h)
    · exact Nat.lt_irrefl _ (heq ▸ h')
    · exact Nat.lt_asymm h h'

theorem mem_due : b ∈ due t bs ↔ b ∈ bs ∧ b.deadline ≤ t := by
  rw [due, List.mem_mergeSort, List.mem_filter, decide_eq_true_eq]

theorem mem_later : b ∈ later t bs ↔ b ∈ bs ∧ ¬ b.deadline ≤ t := by
  rw [later, List.mem_filter, Bool.not_eq_true', decide_eq_false_iff_not]

/-- **What is due runs by deadline, and in scheduling order where deadlines are equal.** -/
theorem pairwise_due (h : bs.Pairwise fun a b => a.number < b.number) (t : Duration) : (due t bs).Pairwise Before := by
  have hfiltered : (bs.filter fun b => decide (b.deadline ≤ t)).Pairwise fun a b => a.number < b.number :=
    h.sublist List.filter_sublist
  have htrans : ∀ a b c : Booking τ, decide (a.deadline ≤ b.deadline) = true → decide (b.deadline ≤ c.deadline) = true →
      decide (a.deadline ≤ c.deadline) = true :=
    fun a b c hab hbc => decide_eq_true (Duration.le_trans (of_decide_eq_true hab) (of_decide_eq_true hbc))
  have htotal : ∀ a b : Booking τ, (decide (a.deadline ≤ b.deadline) || decide (b.deadline ≤ a.deadline)) = true := by
    intro a b
    rw [Bool.or_eq_true, decide_eq_true_eq, decide_eq_true_eq]
    exact Nat.le_total a.deadline.nanos b.deadline.nanos
  refine (pairwise_mergeSort_stable htrans htotal hfiltered).imp ?_
  rintro a b ⟨hle, hties⟩
  rw [decide_eq_true_eq] at hle hties
  rcases Nat.lt_or_eq_of_le (show a.deadline.nanos ≤ b.deadline.nanos from hle) with hlt | heq
  · exact .inl hlt
  · exact .inr ⟨congrArg Duration.mk heq, hties (Nat.le_of_eq heq.symm)⟩

/-- **What is due at a time, and then what is due at a later one**, is what is due at the later one. -/
theorem due_append_due (h : bs.Pairwise fun a b => a.number < b.number) (htu : t ≤ u) :
    due t bs ++ due u (later t bs) = due u bs := by
  have hlater : (later t bs).Pairwise fun a b => a.number < b.number := h.sublist List.filter_sublist
  have hordered : (due t bs ++ due u (later t bs)).Pairwise Before := by
    refine List.pairwise_append.2 ⟨pairwise_due h t, pairwise_due hlater u, ?_⟩
    intro a ha b hb
    have hsoon : a.deadline ≤ t := (mem_due.1 ha).2
    have hlate : ¬ b.deadline ≤ t := (mem_later.1 (mem_due.1 hb).1).2
    exact .inl (Nat.lt_of_le_of_lt hsoon (Nat.not_le.1 hlate))
  have hmem : ∀ b, b ∈ due t bs ++ due u (later t bs) ↔ b ∈ due u bs := by
    intro b
    rw [List.mem_append, mem_due, mem_due, mem_later, mem_due]
    constructor
    · rintro (⟨hb, hsoon⟩ | ⟨⟨hb, -⟩, hu⟩)
      · exact ⟨hb, Duration.le_trans hsoon htu⟩
      · exact ⟨hb, hu⟩
    · rintro ⟨hb, hu⟩
      by_cases hsoon : b.deadline ≤ t
      · exact .inl ⟨hb, hsoon⟩
      · exact .inr ⟨⟨hb, hsoon⟩, hu⟩
  exact hordered.eq_of_mem_iff (pairwise_due h u) hmem

theorem later_later (htu : t ≤ u) : later u (later t bs) = later u bs := by
  rw [later, later, later, List.filter_filter]
  refine List.filter_congr ?_
  intro b _
  by_cases hu : b.deadline ≤ u
  · simp [hu]
  · have ht : ¬ b.deadline ≤ t := fun ht => hu (Duration.le_trans ht htu)
    simp [hu, ht]

theorem length_due_add_length_later (t : Duration) (bs : List (Booking τ)) :
    (due t bs).length + (later t bs).length = bs.length := by
  rw [due, List.length_mergeSort, later, ← List.length_eq_length_filter_add]

/-! ### Numbers -/

section

variable (first begun : Nat) (made : Duration) (entries : List (Duration × τ))

theorem entry_numbered : (numbered first begun made entries).map entry = entries.map fun e => (made + e.1, e.2) := by
  induction entries generalizing first with
  | nil => rfl
  | cons e entries ih => rw [numbered, List.map_cons, List.map_cons, ih, entry, deadline]

theorem number_numbered :
    (numbered first begun made entries).map number = List.range' first (numbered first begun made entries).length := by
  induction entries generalizing first with
  | nil => rfl
  | cons e entries ih => rw [numbered, List.map_cons, ih, List.length_cons, List.range'_succ]

variable {first begun made entries} in
theorem begun_of_mem_numbered (h : b ∈ numbered first begun made entries) : b.begun = begun := by
  induction entries generalizing first with
  | nil => cases h
  | cons e entries ih =>
    rcases List.mem_cons.1 h with rfl | h
    · rfl
    · exact ih h

end

end Booking

/-! ## Advances -/

/-- **What an advance does** to bookings that wait. -/
theorem Scheduler.advance_eq {s : Scheduler τ} {waiting : List (Booking τ)}
    (h : s.pending = waiting.map Booking.entry) (by_ : Duration) :
    s.advance by_ = (⟨s.elapsed + by_, (Booking.later (s.elapsed + by_) waiting).map Booking.entry⟩,
      (Booking.due (s.elapsed + by_) waiting).map Booking.task) := by
  have hsort : ∀ bs : List (Booking τ), (bs.mergeSort fun a b => decide (a.deadline ≤ b.deadline)).map Booking.entry =
      (bs.map Booking.entry).mergeSort fun a b => decide (a.1 ≤ b.1) := fun bs => List.map_mergeSort fun _ _ _ _ => rfl
  simp only [advance, h, List.partition_eq_filter_filter, List.filter_map, ← hsort, List.map_map]
  rfl

/-- move time on twice, and run what became due each time -/
def Scheduler.advanceTwice (follow : τ → List (Duration × τ)) (s : Scheduler τ) (a b : Duration) : Scheduler τ × List τ :=
  let (s, first) := s.advanceRunning follow a
  let (s, second) := s.advanceRunning follow b
  (s, first ++ second)

/-- **An advance can be split** where what runs in its first part schedules nothing. -/
theorem Scheduler.advanceTwice_eq {s : Scheduler τ} {waiting : List (Booking τ)}
    (h : s.pending = waiting.map Booking.entry) (hnumber : waiting.Pairwise fun a b => a.number < b.number)
    {follow : τ → List (Duration × τ)} {a : Duration} (hquiet : ∀ task ∈ (s.advance a).2, follow task = []) (b : Duration) :
    s.advanceTwice follow a b = s.advanceRunning follow (a + b) := by
  have hadd : s.elapsed + a + b = s.elapsed + (a + b) := congrArg Duration.mk (Nat.add_assoc _ _ _)
  have hfirst : s.advanceRunning follow a = s.advance a := by
    rw [advanceRunning_eq, List.flatMap_eq_nil_iff.2 hquiet]
    rfl
  have hafter : (s.advance a).1.pending = (Booking.later (s.elapsed + a) waiting).map Booking.entry := by
    rw [advance_eq h]
  have hlater : s.elapsed + a ≤ s.elapsed + a + b := Duration.le_add_right _ _
  -- the second part leaves what the whole leaves, and with what ran in the first it runs what the whole runs
  have hrest : ((s.advance a).1.advance b).1 = (s.advance (a + b)).1 := by
    rw [advance_eq hafter, advance_eq h, advance_eq h, ← hadd]
    dsimp only
    rw [Booking.later_later hlater]
  have hran : (s.advance a).2 ++ ((s.advance a).1.advance b).2 = (s.advance (a + b)).2 := by
    rw [advance_eq hafter, advance_eq h, advance_eq h, ← hadd, ← Booking.due_append_due hnumber hlater, List.map_append]
  have hfollow : (s.advance (a + b)).2.flatMap follow = ((s.advance a).1.advance b).2.flatMap follow := by
    rw [← hran, List.flatMap_append, List.flatMap_eq_nil_iff.2 hquiet, List.nil_append]
  unfold advanceTwice
  rw [hfirst]
  dsimp only
  rw [advanceRunning_eq, advanceRunning_eq, hrest, hfollow, hran]

/-! ## Diaries -/

/-- what is called on a scheduler; when time moves on, `follow` says what a task schedules while it runs -/
inductive SchedulerCall (τ : Type)
  | schedule (after : Duration) (task : τ)
  | advance (follow : τ → List (Duration × τ)) (by_ : Duration)

def Scheduler.call (s : Scheduler τ) : SchedulerCall τ → Scheduler τ
  | .schedule after task => s.schedule after task
  | .advance follow by_ => (s.advanceRunning follow by_).1

/-- an advance: how much time had gone by when tasks began to run, how many it answered that it ran, and those it ran -/
structure Round (τ : Type) where
  reached : Duration
  answer : Nat
  ran : List τ

/-- a round that runs bookings -/
def Round.running (reached : Duration) (bs : List (Booking τ)) : Round τ := ⟨reached, bs.length, bs.map Booking.task⟩

/-- a scheduler, with every booking and every round in order -/
structure Diary (τ : Type) where
  scheduler : Scheduler τ
  bookings : List (Booking τ)
  rounds : List (Round τ)

namespace Diary

def new : Diary τ := ⟨.new, [], []⟩

/-- note the scheduler and the rounds after a call, and the entries that were scheduled in its course -/
def note (d : Diary τ) (scheduler : Scheduler τ) (rounds : List (Round τ)) (entries : List (Duration × τ)) : Diary τ where
  scheduler := scheduler
  bookings := d.bookings ++ Booking.numbered d.bookings.length rounds.length scheduler.elapsed entries
  rounds := rounds

/-- make a call, and note it with all that the tasks schedule that it runs -/
def step (d : Diary τ) : SchedulerCall τ → Diary τ
  | .schedule after task => d.note (d.scheduler.schedule after task) d.rounds [(after, task)]
  | .advance follow by_ =>
    let (scheduler, ran) := d.scheduler.advanceRunning follow by_
    let round := ⟨scheduler.elapsed, (d.scheduler.advance by_).2.length, ran⟩
    d.note scheduler (d.rounds ++ [round]) (ran.flatMap follow)

/-- **The scheduler in a diary goes its own way.** -/
theorem scheduler_foldl (d : Diary τ) (calls : List (SchedulerCall τ)) :
    (calls.foldl step d).scheduler = calls.foldl Scheduler.call d.scheduler := by
  induction calls generalizing d with
  | nil => rfl
  | cons call calls ih =>
    have hcall : (d.step call).scheduler = d.scheduler.call call := by
      cases call <;> rfl
    rw [List.foldl_cons, ih, hcall, List.foldl_cons]

/-- a round that had not begun when a booking was made, and that reaches its deadline -/
def Reaches (rounds : List (Round τ)) (b : Booking τ) (n : Nat) : Prop :=
  b.begun ≤ n ∧ ∃ r, rounds[n]? = some r ∧ b.deadline ≤ r.reached

variable {d : Diary τ} {rounds : List (Round τ)} {r : Round τ} {b : Booking τ} {n : Nat}

theorem Reaches.lt (h : Reaches rounds b n) : n < rounds.length := by
  obtain ⟨-, r, hr, -⟩ := h
  exact (List.getElem?_eq_some_iff.1 hr).1

/-- one more round reaches what was reached before, and what has its deadline by then -/
theorem reaches_snoc (hb : b.begun ≤ rounds.length) : Reaches (rounds ++ [r]) b n ↔
    Reaches rounds b n ∨ n = rounds.length ∧ b.deadline ≤ r.reached := by
  unfold Reaches
  rcases Nat.lt_trichotomy n rounds.length with hn | rfl | hn
  · rw [List.getElem?_append_left hn, or_iff_left (fun h => Nat.ne_of_lt hn h.1)]
  · simp [hb]
  · have hnone : rounds[n]? = none := List.getElem?_eq_none (Nat.le_of_lt hn)
    have hnone' : (rounds ++ [r])[n]? = none := List.getElem?_eq_none (by simpa using hn)
    simp [hnone, hnone', Nat.ne_of_gt hn]

/-- with one more round, the first that reaches is the one that was it before; the new one only where there was none -/
theorem isLeast_reaches_snoc (hb : b.begun ≤ rounds.length) : IsLeast {m | Reaches (rounds ++ [r]) b m} n ↔
    IsLeast {m | Reaches rounds b m} n ∨ n = rounds.length ∧ b.deadline ≤ r.reached ∧ ∀ m, ¬ Reaches rounds b m := by
  constructor
  · rintro ⟨hn, hleast⟩
    rcases (reaches_snoc hb).1 hn with hold | ⟨rfl, hdue⟩
    · exact .inl ⟨hold, fun m hm => hleast ((reaches_snoc hb).2 (.inl hm))⟩
    · refine .inr ⟨rfl, hdue, fun m hm => ?_⟩
      have hle : rounds.length ≤ m := hleast ((reaches_snoc hb).2 (.inl hm))
      exact Nat.not_lt.2 hle hm.lt
  · rintro (⟨hold, hleast⟩ | ⟨rfl, hdue, hnone⟩)
    · refine ⟨(reaches_snoc hb).2 (.inl hold), fun m hm => ?_⟩
      rcases (reaches_snoc hb).1 hm with hm | ⟨rfl, -⟩
      · exact hleast hm
      · exact Nat.le_of_lt hold.lt
    · refine ⟨(reaches_snoc hb).2 (.inr ⟨rfl, hdue⟩), fun m hm => ?_⟩
      rcases (reaches_snoc hb).1 hm with hm | ⟨rfl, -⟩
      · exact absurd hm (hnone m)
      · exact Nat.le_refl _

theorem not_reaches_snoc (r : Round τ) (hb : b.begun ≤ rounds.length) : (∀ n, ¬ Reaches (rounds ++ [r]) b n) ↔
    (∀ n, ¬ Reaches rounds b n) ∧ ¬ b.deadline ≤ r.reached := by
  constructor
  · intro hnone
    refine ⟨fun n hn => hnone n ((reaches_snoc hb).2 (.inl hn)), fun hdue => ?_⟩
    exact hnone rounds.length ((reaches_snoc hb).2 (.inr ⟨rfl, hdue⟩))
  · rintro ⟨hnone, hlate⟩ n hn
    rcases (reaches_snoc hb).1 hn with hold | ⟨-, hdue⟩
    · exact hnone n hold
    · exact hlate hdue

/-! ## What the scheduler knows -/

/-- The diary is told by what each round ran and what still waits. -/
structure Told (d : Diary τ) (runs : List (List (Booking τ))) (waiting : List (Booking τ)) : Prop where
  number : d.bookings.map Booking.number = List.range d.bookings.length
  begun : ∀ b ∈ d.bookings, b.begun ≤ d.rounds.length
  sublist : waiting.Sublist d.bookings
  waits : ∀ b ∈ d.bookings, b ∈ waiting ↔ ∀ n, ¬ Reaches d.rounds b n
  pending : d.scheduler.pending = waiting.map Booking.entry
  ran : d.rounds.map Round.ran = runs.map (List.map Booking.task)
  answer : d.rounds.map Round.answer = runs.map List.length
  first : ∀ n bs, runs[n]? = some bs → ∀ b, b ∈ bs ↔ b ∈ d.bookings ∧ IsLeast {m | Reaches d.rounds b m} n
  order : ∀ bs ∈ runs, List.Pairwise Booking.Before bs
  balance : waiting.length + runs.flatten.length = d.bookings.length

theorem told_new : Told (new : Diary τ) [] [] := by
  constructor <;> simp [new, Scheduler.new]

variable {runs : List (List (Booking τ))} {waiting : List (Booking τ)}

theorem Told.numbers (h : Told d runs waiting) : waiting.Pairwise fun a b => a.number < b.number := by
  have hall : (d.bookings.map Booking.number).Pairwise (· < ·) := by
    rw [h.number]
    exact List.pairwise_lt_range
  exact (List.pairwise_map.1 hall).sublist h.sublist

theorem Told.length_rounds (h : Told d runs waiting) : d.rounds.length = runs.length := by
  have hlength := congrArg List.length h.ran
  rwa [List.length_map, List.length_map] at hlength

/-- what is due at the time that one more round reaches is what that round is the first to reach -/
theorem Told.mem_due (h : Told d runs waiting) (r : Round τ) : b ∈ Booking.due r.reached waiting ↔
    b ∈ d.bookings ∧ IsLeast {m | Reaches (d.rounds ++ [r]) b m} d.rounds.length := by
  rw [Booking.mem_due]
  constructor
  · rintro ⟨hw, hdue⟩
    have hb := h.sublist.subset hw
    exact ⟨hb, (isLeast_reaches_snoc (h.begun b hb)).2 (.inr ⟨rfl, hdue, (h.waits b hb).1 hw⟩)⟩
  · rintro ⟨hb, hleast⟩
    rcases (isLeast_reaches_snoc (h.begun b hb)).1 hleast with hold | ⟨-, hdue, hnone⟩
    · exact absurd hold.1.lt (Nat.lt_irrefl _)
    · exact ⟨(h.waits b hb).2 hnone, hdue⟩

/-! ### Tasks are scheduled -/

/-- schedule entries one after another, and note it -/
def book (d : Diary τ) (entries : List (Duration × τ)) : Diary τ :=
  d.note (d.scheduler.scheduleEach entries) d.rounds entries

/-- what is booked now -/
def booked (d : Diary τ) (entries : List (Duration × τ)) : List (Booking τ) :=
  Booking.numbered d.bookings.length d.rounds.length d.scheduler.elapsed entries

theorem book_eq (d : Diary τ) (entries : List (Duration × τ)) :
    d.book entries = ⟨d.scheduler.scheduleEach entries, d.bookings ++ d.booked entries, d.rounds⟩ := by
  rw [book, note, Scheduler.scheduleEach_eq, booked]

/-- **What is scheduled waits.** -/
theorem Told.book (h : Told d runs waiting) (entries : List (Duration × τ)) :
    Told (d.book entries) runs (waiting ++ d.booked entries) := by
  have hlate : ∀ b ∈ d.booked entries, ∀ n, ¬ Reaches d.rounds b n := by
    intro b hb n hn
    have hbegun : b.begun = d.rounds.length := Booking.begun_of_mem_numbered hb
    exact Nat.not_lt.2 hn.1 (hbegun ▸ hn.lt)
  rw [book_eq]
  constructor
  case number =>
    rw [List.map_append, h.number, booked, Booking.number_numbered, List.length_append, List.range_eq_range',
      List.range_eq_range', ← List.range'_append_1, Nat.zero_add]
  case begun =>
    intro b hb
    rcases List.mem_append.1 hb with hb | hb
    · exact h.begun b hb
    · exact Nat.le_of_eq (Booking.begun_of_mem_numbered hb)
  case sublist => exact h.sublist.append (List.Sublist.refl _)
  case waits =>
    intro b hb
    constructor
    · intro hw
      rcases List.mem_append.1 hw with hw | hnew
      · exact (h.waits b (h.sublist.subset hw)).1 hw
      · exact hlate b hnew
    · intro hn
      rcases List.mem_append.1 hb with hold | hnew
      · exact List.mem_append_left _ ((h.waits b hold).2 hn)
      · exact List.mem_append_right _ hnew
  case pending => rw [Scheduler.scheduleEach_eq, List.map_append, h.pending, booked, Booking.entry_numbered]
  case ran => exact h.ran
  case answer => exact h.answer
  case first =>
    intro n bs hbs b
    rw [h.first n bs hbs b, List.mem_append]
    constructor
    · rintro ⟨hb, hleast⟩
      exact ⟨.inl hb, hleast⟩
    · rintro ⟨hb | hb, hleast⟩
      · exact ⟨hb, hleast⟩
      · exact absurd hleast.1 (hlate b hb n)
  case order => exact h.order
  case balance =>
    have hbalance := h.balance
    simp only [List.length_append]
    omega

/-! ### Time moves on -/

/-- move time on, and note it, but not yet what the tasks schedule that run -/
def elapse (d : Diary τ) (by_ : Duration) : Diary τ :=
  { d with
    scheduler := (d.scheduler.advance by_).1
    rounds := d.rounds ++ [⟨d.scheduler.elapsed + by_, (d.scheduler.advance by_).2.length, (d.scheduler.advance by_).2⟩] }

theorem elapse_eq (h : d.scheduler.pending = waiting.map Booking.entry) (by_ : Duration) :
    let t := d.scheduler.elapsed + by_
    d.elapse by_ = ⟨⟨t, (Booking.later t waiting).map Booking.entry⟩, d.bookings,
      d.rounds ++ [.running t (Booking.due t waiting)]⟩ := by
  rw [elapse, Scheduler.advance_eq h, List.length_map]
  rfl

/-- **What is due runs**, and the rest waits on. -/
theorem Told.elapse (h : Told d runs waiting) (by_ : Duration) :
    Told (d.elapse by_) (runs ++ [Booking.due (d.scheduler.elapsed + by_) waiting])
      (Booking.later (d.scheduler.elapsed + by_) waiting) := by
  have hrounds := h.length_rounds
  rw [elapse_eq h.pending]
  constructor
  case number => exact h.number
  case begun =>
    intro b hb
    rw [List.length_append]
    exact Nat.le_add_right_of_le (h.begun b hb)
  case sublist => exact List.filter_sublist.trans h.sublist
  case waits =>
    intro b hb
    rw [Booking.mem_later, h.waits b hb]
    exact (not_reaches_snoc (.running _ _) (h.begun b hb)).symm
  case pending => rfl
  case ran =>
    rw [List.map_append, List.map_append, h.ran]
    rfl
  case answer =>
    rw [List.map_append, List.map_append, h.answer]
    rfl
  case first =>
    intro n bs hbs b
    rcases Nat.lt_or_ge n runs.length with hn | hn
    · rw [List.getElem?_append_left hn] at hbs
      rw [h.first n bs hbs b]
      refine and_congr_right fun hb => ?_
      rw [isLeast_reaches_snoc (h.begun b hb), or_iff_left]
      rintro ⟨heq, -⟩
      exact Nat.ne_of_lt hn (heq.trans hrounds)
    · rw [List.getElem?_append_right hn, List.getElem?_singleton] at hbs
      split at hbs
      · obtain rfl := Option.some.inj hbs
        obtain rfl : n = d.rounds.length := by omega
        exact h.mem_due (.running _ _)
      · cases hbs
  case order =>
    intro bs hbs
    rcases List.mem_append.1 hbs with hbs | hbs
    · exact h.order bs hbs
    · rw [List.mem_singleton.1 hbs]
      exact Booking.pairwise_due h.numbers _
  case balance =>
    have hbalance := h.balance
    have hsplit := Booking.length_due_add_length_later (d.scheduler.elapsed + by_) waiting
    simp only [List.flatten_append, List.flatten_singleton, List.length_append]
    omega

/-! ### Calls -/

theorem step_schedule (d : Diary τ) (after : Duration) (task : τ) :
    d.step (.schedule after task) = d.book [(after, task)] := rfl

theorem step_advance (d : Diary τ) (follow : τ → List (Duration × τ)) (by_ : Duration) :
    d.step (.advance follow by_) = (d.elapse by_).book ((d.scheduler.advance by_).2.flatMap follow) := by
  simp only [step, Scheduler.advanceRunning_eq, Scheduler.scheduleEach_eq, Diary.book, Diary.elapse]
  rfl

theorem told_step (h : Told d runs waiting) (call : SchedulerCall τ) : ∃ runs' waiting', Told (d.step call) runs' waiting' := by
  cases call with
  | schedule after task =>
    rw [step_schedule]
    exact ⟨_, _, h.book _⟩
  | advance follow by_ =>
    rw [step_advance]
    exact ⟨_, _, (h.elapse by_).book _⟩

/-- a diary is told after any calls -/
theorem told_foldl (calls : List (SchedulerCall τ)) : ∃ runs waiting, Told (calls.foldl step new) runs waiting := by
  induction calls using List.reverseRecOn with
  | nil => exact ⟨_, _, told_new⟩
  | append_singleton calls call ih =>
    obtain ⟨runs, waiting, h⟩ := ih
    rw [List.foldl_append]
    exact told_step h call

/-- no booking runs twice -/
theorem Told.once (h : Told d runs waiting) : runs.flatten.Nodup := by
  refine List.nodup_flatten.2 ⟨?_, ?_⟩
  · intro bs hbs
    exact (h.order bs hbs).nodup
  · refine List.pairwise_iff_getElem.2 ?_
    intro m n hm hn hmn b hbm hbn
    have hfirst := ((h.first m _ (List.getElem?_eq_getElem hm) b).1 hbm).2
    have hagain := ((h.first n _ (List.getElem?_eq_getElem hn) b).1 hbn).2
    exact Nat.ne_of_lt hmn (hfirst.unique hagain)

/-! ## Once, on time and in order -/

/-- **Each task runs once, on time and in order.** After any calls on a new scheduler, with a diary kept beside it:
- bookings are numbered in scheduling order;
- each round ran tasks that were booked, and no booking ran twice. A booking ran in just the first round that had not begun
  when it was made and that reached its deadline. In a round they ran by deadline, and in scheduling order where deadlines
  are equal. The answer of a round is the number of those it ran, and as many are pending as were booked and have not run;
- an advance can be split where what runs in its first part schedules nothing.

What a task does while it runs may differ from advance to advance. -/
theorem fires_once_on_time_in_order (calls : List (SchedulerCall τ)) :
    let d := calls.foldl step new
    d.scheduler = calls.foldl Scheduler.call .new ∧
    d.bookings.map Booking.number = List.range d.bookings.length ∧
    (∃ runs : List (List (Booking τ)),
      d.rounds.map Round.ran = runs.map (List.map Booking.task) ∧
      runs.flatten.Nodup ∧
      (∀ n bs, runs[n]? = some bs → ∀ b, b ∈ bs ↔ b ∈ d.bookings ∧ IsLeast {m | Reaches d.rounds b m} n) ∧
      (∀ bs ∈ runs, bs.Pairwise Booking.Before) ∧
      d.rounds.map Round.answer = runs.map List.length ∧
      d.scheduler.pending.length + runs.flatten.length = d.bookings.length) ∧
    ∀ follow a b, (∀ task ∈ (d.scheduler.advance a).2, follow task = []) →
      d.scheduler.advanceTwice follow a b = d.scheduler.advanceRunning follow (a + b) := by
  intro d
  obtain ⟨runs, waiting, h⟩ := told_foldl calls
  have hbalance : d.scheduler.pending.length + runs.flatten.length = d.bookings.length := by
    rw [h.pending, List.length_map]
    exact h.balance
  refine ⟨scheduler_foldl new calls, h.number, ⟨runs, h.ran, h.once, h.first, h.order, h.answer, hbalance⟩, ?_⟩
  intro follow a b hquiet
  exact Scheduler.advanceTwice_eq h.pending h.numbers hquiet b

/-- what one task schedules while it runs -/
def nestedFollow (task : Nat) : List (Duration × Nat) := if task = 2 then [(⟨0⟩, 3)] else []

/-- tasks that are due at the same time, and one that schedules another -/
def nestedCalls : List (SchedulerCall Nat) :=
  [.schedule ⟨5⟩ 0, .schedule ⟨5⟩ 1, .schedule ⟨3⟩ 2, .schedule ⟨7⟩ 4, .advance nestedFollow ⟨5⟩]

theorem fires_once_on_time_in_order_nested :
    let d := nestedCalls.foldl step new
    d.rounds.map Round.ran = [[2, 0, 1]] ∧ d.scheduler.pending = [(⟨7⟩, 4), (⟨5⟩, 3)] ∧
      (d.scheduler.advance ⟨1⟩).2 = [3] ∧ (∀ task ∈ (d.scheduler.advance ⟨1⟩).2, nestedFollow task = []) ∧
      d.scheduler.advanceTwice nestedFollow ⟨1⟩ ⟨1⟩ = d.scheduler.advanceRunning nestedFollow (⟨1⟩ + ⟨1⟩) := by
  have hran : (nestedCalls.foldl step new).rounds.map Round.ran = [[2, 0, 1]] := by cbv
  have hpending : (nestedCalls.foldl step new).scheduler.pending = [(⟨7⟩, 4), (⟨5⟩, 3)] := by cbv
  have hdue : ((nestedCalls.foldl step new).scheduler.advance ⟨1⟩).2 = [3] := by cbv
  have hquiet : ∀ task ∈ ((nestedCalls.foldl step new).scheduler.advance ⟨1⟩).2, nestedFollow task = [] := by
    rw [hdue]
    decide
  exact ⟨hran, hpending, hdue, hquiet,
    (fires_once_on_time_in_order nestedCalls).2.2.2 nestedFollow ⟨1⟩ ⟨1⟩ hquiet⟩

end Diary

end MetricSurvey

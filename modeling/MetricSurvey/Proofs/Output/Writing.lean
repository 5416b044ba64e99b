/-
What a sink that writes in its own time has written when it is closed.

Offers and steps of the worker come in any order, and any write may fail. What the sink will have written once it has
worked off all that it took (`outcome`) is not changed by a step of the worker (`outcome_work`), and a snapshot that is
taken comes at its end (`outcome_snoc`). So the order of the moves does not matter: what is written is what the writer
makes of the accepted snapshots one after another (`run_close`). What stands in the text of one snapshot is told beside its
lines (`Snapshot.eq_lines_iff`).

- `print_whole_or_cut`: what the writer makes of one snapshot.
- `close_drained`: a sink that is closed works off all that it took.
- `accepted_are_written`: a snapshot is refused just when the queue is full, and when the sink is closed every accepted
  snapshot has been written once and in order, whole or up to where a write failed.
- `text_of_unfailing`: where no write fails, the text is that of the accepted snapshots.
-/
import MetricSurvey.Output.WriterSink
import MetricSurvey.Proofs.Runs
import MetricSurvey.Proofs.Wire.Reader

namespace MetricSurvey

/-- the heading and the lines, each on a line of its own -/
def Snapshot.rendering (s : Snapshot Binary64) : String := String.join ((s.heading :: s.lines).map (· ++ "\n"))

theorem Snapshot.flatMap_pieces (s : Snapshot Binary64) : s.pieces.flatMap Bytes.ofText = Bytes.ofText s.rendering := by
  have hline : ∀ line : String, [line, "\n"].flatMap Bytes.ofText = Bytes.ofText (line ++ "\n") := by
    intro line
    rw [Bytes.ofText_append, List.flatMap_cons, List.flatMap_singleton]
  have hflush : [""].flatMap Bytes.ofText = [] := rfl
  calc s.pieces.flatMap Bytes.ofText
      = (s.heading :: s.lines).flatMap fun line => [line, "\n"].flatMap Bytes.ofText := by
        rw [pieces, List.flatMap_append, hflush, List.append_nil, List.flatMap_assoc]
    _ = (s.heading :: s.lines).flatMap fun line => Bytes.ofText (line ++ "\n") := by simp only [hline]
    _ = Bytes.ofText s.rendering := by rw [rendering, Bytes.ofText_join, List.flatMap_map]

variable {S ω : Type}

/-! ## What a writer makes of texts -/

namespace Writer

variable (w : Writer ω) (pieces : S → List String)

/-- write pieces in order, to the first that is not written whole: what the writer is then, and what got out -/
def print (t : ω) : List String → ω × Bytes
  | [] => (t, [])
  | p :: ps =>
    match w.write t p with
    | (u, .whole) => ((print u ps).1, Bytes.ofText p ++ (print u ps).2)
    | (u, .cut n) => (u, (Bytes.ofText p).take n)

/-- write snapshots one after another: what the writer is then, and what got out of each -/
def printAll : ω → List S → ω × List Bytes :=
  collect fun t s => ((w.print t (pieces s)).1, [(w.print t (pieces s)).2])

/-- the texts are written whole, one after another -/
inductive Takes : ω → List String → ω → Prop
  | nothing (t : ω) : Takes t [] t
  | next {t u v : ω} {p : String} {ps : List String} (head : w.write t p = (u, .whole)) (tail : Takes u ps v) :
      Takes t (p :: ps) v

/-- what is before a piece is written whole, the write of the piece fails, and that is all -/
def CutShort (t : ω) (ps : List String) (printed : ω × Bytes) : Prop :=
  ∃ before p after u n, ps = before ++ p :: after ∧ w.Takes t before u ∧ (w.write u p).2 = .cut n ∧
    printed = ((w.write u p).1, before.flatMap Bytes.ofText ++ (Bytes.ofText p).take n)

/-- **All is written whole, or a write failed and what is before it was written whole.** -/
theorem print_whole_or_cut (t : ω) (ps : List String) :
    (∃ u, w.Takes t ps u ∧ w.print t ps = (u, ps.flatMap Bytes.ofText)) ∨ w.CutShort t ps (w.print t ps) := by
  induction ps generalizing t with
  | nil => exact Or.inl ⟨t, .nothing t, rfl⟩
  | cons p ps ih =>
    cases hw : w.write t p with
    | mk u outcome =>
      cases outcome with
      | whole =>
        have hprint : w.print t (p :: ps) = ((w.print u ps).1, Bytes.ofText p ++ (w.print u ps).2) := by
          rw [print, hw]
        rcases ih u with ⟨v, htakes, hrest⟩ | ⟨before, q, after, v, n, rfl, htakes, hcut, hrest⟩
        · refine Or.inl ⟨v, .next hw htakes, ?_⟩
          rw [hprint, hrest, List.flatMap_cons]
        · refine Or.inr ⟨p :: before, q, after, v, n, rfl, .next hw htakes, hcut, ?_⟩
          rw [hprint, hrest, List.flatMap_cons, List.append_assoc]
      | cut n =>
        refine Or.inr ⟨[], p, ps, t, n, rfl, .nothing t, by rw [hw], ?_⟩
        rw [print, hw]
        rfl

theorem print_of_unfailing (hwhole : ∀ t p, (w.write t p).2 = .whole) (t : ω) (ps : List String) :
    (w.print t ps).2 = ps.flatMap Bytes.ofText := by
  rcases w.print_whole_or_cut t ps with ⟨u, -, hprint⟩ | ⟨before, p, after, u, n, -, -, hcut, -⟩
  · rw [hprint]
  · rw [hwhole u p] at hcut
    cases hcut

theorem flatten_printAll (hwhole : ∀ t p, (w.write t p).2 = .whole) (t : ω) (ss : List S) :
    (w.printAll pieces t ss).2.flatten = ss.flatMap fun s => (pieces s).flatMap Bytes.ofText := by
  induction ss generalizing t with
  | nil => rfl
  | cons s ss ih =>
    have hrest := ih (w.print t (pieces s)).1
    rw [printAll] at hrest ⊢
    rw [collect_cons, List.flatten_append, List.flatten_singleton, hrest, w.print_of_unfailing hwhole,
      List.flatMap_cons]

end Writer

/-! ## Moves -/

/-- what happens to a sink while it is open -/
inductive SinkMove (S : Type) where
  | offer (s : S)
  | work

namespace WriterSink

/-- the answer to an offer is listed with the snapshot -/
def move (k : WriterSink S ω) : SinkMove S → WriterSink S ω × List (S × Option SinkError)
  | .offer s => ((k.offer s).1, [(s, (k.offer s).2)])
  | .work => (k.work, [])

/-- moves in any order -/
def run : WriterSink S ω → List (SinkMove S) → WriterSink S ω × List (S × Option SinkError) := collect move

/-- the snapshots that were not refused -/
def accepted (answers : List (S × Option SinkError)) : List S := (answers.filter fun a => a.2.isNone).map Prod.fst

theorem accepted_append (as bs : List (S × Option SinkError)) : accepted (as ++ bs) = accepted as ++ accepted bs := by
  rw [accepted, List.filter_append, List.map_append]
  rfl

variable {k : WriterSink S ω}

/-- all that a step of the worker can be: a piece gets out whole or in part, a snapshot is taken to hand, or there is
nothing to do -/
theorem work_cases (k : WriterSink S ω) :
    (∃ p rest u, k.atHand = p :: rest ∧ k.writer.write k.writerState p = (u, .whole) ∧
      k.work = { k with writerState := u, atHand := rest, written := k.written ++ Bytes.ofText p }) ∨
    (∃ p rest u n, k.atHand = p :: rest ∧ k.writer.write k.writerState p = (u, .cut n) ∧
      k.work = { k with writerState := u, atHand := [], written := k.written ++ (Bytes.ofText p).take n }) ∨
    (∃ s rest, k.atHand = [] ∧ k.queue = s :: rest ∧ k.work = { k with queue := rest, atHand := k.pieces s }) ∨
    (k.atHand = [] ∧ k.queue = [] ∧ k.work = k) := by
  fun_cases WriterSink.work k with
  | case1 p rest hhand u hwrite => exact Or.inl ⟨p, rest, u, hhand, hwrite, rfl⟩
  | case2 p rest hhand u n hwrite => exact Or.inr (Or.inl ⟨p, rest, u, n, hhand, hwrite, rfl⟩)
  | case3 hhand s rest hqueue => exact Or.inr (Or.inr (Or.inl ⟨s, rest, hhand, hqueue, rfl⟩))
  | case4 hhand hqueue => exact Or.inr (Or.inr (Or.inr ⟨hhand, hqueue, rfl⟩))

theorem offer_open (hopen : k.isOpen = true) (s : S) : k.offer s =
    if k.queue.length < k.capacity then ({ k with queue := k.queue ++ [s] }, none) else (k, some .queueFull) := by
  rw [offer, hopen]
  rfl

/-! ## What will have been written -/

/-- what the writer is, and all that has got out, once what is at hand and what waits has been written -/
def outcome (k : WriterSink S ω) : ω × Bytes :=
  let atHand := k.writer.print k.writerState k.atHand
  let waiting := k.writer.printAll k.pieces atHand.1 k.queue
  (waiting.1, k.written ++ atHand.2 ++ waiting.2.flatten)

/-- **A step of the worker does not change what will have been written.** -/
theorem outcome_work (k : WriterSink S ω) : k.work.outcome = k.outcome := by
  -- of the next piece the worker makes what `print` does, and what it takes to hand was the first to wait
  rcases work_cases k with ⟨p, rest, u, hhand, hwrite, hwork⟩ | ⟨p, rest, u, n, hhand, hwrite, hwork⟩ |
    ⟨s, rest, hhand, hqueue, hwork⟩ | ⟨-, -, hwork⟩
  · simp only [outcome, hwork, hhand, Writer.print, hwrite, List.append_assoc]
  · simp only [outcome, hwork, hhand, Writer.print, hwrite, List.append_nil]
  · simp only [outcome, hwork, hhand, hqueue, Writer.print, Writer.printAll, collect_cons, List.append_nil,
      List.singleton_append, List.flatten_cons, List.append_assoc]
  · rw [hwork]

/-- a snapshot that is taken is written after all that was taken before -/
theorem outcome_snoc (k : WriterSink S ω) (s : S) : outcome { k with queue := k.queue ++ [s] } =
    ((k.writer.print k.outcome.1 (k.pieces s)).1, k.outcome.2 ++ (k.writer.print k.outcome.1 (k.pieces s)).2) := by
  simp only [outcome, Writer.printAll, collect_snoc, List.flatten_append, List.flatten_singleton, List.append_assoc]

/-! ## Runs -/

/-- an open sink that has taken these snapshots since it was `k₀`: of all that it took the last wait, for there is room,
and in the end the writer will have gone on with the snapshots in turn -/
structure Serving (k₀ : WriterSink S ω) (taken : List S) (k : WriterSink S ω) : Prop where
  pieces : k.pieces = k₀.pieces
  writer : k.writer = k₀.writer
  capacity : k.capacity = k₀.capacity
  isOpen : k.isOpen = true
  waiting : k.queue <:+ k₀.queue ++ taken
  room : k.queue.length ≤ k.capacity
  outcome : k.outcome = ((k₀.writer.printAll k₀.pieces k₀.outcome.1 taken).1,
    k₀.outcome.2 ++ (k₀.writer.printAll k₀.pieces k₀.outcome.1 taken).2.flatten)

namespace Serving

variable {k₀ k : WriterSink S ω} {taken : List S}

theorem start (hopen : k.isOpen = true) (hroom : k.queue.length ≤ k.capacity) : Serving k [] k where
  pieces := rfl
  writer := rfl
  capacity := rfl
  isOpen := hopen
  waiting := by rw [List.append_nil]
  room := hroom
  outcome := by simp [Writer.printAll]

theorem work (h : Serving k₀ taken k) : Serving k₀ taken k.work := by
  have houtcome := (outcome_work k).trans h.outcome
  rcases work_cases k with ⟨p, rest, u, -, -, hwork⟩ | ⟨p, rest, u, n, -, -, hwork⟩ | ⟨s, rest, -, hqueue, hwork⟩ |
    ⟨-, -, hwork⟩
  · rw [hwork] at houtcome ⊢
    exact { h with outcome := houtcome }
  · rw [hwork] at houtcome ⊢
    exact { h with outcome := houtcome }
  · have hrest : rest <:+ k.queue := hqueue ▸ List.suffix_cons s rest
    rw [hwork] at houtcome ⊢
    exact { h with
      waiting := hrest.trans h.waiting
      room := hrest.length_le.trans h.room
      outcome := houtcome }
  · rw [hwork]
    exact h

/-- what an offer is answered, and what has been taken then -/
theorem offer (h : Serving k₀ taken k) (s : S) :
    (k.offer s).2 = (if k.queue.length = k.capacity then some .queueFull else none) ∧
      Serving k₀ (taken ++ accepted [(s, (k.offer s).2)]) (k.offer s).1 := by
  rw [offer_open h.isOpen]
  rcases h.room.lt_or_eq with hroom | hfull
  · have hsnoc : taken ++ accepted [(s, none)] = taken ++ [s] := rfl
    rw [if_pos hroom, if_neg hroom.ne, hsnoc]
    refine ⟨rfl, { h with waiting := ?_, room := ?_, outcome := ?_ }⟩
    · rw [← List.append_assoc]
      exact List.suffix_append_self_iff.2 h.waiting
    · rw [List.length_append]
      exact hroom
    · rw [outcome_snoc, h.outcome, h.writer, h.pieces]
      simp only [Writer.printAll, collect_snoc, List.flatten_append, List.flatten_singleton, List.append_assoc]
  · have hsame : taken ++ accepted [(s, some SinkError.queueFull)] = taken := List.append_nil taken
    rw [if_neg hfull.not_lt, if_pos hfull, hsame]
    exact ⟨rfl, h⟩

theorem move (h : Serving k₀ taken k) (m : SinkMove S) :
    Serving k₀ (taken ++ accepted (k.move m).2) (k.move m).1 := by
  cases m with
  | offer s => exact (h.offer s).2
  | work =>
    have hsame : taken ++ accepted [] = taken := List.append_nil taken
    rw [WriterSink.move, hsame]
    exact h.work

theorem run (h : Serving k₀ taken k) (moves : List (SinkMove S)) :
    Serving k₀ (taken ++ accepted (k.run moves).2) (k.run moves).1 := by
  induction moves generalizing k taken with
  | nil =>
    have hsame : taken ++ accepted [] = taken := List.append_nil taken
    rw [WriterSink.run, collect_nil, hsame]
    exact h
  | cons m moves ih =>
    have hrest := ih (h.move m)
    rwa [List.append_assoc, ← accepted_append] at hrest

end Serving

/-! ## Closing -/

theorem stepsLeft_work (k : WriterSink S ω) : k.work.stepsLeft ≤ k.stepsLeft - 1 := by
  rcases work_cases k with ⟨p, rest, u, hhand, -, hwork⟩ | ⟨p, rest, u, n, hhand, -, hwork⟩ |
    ⟨s, rest, hhand, hqueue, hwork⟩ | ⟨hhand, hqueue, hwork⟩
  · simp only [stepsLeft, hwork, hhand, List.length_cons]
    omega
  · simp only [stepsLeft, hwork, hhand, List.length_cons, List.length_nil]
    omega
  · simp only [stepsLeft, hwork, hhand, hqueue, List.length_nil, List.foldr_cons]
    omega
  · simp only [stepsLeft, hwork, hhand, hqueue, List.length_nil, List.foldr_nil]
    omega

theorem stepsLeft_workFor {n : Nat} (h : k.stepsLeft ≤ n) : (workFor n k).stepsLeft = 0 := by
  induction n generalizing k with
  | zero => exact Nat.le_zero.1 h
  | succ n ih =>
    have hless := stepsLeft_work k
    exact ih (by omega)

theorem outcome_workFor (n : Nat) (k : WriterSink S ω) : (workFor n k).outcome = k.outcome := by
  induction n generalizing k with
  | zero => rfl
  | succ n ih => rw [workFor, ih, outcome_work]

/-- nothing is left to write -/
theorem drained_of_stepsLeft (h : k.stepsLeft = 0) : k.atHand = [] ∧ k.queue = [] := by
  unfold stepsLeft at h
  refine ⟨List.length_eq_zero_iff.1 (by omega), ?_⟩
  cases hqueue : k.queue with
  | nil => rfl
  | cons s rest =>
    rw [hqueue, List.foldr_cons] at h
    omega

/-- **A sink that is closed writes all that it has taken.** -/
theorem close_drained (k : WriterSink S ω) :
    k.close.atHand = [] ∧ k.close.queue = [] ∧ (k.close.writerState, k.close.written) = k.outcome := by
  have hdone : k.close.stepsLeft = 0 := stepsLeft_workFor le_rfl
  obtain ⟨hhand, hqueue⟩ := drained_of_stepsLeft hdone
  have houtcome : k.close.outcome = k.outcome := outcome_workFor _ _
  refine ⟨hhand, hqueue, ?_⟩
  rw [← houtcome]
  simp only [outcome, hhand, hqueue, Writer.print, Writer.printAll, collect_nil, List.flatten_nil, List.append_nil]

/-! ## Main results -/

/-- a closed sink and its writer are where the accepted snapshots, written one after another, have brought them -/
theorem run_close (pieces : S → List String) (w : Writer ω) (start : ω) (capacity : Nat) (moves : List (SinkMove S)) :
    let during := (new pieces w start capacity).run moves
    (during.1.close.writerState, during.1.close.written) =
      ((w.printAll pieces start (accepted during.2)).1, (w.printAll pieces start (accepted during.2)).2.flatten) := by
  intro during
  have hserving := (Serving.start (k := new pieces w start capacity) rfl (Nat.zero_le capacity)).run moves
  exact during.1.close_drained.2.2.trans hserving.outcome

/-- **What a closed sink has written.** Whatever the writer, the room and the moves: at any moment the snapshots that
wait are the last that were accepted, and a snapshot is refused just when as many wait as there is room for. When the
sink is closed nothing is left to write, and what has got out is what the writer makes of the accepted snapshots one
after another: of each its rendering, or as much of it as got out until a write failed. -/
theorem accepted_are_written (w : Writer ω) (start : ω) (capacity : Nat) (moves : List (SinkMove (Snapshot Binary64))) :
    let before := new Snapshot.pieces w start capacity
    let during := (before.run moves).1
    let accepted := accepted (before.run moves).2
    let closed := during.close
    (during.queue <:+ accepted ∧ during.queue.length ≤ capacity ∧
      ∀ s, (during.offer s).2 = if during.queue.length = capacity then some .queueFull else none) ∧
    (closed.atHand = [] ∧ closed.queue = []) ∧
    (closed.writerState = (w.printAll Snapshot.pieces start accepted).1 ∧
      closed.written = (w.printAll Snapshot.pieces start accepted).2.flatten) ∧
    ∀ (t : ω) (s : Snapshot Binary64),
      (∃ u, w.Takes t s.pieces u ∧ w.print t s.pieces = (u, Bytes.ofText s.rendering)) ∨
        w.CutShort t s.pieces (w.print t s.pieces) := by
  intro before during accepted closed
  have hserving := (Serving.start (k := before) rfl (Nat.zero_le capacity)).run moves
  have hcapacity : during.capacity = capacity := hserving.capacity
  obtain ⟨hhand, hqueue, -⟩ := during.close_drained
  refine ⟨⟨hserving.waiting, hcapacity ▸ hserving.room, ?_⟩, ⟨hhand, hqueue⟩,
    Prod.mk.inj (run_close Snapshot.pieces w start capacity moves), ?_⟩
  · intro s
    rw [← hcapacity]
    exact (hserving.offer s).1
  · intro t s
    rw [← s.flatMap_pieces]
    exact w.print_whole_or_cut t s.pieces

/-- a sink with room for one snapshot, which takes another once the worker has the first at hand -/
example : (((new (fun s => [s]) ⟨fun t _ => (t, .cut 0)⟩ () 1).run
    [.offer "a", .offer "b", .work, .offer "c"]).2.map Prod.snd) = [none, some .queueFull, none] := rfl

/-- **Where no write fails, the text is that of the accepted snapshots.** -/
theorem text_of_unfailing (w : Writer ω) (hwhole : ∀ t p, (w.write t p).2 = .whole) (start : ω) (capacity : Nat)
    (moves : List (SinkMove (Snapshot Binary64))) :
    let during := (new Snapshot.pieces w start capacity).run moves
    during.1.close.text = String.join ((accepted during.2).map Snapshot.rendering) := by
  intro during
  have hwritten := (Prod.mk.inj (run_close Snapshot.pieces w start capacity moves)).2
  have hbytes : during.1.close.written = Bytes.ofText (String.join ((accepted during.2).map Snapshot.rendering)) :=
    calc during.1.close.written
        = (accepted during.2).flatMap fun s => s.pieces.flatMap Bytes.ofText :=
          hwritten.trans (w.flatten_printAll Snapshot.pieces hwhole start _)
      _ = (accepted during.2).flatMap fun s => Bytes.ofText s.rendering := by simp only [Snapshot.flatMap_pieces]
      _ = Bytes.ofText (String.join ((accepted during.2).map Snapshot.rendering)) := by
          rw [Bytes.ofText_join, List.flatMap_map]
  rw [text, hbytes, Bytes.toText?_ofText, Option.getD_some]

end WriterSink

end MetricSurvey

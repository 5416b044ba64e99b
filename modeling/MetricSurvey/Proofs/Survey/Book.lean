/-
The survey book: what it holds after each operation.

A survey changes in one way only: clients are let go of (`Survey.without`), and it is gone once nobody owes an answer
(`Survey.remaining?`). Every operation on the book is described by that:
- `get?_complete`, `get?_removeClient`: one client is let go of, in one survey or in all of them;
- `get?_mk_erase`, `get?_mk_insert`: a survey leaves or comes, and the others stay;
- `count_removeClient`: the surveys that a removal closes are those that it takes out of the book, each listed once.
All of it rests on `SurveyBook.WellFormed`: a survey has the time it is stored under, and somebody owes it an answer.
-/
import MetricSurvey.Proofs.Table
import MetricSurvey.Survey.Book

namespace MetricSurvey

namespace Survey

/-! ## Letting go of clients -/

/-- the survey without these clients' answers to wait for -/
def without (s : Survey) (ids : List ClientId) : Survey := ids.foldl release s

/-- what is left of a survey when these clients have answered or gone; none once nobody owes an answer -/
def remaining? (s : Survey) (ids : List ClientId) : Option Survey :=
  if (s.without ids).isDone then none else some (s.without ids)

@[simp] theorem without_nil (s : Survey) : s.without [] = s := rfl

@[simp] theorem without_singleton (s : Survey) (id : ClientId) : s.without [id] = s.release id := rfl

theorem without_append (s : Survey) (ids ids' : List ClientId) : s.without (ids ++ ids') = (s.without ids).without ids' :=
  List.foldl_append

theorem owes_release (s : Survey) (id j : ClientId) : (s.release id).owes j = true ↔ j ≠ id ∧ s.owes j = true :=
  Table.contains_erase _ _ _

/-- a survey owes nothing more to those it is without, and the same as before to the others -/
theorem owes_without (s : Survey) (ids : List ClientId) (j : ClientId) :
    (s.without ids).owes j = true ↔ j ∉ ids ∧ s.owes j = true := by
  induction ids generalizing s with
  | nil => simp
  | cons id ids ih =>
    rw [without, List.foldl_cons, ← without, ih, owes_release, List.mem_cons]
    tauto

theorem isDone_iff (s : Survey) : s.isDone = true ↔ ∀ id, s.owes id = false := Table.isEmpty_iff

theorem isDone_eq_false_iff (s : Survey) : s.isDone = false ↔ ∃ id, s.owes id = true := Table.isEmpty_eq_false_iff

/-- letting go of a client that owes nothing changes nothing -/
theorem release_of_not_owes {s : Survey} {id : ClientId} (h : s.owes id = false) : s.release id = s := by
  have : s.outstanding.erase id = s.outstanding := Table.ext_keys fun j => by
    rw [Table.contains_erase]
    constructor
    · exact And.right
    · intro hj
      refine ⟨fun e => ?_, hj⟩
      rw [e] at hj
      exact absurd hj (by simp only [owes] at h; simp [h])
  simp [release, this]

theorem without_of_not_owes {s : Survey} {ids : List ClientId} (h : ∀ id ∈ ids, s.owes id = false) :
    s.without ids = s := by
  induction ids with
  | nil => rfl
  | cons id ids ih =>
    rw [without, List.foldl_cons, release_of_not_owes (h id List.mem_cons_self)]
    exact ih fun j hj => h j (List.mem_cons_of_mem id hj)

@[simp] theorem time_without (s : Survey) (ids : List ClientId) : (s.without ids).time = s.time := by
  induction ids generalizing s with
  | nil => rfl
  | cons id ids ih => exact ih (s.release id)

@[simp] theorem asked_without (s : Survey) (ids : List ClientId) : (s.without ids).asked = s.asked := by
  induction ids generalizing s with
  | nil => rfl
  | cons id ids ih => exact ih (s.release id)

@[simp] theorem started_without (s : Survey) (ids : List ClientId) : (s.without ids).started = s.started := by
  induction ids generalizing s with
  | nil => rfl
  | cons id ids ih => exact ih (s.release id)

/-- a survey waits for those whom it does not let go of -/
theorem outstanding_without (s : Survey) (ids : List ClientId) :
    (s.without ids).outstanding = s.outstanding.filter fun id _ => decide (id ∉ ids) := Table.ext_keys fun j => by
  rw [Table.contains_filter]
  simp only [decide_eq_true_eq, exists_and_right]
  rw [← Option.isSome_iff_exists, ← Table.contains_eq_isSome, and_comm]
  exact owes_without s ids j

/-! ## What remains -/

theorem remaining?_eq_some {s s' : Survey} {ids : List ClientId} :
    s.remaining? ids = some s' ↔ s' = s.without ids ∧ s'.isDone = false := by
  rw [remaining?]
  split
  · rename_i h
    simp only [reduceCtorEq, false_iff]
    rintro ⟨rfl, h'⟩
    simp [h] at h'
  · rename_i h
    constructor
    · intro e; cases e; exact ⟨rfl, by simpa using h⟩
    · rintro ⟨rfl, -⟩; rfl

theorem remaining?_eq_none {s : Survey} {ids : List ClientId} :
    s.remaining? ids = none ↔ ∀ id, s.owes id = true → id ∈ ids := by
  have : s.remaining? ids = none ↔ (s.without ids).isDone = true := by
    rw [remaining?]
    split <;> simp_all
  rw [this, isDone_iff]
  constructor
  · intro h id ho
    by_contra hn
    exact absurd ((owes_without s ids id).2 ⟨hn, ho⟩) (by simp [h id])
  · intro h id
    rw [← Bool.not_eq_true, owes_without]
    rintro ⟨hn, ho⟩
    exact hn (h id ho)

theorem isSome_remaining? {s : Survey} {ids : List ClientId} :
    (s.remaining? ids).isSome = true ↔ ∃ id, s.owes id = true ∧ id ∉ ids := by
  rw [Option.isSome_iff_ne_none, ne_eq, remaining?_eq_none]
  push Not
  rfl

/-- nothing changes for a survey that goes on and to which none of these clients owes an answer -/
theorem remaining?_of_not_owes {s : Survey} {ids : List ClientId} (hs : s.isDone = false)
    (h : ∀ id ∈ ids, s.owes id = false) : s.remaining? ids = some s :=
  remaining?_eq_some.2 ⟨(without_of_not_owes h).symm, hs⟩

theorem remaining?_nil {s : Survey} (hs : s.isDone = false) : s.remaining? [] = some s :=
  remaining?_of_not_owes hs (by simp)

/-- letting go of some clients and then of others is letting go of all of them -/
theorem remaining?_append (s : Survey) (ids ids' : List ClientId) :
    (s.remaining? ids).bind (fun s => s.remaining? ids') = s.remaining? (ids ++ ids') := by
  cases h : s.remaining? ids with
  | none =>
    rw [Option.bind_none, eq_comm, remaining?_eq_none]
    exact fun id ho => List.mem_append_left _ (remaining?_eq_none.1 h id ho)
  | some s' =>
    obtain ⟨rfl, -⟩ := remaining?_eq_some.1 h
    rw [Option.bind_some, remaining?, remaining?, without_append]

/-! ## New surveys -/

theorem owes_new (time : SurveyTime) (ids : List ClientId) (started : Reading) (j : ClientId) :
    (Survey.new time ids started).owes j = true ↔ j ∈ ids := Table.contains_ofKeys ids j

theorem isDone_new {time : SurveyTime} {ids : List ClientId} {started : Reading} (h : ids ≠ []) :
    (Survey.new time ids started).isDone = false := by
  obtain ⟨id, hid⟩ := List.exists_mem_of_ne_nil ids h
  exact (isDone_eq_false_iff _).2 ⟨id, (owes_new time ids started id).2 hid⟩

end Survey

namespace SurveyBook

/-! ## Well-formed books -/

/-- a survey has the time it is stored under, and somebody owes it an answer -/
structure WellFormed (b : SurveyBook) : Prop where
  time : ∀ t s, b.get? t = some s → s.time = t
  waiting : ∀ t s, b.get? t = some s → s.isDone = false

theorem mem_openTimes {b : SurveyBook} {t : SurveyTime} : t ∈ b.openTimes ↔ (b.get? t).isSome = true :=
  Table.contains_iff.symm

@[simp] theorem get?_empty (t : SurveyTime) : empty.get? t = none := rfl

theorem wellFormed_empty : empty.WellFormed where
  time := by simp
  waiting := by simp

/-- letting go of nobody leaves every survey as it is -/
theorem WellFormed.bind_remaining?_nil {b : SurveyBook} (h : b.WellFormed) (t : SurveyTime) :
    (b.get? t).bind (fun s => s.remaining? []) = b.get? t := by
  cases hs : b.get? t with
  | none => rfl
  | some s => exact Survey.remaining?_nil (h.waiting t s hs)

/-- a book is well-formed if its surveys are those of a well-formed one, less some clients -/
theorem WellFormed.shrunk {b b' : SurveyBook} (h : b.WellFormed)
    {ids : SurveyTime → List ClientId} (hb : ∀ t, b'.get? t = (b.get? t).bind fun s => s.remaining? (ids t)) :
    b'.WellFormed := by
  have key : ∀ t s', b'.get? t = some s' → ∃ s, b.get? t = some s ∧ s.remaining? (ids t) = some s' := fun t s' hs' => by
    rw [hb t] at hs'
    exact Option.bind_eq_some_iff.1 hs'
  constructor
  · intro t s' hs'
    obtain ⟨s, hs, hr⟩ := key t s' hs'
    obtain ⟨rfl, -⟩ := Survey.remaining?_eq_some.1 hr
    rw [Survey.time_without]
    exact h.time t s hs
  · intro t s' hs'
    obtain ⟨s, -, hr⟩ := key t s' hs'
    exact (Survey.remaining?_eq_some.1 hr).2

/-! ## Operations -/

theorem get?_mk_erase (b : SurveyBook) (time t : SurveyTime) :
    (SurveyBook.mk (b.surveys.erase time)).get? t = if t = time then none else b.get? t := by
  simp only [get?, Table.get?_erase, Std.LawfulEqOrd.compare_eq_iff_eq]

theorem get?_mk_insert (b : SurveyBook) (time t : SurveyTime) (s : Survey) :
    (SurveyBook.mk (b.surveys.insert time s)).get? t = if t = time then some s else b.get? t := by
  simp only [get?, Table.get?_insert, Std.LawfulEqOrd.compare_eq_iff_eq]

theorem insert_of_isSome {b : SurveyBook} {s : Survey} (h : (b.get? s.time).isSome = true) : b.insert s = (b, false) :=
  if_pos h

theorem insert_of_none {b : SurveyBook} {s : Survey} (h : b.get? s.time = none) :
    b.insert s = (⟨b.surveys.insert s.time s⟩, true) := by
  have hn : ¬ b.surveys.contains s.time = true := by
    rw [Table.contains_eq_isSome]
    exact fun hs => by rw [show b.surveys.get? s.time = none from h] at hs; cases hs
  exact if_neg hn

theorem complete_of_none {b : SurveyBook} {time : SurveyTime} (h : b.get? time = none) (id : ClientId) (now : Reading) :
    b.complete id time now = (b, .noSurvey) := by simp [complete, h]

theorem complete_of_not_owes {b : SurveyBook} {time : SurveyTime} {s : Survey} (h : b.get? time = some s) {id : ClientId}
    (ho : s.owes id = false) (now : Reading) : b.complete id time now = (b, .duplicate) := by simp [complete, h, ho]

theorem complete_of_owes {b : SurveyBook} {time : SurveyTime} {s : Survey} (h : b.get? time = some s) {id : ClientId}
    (ho : s.owes id = true) (now : Reading) :
    b.complete id time now =
      (if (s.release id).isDone then ⟨b.surveys.erase time⟩ else ⟨b.surveys.insert time (s.release id)⟩,
        .recorded (now.since s.started) (s.release id).isDone) := by
  cases hd : (s.release id).isDone <;> simp [complete, h, ho, hd]

/-- an answer is taken if and only if it is owed -/
theorem complete_recorded_iff (b : SurveyBook) (id : ClientId) (time : SurveyTime) (now : Reading) :
    (∃ latency closed, (b.complete id time now).2 = .recorded latency closed) ↔
      ∃ s, b.get? time = some s ∧ s.owes id = true := by
  cases hs : b.get? time with
  | none => simp [complete_of_none hs]
  | some s =>
    cases ho : s.owes id with
    | false => simp [complete_of_not_owes hs ho, ho]
    | true => simp [complete_of_owes hs ho, ho]

/-- an answer lets go of the client in that one survey -/
theorem get?_complete {b : SurveyBook} (h : b.WellFormed) (id : ClientId) (time : SurveyTime) (now : Reading)
    (t : SurveyTime) : (b.complete id time now).1.get? t =
      (b.get? t).bind fun s => s.remaining? (if t = time then [id] else []) := by
  by_cases ht : t = time
  · subst ht
    rw [if_pos rfl]
    cases hs : b.get? t with
    | none => simp [complete_of_none hs, hs]
    | some s =>
      rw [Option.bind_some]
      cases ho : s.owes id with
      | false =>
        rw [complete_of_not_owes hs ho, Survey.remaining?_of_not_owes (h.waiting t s hs) (by simpa using ho)]
        exact hs
      | true =>
        rw [complete_of_owes hs ho, Survey.remaining?, Survey.without_singleton]
        dsimp only
        split_ifs
        · rw [get?_mk_erase, if_pos rfl]
        · rw [get?_mk_insert, if_pos rfl]
  · rw [if_neg ht, h.bind_remaining?_nil]
    cases hs : b.get? time with
    | none => rw [complete_of_none hs]
    | some s =>
      cases ho : s.owes id with
      | false => rw [complete_of_not_owes hs ho]
      | true =>
        rw [complete_of_owes hs ho]
        dsimp only
        split_ifs
        · rw [get?_mk_erase, if_neg ht]
        · rw [get?_mk_insert, if_neg ht]

/-- the removal of a client lets go of it in every survey -/
theorem get?_removeClient {b : SurveyBook} (h : b.WellFormed) (id : ClientId) (t : SurveyTime) :
    (b.removeClient id).1.get? t = (b.get? t).bind fun s => s.remaining? [id] := by
  simp only [removeClient, get?, Table.get?_mapValues, Table.get?_filter]
  cases hs : b.surveys.get? t with
  | none => rfl
  | some s =>
    rw [Option.bind_some]
    by_cases hd : (s.release id).isDone = true
    · have ho : s.owes id = true := by
        by_contra hn
        rw [Survey.release_of_not_owes (by simpa using hn), h.waiting t s hs] at hd
        cases hd
      simp [Option.filter, ho, hd, Survey.remaining?, Survey.without]
    · simp [Option.filter, hd, Survey.remaining?, Survey.without]

theorem mem_removeClient (b : SurveyBook) (id : ClientId) (t : SurveyTime) :
    t ∈ (b.removeClient id).2 ↔ ∃ s, b.get? t = some s ∧ s.owes id = true ∧ (s.release id).isDone = true := by
  rw [removeClient, Table.mem_keys]
  simp only [Table.get?_filter, Option.filter_eq_some_iff, Bool.and_eq_true]
  rfl

/-- **A removal closes what it takes out of the book**, and lists each survey once. -/
theorem count_removeClient {b : SurveyBook} (h : b.WellFormed) (id : ClientId) (t : SurveyTime) :
    (b.get? t).isSome.toNat = (b.removeClient id).2.count t + ((b.removeClient id).1.get? t).isSome.toNat := by
  have hnd : (b.removeClient id).2.Nodup := Table.nodup_keys _
  rw [hnd.count, get?_removeClient h]
  cases hs : b.get? t with
  | none =>
    rw [if_neg]
    · rfl
    · rw [mem_removeClient]; simp [hs]
  | some s =>
    rw [Option.bind_some]
    cases hr : s.remaining? [id] with
    | none =>
      rw [if_pos]
      · rfl
      · obtain ⟨j, hj⟩ := (Survey.isDone_eq_false_iff s).1 (h.waiting t s hs)
        have hall := Survey.remaining?_eq_none.1 hr
        have hjid : j = id := by simpa using hall j hj
        refine (mem_removeClient b id t).2 ⟨s, hs, hjid ▸ hj, ?_⟩
        by_contra hn
        rw [Survey.remaining?, Survey.without_singleton, if_neg hn] at hr
        cases hr
    | some s' =>
      rw [if_neg]
      · rfl
      · rw [mem_removeClient]
        rintro ⟨s₁, hs₁, -, hd⟩
        rw [hs] at hs₁; cases hs₁
        rw [Survey.remaining?, Survey.without_singleton, if_pos hd] at hr
        cases hr

end SurveyBook

end MetricSurvey

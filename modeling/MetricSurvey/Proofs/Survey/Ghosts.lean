/-
Ghosts: a client that has left is gone for good, if every session has an id of its own.

A session tells the coordinator first that it is there, then tags and answers, and at last perhaps that it has ended. The
sessions of a server do so side by side, and ticks and timeouts come in between.

- `FromSessions`: what is told is what sessions tell, each under its own id, in any order between them.
- `absent_step`: who is gone, or is dropped by an input, is gone after it, unless the input registers it.
- `orderly_run`: no end of a replaced session is ever expected, and who is registered was registered and has not ended.
- `absent_after_leaving`: a client that was dropped or whose session has ended is gone, whatever is told later.
-/
import MetricSurvey.Proofs.Survey.Refusals

namespace MetricSurvey

variable {P : Type}

/-! ## What sessions tell -/

namespace CoordinatorInput

/-- the client whose session tells this -/
def session? : CoordinatorInput P → Option ClientId
  | .register id _ | .setTags id _ | .complete id _ | .sessionEnded id => some id
  | _ => none

/-- what a session may tell after its registration: tags and answers, and its end as the last of all -/
def goesOn : List (CoordinatorInput P) → Bool
  | [] => true
  | .setTags _ _ :: is | .complete _ _ :: is => goesOn is
  | [.sessionEnded _] => true
  | _ => false

/-- what a session may tell: its registration first, if anything -/
def isConversation : List (CoordinatorInput P) → Bool
  | [] => true
  | .register _ _ :: is => goesOn is
  | _ => false

/-- what the session of this client tells, of all that is told -/
def ofSession (id : ClientId) (is : List (CoordinatorInput P)) : List (CoordinatorInput P) :=
  is.filter fun i => decide (i.session? = some id)

/-- every session tells what it may, whatever others tell in between -/
def FromSessions (is : List (CoordinatorInput P)) : Prop := ∀ id, isConversation (ofSession id is) = true

variable {id : ClientId} {i : CoordinatorInput P} {is js : List (CoordinatorInput P)}

theorem ofSession_append (id : ClientId) (is js : List (CoordinatorInput P)) :
    ofSession id (is ++ js) = ofSession id is ++ ofSession id js := List.filter_append is js

theorem ofSession_of_session (h : i.session? = some id) : ofSession id [i] = [i] := by
  rw [ofSession, List.filter_singleton, h]
  simp

theorem mem_ofSession : i ∈ ofSession id is ↔ i ∈ is ∧ i.session? = some id := by
  rw [ofSession, List.mem_filter, decide_eq_true_iff]

theorem ofSession_eq_nil (h : ∀ i ∈ is, i.session? ≠ some id) : ofSession id is = [] := by
  rw [ofSession, List.filter_eq_nil_iff]
  intro i hi
  simpa using h i hi

/-- only the clients that are named need be looked at -/
theorem fromSessions_iff :
    FromSessions is ↔ ((is.filterMap session?).all fun id => isConversation (ofSession id is)) = true := by
  rw [List.all_eq_true]
  refine ⟨fun h id _ => h id, fun h id => ?_⟩
  by_cases hid : id ∈ is.filterMap session?
  · exact h id hid
  · rw [ofSession_eq_nil fun i hi hs => hid (List.mem_filterMap.2 ⟨i, hi, hs⟩)]
    rfl

instance (is : List (CoordinatorInput P)) : Decidable (FromSessions is) := decidable_of_iff _ fromSessions_iff.symm

theorem goesOn_of_append (h : goesOn (is ++ js) = true) : goesOn is = true := by
  fun_induction goesOn is with
  | case1 => rfl
  | case2 _ _ is ih => exact ih h
  | case3 _ _ is ih => exact ih h
  | case4 => rfl
  | case5 is hnil htags hanswer hend =>
    -- the first of these may not be told at all, or is an end with something behind it
    cases is with
    | nil => exact absurd rfl hnil
    | cons i is =>
      cases i with
      | setTags id tags => exact absurd rfl (htags id tags is)
      | complete id time => exact absurd rfl (hanswer id time is)
      | sessionEnded id =>
        cases is with
        | nil => exact absurd rfl (hend id)
        | cons i is => exact h
      | _ => exact h

theorem isConversation_of_append (h : isConversation (is ++ js) = true) : isConversation is = true := by
  cases is with
  | nil => rfl
  | cons i is =>
    cases i with
    | register id peer => exact goesOn_of_append h
    | _ => exact h

/-- after a registration no other follows -/
theorem not_goesOn_register {peer : P} : goesOn (is ++ [.register id peer]) = false := by
  induction is with
  | nil => rfl
  | cons i is ih =>
    cases i with
    | setTags id tags => exact ih
    | complete id time => exact ih
    | sessionEnded id => cases is <;> rfl
    | _ => rfl

/-- a registration is the first that a session tells -/
theorem eq_nil_of_isConversation {peer : P} (h : isConversation (is ++ [.register id peer]) = true) : is = [] := by
  cases is with
  | nil => rfl
  | cons i is =>
    cases i with
    | register id' peer' =>
      rw [List.cons_append, isConversation, not_goesOn_register] at h
      cases h
    | _ => cases h

theorem not_mem_sessionEnded_of_goesOn (h : goesOn (is ++ [i]) = true) (id : ClientId) : .sessionEnded id ∉ is := by
  induction is with
  | nil => exact List.not_mem_nil
  | cons j is ih =>
    cases j with
    | setTags id' tags => exact List.not_mem_cons_of_ne_of_not_mem nofun (ih h)
    | complete id' time => exact List.not_mem_cons_of_ne_of_not_mem nofun (ih h)
    | sessionEnded id' => cases is <;> cases h
    | _ => cases h

/-- the end is the last that a session tells -/
theorem not_mem_sessionEnded_of_isConversation (h : isConversation (is ++ [i]) = true) (id : ClientId) :
    .sessionEnded id ∉ is := by
  cases is with
  | nil => exact List.not_mem_nil
  | cons j is =>
    cases j with
    | register id' peer => exact List.not_mem_cons_of_ne_of_not_mem nofun (not_mem_sessionEnded_of_goesOn h id)
    | _ => cases h

namespace FromSessions

theorem of_append (h : FromSessions (is ++ js)) : FromSessions is := by
  intro id
  have hid := h id
  rw [ofSession_append] at hid
  exact isConversation_of_append hid

/-- a client is registered before its session tells anything else -/
theorem not_mem_of_register {peer : P} (h : FromSessions (is ++ .register id peer :: js)) {i : CoordinatorInput P}
    (hi : i ∈ is) : i.session? ≠ some id := by
  intro hs
  rw [← List.singleton_append, ← List.append_assoc] at h
  have hid := h.of_append id
  rw [ofSession_append, ofSession_of_session rfl] at hid
  have hmem := mem_ofSession.2 ⟨hi, hs⟩
  rw [eq_nil_of_isConversation hid] at hmem
  cases hmem

/-- when a session tells something, it has not ended -/
theorem not_ended_of_session (h : FromSessions (is ++ i :: js)) (hi : i.session? = some id) : .sessionEnded id ∉ is := by
  intro hend
  rw [← List.singleton_append, ← List.append_assoc] at h
  have hid := h.of_append id
  rw [ofSession_append, ofSession_of_session hi] at hid
  exact not_mem_sessionEnded_of_isConversation hid id (mem_ofSession.2 ⟨hend, rfl⟩)

end FromSessions

end CoordinatorInput

namespace Coordinator

open CoordinatorInput

variable {c : Coordinator P} {id : ClientId}

/-! ## Absence -/

/-- a client is not registered, and no open survey waits for it -/
structure Absent (c : Coordinator P) (id : ClientId) : Prop where
  unregistered : c.clients.contains id = false
  owesNothing : ∀ time sv, c.book.get? time = some sv → sv.owes id = false

/-- who is registered after an input was registered by it, or was registered before and is not dropped -/
theorem contains_clients_of_step {s : Surroundings P} {i : CoordinatorInput P}
    (h : (step s c i).1.clients.contains id = true) :
    (∃ peer, i = .register id peer) ∨ c.clients.contains id = true ∧ id ∉ c.dropped s i := by
  cases i with
  | register j peer =>
    simp only [step, clients_register, Table.contains_insert] at h
    rcases h with rfl | h
    · exact Or.inl ⟨peer, rfl⟩
    · exact Or.inr ⟨h, List.not_mem_nil⟩
  | setTags j tags => exact Or.inr ⟨by simpa only [step, setTags, Table.contains_modify] using h, List.not_mem_nil⟩
  | sessionEnded j =>
    cases hr : c.staleRemovals.get? j with
    | some n =>
      simp only [step, sessionEnded, hr] at h
      exact Or.inr ⟨h, by simp [dropped, Table.contains_eq_isSome, hr]⟩
    | none =>
      simp only [step, sessionEnded, hr, removeClient, Table.contains_erase] at h
      exact Or.inr ⟨h.2, by simpa [dropped, Table.contains_eq_isSome, hr] using h.1⟩
  | removeClient j =>
    simp only [step, removeClient, Table.contains_erase] at h
    exact Or.inr ⟨h.2, by simpa [dropped] using h.1⟩
  | tick time =>
    cases ho : c.opens (.tick time) with
    | none =>
      simp only [step, tick_of_opens_none ho] at h
      exact Or.inr ⟨h, by simp [dropped, ho]⟩
    | some t' =>
      obtain rfl : t' = time := (opens_tick_eq_some.1 ho).1
      simp only [step, tick_of_opens ho, contains_clients_removeClients] at h
      exact Or.inr ⟨h.2, by simpa [dropped, ho] using h.1⟩
  | complete j time => exact Or.inr ⟨by simpa only [step, clients_complete] using h, List.not_mem_nil⟩
  | timeout time =>
    refine Or.inr ⟨?_, List.not_mem_nil⟩
    simp only [step, timeout] at h
    split at h <;> exact h
  | shutdown => simp [step, shutdown, Table.contains_eq_isSome] at h

/-- whom a survey waits for after an input, it waited for before, or it has just asked; and it is not dropped -/
theorem owes_of_step (hc : c.book.WellFormed) {s : Surroundings P} {i : CoordinatorInput P} {time : SurveyTime}
    {sv : Survey} (h : (step s c i).1.book.get? time = some sv) (howes : sv.owes id = true) :
    (c.clients.contains id = true ∨ ∃ sv, c.book.get? time = some sv ∧ sv.owes id = true) ∧ id ∉ c.dropped s i := by
  rw [get?_step hc] at h
  split_ifs at h
  obtain ⟨sv₀, hasked, hleft⟩ := Option.bind_eq_some_iff.1 h
  obtain ⟨rfl, -⟩ := Survey.remaining?_eq_some.1 hleft
  obtain ⟨hsettled, howes₀⟩ := (Survey.owes_without _ _ _).1 howes
  refine ⟨?_, fun hd => hsettled (List.mem_append_right _ hd)⟩
  rw [asked?] at hasked
  split_ifs at hasked
  · cases hasked
    exact Or.inl (Table.contains_iff.2 ((Survey.owes_new time _ _ id).1 howes₀))
  · exact Or.inr ⟨sv₀, hasked, howes₀⟩

/-- **Who is gone stays gone**, and who is dropped is gone, unless it is registered. -/
theorem absent_step (hc : c.book.WellFormed) {s : Surroundings P} {i : CoordinatorInput P}
    (hi : ∀ peer, i ≠ .register id peer) (h : c.Absent id ∨ id ∈ c.dropped s i) : (step s c i).1.Absent id := by
  constructor
  · rw [← Bool.not_eq_true]
    intro hid
    rcases contains_clients_of_step hid with ⟨peer, hreg⟩ | ⟨hold, hkept⟩
    · exact hi peer hreg
    · rcases h with habsent | hdropped
      · rw [habsent.unregistered] at hold
        cases hold
      · exact hkept hdropped
  · intro time sv hsv
    rw [← Bool.not_eq_true]
    intro howes
    obtain ⟨hold, hkept⟩ := owes_of_step hc hsv howes
    rcases h with habsent | hdropped
    · rcases hold with hreg | ⟨sv₀, hsv₀, howes₀⟩
      · rw [habsent.unregistered] at hreg
        cases hreg
      · rw [habsent.owesNothing time sv₀ hsv₀] at howes₀
        cases howes₀
    · exact hkept hdropped

theorem absent_run (hc : c.book.WellFormed) {is : List (Surroundings P × CoordinatorInput P)}
    (his : ∀ i ∈ is, ∀ peer, i.2 ≠ .register id peer) (h : c.Absent id) : (run c is).1.Absent id := by
  induction is generalizing c with
  | nil => exact h
  | cons i is ih =>
    rw [run_cons]
    refine ih (wellFormed_step hc i.1 i.2) (fun j hj => his j (List.mem_cons_of_mem i hj)) ?_
    exact absent_step hc (his i List.mem_cons_self) (Or.inl h)

/-! ## Runs of what sessions tell -/

/-- only a replacement makes the coordinator expect the end of a replaced session -/
theorem staleRemovals_step {s : Surroundings P} {i : CoordinatorInput P} (hstale : c.staleRemovals = ∅)
    (hi : ∀ id peer, i = .register id peer → c.clients.contains id = false) : (step s c i).1.staleRemovals = ∅ := by
  cases i with
  | register id peer =>
    have hnew := hi id peer rfl
    rw [Table.contains_eq_isSome, Option.isSome_eq_false_iff, Option.isNone_iff_eq_none] at hnew
    simpa only [step, register, hnew] using hstale
  | setTags id tags => exact hstale
  | sessionEnded id =>
    simp only [step, sessionEnded, hstale, Table.get?_emptyc]
    exact hstale
  | removeClient id => exact hstale
  | tick time =>
    cases ho : c.opens (.tick time) with
    | none => simpa only [step, tick_of_opens_none ho] using hstale
    | some t' =>
      obtain rfl : t' = time := (opens_tick_eq_some.1 ho).1
      simp only [step, tick_of_opens ho, staleRemovals_removeClients]
      exact hstale
  | complete id time =>
    simp only [step, complete]
    split <;> exact hstale
  | timeout time =>
    simp only [step, timeout]
    split <;> exact hstale
  | shutdown => exact hstale

/-- what holds of a coordinator that has handled what sessions tell -/
structure Orderly (is : List (CoordinatorInput P)) (c : Coordinator P) : Prop where
  /-- no end of a replaced session is expected -/
  noneStale : c.staleRemovals = ∅
  /-- who is registered was registered, and its session has not ended -/
  live : ∀ id, c.clients.contains id = true → (∃ peer, .register id peer ∈ is) ∧ .sessionEnded id ∉ is

theorem orderly_step {is : List (CoordinatorInput P)} {s : Surroundings P} {i : CoordinatorInput P}
    (h : Orderly is c) (hfrom : FromSessions (is ++ [i])) : Orderly (is ++ [i]) (step s c i).1 where
  noneStale := by
    refine staleRemovals_step h.noneStale ?_
    rintro id peer rfl
    rw [← Bool.not_eq_true]
    intro hid
    obtain ⟨⟨peer', hmem⟩, -⟩ := h.live id hid
    exact hfrom.not_mem_of_register hmem rfl
  live id hid := by
    rcases contains_clients_of_step hid with ⟨peer, rfl⟩ | ⟨hold, hkept⟩
    · refine ⟨⟨peer, by simp⟩, fun hend => ?_⟩
      rcases List.mem_append.1 hend with hbefore | hlast
      · exact hfrom.not_ended_of_session rfl hbefore
      · simp at hlast
    · obtain ⟨⟨peer, hmem⟩, hlive⟩ := h.live id hold
      refine ⟨⟨peer, List.mem_append_left _ hmem⟩, fun hend => ?_⟩
      rcases List.mem_append.1 hend with hbefore | hlast
      · exact hlive hbefore
      · rw [← List.mem_singleton.1 hlast] at hkept
        simp [dropped, h.noneStale, Table.contains_eq_isSome] at hkept

/-- **A coordinator that has handled what sessions tell is orderly.** -/
theorem orderly_run {is : List (Surroundings P × CoordinatorInput P)} (h : FromSessions (is.map Prod.snd)) :
    Orderly (is.map Prod.snd) (run new is).1 := by
  induction is using List.reverseRecOn with
  | nil => exact ⟨rfl, nofun⟩
  | append_singleton is i ih =>
    rw [List.map_append] at h ⊢
    rw [run_snoc]
    exact orderly_step (ih h.of_append) h

/-- **Who has left is gone**, whatever is told later: a client is gone at the end of a run that dropped it, be it because its
session has ended or because it did not take a request. -/
theorem absent_after_leaving {before after : List (Surroundings P × CoordinatorInput P)} {s : Surroundings P}
    {i : CoordinatorInput P} (h : FromSessions ((before ++ (s, i) :: after).map Prod.snd))
    (hleft : i = .sessionEnded id ∨
      (run new before).1.clients.contains id = true ∧ id ∈ (run new before).1.dropped s i) :
    (run new (before ++ (s, i) :: after)).1.Absent id := by
  rw [List.map_append, List.map_cons] at h
  have horderly := orderly_run h.of_append
  have hdropped : id ∈ (run new before).1.dropped s i := by
    rcases hleft with rfl | ⟨-, hd⟩
    · simp [dropped, horderly.noneStale, Table.contains_eq_isSome]
    · exact hd
  -- the session has told something already, so its registration does not come any more
  have hknown : ∃ j ∈ before.map Prod.snd ++ [i], j.session? = some id := by
    rcases hleft with rfl | ⟨hid, -⟩
    · exact ⟨_, List.mem_append_right _ (List.mem_singleton_self _), rfl⟩
    · obtain ⟨⟨peer, hmem⟩, -⟩ := horderly.live id hid
      exact ⟨_, List.mem_append_left _ hmem, rfl⟩
  obtain ⟨j, hj, hsession⟩ := hknown
  have hnow : ∀ peer, i ≠ .register id peer := by
    rintro peer rfl
    cases hdropped
  have hlater : ∀ k ∈ after, ∀ peer, k.2 ≠ .register id peer := by
    intro k hk peer hreg
    obtain ⟨l, m, rfl⟩ := List.append_of_mem hk
    rw [List.map_append, List.map_cons, hreg, ← List.cons_append, ← List.append_assoc, ← List.singleton_append,
      ← List.append_assoc (before.map Prod.snd) [i]] at h
    exact h.not_mem_of_register (List.mem_append_left _ hj) hsession
  rw [run_append, run_cons]
  exact absent_run (wellFormed_step (wellFormed_run_new before) s i) hlater
    (absent_step (wellFormed_run_new before) hnow (Or.inr hdropped))

end Coordinator

end MetricSurvey

/-
Replacements: a session that was replaced never takes its replacement with it.

An id may be registered while it is registered: the new peer replaces the old one, whose session will still tell that it has
ended. What it tells does not say which of the sessions of this id it comes from.

- `register_peers`, `removeClient_peers`, `quiet_step`: what an input does to the peers that are registered, to the ends that
  are expected, and to the peers that are closed.
- `InStep`: the registry and the ends that are expected follow from how often each id was registered and has ended. Every
  input keeps this (`InStep.register`, `InStep.sessionEnded`, `InStep.quiet`).
- `replacement_stays`: so it is after every run in which no more ends are told than there were registrations.
-/
import MetricSurvey.Proofs.Survey.Refusals

namespace MetricSurvey

variable {P : Type}

/-! ## Registrations and ends -/

namespace CoordinatorInput

def registration? : CoordinatorInput P → Option (ClientId × P)
  | .register id peer => some (id, peer)
  | _ => none

def ending? : CoordinatorInput P → Option ClientId
  | .sessionEnded id => some id
  | _ => none

end CoordinatorInput

def CoordinatorEffect.closed? : CoordinatorEffect P → Option P
  | .close peer => some peer
  | _ => none

namespace Coordinator

variable {c : Coordinator P} {is : List (Surroundings P × CoordinatorInput P)}

/-- all that was registered, in order -/
def registrations (is : List (Surroundings P × CoordinatorInput P)) : List (ClientId × P) :=
  is.filterMap fun i => i.2.registration?

/-- the peers that were registered under an id, in order -/
def registered (id : ClientId) (is : List (Surroundings P × CoordinatorInput P)) : List P :=
  ((registrations is).filter fun r => r.1 == id).map Prod.snd

/-- how often it was told that a session of this id has ended -/
def endings (id : ClientId) (is : List (Surroundings P × CoordinatorInput P)) : Nat :=
  (is.filterMap fun i => i.2.ending?).count id

/-- the peers that were closed, in order -/
def closed (es : Effects P) : List P := es.filterMap CoordinatorEffect.closed?

/-- who is registered, and what each is reached by -/
def peers (c : Coordinator P) : Table ClientId P := c.clients.mapValues fun _ client => client.peer

theorem get?_peers (c : Coordinator P) (id : ClientId) : c.peers.get? id = (c.clients.get? id).map Client.peer :=
  Table.get?_mapValues _ _ _

theorem values_peers (c : Coordinator P) : c.peers.values = c.clients.values.map Client.peer := by
  simp [peers, Table.values, Table.mapValues]

/-- no request that a step makes is refused -/
def Taken (s : Surroundings P) (es : Effects P) : Prop := ∀ peer time, .request peer time ∈ es → s.accepts peer = true

/-! ## One step -/

@[simp] theorem closed_append (es es' : Effects P) : closed (es ++ es') = closed es ++ closed es' :=
  List.filterMap_append

@[simp] theorem closed_cons (e : CoordinatorEffect P) (es : Effects P) :
    closed (e :: es) = e.closed?.toList ++ closed es := by
  cases e <;> rfl

@[simp] theorem closed_nil : closed ([] : Effects P) = [] := rfl

theorem closed_tells {α : Type} (f : α → AggregatorEvent Binary64) (l : List α) :
    closed (l.map fun a => CoordinatorEffect.tell (P := P) (f a)) = [] := by
  simp [closed, List.filterMap_map, Function.comp_def, CoordinatorEffect.closed?]

theorem closed_requests (l : List (ClientId × Client P)) (time : SurveyTime) :
    closed (l.map fun e => .request e.2.peer time) = [] := by
  simp [closed, List.filterMap_map, Function.comp_def, CoordinatorEffect.closed?]

/-- a client is removed, and the peer that it is reached by is closed -/
theorem removeClient_peers (c : Coordinator P) (id : ClientId) : (c.removeClient id).1.peers = c.peers.erase id ∧
    closed (c.removeClient id).2 = (c.peers.get? id).toList := by
  constructor
  · refine Table.ext_get fun j => ?_
    rw [get?_peers, Table.get?_erase, get?_peers]
    show ((c.clients.erase id).get? j).map Client.peer = _
    rw [Table.get?_erase]
    split_ifs <;> rfl
  · rw [get?_peers, removeClient]
    dsimp only
    rw [closed_append, closed_tells, List.append_nil]
    cases c.clients.get? id <;> rfl

theorem register_peers (c : Coordinator P) (id : ClientId) (peer : P) :
    (c.register id peer).1.peers = c.peers.insert id peer ∧
      closed (c.register id peer).2 = (c.peers.get? id).toList := by
  constructor
  · refine Table.ext_get fun j => ?_
    rw [get?_peers, clients_register, Table.get?_insert, Table.get?_insert, get?_peers]
    split_ifs <;> rfl
  · rw [get?_peers, register]
    cases c.clients.get? id <;> rfl

/-- only a replacement makes one more end expected -/
theorem get?_staleRemovals_register (c : Coordinator P) (id : ClientId) (peer : P) (j : ClientId) :
    (c.register id peer).1.staleRemovals.get? j = if j = id ∧ (c.peers.get? id).isSome = true then
      some ((c.staleRemovals.get? id).getD 0 + 1) else c.staleRemovals.get? j := by
  rw [get?_peers, register]
  cases hold : c.clients.get? id with
  | none => simp
  | some old => simp [Table.get?_alter]

/-- an end that is expected is one less -/
theorem get?_staleRemovals_sessionEnded {id : ClientId} {n : Nat} (h : c.staleRemovals.get? id = some n) (j : ClientId) :
    (c.sessionEnded id).1.staleRemovals.get? j = if j = id then
      if n - 1 = 0 then none else some (n - 1) else c.staleRemovals.get? j := by
  rw [sessionEnded, h]
  dsimp only
  split_ifs with hlast hj hj
  · rw [hj, Table.get?_erase_self]
  · exact Table.get?_erase_of_ne _ hj
  · rw [hj, Table.get?_insert_self]
  · exact Table.get?_insert_of_ne _ hj _

/-- who takes every request is not among those who refuse -/
theorem refusing_eq_nil {s : Surroundings P} {time : SurveyTime} (ho : c.opens (.tick time) = some time)
    (htaken : Taken s (tick s c time).2) : c.refusing s.accepts = [] := by
  rw [List.eq_nil_iff_forall_not_mem]
  intro id hid
  obtain ⟨client, hclient, hrefuses⟩ := mem_refusing.1 hid
  have hasked : .request client.peer time ∈ (tick s c time).2 := by
    rw [tick_of_opens ho]
    have hmem : .request client.peer time ∈ c.clients.toList.map fun e => CoordinatorEffect.request e.2.peer time :=
      List.mem_map.2 ⟨(id, client), Table.get?_eq_some.1 hclient, rfl⟩
    simp only [List.mem_append, List.mem_cons, hmem, true_or, or_true]
  rw [htaken client.peer time hasked] at hrefuses
  cases hrefuses

/-- **All other inputs leave alone** who is registered, which ends are expected, and every peer. -/
theorem quiet_step {s : Surroundings P} {i : CoordinatorInput P} (hregister : i.registration? = none)
    (hend : i.ending? = none) (hshutdown : i ≠ .shutdown) (hremove : ∀ id, i ≠ .removeClient id)
    (htaken : Taken s (step s c i).2) : (step s c i).1.peers = c.peers ∧
      (step s c i).1.staleRemovals = c.staleRemovals ∧ closed (step s c i).2 = [] := by
  cases i with
  | register id peer => cases hregister
  | sessionEnded id => cases hend
  | removeClient id => exact absurd rfl (hremove id)
  | shutdown => exact absurd rfl hshutdown
  | setTags id tags =>
    refine ⟨Table.ext_get fun j => ?_, rfl, rfl⟩
    rw [get?_peers, get?_peers]
    show ((c.clients.modify id _).get? j).map Client.peer = _
    rw [Table.get?_modify]
    split_ifs with hj
    · obtain rfl := Std.LawfulEqOrd.compare_eq_iff_eq.1 hj
      rw [Option.map_map]
      rfl
    · rfl
  | tick time =>
    have hoverdue : closed (c.overdue time) = [] := by
      unfold overdue
      split_ifs <;> rfl
    cases ho : c.opens (.tick time) with
    | none =>
      rw [step, tick_of_opens_none ho]
      exact ⟨rfl, rfl, hoverdue⟩
    | some t =>
      obtain rfl : t = time := (opens_tick_eq_some.1 ho).1
      have hnobody := refusing_eq_nil ho htaken
      simp only [step, tick_of_opens ho, hnobody]
      refine ⟨rfl, rfl, ?_⟩
      simp only [List.cons_append, closed_cons, closed_append, hoverdue, closed_requests]
      split_ifs <;> rfl
  | complete id time =>
    refine ⟨?_, ?_, ?_⟩
    · unfold peers
      rw [step, clients_complete]
    · simp only [step, complete]
      split <;> rfl
    · simp only [step, complete]
      split
      · split <;> rfl
      · rfl
  | timeout time =>
    simp only [step, timeout]
    split <;> exact ⟨rfl, rfl, rfl⟩

/-! ## Runs -/

/-- Who is registered, which ends are expected and which peers were closed follow from what was told. -/
structure InStep (is : List (Surroundings P × CoordinatorInput P)) (c : Coordinator P) (es : Effects P) : Prop where
  peers : ∀ id, c.peers.get? id =
    if endings id is < (registered id is).length then (registered id is).getLast? else none
  stale : ∀ id n, c.staleRemovals.get? id = some n ↔ 0 < n ∧ (registered id is).length = endings id is + 1 + n
  closed : (closed es ++ c.peers.values).Perm ((registrations is).map Prod.snd)

theorem inStep_new : InStep [] (new : Coordinator P) [] where
  peers _ := rfl
  stale id n := by
    constructor
    · intro h
      cases h
    · rintro ⟨-, h⟩
      simp only [registered, registrations, endings, List.filterMap_nil, List.filter_nil, List.map_nil, List.length_nil,
        List.count_nil] at h
      omega
  closed := List.Perm.refl _

/-- who is registered was registered more often than it has ended -/
theorem InStep.isSome_iff {es : Effects P} (h : InStep is c es) (id : ClientId) :
    (c.peers.get? id).isSome = true ↔ endings id is < (registered id is).length := by
  rw [h.peers]
  split_ifs with hlt
  · rw [List.getLast?_isSome]
    exact iff_of_true (List.ne_nil_of_length_pos (Nat.zero_lt_of_lt hlt)) hlt
  · exact iff_of_false nofun hlt

section Snoc

variable {s : Surroundings P} {es : Effects P}

theorem registrations_snoc (is : List (Surroundings P × CoordinatorInput P)) (s : Surroundings P)
    (i : CoordinatorInput P) : registrations (is ++ [(s, i)]) = registrations is ++ i.registration?.toList := by
  rw [registrations, List.filterMap_append]
  cases h : i.registration? <;> simp [h, registrations]

theorem registered_snoc (id : ClientId) (is : List (Surroundings P × CoordinatorInput P)) (s : Surroundings P)
    (i : CoordinatorInput P) : registered id (is ++ [(s, i)]) = registered id is ++
      (i.registration?.toList.filter fun r => r.1 == id).map Prod.snd := by
  rw [registered, registrations_snoc, List.filter_append, List.map_append]
  rfl

theorem endings_snoc (id : ClientId) (is : List (Surroundings P × CoordinatorInput P)) (s : Surroundings P)
    (i : CoordinatorInput P) : endings id (is ++ [(s, i)]) = endings id is + i.ending?.toList.count id := by
  rw [endings, List.filterMap_append, List.count_append]
  cases h : i.ending? <;> simp [h, endings]

/-- what is neither a registration nor an end leaves everything in step -/
theorem InStep.quiet (h : InStep is c es) {i : CoordinatorInput P} (hregister : i.registration? = none)
    (hend : i.ending? = none) (hquiet : (step s c i).1.peers = c.peers ∧
      (step s c i).1.staleRemovals = c.staleRemovals ∧ Coordinator.closed (step s c i).2 = []) :
    InStep (is ++ [(s, i)]) (step s c i).1 (es ++ (step s c i).2) := by
  obtain ⟨hpeers, hstale, hclosed⟩ := hquiet
  constructor
  · intro id
    simpa [hpeers, registered_snoc, endings_snoc, hregister, hend] using h.peers id
  · intro id n
    simpa [hstale, registered_snoc, endings_snoc, hregister, hend] using h.stale id n
  · simpa [hpeers, hclosed, registrations_snoc, hregister] using h.closed

/-- **A registration** replaces whoever is registered, and then one more end is expected. -/
theorem InStep.register (h : InStep is c es) (hends : ∀ id, endings id is ≤ (registered id is).length) (id : ClientId)
    (peer : P) : InStep (is ++ [(s, .register id peer)]) (c.register id peer).1 (es ++ (c.register id peer).2) := by
  obtain ⟨hpeers, hclosed⟩ := register_peers c id peer
  have hend : ∀ j, endings j (is ++ [(s, .register id peer)]) = endings j is := by
    intro j
    rw [endings_snoc]
    rfl
  have hsame : registered id (is ++ [(s, .register id peer)]) = registered id is ++ [peer] := by
    simp [registered_snoc, CoordinatorInput.registration?]
  have hother : ∀ j, j ≠ id → registered j (is ++ [(s, .register id peer)]) = registered j is := by
    intro j hj
    simp [registered_snoc, CoordinatorInput.registration?, Ne.symm hj]
  constructor
  · intro j
    rw [hpeers, Table.get?_insert, hend]
    split_ifs with hj hlt hlt
    · obtain rfl := Std.LawfulEqOrd.compare_eq_iff_eq.1 hj
      rw [hsame, List.getLast?_append]
      rfl
    · obtain rfl := Std.LawfulEqOrd.compare_eq_iff_eq.1 hj
      rw [hsame, List.length_append] at hlt
      exact absurd (Nat.lt_succ_of_le (hends j)) hlt
    · have hne := mt Std.LawfulEqOrd.compare_eq_iff_eq.2 hj
      rw [h.peers, hother j hne] at *
      rw [if_pos hlt]
    · have hne := mt Std.LawfulEqOrd.compare_eq_iff_eq.2 hj
      rw [hother j hne] at hlt
      rw [h.peers, if_neg hlt]
  · intro j n
    have hregistered := h.isSome_iff id
    have hstale := h.stale j
    rw [get?_staleRemovals_register, hend]
    split_ifs with hreplaced
    · obtain ⟨rfl, hlt⟩ := hreplaced
      rw [hregistered] at hlt
      rw [hsame, List.length_append, List.length_singleton, Option.some.injEq]
      cases hexpected : c.staleRemovals.get? j with
      | none =>
        -- nothing else is expected, so there was one registration more than there were ends
        have hone : (registered j is).length = endings j is + 1 := by
          by_contra hmore
          have hsome := (hstale ((registered j is).length - endings j is - 1)).2 (by omega)
          rw [hexpected] at hsome
          cases hsome
        rw [Option.getD_none]
        omega
      | some k =>
        obtain ⟨-, hk⟩ := (hstale k).1 hexpected
        rw [Option.getD_some]
        omega
    · by_cases hj : j = id
      · subst hj
        have hequal : (registered j is).length = endings j is := by
          have hnot := mt hregistered.2 (fun hsome => hreplaced ⟨rfl, hsome⟩)
          exact Nat.le_antisymm (Nat.not_lt.1 hnot) (hends j)
        rw [hstale, hsame, List.length_append, List.length_singleton]
        omega
      · rw [hstale, hother j hj]
  · rw [hpeers, closed_append, hclosed, registrations_snoc, List.map_append]
    have hkept := (Table.perm_values_erase c.peers id).append_left (Coordinator.closed es)
    calc Coordinator.closed es ++ (c.peers.get? id).toList ++ (c.peers.insert id peer).values
      _ |>.Perm (Coordinator.closed es ++ (c.peers.get? id).toList ++ peer :: (c.peers.erase id).values) :=
        (Table.perm_values_insert c.peers id peer).append_left _
      _ |>.Perm (Coordinator.closed es ++ ((c.peers.get? id).toList ++ (c.peers.erase id).values) ++ [peer]) := by
        rw [← List.append_assoc]
        exact List.perm_middle.trans (List.perm_append_singleton peer _).symm
      _ |>.Perm ((registrations is).map Prod.snd ++ [peer]) := (hkept.symm.trans h.closed).append_right [peer]

/-- **An end that was expected** is that of a replaced session, and any other removes the client. -/
theorem InStep.sessionEnded (h : InStep is c es) (id : ClientId) (hends : endings id is < (registered id is).length) :
    InStep (is ++ [(s, .sessionEnded id)]) (c.sessionEnded id).1 (es ++ (c.sessionEnded id).2) := by
  have hend : endings id (is ++ [(s, .sessionEnded id)]) = endings id is + 1 := by
    simp [endings_snoc, CoordinatorInput.ending?]
  have hother : ∀ j, j ≠ id → endings j (is ++ [(s, .sessionEnded id)]) = endings j is := by
    intro j hj
    simp [endings_snoc, CoordinatorInput.ending?, Ne.symm hj]
  have hsame : ∀ j, registered j (is ++ [(s, .sessionEnded id)]) = registered j is := by
    intro j
    simp [registered_snoc, CoordinatorInput.registration?]
  cases hexpected : c.staleRemovals.get? id with
  | some n =>
    obtain ⟨hpos, hn⟩ := (h.stale id n).1 hexpected
    have hpeers : (c.sessionEnded id).1.peers = c.peers := by
      rw [Coordinator.sessionEnded, hexpected]
      rfl
    have hquiet : (c.sessionEnded id).2 = [] := by rw [Coordinator.sessionEnded, hexpected]
    constructor
    · intro j
      rw [hpeers, hsame, h.peers]
      by_cases hj : j = id
      · subst hj
        rw [hend, if_pos hends, if_pos (by omega)]
      · rw [hother j hj]
    · intro j m
      rw [get?_staleRemovals_sessionEnded hexpected, hsame]
      by_cases hj : j = id
      · subst hj
        rw [if_pos rfl, hend]
        split_ifs with hlast
        · simp only [false_iff]
          omega
        · rw [Option.some.injEq]
          omega
      · rw [if_neg hj, hother j hj]
        exact h.stale j m
    · rw [hquiet, hpeers, registrations_snoc]
      simpa [CoordinatorInput.registration?] using h.closed
  | none =>
    have hremoved : c.sessionEnded id = c.removeClient id := by rw [Coordinator.sessionEnded, hexpected]
    obtain ⟨hpeers, hclosed⟩ := removeClient_peers c id
    have hone : (registered id is).length = endings id is + 1 := by
      by_contra hmore
      have hsome := (h.stale id ((registered id is).length - endings id is - 1)).2 (by omega)
      rw [hexpected] at hsome
      cases hsome
    rw [hremoved]
    constructor
    · intro j
      rw [hpeers, hsame]
      by_cases hj : j = id
      · subst hj
        rw [Table.get?_erase_self, hend, if_neg (by omega)]
      · rw [Table.get?_erase_of_ne _ hj, hother j hj, h.peers]
    · intro j m
      show c.staleRemovals.get? j = some m ↔ _
      rw [hsame, h.stale]
      by_cases hj : j = id
      · subst hj
        rw [hend]
        omega
      · rw [hother j hj]
    · rw [hpeers, closed_append, hclosed, registrations_snoc, List.append_assoc]
      simp only [CoordinatorInput.registration?, Option.toList_none, List.append_nil]
      exact ((Table.perm_values_erase c.peers id).append_left _).symm.trans h.closed

end Snoc

/-- **Everything is in step after every run**, as long as no more ends are told than there were registrations. -/
theorem inStep_run (hplain : ∀ i ∈ is, i.2 ≠ .shutdown ∧ ∀ id, i.2 ≠ .removeClient id)
    (htaken : ∀ before s i after, is = before ++ (s, i) :: after → Taken s (step s (run new before).1 i).2)
    (hends : ∀ before, before <+: is → ∀ id, endings id before ≤ (registered id before).length) :
    InStep is (run new is).1 (run new is).2 := by
  induction is using List.reverseRecOn with
  | nil => exact inStep_new
  | append_singleton is i ih =>
    obtain ⟨s, i⟩ := i
    have hbefore := ih (fun j hj => hplain j (List.mem_append_left _ hj))
      (fun before s' j after hsplit => htaken before s' j (after ++ [(s, i)]) (by rw [hsplit]; simp))
      (fun before hpre => hends before (hpre.trans (List.prefix_append _ _)))
    obtain ⟨hshutdown, hremove⟩ := hplain (s, i) (by simp)
    rw [run_snoc]
    cases hregister : i.registration? with
    | some r =>
      cases i with
      | register id peer => exact hbefore.register (hends is (List.prefix_append _ _)) id peer
      | _ => cases hregister
    | none =>
      cases hend : i.ending? with
      | some id =>
        cases i with
        | sessionEnded id =>
          refine hbefore.sessionEnded id ?_
          have hcount := hends (is ++ [(s, .sessionEnded id)]) (List.prefix_refl _) id
          simpa [endings_snoc, registered_snoc, CoordinatorInput.ending?, CoordinatorInput.registration?] using hcount
        | _ => cases hend
      | none => exact hbefore.quiet hregister hend (quiet_step hregister hend hshutdown hremove (htaken is s i [] rfl))

/-- **A replaced session never takes its replacement with it.** After every run without a shutdown, a removal from outside or
a request that is refused, in which no id has ended more often than it was registered: who is registered is who was
registered more often than it has ended, by the peer that it was registered with last. The ends that are still expected are
all but the one of that peer. Whatever else was registered was closed, as often as it was registered, so if no two
registrations are of one peer, every other peer was closed once and the current one was not. -/
theorem replacement_stays {before : List (Surroundings P × CoordinatorInput P)}
    (hplain : ∀ i ∈ is, i.2 ≠ .shutdown ∧ ∀ id, i.2 ≠ .removeClient id)
    (htaken : ∀ before s i after, is = before ++ (s, i) :: after → Taken s (step s (run new before).1 i).2)
    (hends : ∀ before, before <+: is → ∀ id, endings id before ≤ (registered id before).length)
    (hbefore : before <+: is) :
    let c := (run new before).1
    let shut := closed (run new before).2
    (∀ id, c.clients.contains id = true ↔ endings id before < (registered id before).length) ∧
    (∀ id client, c.clients.get? id = some client → (registered id before).getLast? = some client.peer) ∧
    (∀ id n, c.staleRemovals.get? id = some n ↔ 0 < n ∧ (registered id before).length = endings id before + 1 + n) ∧
    (shut ++ c.clients.values.map Client.peer).Perm ((registrations before).map Prod.snd) ∧
    (((registrations before).map Prod.snd).Nodup → shut.Nodup ∧ ∀ r ∈ registrations before,
      r.2 ∈ shut ↔ ∀ id client, c.clients.get? id = some client → client.peer ≠ r.2) := by
  intro c shut
  have hstep : InStep before c (run new before).2 := by
    obtain ⟨rest, rfl⟩ := hbefore
    refine inStep_run (fun i hi => hplain i (List.mem_append_left _ hi)) (fun b s i after hsplit => ?_)
      fun b hb => hends b (hb.trans (List.prefix_append _ _))
    exact htaken b s i (after ++ rest) (by rw [hsplit]; simp)
  have hperm : (shut ++ c.clients.values.map Client.peer).Perm ((registrations before).map Prod.snd) :=
    values_peers c ▸ hstep.closed
  have hcurrent : ∀ peer, peer ∈ c.clients.values.map Client.peer ↔
      ∃ id client, c.clients.get? id = some client ∧ client.peer = peer := by
    intro peer
    rw [List.mem_map]
    constructor
    · rintro ⟨client, hclient, rfl⟩
      obtain ⟨⟨id, _⟩, he, rfl⟩ := List.mem_map.1 hclient
      exact ⟨id, _, Table.get?_eq_some.2 he, rfl⟩
    · rintro ⟨id, client, hclient, rfl⟩
      exact ⟨client, List.mem_map.2 ⟨(id, client), Table.get?_eq_some.1 hclient, rfl⟩, rfl⟩
  refine ⟨fun id => ?_, fun id client hclient => ?_, hstep.stale, hperm, fun hdistinct => ?_⟩
  · rw [← hstep.isSome_iff, get?_peers, Option.isSome_map]
    rfl
  · have hpeer : c.peers.get? id = some client.peer := by rw [get?_peers, hclient]; rfl
    have hlast := hstep.peers id
    rwa [hpeer, if_pos ((hstep.isSome_iff id).1 (by rw [hpeer]; rfl)), eq_comm] at hlast
  · obtain ⟨honce, -, hapart⟩ := List.nodup_append.1 (hperm.nodup_iff.2 hdistinct)
    refine ⟨honce, fun r hr => ?_⟩
    have hwhere := List.mem_append.1 (hperm.mem_iff.2 (List.mem_map_of_mem hr))
    constructor
    · intro hshut id client hclient hpeer
      exact hapart r.2 hshut r.2 ((hcurrent r.2).2 ⟨id, client, hclient, hpeer⟩) rfl
    · intro hnot
      refine hwhere.resolve_right fun hin => ?_
      obtain ⟨id, client, hclient, hpeer⟩ := (hcurrent r.2).1 hin
      exact hnot id client hclient hpeer

/-- Id 1 is registered three times, and the end of its first session is told while its third is there. -/
theorem replacement_stays_thrice :
    let all : Surroundings Nat := ⟨⟨0⟩, fun _ => true⟩
    let is : List (Surroundings Nat × CoordinatorInput Nat) :=
      [(all, .register 1 10), (all, .register 2 20), (all, .register 1 11), (all, .tick 900), (all, .register 1 12),
        (all, .sessionEnded 1), (all, .complete 1 900), (all, .sessionEnded 2)]
    (run new is).1.clients.contains 1 = true ∧ (run new is).1.clients.contains 2 = false ∧
    (run new is).1.clients.values.map Client.peer = [12] ∧ (run new is).1.staleRemovals.get? 1 = some 1 ∧
    (closed (run new is).2).Perm [10, 20, 11] := by
  intro all is
  have hall : ∀ i ∈ is, i.1 = all := by simp [is]
  have htold : ∀ n ≤ is.length, endings 1 (is.take n) ≤ (registered 1 (is.take n)).length ∧
      endings 2 (is.take n) ≤ (registered 2 (is.take n)).length := by
    decide +kernel
  have hends : ∀ before, before <+: is → ∀ id, endings id before ≤ (registered id before).length := by
    intro before hpre id
    obtain ⟨hone, htwo⟩ := htold before.length hpre.length_le
    rw [← List.prefix_iff_eq_take.1 hpre] at hone htwo
    by_cases hid : id ∈ [1, 2]
    · rcases List.mem_pair.1 hid with rfl | rfl
      · exact hone
      · exact htwo
    · have hfew : endings id before ≤ endings id is := by
        unfold endings
        exact (hpre.sublist.filterMap _).count_le id
      have hnever : endings id is = 0 := List.count_eq_zero.2 hid
      exact (hfew.trans_eq hnever).trans (Nat.zero_le _)
  obtain ⟨hregistered, -, hstale, hperm, -⟩ := @replacement_stays Nat is is (by simp [is])
    (fun before s i after hsplit _ _ _ => by
      obtain rfl : s = all := hall (s, i) (hsplit ▸ List.mem_append_right _ List.mem_cons_self)
      rfl) hends (List.prefix_refl is)
  have hcurrent : (run new is).1.clients.values.map Client.peer = [12] := by decide
  refine ⟨(hregistered 1).2 (by decide), ?_, hcurrent, (hstale 1 1).2 (by decide), ?_⟩
  · rw [← Bool.not_eq_true, hregistered 2]
    decide
  · rw [hcurrent] at hperm
    exact (List.perm_append_right_iff [12]).1 hperm

end Coordinator

end MetricSurvey

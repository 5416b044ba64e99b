/-
No ghosts: the sessions of a server leave no client behind.

Whatever the order in which the parts of a server go on, what its sessions tell the coordinator comes session by session:
the registration, which the server tells for the session when it is opened, then what the session reads, and then its end.

- `tells_handle`: what an event makes a session tell; that it has ended, it tells once.
- `SessionsTell`: what each session has told, and has still to tell, is one conversation under its own id.
- `SessionsTell.of_session`: where one session changes or is new, only its own conversation is in question.
- `sessionsTell_run`: so it is after every run of the floor.
- `no_ghost_clients`: so who is registered is there, who has left is gone for good, and nobody is replaced.
-/
import MetricSurvey.Proofs.Connection.Forwarding
import MetricSurvey.Proofs.Server.Delivery
import MetricSurvey.Proofs.Survey.Ghosts

namespace MetricSurvey

open MetricSurvey.CoordinatorInput

/-! ## What a session tells -/

namespace CoordinatorInput

variable {P : Type}

/-- whether a session tells this while it goes on -/
def isNews : CoordinatorInput P → Bool
  | .setTags _ _ | .complete _ _ => true
  | _ => false

/-- all that the session of a client tells, with the end if it has ended -/
def conversation (id : ClientId) (peer : P) (news : List (CoordinatorInput P)) (ended : Bool) : List (CoordinatorInput P) :=
  .register id peer :: news ++ if ended then [.sessionEnded id] else []

variable {id : ClientId} {peer : P} {news : List (CoordinatorInput P)}

theorem isConversation_conversation (hnews : ∀ i ∈ news, i.isNews = true) (ended : Bool) :
    isConversation (conversation id peer news ended) = true := by
  show goesOn (news ++ if ended then [.sessionEnded id] else []) = true
  induction news with
  | nil => cases ended <;> rfl
  | cons i news ih =>
    have hrest := ih fun j hj => hnews j (List.mem_cons_of_mem i hj)
    cases i with
    | setTags id tags => exact hrest
    | complete id time => exact hrest
    | _ => cases hnews _ List.mem_cons_self

theorem session_of_mem_conversation (hnews : ∀ i ∈ news, i.session? = some id) {ended : Bool}
    {i : CoordinatorInput P} (hi : i ∈ conversation id peer news ended) : i.session? = some id := by
  rcases List.mem_append.1 hi with hi | hi
  · rcases List.mem_cons.1 hi with rfl | hi
    · rfl
    · exact hnews i hi
  · cases ended with
    | true =>
      rw [List.mem_singleton.1 hi]
      rfl
    | false => cases hi

end CoordinatorInput

/-- what a session tells the coordinator by an effect -/
def SessionEffect.input? : SessionEffect → Option (CoordinatorInput Nat)
  | .setTags id tags => some (.setTags id tags)
  | .complete id time => some (.complete id time)
  | .ended id => some (.sessionEnded id)
  | _ => none

namespace Session

/-- what a session tells the coordinator, in order -/
def tells (effects : List SessionEffect) : List (CoordinatorInput Nat) := effects.filterMap SessionEffect.input?

/-- what is news of a client's session -/
def NewsOf (id : ClientId) (is : List (CoordinatorInput Nat)) : Prop := ∀ i ∈ is, i.isNews = true ∧ i.session? = some id

theorem tells_eq_nil {effects : List SessionEffect} (h : told effects = []) : tells effects = [] := by
  rw [told, List.filter_eq_nil_iff] at h
  rw [tells, List.filterMap_eq_nil_iff]
  intro e he
  have hnot := h e he
  cases e with
  | sent bytes => rfl
  | _ => exact absurd rfl hnot

theorem newsOf_forwards (id : ClientId) (m : Message) : NewsOf id (tells (forwards id m)) := by
  intro i hi
  cases m with
  | registerProcess tags =>
    rw [List.mem_singleton.1 hi]
    exact ⟨rfl, rfl⟩
  | statsPartial r => cases hempty : r.isEmpty <;> simp [forwards, hempty, tells, SessionEffect.input?] at hi
  | statsComplete r =>
    have hlast : i = .complete id r.time := by
      cases hempty : r.isEmpty <;> simpa [forwards, hempty, tells, SessionEffect.input?, eq_comm] using hi
    rw [hlast]
    exact ⟨rfl, rfl⟩
  | _ => simp [forwards, tells] at hi

/-- **What an input makes a session tell**: news, and that it has ended when it ends. Once ended, it tells nothing. -/
theorem tells_handle (s : Session) (i : Input) : (s.handle i).1.id = s.id ∧
    (s.hasEnded = true → (s.handle i).1.hasEnded = true ∧ tells (s.handle i).2 = []) ∧
    (s.hasEnded = false → ∃ news, NewsOf s.id news ∧
      tells (s.handle i).2 = news ++ if (s.handle i).1.hasEnded then [.sessionEnded s.id] else []) := by
  generalize hs' : (s.handle i).1 = s'
  generalize hout : (s.handle i).2 = out
  have hd := does s i
  rw [hs', hout] at hd
  generalize s.hears i = message? at hd
  generalize s.gets i = bytes at hd
  have hlive : s.isOver = false → s.hasEnded ≠ true := by
    intro hover hended
    rw [hasEnded_of_isOver hover] at hended
    cases hended
  cases hd with
  | nothing h htold =>
    have hquiet := tells_eq_nil htold
    refine ⟨h.id, fun hended => ⟨h.hasEnded.trans hended, hquiet⟩, fun hended => ⟨[], nofun, ?_⟩⟩
    rw [hquiet, h.hasEnded, hended]
    rfl
  | arrival bytes hover =>
    refine ⟨rfl, fun hended => ⟨hended, rfl⟩, fun hended => ⟨[], nofun, ?_⟩⟩
    show [] = [] ++ if s.hasEnded then _ else _
    rw [hended]
    rfl
  | @message s' m rest hover hread hm h =>
    have hgoes : s'.hasEnded = false := h.hasEnded.trans (hasEnded_of_isOver hover)
    refine ⟨h.id, fun hended => absurd hended (hlive hover), fun _ => ⟨_, newsOf_forwards s.id m, ?_⟩⟩
    rw [hgoes]
    exact (List.append_nil _).symm
  | @lastMessage s' m rest hover hread h =>
    refine ⟨h.id, fun hended => absurd hended (hlive hover), fun _ => ⟨_, newsOf_forwards s.id m, ?_⟩⟩
    rw [h.hasEnded]
    exact (List.append_nil _).symm
  | leaving hover h =>
    refine ⟨h.id, fun hended => absurd hended (hlive hover), fun _ => ⟨[], nofun, ?_⟩⟩
    rw [h.hasEnded]
    rfl
  | ending hover hended reason =>
    exact ⟨rfl, fun hended' => absurd hended' (by simp [hended]), fun _ => ⟨[], nofun, rfl⟩⟩

end Session

/-! ## What the sessions of a server tell -/

namespace Server

theorem tellCoordinator_of_present {v : Server} (h : v.presence = .present) (i : CoordinatorInput Nat) :
    v.tellCoordinator i = { v with coordinatorTray := v.coordinatorTray ++ [i] } := by
  rw [tellCoordinator, if_neg (by simp [h])]

theorem foldl_tellCoordinator_of_present {v : Server} (h : v.presence = .present) (is : List (CoordinatorInput Nat)) :
    is.foldl tellCoordinator v = { v with coordinatorTray := v.coordinatorTray ++ is } := by
  induction is generalizing v with
  | nil => rw [List.foldl_nil, List.append_nil]
  | cons i is ih =>
    have hnext : { v with coordinatorTray := v.coordinatorTray ++ [i] }.presence = .present := h
    rw [List.foldl_cons, tellCoordinator_of_present h, ih hnext, List.append_assoc]
    rfl

theorem fireTimers_of_present {v : Server} (h : v.presence = .present) (by_ : Duration) :
    v.fireTimers by_ = { v with
      timers := (v.timers.advance by_).1
      coordinatorTray := v.coordinatorTray ++ (v.timers.advance by_).2.map .timeout } := by
  have hfold := foldl_tellCoordinator_of_present (v := { v with timers := (v.timers.advance by_).1 }) h
    ((v.timers.advance by_).2.map .timeout)
  rw [List.foldl_map] at hfold
  exact hfold

/-- what a session does to others puts into the coordinator's tray what it tells -/
theorem carry_of_present {v : Server} (h : v.presence = .present) (e : SessionEffect) :
    ∃ tray, v.carry e = { v with
      aggregatorTray := tray
      coordinatorTray := v.coordinatorTray ++ e.input?.toList } := by
  cases e with
  | setTags id tags => exact ⟨v.aggregatorTray, tellCoordinator_of_present h _⟩
  | complete id time => exact ⟨v.aggregatorTray, tellCoordinator_of_present h _⟩
  | ended id => exact ⟨v.aggregatorTray, tellCoordinator_of_present h _⟩
  | fragment r =>
    have hnone : v.coordinatorTray ++ (SessionEffect.fragment r).input?.toList = v.coordinatorTray := List.append_nil _
    rw [hnone]
    show ∃ tray, v.tellAggregator (.fragment r) = _
    unfold tellAggregator
    split
    · exact ⟨_, rfl⟩
    · exact ⟨v.aggregatorTray, rfl⟩
  | sent bytes =>
    have hnone : v.coordinatorTray ++ (SessionEffect.sent bytes).input?.toList = v.coordinatorTray := List.append_nil _
    rw [hnone]
    exact ⟨v.aggregatorTray, rfl⟩

theorem sessions_carry (v : Server) (e : SessionEffect) : (v.carry e).sessions = v.sessions := by
  cases e with
  | fragment r =>
    show (v.tellAggregator (.fragment r)).sessions = _
    unfold tellAggregator
    split <;> rfl
  | sent bytes => rfl
  | setTags id tags =>
    obtain ⟨tray, htray⟩ := tellCoordinator_eq v (.setTags id tags)
    rw [carry, htray]
  | complete id time =>
    obtain ⟨tray, htray⟩ := tellCoordinator_eq v (.complete id time)
    rw [carry, htray]
  | ended id =>
    obtain ⟨tray, htray⟩ := tellCoordinator_eq v (.sessionEnded id)
    rw [carry, htray]

/-- what others notice of a session: its id, and whether it has ended -/
def face (s : Session) : ClientId × Bool := (s.id, s.hasEnded)

theorem map_face_modify {sessions : List Session} {i : Nat} {g : Session → Session} (hg : ∀ s, face (g s) = face s) :
    (sessions.modify i g).map face = sessions.map face := by
  refine List.ext_getElem? fun j => ?_
  rw [List.getElem?_map, List.getElem?_map, List.getElem?_modify]
  split
  · cases sessions[j]? with
    | none => rfl
    | some s => exact congrArg some (hg s)
  · cases sessions[j]? <;> rfl

theorem face_send (m : Message) (s : Session) : face (s.send m).1 = face s := by
  unfold Session.send
  split_ifs <;> rfl

/-- what the coordinator does to others leaves its own tray alone, and no session's face changes -/
theorem execute_eq (v : Server) (e : CoordinatorEffect Nat) :
    (v.execute e).presence = v.presence ∧ (v.execute e).nextId = v.nextId ∧
      (v.execute e).coordinatorTray = v.coordinatorTray ∧ (v.execute e).sessions.map face = v.sessions.map face := by
  cases e with
  | tell e =>
    show (v.tellAggregator e).presence = _ ∧ _
    unfold execute tellAggregator
    split <;> exact ⟨rfl, rfl, rfl, rfl⟩
  | request i time => exact ⟨rfl, rfl, rfl, map_face_modify (face_send (.reportAll time))⟩
  | close i => exact ⟨rfl, rfl, rfl, map_face_modify fun _ => rfl⟩
  | armTimeout time => exact ⟨rfl, rfl, rfl, rfl⟩

end Server

/-- a move of a server whose sessions all have ids of their own, and whose coordinator hears of them by nobody else -/
def Move.ofServer : Move → Bool
  | .connect _ id _ => id.isNone
  | .tell i => i.session?.isNone
  | _ => true

namespace Floor

open MetricSurvey.Session MetricSurvey.Server

/-- what the coordinator was told: what it has handled, and what lies in its tray -/
def told (f : Floor) : List (CoordinatorInput Nat) := f.taken.map Prod.snd ++ f.server.coordinatorTray

/-- What each session has told, and has still to tell, is one conversation under an id of its own. -/
structure SessionsTell (f : Floor) : Prop where
  present : f.server.presence = .present
  nextId : f.server.nextId = UInt64.ofNat (f.server.sessions.length + 1)
  ids : ∀ i s, f.server.sessions[i]? = some s → s.id = UInt64.ofNat (i + 1)
  /-- nothing is due from a session that there is not -/
  idle : ∀ i, f.server.sessions.length ≤ i → f.sessionDue i = []
  conversation : ∀ i s, f.server.sessions[i]? = some s → ∃ news, NewsOf s.id news ∧
    ofSession s.id f.told ++ tells (f.sessionDue i) = CoordinatorInput.conversation s.id i news s.hasEnded
  nobodyElse : ∀ id, (∀ s ∈ f.server.sessions, s.id ≠ id) → ofSession id f.told = []

theorem sessionsTell_new (clock : Reading) (patience : Duration) : SessionsTell (new clock patience) where
  present := rfl
  nextId := rfl
  ids i s h := by simp [new, Server.new] at h
  idle i _ := rfl
  conversation i s h := by simp [new, Server.new] at h
  nobodyElse id _ := rfl

theorem length_sessions_connect (f : Floor) (now : Duration) (id : Option ClientId) (limits : SessionLimits) :
    (f.step (.connect now id limits)).server.sessions.length = f.server.sessions.length + 1 := by
  cases id with
  | none =>
    obtain ⟨tray, htray⟩ := tellCoordinator_eq { f.server with
      nextId := f.server.nextId + 1
      sessions := f.server.sessions ++ [((Session.new f.server.nextId limits).react now .start).1] }
      (.register f.server.nextId f.server.sessions.length)
    simp only [step, openFresh, openAs, htray, List.length_append, List.length_singleton]
  | some id =>
    obtain ⟨tray, htray⟩ := tellCoordinator_eq { f.server with
      sessions := f.server.sessions ++ [((Session.new id limits).react now .start).1] }
      (.register id f.server.sessions.length)
    simp only [step, openAs, htray, List.length_append, List.length_singleton]

/-- no session is ever forgotten -/
theorem length_sessions_le_step (f : Floor) (m : Move) :
    f.server.sessions.length ≤ (f.step m).server.sessions.length := by
  cases m with
  | connect now id limits =>
    rw [length_sessions_connect]
    exact Nat.le_succ _
  | react i now e =>
    simp only [step]
    split
    · exact (List.length_set ..).ge
    · exact le_refl _
  | carry i =>
    simp only [step]
    split
    · rw [sessions_carry]
    · exact le_refl _
  | tick accepts time =>
    simp only [step]
    split_ifs <;> exact le_refl _
  | coordinate accepts =>
    simp only [step]
    split <;> exact le_refl _
  | execute =>
    simp only [step]
    split
    · rename_i e rest hdue
      have hfaces := congrArg List.length (execute_eq f.server e).2.2.2
      rw [List.length_map, List.length_map] at hfaces
      exact hfaces.ge
    · exact le_refl _
  | aggregate =>
    simp only [step]
    split
    · exact le_refl _
    · rename_i e rest htray
      rw [aggregatorStep, htray]
  | fire by_ =>
    obtain ⟨timers, tray, htray⟩ := fireTimers_eq f.server by_
    simp only [step, htray, le_refl]
  | tell i =>
    obtain ⟨tray, htray⟩ := tellCoordinator_eq f.server i
    simp only [step, htray, le_refl]
  | clock r => exact le_refl _

namespace SessionsTell

variable {f f' : Floor}

/-- nothing changes for what sessions tell if their faces, what is due, and what was told by them stay as they are -/
theorem congr (h : SessionsTell f) (hpresent : f'.server.presence = f.server.presence)
    (hnext : f'.server.nextId = f.server.nextId) (hfaces : f'.server.sessions.map face = f.server.sessions.map face)
    (hdue : f'.sessionDue = f.sessionDue) (htold : ∀ id, ofSession id f'.told = ofSession id f.told) :
    SessionsTell f' := by
  have hlength : f'.server.sessions.length = f.server.sessions.length := by
    have := congrArg List.length hfaces
    rwa [List.length_map, List.length_map] at this
  have hback : ∀ (i : Nat) (s' : Session), f'.server.sessions[i]? = some s' →
      ∃ s, f.server.sessions[i]? = some s ∧ s.id = s'.id ∧ s.hasEnded = s'.hasEnded := by
    intro i s' hs'
    have hi := congrArg (fun l => l[i]?) hfaces
    simp only [List.getElem?_map, hs', Option.map_some] at hi
    obtain ⟨s, hs, hface⟩ := Option.map_eq_some_iff.1 hi.symm
    exact ⟨s, hs, congrArg Prod.fst hface, congrArg Prod.snd hface⟩
  constructor
  · exact hpresent.trans h.present
  · rw [hnext, h.nextId, hlength]
  · intro i s' hs'
    obtain ⟨s, hs, hid, -⟩ := hback i s' hs'
    rw [← hid]
    exact h.ids i s hs
  · intro i hi
    rw [hdue]
    exact h.idle i (hlength ▸ hi)
  · intro i s' hs'
    obtain ⟨s, hs, hid, hended⟩ := hback i s' hs'
    rw [← hid, ← hended, htold, hdue]
    exact h.conversation i s hs
  · intro id hid
    rw [htold]
    refine h.nobodyElse _ fun s hs => ?_
    have hmem : face s ∈ f'.server.sessions.map face := hfaces ▸ List.mem_map_of_mem hs
    obtain ⟨s', hs', hface⟩ := List.mem_map.1 hmem
    rw [← show s'.id = s.id from congrArg Prod.fst hface]
    exact hid s' hs'

/-- what is told by nobody's session, wherever it stands, is no session's -/
theorem ofSession_middle (id : ClientId) (before : List (CoordinatorInput Nat)) {mid : List (CoordinatorInput Nat)}
    (hmid : ∀ i ∈ mid, i.session? = none) (after : List (CoordinatorInput Nat)) :
    ofSession id (before ++ mid ++ after) = ofSession id (before ++ after) := by
  have hnone : ofSession id mid = [] := ofSession_eq_nil fun i hi => by simp [hmid i hi]
  rw [ofSession_append, ofSession_append, ofSession_append, hnone, List.append_nil]

/-- what is put into the tray, behind all that was told -/
theorem ofSession_told_append (f : Floor) (id : ClientId) (is : List (CoordinatorInput Nat)) :
    ofSession id (f.taken.map Prod.snd ++ (f.server.coordinatorTray ++ is)) =
      ofSession id f.told ++ ofSession id is := by
  rw [← List.append_assoc, ofSession_append]
  rfl

/-- what is put into the tray by nobody's session changes nothing for what sessions tell -/
theorem ofSession_told_of_nobody (f : Floor) (id : ClientId) {is : List (CoordinatorInput Nat)}
    (his : ∀ i ∈ is, i.session? = none) :
    ofSession id (f.taken.map Prod.snd ++ (f.server.coordinatorTray ++ is)) = ofSession id f.told := by
  have hnone : ofSession id is = [] := ofSession_eq_nil fun i hi => by simp [his i hi]
  rw [ofSession_told_append, hnone, List.append_nil]

/-- what one session tells is told by no other -/
theorem ofSession_own {own id : ClientId} {added : List (CoordinatorInput Nat)}
    (hown : ∀ x ∈ added, x.session? = some own) : ofSession id added = if id = own then added else [] := by
  split_ifs with hid
  · rw [ofSession, List.filter_eq_self]
    intro x hx
    simp [hown x hx, hid]
  · refine ofSession_eq_nil fun x hx => ?_
    rw [hown x hx]
    exact fun heq => hid (Option.some.inj heq).symm

/-- ids do not repeat before they run out -/
theorem ofNat_ne {m n : Nat} (hm : m < 2 ^ 64) (hn : n < 2 ^ 64) (hmn : m ≠ n) : UInt64.ofNat m ≠ UInt64.ofNat n := by
  intro heq
  have hnat := congrArg UInt64.toNat heq
  rw [UInt64.toNat_ofNat', UInt64.toNat_ofNat', Nat.mod_eq_of_lt hm, Nat.mod_eq_of_lt hn] at hnat
  exact hmn hnat

/-- One session changes or is new, and something is told by it: then only its own conversation is in question. -/
theorem of_session (h : SessionsTell f) {i : Nat} {s : Session} (added : List (CoordinatorInput Nat))
    (hpresent : f'.server.presence = .present) (hfew : f'.server.sessions.length < 2 ^ 64)
    (hnext : f'.server.nextId = UInt64.ofNat (f'.server.sessions.length + 1))
    (hs : f'.server.sessions[i]? = some s) (hid : s.id = UInt64.ofNat (i + 1))
    (hothers : ∀ j, j ≠ i → f'.server.sessions[j]? = f.server.sessions[j]? ∧ f'.sessionDue j = f.sessionDue j)
    (htold : ∀ id, ofSession id f'.told = ofSession id f.told ++ ofSession id added)
    (hown : ∀ x ∈ added, x.session? = some s.id)
    (hsaid : ∃ news, NewsOf s.id news ∧ ofSession s.id f.told ++ added ++ tells (f'.sessionDue i) =
      CoordinatorInput.conversation s.id i news s.hasEnded) : SessionsTell f' := by
  have hlt : ∀ {j : Nat} {s' : Session}, f'.server.sessions[j]? = some s' → j < f'.server.sessions.length :=
    fun hs' => (List.getElem?_eq_some_iff.1 hs').1
  constructor
  · exact hpresent
  · exact hnext
  · intro j s' hs'
    by_cases hj : j = i
    · subst hj
      obtain rfl : s = s' := Option.some.inj (hs.symm.trans hs')
      exact hid
    · exact h.ids j s' ((hothers j hj).1 ▸ hs')
  · intro j hj
    have hji : j ≠ i := fun heq => absurd (hlt hs) (Nat.not_lt.2 (heq ▸ hj))
    rw [(hothers j hji).2]
    refine h.idle j (List.getElem?_eq_none_iff.1 ?_)
    rw [← (hothers j hji).1]
    exact List.getElem?_eq_none hj
  · intro j s' hs'
    by_cases hj : j = i
    · subst hj
      obtain rfl : s = s' := Option.some.inj (hs.symm.trans hs')
      rw [htold, ofSession_own hown, if_pos rfl]
      exact hsaid
    · have hold : f.server.sessions[j]? = some s' := (hothers j hj).1 ▸ hs'
      have hne : s'.id ≠ s.id := by
        rw [h.ids j s' hold, hid]
        exact ofNat_ne (Nat.lt_of_le_of_lt (hlt hs') hfew) (Nat.lt_of_le_of_lt (hlt hs) hfew) (by omega)
      rw [htold, ofSession_own hown, if_neg hne, List.append_nil, (hothers j hj).2]
      exact h.conversation j s' hold
  · intro id hnobody
    have hne : id ≠ s.id := fun heq => hnobody s (List.mem_of_getElem? hs) heq.symm
    rw [htold, ofSession_own hown, if_neg hne, List.append_nil]
    refine h.nobodyElse id fun s' hs' => ?_
    obtain ⟨j, hj⟩ := List.mem_iff_getElem?.1 hs'
    by_cases hji : j = i
    · subst hji
      rw [h.ids j s' hj, ← hid]
      exact hne.symm
    · exact hnobody s' (List.mem_of_getElem? ((hothers j hji).1.trans hj))

/-- nothing was told yet under the next id -/
theorem ofSession_nextId (h : SessionsTell f) (hfew : f.server.sessions.length + 1 < 2 ^ 64) :
    ofSession f.server.nextId f.told = [] := by
  refine h.nobodyElse _ fun s hs => ?_
  obtain ⟨i, hi⟩ := List.mem_iff_getElem?.1 hs
  obtain ⟨hlt, -⟩ := List.getElem?_eq_some_iff.1 hi
  rw [h.ids i s hi, h.nextId]
  exact ofNat_ne (by omega) hfew (by omega)

/-- a session is opened under a fresh id -/
theorem connect (h : SessionsTell f) (hfew : f.server.sessions.length + 1 < 2 ^ 64) (now : Duration)
    (limits : SessionLimits) : SessionsTell (f.step (.connect now none limits)) := by
  let s : Session := ((Session.new f.server.nextId limits).react now .start).1
  have hstep : f.step (.connect now none limits) = { f with server := { f.server with
      nextId := f.server.nextId + 1
      sessions := f.server.sessions ++ [s]
      coordinatorTray := f.server.coordinatorTray ++ [.register f.server.nextId f.server.sessions.length] } } := by
    have htell := tellCoordinator_of_present (v := { f.server with
      nextId := f.server.nextId + 1, sessions := f.server.sessions ++ [s] }) h.present
        (.register f.server.nextId f.server.sessions.length)
    simp only [step, openFresh, openAs]
    rw [htell]
  have hlength := length_sessions_connect f now none limits
  rw [hstep] at hlength ⊢
  refine h.of_session (i := f.server.sessions.length) (s := s) [.register f.server.nextId f.server.sessions.length]
    h.present (hlength ▸ hfew) ?_ List.getElem?_concat_length h.nextId ?_ ?_ ?_ ?_
  · rw [hlength, UInt64.ofNat_add]
    show f.server.nextId + 1 = _
    rw [h.nextId]
    rfl
  · intro j hj
    refine ⟨?_, rfl⟩
    show (f.server.sessions ++ [s])[j]? = _
    rcases Nat.lt_or_gt_of_ne hj with hlt | hgt
    · exact List.getElem?_append_left hlt
    · rw [List.getElem?_eq_none (by simpa using hgt), List.getElem?_eq_none hgt.le]
  · exact fun id => ofSession_told_append f id _
  · intro x hx
    rw [List.mem_singleton.1 hx]
    rfl
  · refine ⟨[], fun j hj => absurd hj List.not_mem_nil, ?_⟩
    show ofSession f.server.nextId f.told ++ _ ++ tells (f.sessionDue f.server.sessions.length) = _
    rw [h.ofSession_nextId hfew, h.idle _ (le_refl _)]
    rfl

/-- a session handles an event, and what it tells of that is due -/
theorem react (h : SessionsTell f) (hfew : f.server.sessions.length < 2 ^ 64) {i : Nat} {s : Session}
    (hs : f.server.sessions[i]? = some s) (hdue : f.sessionDue i = []) (now : Duration) (e : SessionEvent) :
    SessionsTell { f with
      server := { f.server with sessions := f.server.sessions.set i (s.react now e).1 }
      sessionDue := Function.update f.sessionDue i (s.react now e).2 } := by
  obtain ⟨hid, hover, hlive⟩ := tells_handle s (.event now e)
  change (s.react now e).1.id = s.id at hid
  change s.hasEnded = true → (s.react now e).1.hasEnded = true ∧ tells (s.react now e).2 = [] at hover
  change s.hasEnded = false → ∃ news, NewsOf s.id news ∧
    tells (s.react now e).2 = news ++ if (s.react now e).1.hasEnded then [.sessionEnded s.id] else [] at hlive
  generalize (s.react now e).1 = s' at hid hover hlive ⊢
  generalize (s.react now e).2 = out at hid hover hlive ⊢
  obtain ⟨hlt, -⟩ := List.getElem?_eq_some_iff.1 hs
  have hlength : (f.server.sessions.set i s').length = f.server.sessions.length := List.length_set
  refine h.of_session (i := i) (s := s') [] h.present (hlength ▸ hfew) (hlength ▸ h.nextId)
    (List.getElem?_set_self hlt) (hid ▸ h.ids i s hs) ?_ (fun id => (List.append_nil _).symm) nofun ?_
  · intro j hj
    exact ⟨List.getElem?_set_ne (Ne.symm hj), Function.update_of_ne hj _ _⟩
  · obtain ⟨news, hnews, hsaid⟩ := h.conversation i s hs
    rw [hdue, show tells [] = [] from rfl, List.append_nil] at hsaid
    show ∃ news, NewsOf s'.id news ∧ _ ++ [] ++ tells (Function.update f.sessionDue i out i) = _
    rw [Function.update_self, List.append_nil, hid, hsaid]
    cases hended : s.hasEnded with
    | true =>
      obtain ⟨hended', hsilent⟩ := hover hended
      exact ⟨news, hnews, by rw [hsilent, hended', List.append_nil]⟩
    | false =>
      obtain ⟨more, hmore, htells⟩ := hlive hended
      refine ⟨news ++ more, List.forall_mem_append.2 ⟨hnews, hmore⟩, ?_⟩
      rw [htells]
      simp [CoordinatorInput.conversation]

/-- what a session tells by what is due first, and by the rest -/
theorem tells_cons (e : SessionEffect) (rest : List SessionEffect) :
    tells (e :: rest) = e.input?.toList ++ tells rest := by
  unfold tells
  rw [List.filterMap_cons]
  cases e.input? <;> rfl

/-- a session does what is due first, and has told what it is to tell by that -/
theorem carry (h : SessionsTell f) (hfew : f.server.sessions.length < 2 ^ 64) (i : Nat) :
    SessionsTell (f.step (.carry i)) := by
  simp only [step]
  split
  · rename_i e rest hdue
    obtain ⟨tray, htray⟩ := carry_of_present h.present e
    rw [htray]
    have hlt : i < f.server.sessions.length := by
      by_contra hge
      rw [h.idle i (Nat.not_lt.1 hge)] at hdue
      cases hdue
    have hs := List.getElem?_eq_getElem hlt
    generalize f.server.sessions[i] = s at hs
    obtain ⟨news, hnews, hsaid⟩ := h.conversation i s hs
    rw [hdue, tells_cons, ← List.append_assoc] at hsaid
    refine h.of_session (i := i) (s := s) e.input?.toList h.present hfew h.nextId hs (h.ids i s hs) ?_
      (fun id => ofSession_told_append f id _) ?_ ?_
    · intro j hj
      exact ⟨rfl, Function.update_of_ne hj _ _⟩
    · -- what is told is part of this session's conversation
      intro x hx
      have hmem : x ∈ CoordinatorInput.conversation s.id i news s.hasEnded := by
        rw [← hsaid]
        exact List.mem_append_left _ (List.mem_append_right _ hx)
      exact session_of_mem_conversation (fun j hj => (hnews j hj).2) hmem
    · refine ⟨news, hnews, ?_⟩
      show _ ++ _ ++ tells (Function.update f.sessionDue i rest i) = _
      rw [Function.update_self]
      exact hsaid
  · exact h

/-- whatever the coordinator handles of its tray, it was told before -/
theorem coordinate (h : SessionsTell f) (accepts : Nat → Bool) : SessionsTell (f.step (.coordinate accepts)) := by
  simp only [step]
  split
  · rename_i i rest hdue htray
    refine h.congr rfl rfl rfl rfl fun id => congrArg (ofSession id) ?_
    show (f.taken ++ [_]).map Prod.snd ++ rest = f.taken.map Prod.snd ++ f.server.coordinatorTray
    rw [List.map_append, List.append_assoc, htray]
    rfl
  · exact h

/-- **Whatever happens on the floor, each session tells one conversation.** -/
theorem step (h : SessionsTell f) {m : Move} (hm : m.ofServer = true)
    (hfew : (f.step m).server.sessions.length < 2 ^ 64) : SessionsTell (f.step m) := by
  cases m with
  | connect now id limits =>
    obtain rfl : id = none := Option.isNone_iff_eq_none.1 hm
    refine h.connect ?_ now limits
    rw [← length_sessions_connect f now none limits]
    exact hfew
  | react i now e =>
    simp only [Floor.step]
    split
    · rename_i s hdue hs
      exact h.react ((length_sessions_le_step f (.react i now e)).trans_lt hfew) hs hdue now e
    · exact h
  | carry i =>
    exact h.carry ((length_sessions_le_step f (.carry i)).trans_lt hfew) i
  | tick accepts time =>
    simp only [Floor.step]
    split_ifs
    · refine h.congr rfl rfl rfl rfl fun id => ?_
      show ofSession id ((f.taken ++ [_]).map Prod.snd ++ f.server.coordinatorTray) = _
      rw [List.map_append]
      exact ofSession_middle id _ (fun i hi => by rw [List.mem_singleton.1 hi]; rfl) _
    · exact h
  | coordinate accepts => exact h.coordinate accepts
  | execute =>
    simp only [Floor.step]
    split
    · rename_i e rest hdue
      obtain ⟨hpresent, hnext, htray, hfaces⟩ := execute_eq f.server e
      refine h.congr hpresent hnext hfaces rfl fun id => ?_
      show ofSession id (f.taken.map Prod.snd ++ (f.server.execute e).coordinatorTray) = _
      rw [htray]
      rfl
    · exact h
  | aggregate =>
    simp only [Floor.step]
    split
    · exact h
    · rename_i e rest htray
      rw [aggregatorStep, htray]
      exact h.congr rfl rfl rfl rfl fun _ => rfl
  | fire by_ =>
    simp only [Floor.step]
    rw [fireTimers_of_present h.present]
    refine h.congr rfl rfl rfl rfl fun id => ?_
    refine ofSession_told_of_nobody f id fun i hi => ?_
    obtain ⟨time, -, rfl⟩ := List.mem_map.1 hi
    rfl
  | tell i =>
    simp only [Floor.step]
    rw [tellCoordinator_of_present h.present]
    refine h.congr rfl rfl rfl rfl fun id => ?_
    refine ofSession_told_of_nobody f id fun j hj => ?_
    rw [List.mem_singleton.1 hj]
    exact Option.isNone_iff_eq_none.1 hm
  | clock r => exact h.congr rfl rfl rfl rfl fun _ => rfl

/-- so all that the coordinator was told is what sessions tell -/
theorem fromSessions (h : SessionsTell f) : FromSessions f.told := by
  intro id
  by_cases hid : ∃ s ∈ f.server.sessions, s.id = id
  · obtain ⟨s, hmem, rfl⟩ := hid
    obtain ⟨i, hs⟩ := List.mem_iff_getElem?.1 hmem
    obtain ⟨news, hnews, hsaid⟩ := h.conversation i s hs
    have hwhole : isConversation (ofSession s.id f.told ++ tells (f.sessionDue i)) = true :=
      hsaid ▸ isConversation_conversation (fun j hj => (hnews j hj).1) s.hasEnded
    exact isConversation_of_append hwhole
  · rw [h.nobodyElse id fun s hs heq => hid ⟨s, hs, heq⟩]
    rfl

end SessionsTell

/-- **Each session of a server tells one conversation**, whatever the order of the moves, as long as ids do not run out. -/
theorem sessionsTell_run (clock : Reading) (patience : Duration) {ms : List Move} (hms : ∀ m ∈ ms, m.ofServer = true)
    (hfew : ((new clock patience).run ms).server.sessions.length < 2 ^ 64) :
    SessionsTell ((new clock patience).run ms) := by
  induction ms using List.reverseRecOn with
  | nil => exact sessionsTell_new clock patience
  | append_singleton ms m ih =>
    rw [run_append] at hfew ⊢
    refine (ih (fun n hn => hms n (List.mem_append_left _ hn)) ?_).step (hms m (by simp)) hfew
    exact (length_sessions_le_step _ m).trans_lt hfew

/-- **No ghost clients.** Take any run of what sessions tell, each under an id of its own and in any order between them,
with any ticks, timeouts and refused requests in between.
- No end of a replaced session is ever expected.
- Who is registered was registered, and its session has not ended.
- Once the end of a client's session is handled, or a request to the client is not taken, the client is not registered and
  no open survey waits for it, at every later point, whatever else of its session is handled.

What the sessions of a server tell its coordinator is such a run, whatever the order in which its parts go on. -/
theorem no_ghost_clients :
    (∀ {P : Type} (is : List (Surroundings P × CoordinatorInput P)), FromSessions (is.map Prod.snd) →
      (Coordinator.run .new is).1.staleRemovals = ∅ ∧
      (∀ id, (Coordinator.run .new is).1.clients.contains id = true →
        (∃ peer, .register id peer ∈ is.map Prod.snd) ∧ .sessionEnded id ∉ is.map Prod.snd) ∧
      ∀ before s i after id, is = before ++ (s, i) :: after →
        (i = .sessionEnded id ∨ ∃ client time, (Coordinator.run .new before).1.clients.get? id = some client ∧
          .request client.peer time ∈ (Coordinator.step s (Coordinator.run .new before).1 i).2 ∧
          s.accepts client.peer = false) →
        (Coordinator.run .new is).1.clients.contains id = false ∧
          ∀ time sv, (Coordinator.run .new is).1.book.get? time = some sv → sv.owes id = false) ∧
    ∀ clock patience (ms : List Move), (∀ m ∈ ms, m.ofServer = true) →
      let f := (new clock patience).run ms
      f.server.sessions.length < 2 ^ 64 →
      FromSessions (f.taken.map Prod.snd) ∧ f.server.coordinator = (Coordinator.run .new f.taken).1 := by
  constructor
  · intro P is hfrom
    have horderly := Coordinator.orderly_run hfrom
    refine ⟨horderly.noneStale, horderly.live, ?_⟩
    rintro before s i after id rfl hleft
    have habsent : (Coordinator.run .new (before ++ (s, i) :: after)).1.Absent id := by
      refine Coordinator.absent_after_leaving hfrom ?_
      rcases hleft with hend | ⟨client, time, hclient, hrequest, hrefuses⟩
      · exact Or.inl hend
      · have hopens := Coordinator.opens_of_request_mem hrequest
        obtain ⟨rfl, -, -⟩ := Coordinator.opens_eq_some.1 hopens
        refine Or.inr ⟨by rw [Table.contains_eq_isSome, hclient]; rfl, ?_⟩
        simp only [Coordinator.dropped, hopens, Option.isSome_some, if_true]
        exact Coordinator.mem_refusing.2 ⟨client, hclient, hrefuses⟩
    exact ⟨habsent.unregistered, habsent.owesNothing⟩
  · intro clock patience ms hms f hfew
    have htell := sessionsTell_run clock patience hms hfew
    exact ⟨htell.fromSessions.of_append, (sound_run (sound_new clock patience) ms).coordinator⟩

/-- Client 2 does not take the second request, and is dropped while its tags, its answer to the first and its end are still
to be handled; two surveys wait for it then. On a floor, two sessions are opened and one of them ends by itself. -/
theorem no_ghost_clients_late :
    let all : Surroundings Nat := ⟨⟨0⟩, fun _ => true⟩
    let firstOnly : Surroundings Nat := ⟨⟨5⟩, fun peer => decide (peer = 10)⟩
    let before : List (Surroundings Nat × CoordinatorInput Nat) :=
      [(all, .register 1 10), (all, .register 2 20), (all, .tick 960)]
    let after : List (Surroundings Nat × CoordinatorInput Nat) :=
      [(all, .setTags 2 ∅), (all, .complete 2 960), (all, .tick 980), (all, .sessionEnded 2)]
    let is := before ++ (firstOnly, .tick 970) :: after
    let ms : List Move := [.connect .zero none {}, .connect .zero none {}, .coordinate fun _ => true, .coordinate fun _ => true,
      .react 1 .zero .readFailure, .react 1 .zero .shut, .carry 1, .coordinate fun _ => true, .execute,
      .tick (fun _ => true) 1000]
    let f := (new ⟨1000000⟩ (.ofSecs 5)).run ms
    FromSessions (is.map Prod.snd) ∧
    (Coordinator.run .new is).1.staleRemovals = ∅ ∧ (Coordinator.run .new is).1.clients.contains 2 = false ∧
    (Coordinator.run .new is).1.book.openTimes = [960, 970, 980] ∧
    (∀ time sv, (Coordinator.run .new is).1.book.get? time = some sv → sv.owes 2 = false) ∧
    f.taken.length = 4 ∧ FromSessions (f.taken.map Prod.snd) ∧ f.server.coordinator.clients.keys = [1] := by
  intro all firstOnly before after is ms f
  have hfrom : FromSessions (is.map Prod.snd) := by decide
  obtain ⟨hrun, hfloor⟩ := no_ghost_clients
  obtain ⟨hstale, -, hgone⟩ := hrun is hfrom
  have hrequest : .request 20 970 ∈ (Coordinator.step firstOnly (Coordinator.run .new before).1 (.tick 970)).2 := by
    have hopens : (Coordinator.run .new before).1.opens (.tick 970) = some 970 := by decide
    have hasked : (2, ⟨20, ∅⟩) ∈ (Coordinator.run .new before).1.clients.toList := by decide
    rw [Coordinator.step, Coordinator.tick_of_opens hopens]
    refine List.mem_append_right _ (List.mem_cons_of_mem _ (List.mem_append_left _ (List.mem_append_left _ ?_)))
    exact List.mem_map_of_mem hasked
  obtain ⟨hclient, howes⟩ := hgone before firstOnly (.tick 970) after 2 rfl
    (Or.inr ⟨⟨20, ∅⟩, 970, by decide, hrequest, rfl⟩)
  exact ⟨hfrom, hstale, hclient, by decide, howes, by decide, (hfloor _ _ ms (by decide) (by decide)).1, by decide⟩

end Floor

end MetricSurvey

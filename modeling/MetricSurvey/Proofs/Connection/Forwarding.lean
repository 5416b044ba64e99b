/-
Forwarding: what a session tells the coordinator and the aggregator, in whatever order things happen to it.

- `does`: what one input can do to a session, as far as others notice.
- `Faithful.handle`, `faithful`: the history of a session is faithful to what was read, after every input.
- `ends`: a session that has begun to end does end, at its deadline at the latest, and says so.
- `forwards_what_it_hears`: what is told is what was read, in order, and then the end, once; the state only moves on.
-/
import MetricSurvey.Connection.Duplex
import MetricSurvey.Proofs.Runs
import MetricSurvey.Proofs.Wire.Chunks
import MetricSurvey.Proofs.Wire.Stream

namespace MetricSurvey

/-! ## Readouts -/

namespace Stream.Readout

/-- put messages in front -/
def prepend (ms : List Message) (r : Readout) : Readout := ⟨ms ++ r.messages, r.ending⟩

theorem prepend_after (ms : List Message) (m : Message) (r : Readout) :
    prepend ms (after m r) = prepend (ms ++ [m]) r := by
  simp [prepend, after]

theorem andThen_prepend (ms : List Message) (r : Readout) (next : Bytes → Readout) :
    (prepend ms r).andThen next = prepend ms (r.andThen next) := by
  obtain ⟨messages, ending⟩ := r
  cases ending <;> simp [prepend, andThen]

end Stream.Readout

open MetricSurvey.Stream MetricSurvey.Stream.Readout

/-- how far a session has come -/
def SessionState.stage : SessionState → Nat
  | .connected => 0
  | .registered => 1
  | .closed => 2

/-! ## Effects on others -/

namespace SessionEffect

/-- whether this is told to the coordinator or to the aggregator, and not the peer -/
def isTold : SessionEffect → Bool
  | .sent _ => false
  | _ => true

/-- whether this is told to the coordinator -/
def isForCoordinator : SessionEffect → Bool
  | .setTags _ _ | .complete _ _ | .ended _ => true
  | _ => false

/-- the data that is handed to the aggregator -/
def fragment? : SessionEffect → Option (Report Binary64)
  | .fragment r => some r
  | _ => none

end SessionEffect

namespace Message

/-- the data that a message of a client holds -/
def report? : Message → Option (Report Binary64)
  | .statsPartial r | .statsComplete r => some r
  | _ => none

/-- what the coordinator is told of a message of this client -/
def notice? (id : ClientId) : Message → Option SessionEffect
  | .registerProcess tags => some (.setTags id tags)
  | .statsComplete r => some (.complete id r.time)
  | _ => none

def isRegistration : Message → Bool
  | .registerProcess _ => true
  | _ => false

end Message

namespace Session

/-- what is told to the coordinator and to the aggregator, in order -/
def told (effects : List SessionEffect) : List SessionEffect := effects.filter SessionEffect.isTold

@[simp] theorem told_append (es es' : List SessionEffect) : told (es ++ es') = told es ++ told es' :=
  List.filter_append es es'

/-- what a session passes on of a message: data that is not empty, and then that it was the last -/
def forwards (id : ClientId) : Message → List SessionEffect
  | .registerProcess tags => [.setTags id tags]
  | .statsPartial r => if r.isEmpty then [] else [.fragment r]
  | .statsComplete r => if r.isEmpty then [.complete id r.time] else [.fragment r, .complete id r.time]
  | _ => []

theorem told_forwards (id : ClientId) (m : Message) : told (forwards id m) = forwards id m := by
  cases m with
  | statsPartial r => cases hempty : r.isEmpty <;> simp [forwards, hempty, told, SessionEffect.isTold]
  | statsComplete r => cases hempty : r.isEmpty <;> simp [forwards, hempty, told, SessionEffect.isTold]
  | _ => rfl

theorem notices_told (effects : List SessionEffect) :
    (told effects).filter SessionEffect.isForCoordinator = effects.filter SessionEffect.isForCoordinator := by
  unfold told
  rw [List.filter_filter]
  congr 1
  funext e
  cases e <;> rfl

theorem fragments_told (effects : List SessionEffect) :
    (told effects).filterMap SessionEffect.fragment? = effects.filterMap SessionEffect.fragment? := by
  unfold told
  rw [List.filterMap_filter]
  congr 1
  funext e
  cases e <;> rfl

/-- of what is passed on, the coordinator gets one notice of every registration and of every last report -/
theorem notices_forwards (id : ClientId) (ms : List Message) :
    (ms.flatMap (forwards id)).filter SessionEffect.isForCoordinator = ms.filterMap (Message.notice? id) := by
  rw [List.filter_flatMap, List.filterMap_eq_flatMap_toList]
  congr 1
  funext m
  cases m with
  | statsPartial r =>
    cases hempty : r.isEmpty <;> simp [forwards, hempty, SessionEffect.isForCoordinator, Message.notice?]
  | statsComplete r =>
    cases hempty : r.isEmpty <;>
      simp [forwards, hempty, List.filter_cons, SessionEffect.isForCoordinator, Message.notice?]
  | _ => rfl

/-- of what is passed on, the aggregator gets all data that is not empty -/
theorem fragments_forwards (id : ClientId) (ms : List Message) : (ms.flatMap (forwards id)).filterMap
    SessionEffect.fragment? = (ms.filterMap Message.report?).filter fun r => !r.isEmpty := by
  rw [List.filterMap_flatMap, List.filter_filterMap, List.filterMap_eq_flatMap_toList]
  congr 1
  funext m
  cases m with
  | statsPartial r =>
    cases hempty : r.isEmpty <;> simp [forwards, hempty, SessionEffect.fragment?, Message.report?, Option.filter]
  | statsComplete r =>
    cases hempty : r.isEmpty <;> simp [forwards, hempty, SessionEffect.fragment?, Message.report?, Option.filter]
  | _ => rfl

/-! ## Inputs and histories -/

/-- what can happen to a session -/
inductive Input where
  /-- an event at a moment -/
  | event (now : Duration) (e : SessionEvent)
  /-- somebody gives it a message to send -/
  | send (m : Message)
  /-- somebody tells it to close -/
  | cancel

def handle (s : Session) : Input → Session × List SessionEffect
  | .event now e => s.react now e
  | .send m => ((s.send m).1, [])
  | .cancel => (s.cancel, [])

/-- the message that a session takes off what has arrived -/
def hears (s : Session) : Input → Option Message
  | .event _ .frame => if s.phase = .serving then message? (Frame.read s.limits.maxFrame s.incoming).1 else none
  | _ => none

/-- the bytes that a session gets -/
def gets (s : Session) : Input → Bytes
  | .event _ (.arrival bytes) => if s.phase = .serving then bytes else []
  | _ => []

/-- a session and what has happened: what it did to others, the messages that it took, and the bytes that it got -/
structure History where
  session : Session
  effects : List SessionEffect
  heard : List Message
  received : Bytes

namespace History

def start (s : Session) : History := ⟨s, [], [], []⟩

def handle (h : History) (i : Input) : History where
  session := (h.session.handle i).1
  effects := h.effects ++ (h.session.handle i).2
  heard := h.heard ++ (h.session.hears i).toList
  received := h.received ++ h.session.gets i

def run (h : History) (is : List Input) : History := is.foldl handle h

/-- nothing but events is what `Session.run` handles -/
theorem run_events (s : Session) (es : List (Duration × SessionEvent)) :
    (((start s).run (es.map fun e => .event e.1 e.2)).session, ((start s).run (es.map fun e => .event e.1 e.2)).effects) =
      s.run es := by
  unfold Session.run
  suffices hall : ∀ h : History, ((h.run (es.map fun e => .event e.1 e.2)).session,
      (h.run (es.map fun e => .event e.1 e.2)).effects) =
      es.foldl (fun acc e => ((acc.1.react e.1 e.2).1, acc.2 ++ (acc.1.react e.1 e.2).2)) (h.session, h.effects) from
    hall _
  induction es with
  | nil =>
    intro h
    rfl
  | cons e es ih =>
    intro h
    exact ih (h.handle (.event e.1 e.2))

theorem run_append (h : History) (is js : List Input) : h.run (is ++ js) = (h.run is).run js := List.foldl_append

theorem run_snoc (h : History) (is : List Input) (i : Input) : h.run (is ++ [i]) = (h.run is).handle i :=
  run_append h is [i]

end History

/-! ## What an input does -/

/-- whether the session has begun to end -/
def isOver (s : Session) : Bool :=
  match s.phase with
  | .closing _ _ | .ended _ => true
  | _ => false

/-- nothing that others notice of a session has changed -/
structure Alike (s s' : Session) : Prop where
  id : s'.id = s.id
  limits : s'.limits = s.limits
  state : s'.state = s.state
  incoming : s'.incoming = s.incoming
  queueOpen : s'.queueOpen = s.queueOpen
  isOver : s'.isOver = s.isOver
  hasEnded : s'.hasEnded = s.hasEnded

/-- a session has begun to end: it is closed, and takes no message to send -/
structure Leaves (s s' : Session) : Prop where
  id : s'.id = s.id
  limits : s'.limits = s.limits
  state : s'.state = .closed
  queueOpen : s'.queueOpen = false
  isOver : s'.isOver = true
  hasEnded : s'.hasEnded = false

theorem leaves_finish (now : Duration) (s : Session) (reason : Option SessionError) : Leaves s (s.finish now reason) :=
  ⟨rfl, rfl, rfl, rfl, rfl, rfl⟩

variable {s s' : Session}

/-- who has ended has begun to end -/
theorem isOver_of_hasEnded (h : s.hasEnded = true) : s.isOver = true := by
  unfold hasEnded ending? at h
  unfold isOver
  cases hphase : s.phase with
  | ended reason => rfl
  | _ => simp [hphase] at h

theorem hasEnded_of_isOver (h : s.isOver = false) : s.hasEnded = false := by
  rw [Bool.eq_false_iff]
  intro hended
  rw [isOver_of_hasEnded hended] at h
  cases h

/-- writing either goes on with a session that others see as it was, or ends it -/
theorem alike_or_leaves_write (now : Duration) (m : Message) (hover : s.isOver = false) :
    (s.write now m).incoming = s.incoming ∧ (Alike s (s.write now m) ∨ Leaves s (s.write now m)) := by
  unfold write
  split
  · exact ⟨rfl, Or.inr (leaves_finish now s _)⟩
  · exact ⟨rfl, Or.inl ⟨rfl, rfl, rfl, rfl, rfl, hover.symm, (hasEnded_of_isOver hover).symm⟩⟩

/-- the state of a session that serves, after a message -/
def stateAfter (state : SessionState) (m : Message) : SessionState := if m.isRegistration then .registered else state

/-- **What hearing a message does**: it is passed on, and then the session goes on or begins to end; after a request it
ends. -/
theorem hear_does (now : Duration) (m : Message) (hover : s.isOver = false) :
    (s.hear now m).2 = forwards s.id m ∧ (s.hear now m).1.incoming = s.incoming ∧
      ((m.method ≠ .reportAll ∧ Alike { s with state := stateAfter s.state m } (s.hear now m).1) ∨
        Leaves s (s.hear now m).1) := by
  cases m with
  | ping =>
    obtain ⟨hincoming, hwrite⟩ := alike_or_leaves_write now (s := s) .pong hover
    refine ⟨rfl, hincoming, ?_⟩
    rcases hwrite with halike | hleaves
    · exact Or.inl ⟨by decide, halike⟩
    · exact Or.inr hleaves
  | pong => exact ⟨rfl, rfl, Or.inl ⟨nofun, rfl, rfl, rfl, rfl, rfl, rfl, rfl⟩⟩
  | reportAll time => exact ⟨rfl, rfl, Or.inr (leaves_finish now s _)⟩
  | registerProcess tags => exact ⟨rfl, rfl, Or.inl ⟨nofun, rfl, rfl, rfl, rfl, rfl, rfl, rfl⟩⟩
  | statsPartial r => exact ⟨rfl, rfl, Or.inl ⟨nofun, rfl, rfl, rfl, rfl, rfl, rfl, rfl⟩⟩
  | statsComplete r =>
    refine ⟨?_, rfl, Or.inl ⟨nofun, rfl, rfl, rfl, rfl, rfl, rfl, rfl⟩⟩
    show passOn r ++ [.complete s.id r.time] = _
    cases hempty : r.isEmpty <;> simp [passOn, forwards, hempty]

/-- What an input does to a session, as far as others notice: the session after it, what was done to others, the message
that was taken and the bytes that came. -/
inductive Does (s : Session) : Session → List SessionEffect → Option Message → Bytes → Prop where
  /-- nothing that others notice -/
  | nothing {s' : Session} {effects : List SessionEffect} (h : Alike s s') (htold : told effects = []) :
    Does s s' effects none []
  /-- bytes come -/
  | arrival (bytes : Bytes) (hover : s.isOver = false) :
    Does s { s with incoming := s.incoming ++ bytes } [] none bytes
  /-- a message is passed on, and serving goes on -/
  | message {s' : Session} {m : Message} {rest : Bytes} (hover : s.isOver = false)
    (hread : Frame.read s.limits.maxFrame s.incoming = (.ok (some m), rest)) (hm : m.method ≠ .reportAll)
    (h : Alike { s with state := stateAfter s.state m, incoming := rest } s') : Does s s' (forwards s.id m) (some m) []
  /-- a message is passed on, and the session begins to end -/
  | lastMessage {s' : Session} {m : Message} {rest : Bytes} (hover : s.isOver = false)
    (hread : Frame.read s.limits.maxFrame s.incoming = (.ok (some m), rest)) (h : Leaves s s') :
    Does s s' (forwards s.id m) (some m) []
  /-- the session begins to end -/
  | leaving {s' : Session} (hover : s.isOver = false) (h : Leaves s s') : Does s s' [] none []
  /-- the session ends, and says so -/
  | ending (hover : s.isOver = true) (hended : s.hasEnded = false) (reason : Option SessionError) :
    Does s { s with phase := .ended reason } [.ended s.id] none []

theorem alike_refl (s : Session) : Alike s s := ⟨rfl, rfl, rfl, rfl, rfl, rfl, rfl⟩

theorem does_nothing (s : Session) : Does s s [] none [] := .nothing (alike_refl s) rfl

theorem does_finish (now : Duration) (hover : s.isOver = false) (reason : Option SessionError) :
    Does s (s.finish now reason) [] none [] := .leaving hover (leaves_finish now s reason)

/-- the same holds of a session that differs in what others do not notice -/
theorem does_write (now : Duration) (m : Message) (hover : s'.isOver = false) (h : Alike s s') :
    Does s (s'.write now m) [] none [] := by
  obtain ⟨-, hwrite⟩ := alike_or_leaves_write now m hover
  rcases hwrite with halike | hleaves
  · refine .nothing ⟨?_, ?_, ?_, ?_, ?_, ?_, ?_⟩ rfl
    · rw [halike.id, h.id]
    · rw [halike.limits, h.limits]
    · rw [halike.state, h.state]
    · rw [halike.incoming, h.incoming]
    · rw [halike.queueOpen, h.queueOpen]
    · rw [halike.isOver, h.isOver]
    · rw [halike.hasEnded, h.hasEnded]
  · refine .leaving (h.isOver ▸ hover) { hleaves with id := ?_, limits := ?_ }
    · exact hleaves.id.trans h.id
    · exact hleaves.limits.trans h.limits

theorem does_take (s : Session) (n : Nat) : Does s (s.take n).1 (s.take n).2 none [] :=
  .nothing ⟨rfl, rfl, rfl, rfl, rfl, rfl, rfl⟩ rfl

/-- looking at what has arrived -/
theorem does_readFrame (now : Duration) (hover : s.isOver = false) : Does s (s.readFrame now).1 (s.readFrame now).2
    (message? (Frame.read s.limits.maxFrame s.incoming).1) [] := by
  unfold readFrame
  rcases hread : Frame.read s.limits.maxFrame s.incoming with ⟨_ | _ | m, rest⟩
  · exact .leaving hover ⟨rfl, rfl, rfl, rfl, rfl, rfl⟩
  · exact does_nothing s
  · obtain ⟨hout, hincoming, hnext⟩ := hear_does (s := { s with incoming := rest, lastHeard := now }) now m hover
    dsimp only
    rw [hout]
    rcases hnext with ⟨hm, halike⟩ | hleaves
    · exact .message hover hread hm ⟨halike.id, halike.limits, halike.state, hincoming, halike.queueOpen, halike.isOver,
        halike.hasEnded⟩
    · exact .lastMessage hover hread ⟨hleaves.id, hleaves.limits, hleaves.state, hleaves.queueOpen, hleaves.isOver,
        hleaves.hasEnded⟩

theorem does_serve (now : Duration) (hphase : s.phase = .serving) (e : SessionEvent) :
    Does s (s.serve now e).1 (s.serve now e).2 (s.hears (.event now e)) (s.gets (.event now e)) := by
  have hover : s.isOver = false := by rw [isOver, hphase]
  cases e with
  | arrival bytes =>
    rw [show s.gets (.event now (.arrival bytes)) = bytes from if_pos hphase]
    exact .arrival bytes hover
  | frame =>
    rw [show s.hears (.event now .frame) = message? (Frame.read s.limits.maxFrame s.incoming).1 from if_pos hphase]
    exact does_readFrame now hover
  | cancellation =>
    simp only [serve]
    split
    · exact does_finish now hover none
    · exact does_nothing s
  | endOfStream => exact does_finish now hover _
  | readFailure => exact does_finish now hover _
  | outbound =>
    simp only [serve]
    split
    · exact does_write now _ hover ⟨rfl, rfl, rfl, rfl, rfl, rfl, rfl⟩
    · exact does_nothing s
  | release =>
    simp only [serve]
    split
    · exact does_finish now hover none
    · exact does_nothing s
  | pingTime =>
    simp only [serve]
    split
    · exact @does_write s { s with lastPing := now } now .ping hover ⟨rfl, rfl, rfl, rfl, rfl, rfl, rfl⟩
    · exact does_nothing s
  | idleTime =>
    simp only [serve]
    split
    · exact does_finish now hover _
    · exact does_nothing s
  | _ => exact does_nothing s

theorem does_awaitWrite (now : Duration) {deadline : Duration} (hphase : s.phase = .writing deadline) (e : SessionEvent) :
    Does s (s.awaitWrite now deadline e).1 (s.awaitWrite now deadline e).2 none [] := by
  have hover : s.isOver = false := by rw [isOver, hphase]
  cases e with
  | taken n => exact does_take s n
  | flushed =>
    simp only [awaitWrite]
    split
    · exact .nothing ⟨rfl, rfl, rfl, rfl, rfl, hover.symm, (hasEnded_of_isOver hover).symm⟩ rfl
    · exact does_nothing s
  | writeFailure => exact does_finish now hover _
  | writeDeadline =>
    simp only [awaitWrite]
    split
    · exact does_finish now hover _
    · exact does_nothing s
  | _ => exact does_nothing s

/-- **What an input does.** -/
theorem does (s : Session) (i : Input) : Does s (s.handle i).1 (s.handle i).2 (s.hears i) (s.gets i) := by
  cases i with
  | send m =>
    show Does s (s.send m).1 [] none []
    unfold send
    split_ifs
    · exact does_nothing s
    · exact .nothing ⟨rfl, rfl, rfl, rfl, rfl, rfl, rfl⟩ rfl
    · exact does_nothing s
  | cancel => exact .nothing ⟨rfl, rfl, rfl, rfl, rfl, rfl, rfl⟩ rfl
  | event now e =>
    show Does s (s.react now e).1 (s.react now e).2 _ _
    by_cases hserving : s.phase = .serving
    · simp only [react, hserving]
      exact does_serve now hserving e
    · have hhears : s.hears (.event now e) = none := by
        cases e <;> simp [hears, hserving]
      have hgets : s.gets (.event now e) = [] := by
        cases e <;> simp [gets, hserving]
      rw [hhears, hgets]
      unfold react
      cases hphase : s.phase with
      | unstarted =>
        have hover : s.isOver = false := by rw [isOver, hphase]
        cases e with
        | start => exact .nothing ⟨rfl, rfl, rfl, rfl, rfl, hover.symm, (hasEnded_of_isOver hover).symm⟩ rfl
        | _ => exact does_nothing s
      | serving => exact absurd hphase hserving
      | writing deadline => exact does_awaitWrite now hphase e
      | closing deadline reason =>
        cases e with
        | taken n => exact does_take s n
        | shut => exact .ending (by rw [isOver, hphase]) (by simp [hasEnded, ending?, hphase]) reason
        | _ => exact does_nothing s
      | ended reason => exact does_nothing s

theorem Does.limits {effects : List SessionEffect} {message? : Option Message} {bytes : Bytes}
    (h : Does s s' effects message? bytes) : s'.limits = s.limits := by
  cases h with
  | nothing h _ => exact h.limits
  | arrival _ _ => rfl
  | message _ _ _ h => exact h.limits
  | lastMessage _ _ h => exact h.limits
  | leaving _ h => exact h.limits
  | ending _ _ _ => rfl

theorem limits_handle (s : Session) (i : Input) : (s.handle i).1.limits = s.limits := (does s i).limits

/-! ## Faithful histories -/

/-- The history of a session says what became of all that it read. -/
structure Faithful (id : ClientId) (limits : SessionLimits) (h : History) : Prop where
  sameId : h.session.id = id
  sameLimits : h.session.limits = limits
  /-- while the session is live, what it got is what it took and what it still holds -/
  live : h.session.isOver = false → readAll limits.maxFrame h.received =
    prepend h.heard (readAll limits.maxFrame h.session.incoming)
  heard : h.heard <+: (readAll limits.maxFrame h.received).messages
  /-- a request is the last message that is taken -/
  last : ∀ before time after, h.heard = before ++ .reportAll time :: after → after = [] ∧ h.session.isOver = true
  told : told h.effects = h.heard.flatMap (forwards id) ++ if h.session.hasEnded then [.ended id] else []
  state : h.session.state =
    if h.session.isOver then .closed else if h.heard.any Message.isRegistration then .registered else .connected
  queueOpen : h.session.isOver = true → h.session.queueOpen = false

theorem faithful_start (id : ClientId) (limits : SessionLimits) : Faithful id limits (.start (.new id limits)) where
  sameId := rfl
  sameLimits := rfl
  live _ := rfl
  heard := List.nil_prefix
  last before time after h := by cases before <;> cases h
  told := rfl
  state := rfl
  queueOpen h := by cases h

namespace Faithful

variable {id : ClientId} {limits : SessionLimits} {effects out : List SessionEffect} {heard : List Message} {m : Message}
  {received rest bytes : Bytes}

/-- a message that is taken comes next in what was got -/
theorem readAll_message (hf : Faithful id limits ⟨s, effects, heard, received⟩) (hover : s.isOver = false)
    (hread : Frame.read s.limits.maxFrame s.incoming = (.ok (some m), rest)) :
    readAll limits.maxFrame received = prepend (heard ++ [m]) (readAll limits.maxFrame rest) := by
  rw [hf.sameLimits] at hread
  rw [hf.live hover]
  dsimp only
  rw [readAll_of_message hread, prepend_after]

theorem not_request (hf : Faithful id limits ⟨s, effects, heard, received⟩) (hover : s.isOver = false)
    (time : SurveyTime) : .reportAll time ∉ heard := by
  intro hmem
  obtain ⟨before, after, hsplit⟩ := List.append_of_mem hmem
  have hlast := (hf.last before time after hsplit).2
  rw [hover] at hlast
  cases hlast

/-- a request can only be the message that is taken last -/
theorem last_message (hf : Faithful id limits ⟨s, effects, heard, received⟩) (hover : s.isOver = false)
    {before after : List Message} {time : SurveyTime} (h : heard ++ [m] = before ++ .reportAll time :: after) :
    after = [] ∧ m = .reportAll time := by
  rcases append_eq_append_cons h with ⟨more, hheard, -⟩ | ⟨more, -, hm⟩
  · exact absurd (by rw [hheard]; simp) (hf.not_request hover time)
  · cases more with
    | nil =>
      cases hm
      exact ⟨rfl, rfl⟩
    | cons m' more => simp at hm

/-- what is told of a message comes behind what was told before -/
theorem told_message (hf : Faithful id limits ⟨s, effects, heard, received⟩) (hover : s.isOver = false) (m : Message) :
    Session.told (effects ++ forwards s.id m) = (heard ++ [m]).flatMap (forwards id) := by
  have htold := hf.told
  rw [if_neg (by simp [hasEnded_of_isOver hover]), List.append_nil] at htold
  rw [told_append, htold, told_forwards, hf.sameId, List.flatMap_append, List.flatMap_singleton]

/-- **Whatever an input does, the history stays faithful.** -/
theorem does (hf : Faithful id limits ⟨s, effects, heard, received⟩) {message? : Option Message}
    (hd : Does s s' out message? bytes) :
    Faithful id limits ⟨s', effects ++ out, heard ++ message?.toList, received ++ bytes⟩ := by
  cases hd with
  | nothing h htold =>
    refine ⟨h.id.trans hf.sameId, h.limits.trans hf.sameLimits, ?_, ?_, ?_, ?_, ?_, ?_⟩
    · intro hover
      simpa [h.incoming] using hf.live (h.isOver ▸ hover)
    · simpa using hf.heard
    · simpa [h.isOver] using hf.last
    · simpa [htold, h.hasEnded] using hf.told
    · simpa [h.state, h.isOver] using hf.state
    · simpa [h.isOver, h.queueOpen] using hf.queueOpen
  | arrival bytes hover =>
    have hread : readAll limits.maxFrame (received ++ bytes) =
        prepend heard (readAll limits.maxFrame (s.incoming ++ bytes)) := by
      rw [readAll_append, hf.live hover, andThen_prepend, ← readAll_append]
    rw [Option.toList_none, List.append_nil, List.append_nil]
    refine ⟨hf.sameId, hf.sameLimits, fun _ => hread, ?_, hf.last, hf.told, hf.state, hf.queueOpen⟩
    dsimp only
    rw [hread]
    exact List.prefix_append _ _
  | @message s' m rest hover hread hm h =>
    have hread' := hf.readAll_message hover hread
    have hover' : s'.isOver = false := h.isOver.trans hover
    refine ⟨h.id.trans hf.sameId, h.limits.trans hf.sameLimits, ?_, ?_, ?_, ?_, ?_, ?_⟩
    · intro _
      simpa [h.incoming] using hread'
    · simp [hread', prepend]
    · intro before time after hsplit
      obtain ⟨-, rfl⟩ := hf.last_message hover hsplit
      exact absurd rfl hm
    · simpa [hasEnded_of_isOver hover'] using hf.told_message hover m
    · have hstate := hf.state
      simp only [hover, Bool.false_eq_true, if_false] at hstate
      simp only [hover', h.state, stateAfter, hstate]
      cases hm : m.isRegistration <;> simp [hm]
    · intro hclosed
      rw [hover'] at hclosed
      cases hclosed
  | @lastMessage s' m rest hover hread h =>
    have hread' := hf.readAll_message hover hread
    refine ⟨h.id.trans hf.sameId, h.limits.trans hf.sameLimits, ?_, ?_, ?_, ?_, ?_, ?_⟩
    · intro hlive
      rw [h.isOver] at hlive
      cases hlive
    · simp [hread', prepend]
    · intro before time after hsplit
      exact ⟨(hf.last_message hover hsplit).1, h.isOver⟩
    · simpa [h.hasEnded] using hf.told_message hover m
    · simpa [h.isOver] using h.state
    · intro _
      exact h.queueOpen
  | leaving hover h =>
    refine ⟨h.id.trans hf.sameId, h.limits.trans hf.sameLimits, ?_, ?_, ?_, ?_, ?_, ?_⟩
    · intro hlive
      rw [h.isOver] at hlive
      cases hlive
    · simpa using hf.heard
    · intro before time after hsplit
      exact ⟨(hf.last before time after (by simpa using hsplit)).1, h.isOver⟩
    · simpa [h.hasEnded, hasEnded_of_isOver hover] using hf.told
    · simpa [h.isOver] using h.state
    · intro _
      exact h.queueOpen
  | ending hover hended reason =>
    refine ⟨hf.sameId, hf.sameLimits, ?_, ?_, ?_, ?_, ?_, ?_⟩
    · intro hlive
      cases hlive
    · simpa using hf.heard
    · intro before time after hsplit
      exact ⟨(hf.last before time after (by simpa using hsplit)).1, rfl⟩
    · have htold := hf.told
      rw [if_neg (by simp [hended]), List.append_nil] at htold
      rw [told_append, htold, hf.sameId, Option.toList_none, List.append_nil]
      rfl
    · have hstate := hf.state
      rw [if_pos hover] at hstate
      exact hstate
    · intro _
      exact hf.queueOpen hover

/-- no input takes a session back -/
theorem stage_le (hf : Faithful id limits ⟨s, effects, heard, received⟩) {message? : Option Message}
    (hd : Does s s' out message? bytes) : s.state.stage ≤ s'.state.stage := by
  have hclosed : s.state.stage ≤ SessionState.closed.stage := by cases s.state <;> decide
  cases hd with
  | nothing h _ => rw [h.state]
  | arrival bytes _ => exact le_rfl
  | @message s' m rest hover _ _ h =>
    have hstate := hf.state
    rw [if_neg (by simp [hover])] at hstate
    have hlow : s.state.stage ≤ SessionState.registered.stage := by
      rw [hstate]
      dsimp only
      split <;> decide
    rw [h.state]
    unfold stateAfter
    split
    · exact hlow
    · exact le_rfl
  | lastMessage _ _ h => rwa [h.state]
  | leaving _ h => rwa [h.state]
  | ending _ _ _ => exact le_rfl

end Faithful

/-- **Whatever happens to a new session, its history is faithful.** -/
theorem faithful (id : ClientId) (limits : SessionLimits) (is : List Input) :
    Faithful id limits ((History.start (.new id limits)).run is) := by
  induction is using List.reverseRecOn with
  | nil => exact faithful_start id limits
  | append_singleton is i ih =>
    rw [History.run_snoc]
    exact ih.does (does _ i)

/-! ## Moving on -/

/-- a session's state never goes back, and a closed one stays closed -/
theorem stage_run (id : ClientId) (limits : SessionLimits) (is js : List Input) :
    ((History.start (.new id limits)).run is).session.state.stage ≤
      (((History.start (.new id limits)).run is).run js).session.state.stage := by
  induction js using List.reverseRecOn with
  | nil => exact le_rfl
  | append_singleton js j ih =>
    rw [← History.run_append] at ih ⊢
    rw [← List.append_assoc, History.run_snoc]
    exact ih.trans ((faithful id limits (is ++ js)).stage_le (does _ j))

/-! ## Ending -/

/-- the moves of a session at a moment, at most so many -/
def goOn (now : Duration) : Nat → Duplex → Session → Session × List SessionEffect
  | 0, _, s => (s, [])
  | n + 1, wires, s =>
    match s.move now wires with
    | none => (s, [])
    | some (s', wires', effects) => ((goOn now n wires' s').1, effects ++ (goOn now n wires' s').2)

theorem goOn_ended (now : Duration) (n : Nat) (wires : Duplex) (reason : Option SessionError)
    (h : s.phase = .ended reason) : goOn now n wires s = (s, []) := by
  cases n with
  | zero => rfl
  | succ n => simp [goOn, move, next, h]

/-- **A session that has begun to end does end**, at its deadline at the latest, whatever its peer takes of what was framed:
and it says so once. -/
theorem ends {now deadline : Duration} {reason : Option SessionError} (hphase : s.phase = .closing deadline reason)
    (hdue : deadline ≤ now) (wires : Duplex) {n : Nat} (hn : s.outgoing.length < n) :
    (goOn now n wires s).1.phase = .ended reason ∧ told (goOn now n wires s).2 = [.ended s.id] := by
  induction n generalizing s wires with
  | zero => exact absurd hn (Nat.not_lt_zero _)
  | succ n ih =>
    have hshut : s.next now wires.toServer wires.toClient = some .shut →
        (goOn now (n + 1) wires s).1.phase = .ended reason ∧ told (goOn now (n + 1) wires s).2 = [.ended s.id] := by
      intro hnext
      simp only [goOn, move, hnext, Option.map_some, react, hphase]
      rw [goOn_ended now n _ reason rfl]
      exact ⟨rfl, rfl⟩
    by_cases hdone : s.outgoing.isEmpty || wires.toClient.abandoned
    · exact hshut (by simp only [next, hphase, hdone, if_true])
    · by_cases hroom : 0 < wires.toClient.room
      · -- the transport takes some of it, and less is left
        have hnext : s.next now wires.toServer wires.toClient = some (.taken wires.toClient.room) := by
          simp only [next, hphase, hdone, Bool.false_eq_true, if_false, hroom, if_true]
        have hsome : 0 < s.outgoing.length := by
          rw [List.length_pos_iff]
          intro hnone
          simp [hnone] at hdone
        have hleft : (s.outgoing.drop wires.toClient.room).length < n := by
          rw [List.length_drop]
          omega
        simp only [goOn, move, hnext, Option.map_some, react, hphase, take]
        obtain ⟨hended, htold⟩ := ih (s := { s with
          phase := .closing deadline reason, outgoing := s.outgoing.drop wires.toClient.room }) rfl _ hleft
        refine ⟨hended, ?_⟩
        rw [told_append, htold]
        rfl
      · exact hshut (by simp only [next, hphase, hdone, Bool.false_eq_true, if_false, hroom, hdue, if_true])

/-! ## The law -/

/-- **A session forwards what it hears.** Whatever happens to a new session, in whatever order:

- the messages that it takes are the first of those that its bytes hold before anything undecodable, and a request is the
  last that is taken;
- it tells others what each of them asks for, in order, and, once it has ended, that it has ended, once and last: the
  coordinator hears of every registration and of every last report, and the aggregator gets all data that is not empty,
  the data of a last report before the coordinator hears of it;
- it is connected, and registered since the first registration, and closed since it began to end, and never goes back;
- once it has ended every message to it is refused;
- when it has begun to end, for whatever reason, then at its deadline it does end and says so, whatever its peer does. -/
theorem forwards_what_it_hears (id : ClientId) (limits : SessionLimits) (is : List Input) :
    let h := (History.start (.new id limits)).run is
    let farewell := if h.session.hasEnded then [SessionEffect.ended id] else []
    (h.heard <+: (readAll limits.maxFrame h.received).messages ∧
      ∀ before time after, h.heard = before ++ .reportAll time :: after → after = []) ∧
    (told h.effects = h.heard.flatMap (forwards id) ++ farewell ∧
      h.effects.filter SessionEffect.isForCoordinator = h.heard.filterMap (Message.notice? id) ++ farewell ∧
      h.effects.filterMap SessionEffect.fragment? = (h.heard.filterMap Message.report?).filter fun r => !r.isEmpty) ∧
    (h.session.state =
        (if h.session.isOver then .closed else if h.heard.any Message.isRegistration then .registered else .connected) ∧
      ∀ js, h.session.state.stage ≤ (h.run js).session.state.stage) ∧
    (h.session.hasEnded = true → ∀ m, (h.session.send m).2 = some .closed) ∧
    ∀ deadline reason, h.session.phase = .closing deadline reason → ∀ now, deadline ≤ now → ∀ wires n,
      h.session.outgoing.length < n → (goOn now n wires h.session).1.phase = .ended reason ∧
        told (goOn now n wires h.session).2 = [.ended id] := by
  intro h farewell
  have hf : Faithful id limits h := faithful id limits is
  refine ⟨⟨hf.heard, ?_⟩, ⟨hf.told, ?_, ?_⟩, ⟨hf.state, stage_run id limits is⟩, ?_, ?_⟩
  · intro before time after hsplit
    exact (hf.last before time after hsplit).1
  · rw [← notices_told, hf.told, List.filter_append, notices_forwards]
    congr 1
    show List.filter _ (if h.session.hasEnded then _ else _) = if h.session.hasEnded then _ else _
    split <;> rfl
  · rw [← fragments_told, hf.told, List.filterMap_append, fragments_forwards]
    refine (List.append_right_eq_self).2 ?_
    split <;> rfl
  · intro hended m
    have hclosed := hf.queueOpen (isOver_of_hasEnded hended)
    simp [send, hclosed]
  · intro deadline reason hphase now hdue wires n hn
    rw [← hf.sameId]
    exact ends hphase hdue wires hn

/-- A client says which process it is, hands in its data in two parts, the first of them empty, and then asks for a report
itself; what it sends behind that is not read. -/
theorem forwards_what_it_hears_request :
    let data : Report Binary64 := { time := 3, values := [⟨"load", ⟨0x3ff0000000000000⟩⟩] }
    let ms : List Message := [.registerProcess .empty, .statsPartial { time := 3 }, .statsComplete data, .reportAll 7]
    let arrived := (ms ++ [Message.statsComplete data]).flatMap Frame.bytes
    let is : List Input := .event .zero .start :: .event .zero (.arrival arrived) :: .replicate 5 (.event .zero .frame)
    let h := (History.start (.new 1 {})).run is
    let ended := (History.start (.new 1 {})).run (is ++ [.event .zero .shut])
    let refusal := SessionError.protocol (.unexpectedMessage .reportAll)
    (h.heard = ms ∧ h.heard <+: (readAll Frame.defaultMax h.received).messages) ∧
    told h.effects = [.setTags 1 .empty, .fragment data, .complete 1 3] ∧
    h.session.state = .closed ∧ h.session.phase = .closing (.ofSecs 1) (some refusal) ∧
    ((goOn (.ofSecs 1) 1 (.new 0) h.session).1.phase = .ended (some refusal) ∧
      told (goOn (.ofSecs 1) 1 (.new 0) h.session).2 = [.ended 1]) ∧
    told ended.effects = [.setTags 1 .empty, .fragment data, .complete 1 3, .ended 1] ∧
    ended.session.hasEnded = true ∧ (ended.session.send .ping).2 = some .closed := by
  intro data ms arrived is h ended refusal
  have hheard : h.heard = ms := by decide +kernel
  have hphase : h.session.phase = .closing (.ofSecs 1) (some refusal) := by decide +kernel
  have hshort : h.session.outgoing.length < 1 := by decide +kernel
  have hended : ended.session.hasEnded = true := by decide +kernel
  obtain ⟨⟨hread, -⟩, -, ⟨-, -⟩, -, hends⟩ := forwards_what_it_hears 1 {} is
  obtain ⟨-, -, -, hrefused, -⟩ := forwards_what_it_hears 1 {} (is ++ [.event .zero .shut])
  refine ⟨⟨hheard, hread⟩, by decide +kernel, by decide +kernel, hphase, ?_, by decide +kernel, hended, hrefused hended _⟩
  -- spelled out, the history need not be evaluated to be compared
  simp only [h]
  exact hends _ _ hphase (.ofSecs 1) (by decide) (.new 0) 1 hshort

end Session

end MetricSurvey

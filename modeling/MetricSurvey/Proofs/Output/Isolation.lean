/-
The sinks of a group keep out of each other's way.

The group offers a snapshot to one sink after another and counts the refusals. Each offer is made whatever the offers
before it were answered (`dispatch_eq`), so a run of the group is a run of each sink on its own (`dispatchAll_eq`). To
see what a sink is offered, it is put into a group with a log beside its state (`Sink.watched`), which changes nothing
else (`offerAll_logged`).

- `sinks_are_isolated`: each sink is offered every snapshot once and in order, ends and answers as if it were the only
  one, the counts are those of the refusals, and a sink that keeps the last snapshot has the last one.
-/
import MetricSurvey.Output.Sink
import MetricSurvey.Proofs.Runs

namespace MetricSurvey

variable {S σ τ : Type}

namespace Sink

/-! ## Offers to one sink -/

theorem offerAll_eq (k : Sink S σ) (ss : List S) :
    k.offerAll ss = collect (fun k s => ((k.offer s).1, [(k.offer s).2])) k ss :=
  foldl_eq_collect (fun (k : Sink S σ) s => ((k.offer s).1, [(k.offer s).2])) k ss

@[simp] theorem offerAll_nil (k : Sink S σ) : k.offerAll [] = (k, []) := rfl

theorem offerAll_cons (k : Sink S σ) (s : S) (ss : List S) : k.offerAll (s :: ss) =
    (((k.offer s).1.offerAll ss).1, (k.offer s).2 :: ((k.offer s).1.offerAll ss).2) := by
  simp only [offerAll_eq, collect_cons, List.singleton_append]

theorem length_offerAll (k : Sink S σ) (ss : List S) : (k.offerAll ss).2.length = ss.length := by
  induction ss generalizing k with
  | nil => rfl
  | cons s ss ih => rw [offerAll_cons, List.length_cons, List.length_cons, ih]

/-- the sink, and beside its state what it has been offered and what it answered -/
def watched (k : Sink S σ) : Sink S (σ × List (S × Option SinkError)) where
  name := k.name
  state := (k.state, [])
  take t s := (((k.take t.1 s).1, t.2 ++ [(s, (k.take t.1 s).2)]), (k.take t.1 s).2)

/-- the sink in a state of its own, with a log -/
def logged (k : Sink S σ) (log : List (S × Option SinkError)) : Sink S (σ × List (S × Option SinkError)) :=
  { k.watched with state := (k.state, log) }

/-- **To be watched changes nothing**, and the log is right. -/
theorem offerAll_logged (k : Sink S σ) (log : List (S × Option SinkError)) (ss : List S) : (k.logged log).offerAll ss =
    ((k.offerAll ss).1.logged (log ++ ss.zip (k.offerAll ss).2), (k.offerAll ss).2) := by
  induction ss generalizing k log with
  | nil => simp
  | cons s ss ih =>
    have hoffer : (k.logged log).offer s = ((k.offer s).1.logged (log ++ [(s, (k.offer s).2)]), (k.offer s).2) := rfl
    rw [offerAll_cons, hoffer, ih, offerAll_cons, List.zip_cons_cons, List.append_assoc, List.singleton_append]

/-- a sink among sinks with other states goes on as it does on its own -/
theorem offerAll_embed {put : σ → τ} {get : τ → Option σ} (h : ∀ u, get (put u) = some u) (k : Sink S σ) (ss : List S) :
    (k.embed put get).offerAll ss = ((k.offerAll ss).1.embed put get, (k.offerAll ss).2) := by
  induction ss generalizing k with
  | nil => rfl
  | cons s ss ih =>
    have hoffer : (k.embed put get).offer s = ((k.offer s).1.embed put get, (k.offer s).2) := by
      simp only [offer, embed, h]
    rw [offerAll_cons, hoffer, ih, offerAll_cons]

/-- what was kept last -/
theorem offerAll_keeping (name : String) (last : Option S) (ss : List S) :
    ({ keeping name with state := last }.offerAll ss).1 = { keeping name with state := ss.getLast?.or last } := by
  induction ss generalizing last with
  | nil => rfl
  | cons s ss ih =>
    have hoffer : ({ keeping name with state := last } : Sink S (Option S)).offer s =
      ({ keeping name with state := some s }, none) := rfl
    rw [offerAll_cons, hoffer, ih, List.getLast?_cons]
    cases ss.getLast? <;> rfl

end Sink

/-! ## Groups -/

namespace OutputGroup

variable (g : OutputGroup S σ)

/-- **Every sink is offered the snapshot**, whatever those before it answered, and the refusals are counted. -/
theorem dispatch_eq (s : S) :
    dispatch g s = (g.map fun k => (k.offer s).1, g.countP fun k => (k.offer s).2.isSome) := by
  -- the loop has gone through some sinks and counted some refusals
  suffices h : ∀ (done : OutputGroup S σ) (failed : Nat),
      g.foldl (fun acc k => (acc.1 ++ [(k.offer s).1], if (k.offer s).2.isSome then acc.2 + 1 else acc.2))
          (done, failed) =
        (done ++ g.map fun k => (k.offer s).1, failed + g.countP fun k => (k.offer s).2.isSome) by
    have hloop := h [] 0
    rwa [List.nil_append, Nat.zero_add] at hloop
  induction g with
  | nil =>
    intro done failed
    simp
  | cons k g ih =>
    intro done failed
    rw [List.foldl_cons, ih, List.map_cons, List.append_assoc, List.singleton_append, List.countP_cons]
    split
    · rw [Nat.add_assoc, Nat.add_comm 1]
    · rfl

theorem dispatchAll_cons (s : S) (ss : List S) : dispatchAll g (s :: ss) =
    ((dispatchAll (dispatch g s).1 ss).1, (dispatch g s).2 :: (dispatchAll (dispatch g s).1 ss).2) := by
  have hcollect : ∀ (g : OutputGroup S σ) ss,
      dispatchAll g ss = collect (fun g s => ((dispatch g s).1, [(dispatch g s).2])) g ss :=
    foldl_eq_collect fun (g : OutputGroup S σ) s => ((dispatch g s).1, [(dispatch g s).2])
  simp only [hcollect, collect_cons, List.singleton_append]

/-- whether an answer is there and is a refusal -/
def refusedAt (n : Nat) (answers : List (Option SinkError)) : Bool := (answers[n]?.bind id).isSome

/-- **A run of a group is a run of each sink on its own**, and counts who refused. -/
theorem dispatchAll_eq (ss : List S) : dispatchAll g ss =
    (g.map fun k => (k.offerAll ss).1,
      (List.range ss.length).map fun n => g.countP fun k => refusedAt n (k.offerAll ss).2) := by
  induction ss generalizing g with
  | nil => simp [dispatchAll]
  | cons s ss ih =>
    rw [dispatchAll_cons, dispatch_eq, ih, List.length_cons, List.range_succ_eq_map, List.map_cons]
    simp only [List.map_map, List.countP_map, Sink.offerAll_cons]
    rfl

/-- a group ends as its sinks, each in a group of its own -/
theorem dispatchAll_alone (ss : List S) : (dispatchAll g ss).1 = g.flatMap fun k => (dispatchAll [k] ss).1 := by
  simp only [dispatchAll_eq, List.map_singleton]
  exact List.map_eq_flatMap

/-! ## Watched groups -/

theorem dispatchAll_watched (ss : List S) : dispatchAll (g.map Sink.watched) ss =
    (g.map fun k => (k.offerAll ss).1.logged (ss.zip (k.offerAll ss).2), (dispatchAll g ss).2) := by
  have hwatched : ∀ k : Sink S σ, k.watched.offerAll ss =
      ((k.offerAll ss).1.logged (ss.zip (k.offerAll ss).2), (k.offerAll ss).2) := by
    intro k
    exact k.offerAll_logged [] ss
  simp only [dispatchAll_eq, List.map_map, List.countP_map, Function.comp_def, hwatched]

/-- to watch the sinks changes neither their states nor the counts -/
theorem dispatchAll_watched_unchanged (ss : List S) :
    (dispatchAll (g.map Sink.watched) ss).1.map (fun k => k.state.1) = (dispatchAll g ss).1.map Sink.state ∧
      (dispatchAll (g.map Sink.watched) ss).2 = (dispatchAll g ss).2 := by
  rw [dispatchAll_watched]
  refine ⟨?_, rfl⟩
  rw [dispatchAll_eq, List.map_map, List.map_map]
  rfl

/-- every sink is offered every snapshot once and in order -/
theorem offered_of_watched {ss : List S} {k : Sink S (σ × List (S × Option SinkError))}
    (hk : k ∈ (dispatchAll (g.map Sink.watched) ss).1) : k.state.2.map Prod.fst = ss := by
  rw [dispatchAll_watched] at hk
  obtain ⟨k, -, rfl⟩ := List.mem_map.1 hk
  exact List.map_fst_zip (k.length_offerAll ss).ge

/-- what is counted are the refusals among the answers -/
theorem dispatchAll_counts (ss : List S) : (dispatchAll g ss).2 = (List.range ss.length).map fun n =>
    (dispatchAll (g.map Sink.watched) ss).1.countP fun k => refusedAt n (k.state.2.map Prod.snd) := by
  have hanswers : ∀ k : Sink S σ, (ss.zip (k.offerAll ss).2).map Prod.snd = (k.offerAll ss).2 := by
    intro k
    exact List.map_snd_zip (k.length_offerAll ss).le
  rw [dispatchAll_watched, dispatchAll_eq]
  simp only [List.countP_map, Function.comp_def, Sink.logged, hanswers]

/-- whatever the sinks around it, a sink that keeps a snapshot has the last that was offered -/
theorem keeping_has_last (name : String) (before after : OutputGroup S (Option S ⊕ τ)) (ss : List S) :
    (dispatchAll (before ++ (Sink.keeping name).embed Sum.inl Sum.getLeft? :: after) ss).1[before.length]? =
      some ({ Sink.keeping name with state := ss.getLast? }.embed Sum.inl Sum.getLeft?) := by
  have hlast : ((Sink.keeping name).offerAll ss).1 = { Sink.keeping name with state := ss.getLast? } := by
    have hkeeping := Sink.offerAll_keeping name none ss
    rwa [Option.or_none] at hkeeping
  have hget : ∀ u : Option S, (Sum.inl u : Option S ⊕ τ).getLeft? = some u := fun _ => rfl
  rw [dispatchAll_eq, List.map_append, List.map_cons, Sink.offerAll_embed hget, hlast,
    List.getElem?_append_right (List.length_map _).le, List.length_map, Nat.sub_self, List.getElem?_cons_zero]

/-! ## Main result -/

/-- **Sinks are isolated from each other.** A group ends as its sinks would, each in a group of its own. To watch the
sinks changes neither their states nor the counts; it shows that each was offered every snapshot once and in order and
answered as it would have in a group of its own, and that the counts are those of the refusals among the answers.
Whatever the sinks around it, a sink that keeps a snapshot has the last that was offered. -/
theorem sinks_are_isolated (g : OutputGroup S σ) (ss : List S) :
    let together := dispatchAll g ss
    let seen := dispatchAll (g.map Sink.watched) ss
    (together.1 = g.flatMap fun k => (dispatchAll [k] ss).1) ∧
    (seen.1.map (fun k => k.state.1) = together.1.map Sink.state ∧ seen.2 = together.2) ∧
    (∀ k ∈ seen.1, k.state.2.map Prod.fst = ss) ∧
    (seen.1 = g.flatMap fun k => (dispatchAll [k.watched] ss).1) ∧
    together.2 = (List.range ss.length).map
      (fun n => seen.1.countP fun k => refusedAt n (k.state.2.map Prod.snd)) ∧
    ∀ (name : String) (before after : OutputGroup S (Option S ⊕ τ)),
      (dispatchAll (before ++ (Sink.keeping name).embed Sum.inl Sum.getLeft? :: after) ss).1[before.length]? =
        some ({ Sink.keeping name with state := ss.getLast? }.embed Sum.inl Sum.getLeft?) := by
  intro together seen
  have hseen : seen.1 = g.flatMap fun k => (dispatchAll [k.watched] ss).1 := by
    have halone := dispatchAll_alone (g.map Sink.watched) ss
    rwa [List.flatMap_map] at halone
  exact ⟨dispatchAll_alone g ss, dispatchAll_watched_unchanged g ss, fun k hk => offered_of_watched g hk, hseen,
    dispatchAll_counts g ss, fun name before after => keeping_has_last name before after ss⟩

/-- a sink that refuses, in front of one that keeps -/
example : let ended := dispatchAll [Sink.refusing "full" .queueFull none, Sink.keeping "last"] ["a", "b"]
    ended.1.map Sink.state = [none, some "b"] ∧ ended.2 = [1, 1] := ⟨rfl, rfl⟩

end OutputGroup

end MetricSurvey

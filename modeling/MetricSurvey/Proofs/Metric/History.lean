/-
Histories: the reports of a registry tell what was called on it.

Any calls are made on a new registry, recordings of all kinds and reports in any order. What a report says is told from the
calls before it (`Tells`), by rules that do not mention the registry: probes and counts stay, and the last of a key counts;
a growing number is told by its growth since the report before; of the samples, only those since the report before are
told, in one distribution for each key.

- `Keeps`: what the registry holds after any calls, told from the calls; `keeps_run` is the induction over them.
- `flatMap_recent`: every sample is recent at one report only, the first that follows it.
- `sum_growth`: growth from report to report adds up to where the number stood at the last report.
- `reports_tell_history`: so the reports tell the history, and nothing is told twice or lost between them.
-/
import Mathlib.Tactic
import Mathlib.Data.List.DropRight
import MetricSurvey.Proofs.Metric.Recording
import MetricSurvey.Proofs.Runs

namespace MetricSurvey

variable {R P α : Type}

/-- what is called on a registry; at a report its probes are read -/
inductive RegistryCall (R P : Type)
  | record (r : Recording R P)
  | report (read : P → R) (time : SurveyTime)

abbrev RegistryCalls (R P : Type) := List (RegistryCall R P)

/-! ## What was called -/

namespace RegistryCall

def isRecord : RegistryCall R P → Bool
  | record _ => true
  | report _ _ => false

/-- what a call names of one kind -/
def noted (kind : Recording R P → List α) : RegistryCall R P → List α
  | record r => kind r
  | report _ _ => []

end RegistryCall

/-- a report that is made: the calls before it, how probes are read, and the time it is for -/
structure Moment (R P : Type) where
  before : RegistryCalls R P
  read : P → R
  time : SurveyTime

namespace RegistryCalls

/-- what the calls name of one kind, in order -/
def noted (kind : Recording R P → List α) (calls : RegistryCalls R P) : List α :=
  calls.flatMap (RegistryCall.noted kind)

/-- the calls up to the last report -/
def settled (calls : RegistryCalls R P) : RegistryCalls R P := calls.rdropWhile RegistryCall.isRecord

/-- the calls since the last report -/
def recent (calls : RegistryCalls R P) : RegistryCalls R P := calls.rtakeWhile RegistryCall.isRecord

/-- where a growing number stood at the last report; before it is set, it stands at zero -/
def standing [Scalar R] (calls : RegistryCalls R P) (k : MetricKey) : R :=
  (Table.under k (calls.settled.noted Recording.rated)).getLast?.getD 0

/-- the reports that are made in the course of some calls, `before` which there were others -/
def momentsAfter (before : RegistryCalls R P) : RegistryCalls R P → List (Moment R P)
  | [] => []
  | .record r :: rest => momentsAfter (before ++ [.record r]) rest
  | .report read time :: rest => ⟨before, read, time⟩ :: momentsAfter (before ++ [.report read time]) rest

/-- the reports that are made in the course of these calls -/
def moments (calls : RegistryCalls R P) : List (Moment R P) := momentsAfter [] calls

variable (calls : RegistryCalls R P) (r : Recording R P) (read : P → R) (time : SurveyTime)

section

variable (kind : Recording R P → List α)

theorem noted_append (more : RegistryCalls R P) : noted kind (calls ++ more) = calls.noted kind ++ noted kind more :=
  List.flatMap_append

theorem noted_record : noted kind (calls ++ [.record r]) = calls.noted kind ++ kind r := by
  rw [noted_append]
  exact congrArg (calls.noted kind ++ ·) (List.append_nil (kind r))

theorem noted_report : noted kind (calls ++ [.report read time]) = calls.noted kind := by
  rw [noted_append]
  exact List.append_nil _

theorem settled_record : settled (calls ++ [.record r]) = calls.settled := List.rdropWhile_concat_pos _ _ _ rfl

theorem settled_report : settled (calls ++ [.report read time]) = calls ++ [.report read time] :=
  List.rdropWhile_concat_neg _ _ _ Bool.false_ne_true

theorem recent_record : recent (calls ++ [.record r]) = calls.recent ++ [.record r] := List.rtakeWhile_concat_pos _ _ _ rfl

theorem recent_report : recent (calls ++ [.report read time]) = [] :=
  List.rtakeWhile_concat_neg _ _ _ Bool.false_ne_true

/-- what was named was named up to the last report or since -/
theorem noted_settled_append_recent : calls.settled.noted kind ++ calls.recent.noted kind = calls.noted kind := by
  rw [← noted_append, settled, recent, List.rdropWhile_append_rtakeWhile]

end

theorem momentsAfter_append (before more : RegistryCalls R P) :
    momentsAfter before (calls ++ more) = momentsAfter before calls ++ momentsAfter (before ++ calls) more := by
  induction calls generalizing before with
  | nil => rw [List.append_nil]; rfl
  | cons c calls ih =>
    have hbefore : before ++ c :: calls = before ++ [c] ++ calls := List.append_cons before c calls
    cases c with
    | record r => rw [List.cons_append, momentsAfter, momentsAfter, ih, hbefore]
    | report read time => rw [List.cons_append, momentsAfter, momentsAfter, ih, hbefore, List.cons_append]

theorem moments_record : moments (calls ++ [.record r]) = calls.moments := by
  rw [moments, momentsAfter_append]
  exact List.append_nil _

theorem moments_report : moments (calls ++ [.report read time]) = calls.moments ++ [⟨calls, read, time⟩] := by
  rw [moments, momentsAfter_append]
  rfl

section

variable [Scalar R]

theorem standing_record : standing (calls ++ [.record r]) = calls.standing := by
  funext k
  rw [standing, settled_record, standing]

/-- at a report, a growing number stands where it was set last -/
theorem standing_report (k : MetricKey) : standing (calls ++ [.report read time]) k =
    (Table.under k (calls.noted Recording.rated)).getLast?.getD 0 := by
  rw [standing, settled_report, noted_report]

omit [Scalar R] in
theorem under_settled_eq_nil {calls : RegistryCalls R P} {k : MetricKey}
    (h : Table.under k (calls.noted Recording.rated) = []) :
    Table.under k (calls.settled.noted Recording.rated) = [] := by
  rw [← noted_settled_append_recent, Table.under_append] at h
  exact (List.append_eq_nil_iff.1 h).1

end

/-- **Every sample is recent at one report only**, the first that follows it. -/
theorem flatMap_recent : (calls.moments.flatMap fun m => m.before.recent.noted Recording.sampled) =
    calls.settled.noted Recording.sampled := by
  induction calls using List.reverseRecOn with
  | nil => rfl
  | append_singleton calls c ih =>
    cases c with
    | record r => rw [moments_record, settled_record, ih]
    | report read time =>
      rw [moments_report, settled_report, noted_report, List.flatMap_append, ih, List.flatMap_singleton,
        noted_settled_append_recent]

end RegistryCalls

open RegistryCalls Table

/-! ## Distributions of samples -/

namespace Distribution

variable [Scalar R]

/-- the distribution of samples added one after another; none of no samples -/
def ofSamples? : List R → Option (Distribution R)
  | [] => none
  | v :: vs => some (vs.foldl addSample (ofSample v))

theorem ofSamples?_snoc (vs : List R) (v : R) :
    ofSamples? (vs ++ [v]) = some ((ofSamples? vs).elim (ofSample v) fun d => d.addSample v) := by
  cases vs with
  | nil => rfl
  | cons w vs => rw [List.cons_append, ofSamples?, List.foldl_append]; rfl

end Distribution

/-- **Samples added one by one make, under each key, the distribution of the samples under it.** -/
theorem get?_addAll_singletons [Scalar R] (l : List (MetricKey × R)) (k : MetricKey) :
    (Table.addAll ∅ (singletons l)).get? k = Distribution.ofSamples? (under k l) := by
  induction l using List.reverseRecOn with
  | nil => rfl
  | append_singleton l e ih =>
    rw [singletons_append, addAll_append, under_append]
    show ((Table.addAll ∅ (singletons l)).add e.1 (.ofSample e.2)).get? k = _
    rw [Table.add]
    by_cases hk : e.1 = k
    · subst hk
      rw [get?_alter_self, ih, under_cons, if_pos rfl]
      exact (Distribution.ofSamples?_snoc _ _).symm
    · rw [get?_alter_of_ne _ (Ne.symm hk), ih, under_cons, if_neg hk]
      exact congrArg Distribution.ofSamples? (List.append_nil _).symm

/-! ## What a report tells -/

/-- a report in its groups -/
structure Groups (R : Type) where
  time : SurveyTime
  probes : List (Named R)
  counts : List (Named R)
  rates : List (Named R)
  dists : List (Named (Distribution R))

/-- the groups of counts one after another -/
def Groups.report (p : Groups R) : Report R where
  time := p.time
  counts := p.probes ++ p.counts ++ p.rates
  dists := p.dists

/-- what is reported under keys -/
def keyed (l : List (Named α)) : List (MetricKey × α) := l.map fun n => (⟨n.name⟩, n.value)

/-- what has something under some keys, listed in the order of these keys, each of them once -/
structure Lists (l : List (Named α)) (f : MetricKey → Option α) : Prop where
  sorted : l.Pairwise fun a b => compare a.name b.name = .lt
  mem_iff : ∀ n, n ∈ l ↔ f ⟨n.name⟩ = some n.value

theorem Lists.congr {l : List (Named α)} {f f' : MetricKey → Option α} (h : Lists l f) (hf : ∀ k, f k = f' k) :
    Lists l f' :=
  funext hf ▸ h

/-- what a report tells of the calls before it -/
structure Tells [Scalar R] (m : Moment R P) (p : Groups R) : Prop where
  time : p.time = m.time
  /-- every probe that was ever registered, the last of its key, as it is read now -/
  probes : Lists p.probes fun k => (under k (m.before.noted Recording.probed)).getLast?.map m.read
  /-- every count that was ever set, with its last value -/
  counts : Lists p.counts fun k => (under k (m.before.noted Recording.counted)).getLast?
  /-- every growing number that was ever set, with its growth since the last report -/
  rates : Lists p.rates fun k =>
    (under k (m.before.noted Recording.rated)).getLast?.map fun v => v - m.before.standing k
  /-- every key that was sampled since the last report, with the distribution of these samples -/
  dists : Lists p.dists fun k => Distribution.ofSamples? (under k (m.before.recent.noted Recording.sampled))

/-! ## What the registry keeps -/

section Keeping

variable [Scalar R]

namespace Registry

/-- one call, and the report that it makes -/
def call (g : Registry R P) : RegistryCall R P → Registry R P × List (Report R)
  | .record r => (g.record r, [])
  | .report read time => ((g.report read time).2, [(g.report read time).1])

/-- the groups of a report -/
def groups (g : Registry R P) (read : P → R) (time : SurveyTime) : Groups R where
  time := time
  probes := named read g.probes
  counts := named id g.counts
  rates := named (fun r => r.current - r.reported) g.rates
  dists := named id g.dists

omit [Scalar R] in
/-- a table is listed in the order of its keys -/
theorem lists_named {ν : Type} (f : ν → α) (t : Table MetricKey ν) : Lists (named f t) fun k => (t.get? k).map f where
  sorted := by
    rw [named, List.pairwise_map]
    exact t.sorted
  mem_iff n := by
    rw [named, List.mem_map, Option.map_eq_some_iff]
    constructor
    · rintro ⟨e, he, rfl⟩
      exact ⟨e.2, get?_eq_some.2 he, rfl⟩
    · rintro ⟨v, hv, hn⟩
      exact ⟨(⟨n.name⟩, v), get?_eq_some.1 hv, by rw [hn]⟩

end Registry

/-- what a registry keeps after some calls -/
structure Keeps (g : Registry R P) (calls : RegistryCalls R P) : Prop where
  probes : g.probes = .ofList (calls.noted Recording.probed)
  counts : g.counts = .ofList (calls.noted Recording.counted)
  rates : g.rates = (Table.ofList (calls.noted Recording.rated)).mapValues fun k v => ⟨v, calls.standing k⟩
  dists : g.dists = Table.addAll ∅ (singletons (calls.recent.noted Recording.sampled))

namespace Keeps

variable {g : Registry R P} {calls : RegistryCalls R P}

theorem empty : Keeps (.empty : Registry R P) [] := ⟨rfl, rfl, rfl, rfl⟩

theorem record (h : Keeps g calls) (r : Recording R P) : Keeps (g.record r) (calls ++ [.record r]) where
  probes := by rw [Registry.record_eq, noted_record, ofList_append, ← h.probes]
  counts := by rw [Registry.record_eq, noted_record, ofList_append, ← h.counts]
  rates := by
    refine ext_get ?_
    intro k
    rw [Registry.record_eq, Registry.get?_foldl_moved, h.rates, get?_mapValues, get?_mapValues, noted_record, get?_ofList,
      get?_ofList, under_append, List.getLast?_append, standing_record]
    cases (under k r.rated).getLast? with
    | none => rfl
    | some v =>
      -- a number that is set for the first time stood at zero
      cases hold : (under k (calls.noted Recording.rated)).getLast? with
      | none =>
        have hzero : calls.standing k = 0 := by
          rw [standing, under_settled_eq_nil (List.getLast?_eq_none_iff.1 hold)]
          rfl
        rw [hzero]
        rfl
      | some w => rfl
  dists := by
    rw [Registry.record_eq, recent_record, noted_record, singletons_append, addAll_append, h.dists]

theorem report (h : Keeps g calls) (read : P → R) (time : SurveyTime) :
    Keeps (g.report read time).2 (calls ++ [.report read time]) where
  probes := by rw [noted_report]; exact h.probes
  counts := by rw [noted_report]; exact h.counts
  rates := by
    refine ext_get ?_
    intro k
    have hrates : (g.report read time).2.rates = g.rates.mapValues fun _ r => ⟨r.current, r.current⟩ := rfl
    rw [hrates, h.rates, get?_mapValues, get?_mapValues, get?_mapValues, noted_report, standing_report, get?_ofList]
    cases (under k (calls.noted Recording.rated)).getLast? <;> rfl
  dists := by rw [recent_report]; rfl

/-- **A report tells what was called.** -/
theorem tells (h : Keeps g calls) (read : P → R) (time : SurveyTime) : Tells ⟨calls, read, time⟩ (g.groups read time) where
  time := rfl
  probes := (Registry.lists_named read g.probes).congr fun k => by rw [h.probes, get?_ofList]
  counts := (Registry.lists_named id g.counts).congr fun k => by rw [h.counts, get?_ofList, Option.map_id_apply]
  rates := (Registry.lists_named (fun r : Rate R => r.current - r.reported) g.rates).congr fun k => by
    rw [h.rates, get?_mapValues, get?_ofList, Option.map_map]
    rfl
  dists := (Registry.lists_named id g.dists).congr fun k => by
    rw [h.dists, Option.map_id_apply, get?_addAll_singletons]

end Keeps

end Keeping

/-! ## Runs -/

/-- what the registry is after these calls on a new one, and the reports made, in order -/
def RegistryCalls.run [Scalar R] (calls : RegistryCalls R P) : Registry R P × List (Report R) :=
  collect Registry.call .empty calls

/-- the groups of the reports that are made in the course of these calls -/
structure Chronicle [Scalar R] (calls : RegistryCalls R P) (groups : List (Groups R)) : Prop where
  /-- these are the reports, one for each time that one is made -/
  made : calls.run.2 = groups.map Groups.report
  /-- each tells of the calls before it -/
  told : List.Forall₂ Tells calls.moments groups
  /-- the samples that they tell of are those recorded before the last report, each once and in order -/
  once : (calls.moments.flatMap fun m => m.before.recent.noted Recording.sampled) =
    calls.settled.noted Recording.sampled

namespace RegistryCalls

section

variable [Scalar R] (calls : RegistryCalls R P)

theorem run_snoc (c : RegistryCall R P) : run (calls ++ [c]) =
    ((calls.run.1.call c).1, calls.run.2 ++ (calls.run.1.call c).2) := collect_snoc _ _ _ _

/-- **After any calls, the registry keeps what they say.** -/
theorem keeps_run : Keeps calls.run.1 calls := by
  induction calls using List.reverseRecOn with
  | nil => exact .empty
  | append_singleton calls c ih =>
    rw [run_snoc]
    cases c with
    | record r => exact ih.record r
    | report read time => exact ih.report read time

theorem exists_chronicle : ∃ groups, Chronicle calls groups := by
  induction calls using List.reverseRecOn with
  | nil => exact ⟨[], rfl, .nil, rfl⟩
  | append_singleton calls c ih =>
    obtain ⟨groups, h⟩ := ih
    cases c with
    | record r =>
      refine ⟨groups, ?_, ?_, flatMap_recent _⟩
      · rw [run_snoc, ← h.made]
        exact List.append_nil _
      · rw [moments_record]
        exact h.told
    | report read time =>
      refine ⟨groups ++ [(run calls).1.groups read time], ?_, ?_, flatMap_recent _⟩
      · rw [run_snoc, List.map_append, ← h.made]
        rfl
      · rw [moments_report]
        exact List.rel_append h.told (.cons ((keeps_run calls).tells read time) .nil)

end

/-! ## Sums over all reports -/

variable {calls : RegistryCalls Exact P} {k : MetricKey}

theorem standing_isFinite (hfinite : ∀ v ∈ under k (calls.noted Recording.rated), Scalar.isFinite v = true) :
    Scalar.isFinite (calls.standing k) = true := by
  rw [standing]
  cases hlast : (under k (calls.settled.noted Recording.rated)).getLast? with
  | none => exact Exact.isFinite_zero
  | some v =>
    refine hfinite v ?_
    rw [← noted_settled_append_recent, under_append]
    exact List.mem_append_left _ (List.mem_of_getLast? hlast)

/-- **Growth adds up** to where the number stood at the last report. -/
theorem sum_growth (hfinite : ∀ v ∈ under k (calls.noted Recording.rated), Scalar.isFinite v = true) :
    (calls.moments.flatMap fun m => ((under k (m.before.noted Recording.rated)).getLast?.map
      fun v => v - m.before.standing k).toList).sum = calls.standing k := by
  induction calls using List.reverseRecOn with
  | nil => rfl
  | append_singleton calls c ih =>
    cases c with
    | record r =>
      rw [noted_record, under_append] at hfinite
      rw [moments_record, standing_record, ih fun v hv => hfinite v (List.mem_append_left _ hv)]
    | report read time =>
      rw [noted_report] at hfinite
      rw [moments_report, standing_report, List.flatMap_append, List.sum_append, ih hfinite, List.flatMap_singleton]
      cases hlast : (under k (noted Recording.rated calls)).getLast? with
      | none =>
        rw [standing, under_settled_eq_nil (List.getLast?_eq_none_iff.1 hlast)]
        exact add_zero (0 : Exact)
      | some v =>
        calc standing calls k + [v - standing calls k].sum = standing calls k + (v - standing calls k) := by
              rw [List.sum_singleton]
          _ = v := Exact.add_sub_cancel_of_isFinite (standing_isFinite hfinite) (hfinite v (List.mem_of_getLast? hlast))

end RegistryCalls

/-- samples total, under each key, their distribution -/
theorem total_singletons (l : List (MetricKey × Exact)) (k : MetricKey) : total k (singletons l) =
    ((Distribution.ofSamples? (under k l)).toList.map WithZero.coe).sum := by
  have hamount : total k (singletons l) = (Table.addAll ∅ (singletons l)).amount k := by
    rw [amount_addAll, amount_emptyc, zero_add]
  rw [hamount, amount, get?_addAll_singletons]
  cases Distribution.ofSamples? (under k l) with
  | none => rfl
  | some d => exact (add_zero (d : WithZero (Distribution Exact))).symm

/-- under a key, a list has what it is of -/
theorem Lists.under_keyed {l : List (Named α)} {f : MetricKey → Option α} (h : Lists l f) (k : MetricKey) :
    under k (keyed l) = (f k).toList := by
  have hsorted : (keyed l).Pairwise fun a b => compare a.1 b.1 = .lt := by
    rw [keyed, List.pairwise_map]
    exact h.sorted
  have hfind : find k (keyed l) = f k := by
    ext v
    rw [find_eq_some hsorted, keyed, List.mem_map]
    constructor
    · rintro ⟨n, hn, he⟩
      cases he
      exact (h.mem_iff n).1 hn
    · intro hv
      exact ⟨⟨k.text, v⟩, (h.mem_iff _).2 hv, rfl⟩
  rw [under_eq_find k (nodup_keys ⟨keyed l, hsorted⟩), hfind]

/-- under a key, the reports together have what each of them tells -/
theorem under_flatMap [Scalar R] {group : Groups R → List (Named α)} {f : Moment R P → MetricKey → Option α}
    (hgroup : ∀ {m p}, Tells m p → Lists (group p) (f m)) {ms : List (Moment R P)} {groups : List (Groups R)}
    (told : List.Forall₂ Tells ms groups) (k : MetricKey) :
    under k (groups.flatMap fun p => keyed (group p)) = ms.flatMap fun m => (f m k).toList := by
  induction told with
  | nil => rfl
  | cons h _ ih => rw [List.flatMap_cons, List.flatMap_cons, under_append, ih, (hgroup h).under_keyed]

/-- **The distributions of all reports together are that of the samples they tell of.** -/
theorem total_dists {ms : List (Moment Exact P)} {groups : List (Groups Exact)} (told : List.Forall₂ Tells ms groups)
    (k : MetricKey) : total k (groups.flatMap fun p => keyed p.dists) =
      total k (singletons (ms.flatMap fun m => m.before.recent.noted Recording.sampled)) := by
  rw [total_eq_sum, under_flatMap Tells.dists told k]
  clear told
  induction ms with
  | nil => rfl
  | cons m ms ih =>
    rw [List.flatMap_cons, List.flatMap_cons, List.map_append, List.sum_append, ← total_singletons, ih, singletons_append,
      total_append]

/-! ## The law -/

/-- **The reports tell the history.** Whatever is called on a new registry,

- there is one report for each time that one is made, and it tells of the calls before it;
- the samples that the reports tell of are those recorded before the last of them, each in one report only;
- with exact numbers, the growth that they tell adds up to where a growing number stood at the last report, and their
  distributions merge into that of all samples recorded before it. -/
theorem RegistryCalls.reports_tell_history :
    (∀ {R P : Type} [Scalar R] (calls : RegistryCalls R P), ∃ groups, Chronicle calls groups) ∧
    ∀ {P : Type} {calls : RegistryCalls Exact P} {groups : List (Groups Exact)}, Chronicle calls groups →
      ∀ k, ((∀ v ∈ under k (calls.noted Recording.rated), Scalar.isFinite v = true) →
          (under k (groups.flatMap fun p => keyed p.rates)).sum = calls.standing k) ∧
        total k (groups.flatMap fun p => keyed p.dists) =
          total k (singletons (calls.settled.noted Recording.sampled)) := by
  refine ⟨exists_chronicle, ?_⟩
  intro P calls groups h k
  constructor
  · intro hfinite
    rw [under_flatMap Tells.rates h.told k]
    exact sum_growth hfinite
  · rw [total_dists h.told k, h.once]

/-- every kind of call: a number that shrinks, a key with no samples, counts set twice at once, a probe replaced, and a
sample that no report follows -/
def mixedCalls : RegistryCalls Exact ℚ :=
  [.record (.probe ⟨"mem"⟩ 1), .record (.count ⟨"queue"⟩ (.finite 4)), .record (.rate ⟨"bytes"⟩ (.finite 100)),
    .record (.samples [(⟨"rtt"⟩, [.finite 3, .finite 1]), (⟨"idle"⟩, [])]),
    .report .finite 1000,
    .record (.counts [(⟨"queue"⟩, .finite 7), (⟨"jobs"⟩, .finite 1), (⟨"jobs"⟩, .finite 2)]),
    .record (.rate ⟨"bytes"⟩ (.finite 40)), .record (.sample ⟨"size"⟩ (.finite 5)), .record (.probe ⟨"mem"⟩ 2),
    .report (fun p => .finite (10 * p)) 1010,
    .record (.rate ⟨"bytes"⟩ (.finite 60)), .record (.sample ⟨"rtt"⟩ (.finite 9)),
    .report .finite 1020,
    .record (.sample ⟨"rtt"⟩ (.finite 8))]

theorem RegistryCalls.reports_tell_history_mixed :
    mixedCalls.run.2 =
      [{ time := 1000
         counts := [⟨"mem", .finite 1⟩, ⟨"queue", .finite 4⟩, ⟨"bytes", .finite 100⟩]
         dists := [⟨"rtt", ⟨.finite 2, .finite 1, .finite 3, .finite 4, .finite 10⟩⟩] },
        { time := 1010
          counts := [⟨"mem", .finite 20⟩, ⟨"jobs", .finite 2⟩, ⟨"queue", .finite 7⟩, ⟨"bytes", .finite (-60)⟩]
          dists := [⟨"size", ⟨.finite 1, .finite 5, .finite 5, .finite 5, .finite 25⟩⟩] },
        { time := 1020
          counts := [⟨"mem", .finite 2⟩, ⟨"jobs", .finite 2⟩, ⟨"queue", .finite 7⟩, ⟨"bytes", .finite 20⟩]
          dists := [⟨"rtt", ⟨.finite 1, .finite 9, .finite 9, .finite 9, .finite 81⟩⟩] }] ∧
    ∃ groups, Chronicle mixedCalls groups ∧
      (∀ v ∈ under ⟨"bytes"⟩ (mixedCalls.noted Recording.rated), Scalar.isFinite v = true) ∧
      (under ⟨"bytes"⟩ (groups.flatMap fun p => keyed p.rates)).sum = .finite 60 ∧
      total ⟨"rtt"⟩ (groups.flatMap fun p => keyed p.dists) =
        ((⟨.finite 3, .finite 1, .finite 9, .finite 13, .finite 91⟩ : Distribution Exact) :
          WithZero (Distribution Exact)) := by
  refine ⟨by decide +kernel, ?_⟩
  obtain ⟨groups, h⟩ := reports_tell_history.1 mixedCalls
  have hfinite : ∀ v ∈ under ⟨"bytes"⟩ (mixedCalls.noted Recording.rated), Scalar.isFinite v = true := by
    decide +kernel
  refine ⟨groups, h, hfinite, ?_, ?_⟩
  · rw [(reports_tell_history.2 h ⟨"bytes"⟩).1 hfinite]
    decide +kernel
  · rw [(reports_tell_history.2 h ⟨"rtt"⟩).2]
    decide +kernel

end MetricSurvey

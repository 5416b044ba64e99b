/-
Pre-aggregation: samples that clients put into distributions before they report them.

Several clients record and report in any order; `call` is one of their calls and puts out the report that it makes. Of the
samples recorded so far some are `reported`, because their client has reported since, and the others are `pending`.

- `reported_report`: a report reports what is pending with its client.
- `Accounts`: what every client keeps is what is pending with it, and what the reports carry is what is reported;
  `accounts_run` is the induction over the calls.
- `preaggregation_invisible`: the reports of all clients, merged in any order, make the distributions that the reported
  samples make when they are added one by one, and none is rejected.
-/
import MetricSurvey.Proofs.Metric.Recording
import MetricSurvey.Proofs.Runs

namespace MetricSurvey

variable {ι R P : Type} [DecidableEq ι]

/-- what a client does with its registry; at a report its probes are read -/
inductive ClientCall (R P : Type)
  | record (r : Recording R P)
  | report (read : P → R)

/-- a call of one of the clients -/
abbrev ClientCalls (ι R P : Type) := List (ι × ClientCall R P)

/-! ## Samples -/

/-- the samples that a call records, in order -/
def ClientCall.sampled : ClientCall R P → List (MetricKey × R)
  | .record r => r.sampled
  | .report _ => []

namespace ClientCalls

/-- whether a client reports in the course of these calls -/
def reports (i : ι) : ClientCalls ι R P → Bool
  | [] => false
  | (_, .record _) :: rest => reports i rest
  | (j, .report _) :: rest => decide (i = j) || reports i rest

/-- the samples that were recorded before the last report of their client, in the order of recording -/
def reported : ClientCalls ι R P → List (MetricKey × R)
  | [] => []
  | (i, .record r) :: rest => (if reports i rest then r.sampled else []) ++ reported rest
  | (_, .report _) :: rest => reported rest

/-- the samples that a client recorded after its last report, in the order of recording -/
def pending (i : ι) : ClientCalls ι R P → List (MetricKey × R)
  | [] => []
  | (j, .record r) :: rest => (if i = j && !reports i rest then r.sampled else []) ++ pending i rest
  | (_, .report _) :: rest => pending i rest

theorem reports_append (i : ι) (l m : ClientCalls ι R P) : reports i (l ++ m) = (reports i l || reports i m) := by
  induction l with
  | nil => rfl
  | cons c l ih =>
    rcases c with ⟨j, r | read⟩
    · exact ih
    · rw [List.cons_append, reports, reports, ih, Bool.or_assoc]

theorem reported_record (l : ClientCalls ι R P) (i : ι) (r : Recording R P) :
    reported (l ++ [(i, .record r)]) = reported l := by
  induction l with
  | nil => rfl
  | cons c l ih =>
    rcases c with ⟨j, s | read⟩
    · rw [List.cons_append, reported, reported, ih, reports_append, reports, reports, Bool.or_false]
    · exact ih

theorem pending_record (l : ClientCalls ι R P) (i j : ι) (r : Recording R P) :
    pending i (l ++ [(j, .record r)]) = pending i l ++ if i = j then r.sampled else [] := by
  induction l with
  | nil => simp [pending, reports]
  | cons c l ih =>
    rcases c with ⟨k, s | read⟩
    · rw [List.cons_append, pending, pending, ih, reports_append, reports, reports, Bool.or_false, List.append_assoc]
    · exact ih

/-- after a report, nothing is pending with its client -/
theorem pending_report (l : ClientCalls ι R P) (i j : ι) (read : P → R) :
    pending i (l ++ [(j, .report read)]) = if i = j then [] else pending i l := by
  induction l with
  | nil => simp [pending]
  | cons c l ih =>
    rcases c with ⟨k, s | read⟩
    · rw [List.cons_append, pending, pending, ih, reports_append, reports, reports, Bool.or_false]
      by_cases hij : i = j
      · simp [hij]
      · simp [hij]
    · exact ih

/-- **A report reports what is pending with its client.** -/
theorem reported_report (l : ClientCalls ι R P) (i : ι) (read : P → R) :
    (reported (l ++ [(i, .report read)])).Perm (reported l ++ pending i l) := by
  induction l with
  | nil => exact .refl _
  | cons c l ih =>
    rcases c with ⟨j, r | read⟩
    · rw [List.cons_append, reported, reported, pending, reports_append, reports, reports, Bool.or_false]
      -- samples recorded first are reported already, become reported now, or stay with another client
      by_cases hl : reports j l = true
      · have hnot : (i = j && !reports i l) = false := by
          by_cases hij : i = j
          · simp [hij, hl]
          · simp [hij]
        simpa [hl, hnot] using ih.append_left r.sampled
      · by_cases hij : i = j
        · subst hij
          have hmove : (r.sampled ++ reported l).Perm (reported l ++ r.sampled) := List.perm_append_comm
          simpa [hl] using (ih.append_left r.sampled).trans
            (by simpa only [List.append_assoc] using hmove.append_right (pending i l))
        · simpa [hl, hij, Ne.symm hij] using ih
    · exact ih

end ClientCalls

/-! ## Runs -/

namespace Clients

variable [Scalar R]

/-- one call; a report is for `time` -/
def call (time : SurveyTime) (g : ι → Registry R P) (c : ι × ClientCall R P) : (ι → Registry R P) × List (Report R) :=
  match c.2 with
  | .record r => (Function.update g c.1 ((g c.1).record r), [])
  | .report read => (Function.update g c.1 ((g c.1).report read time).2, [((g c.1).report read time).1])

/-- what the registries hold after calls on new ones, and the reports made, in order -/
def run (time : SurveyTime) (calls : ClientCalls ι R P) : (ι → Registry R P) × List (Report R) :=
  collect (call time) (fun _ => .empty) calls

theorem reports_record (time : SurveyTime) (calls : ClientCalls ι R P) (i : ι) (r : Recording R P) :
    (run time (calls ++ [(i, .record r)])).2 = (run time calls).2 := by
  unfold run
  rw [collect_snoc]
  exact List.append_nil _

/-- recording adds the samples to what the client keeps, and to nothing else -/
theorem dists_record (time : SurveyTime) (calls : ClientCalls ι R P) (i j : ι) (r : Recording R P) :
    ((run time (calls ++ [(i, .record r)])).1 j).dists =
      ((run time calls).1 j).dists.addAll (singletons (if j = i then r.sampled else [])) := by
  unfold run
  rw [collect_snoc]
  dsimp only [call]
  by_cases hj : j = i
  · subst hj
    rw [Function.update_self, if_pos rfl, Registry.dists_record]
  · rw [Function.update_of_ne hj, if_neg hj]
    rfl

theorem reports_report (time : SurveyTime) (calls : ClientCalls ι R P) (i : ι) (read : P → R) :
    (run time (calls ++ [(i, .report read)])).2 =
      (run time calls).2 ++ [(((run time calls).1 i).report read time).1] := by
  unfold run
  rw [collect_snoc]
  rfl

/-- a report leaves nothing with its client -/
theorem dists_report (time : SurveyTime) (calls : ClientCalls ι R P) (i j : ι) (read : P → R) :
    ((run time (calls ++ [(i, .report read)])).1 j).dists = if j = i then ∅ else ((run time calls).1 j).dists := by
  unfold run
  rw [collect_snoc]
  dsimp only [call]
  by_cases hj : j = i
  · subst hj
    rw [Function.update_self, if_pos rfl]
    rfl
  · rw [Function.update_of_ne hj, if_neg hj]

/-- every sample recorded by these calls is finite -/
def FiniteSamples (calls : ClientCalls ι R P) : Prop := ∀ c ∈ calls, ∀ e ∈ c.2.sampled, Scalar.isFinite e.2 = true

open ClientCalls Table

/-- where every recorded sample is after some calls -/
structure Accounts (time : SurveyTime) (calls : ClientCalls ι Exact P) : Prop where
  /-- every client keeps what is pending with it -/
  kept : ∀ i, ((run time calls).1 i).dists = Table.addAll ∅ (singletons (pending i calls))
  /-- the reports carry what is reported -/
  carried : ∀ k, total k ((run time calls).2.flatMap Report.keyedDists) = total k (singletons (reported calls))
  /-- what is kept can be distributions -/
  sound : ∀ i, ∀ e ∈ ((run time calls).1 i).dists.toList, e.2.isAdmissible = true
  /-- nothing in the reports is rejected -/
  taken : ∀ r ∈ (run time calls).2, r.refused = 0

variable {time : SurveyTime} {calls : ClientCalls ι Exact P}

theorem accounts_nil : Accounts time ([] : ClientCalls ι Exact P) where
  kept _ := rfl
  carried _ := rfl
  sound _ e he := by cases he
  taken r hr := by cases hr

theorem Accounts.record (h : Accounts time calls) (i : ι) {r : Recording Exact P}
    (hr : ∀ e ∈ r.sampled, Scalar.isFinite e.2 = true) : Accounts time (calls ++ [(i, .record r)]) where
  kept j := by
    rw [dists_record, pending_record, h.kept, singletons_append, addAll_append]
  carried k := by
    rw [reports_record, reported_record]
    exact h.carried k
  sound j := by
    rw [dists_record]
    refine forall_addAll (p := fun d : Distribution Exact => d.isAdmissible = true)
      Distribution.isAdmissible_add (h.sound j) ?_
    intro e he
    obtain ⟨x, hx, rfl⟩ := List.mem_map.1 he
    split at hx
    · exact Distribution.isAdmissible_ofSample (hr x hx)
    · cases hx
  taken := by
    rw [reports_record]
    exact h.taken

theorem Accounts.report (h : Accounts time calls) (i : ι) (read : P → Exact) :
    Accounts time (calls ++ [(i, .report read)]) where
  kept j := by
    rw [dists_report, pending_report, h.kept]
    split <;> rfl
  carried k := by
    have hnew : total k (((run time calls).1 i).report read time).1.keyedDists =
        total k (singletons (pending i calls)) := by
      rw [(Registry.keyedDists_report _ read time (h.sound i)).1, total_toList, h.kept, amount_addAll, amount_emptyc,
        zero_add]
    have hsamples : (singletons (reported (calls ++ [(i, .report read)]))).Perm
        (singletons (reported calls) ++ singletons (pending i calls)) := by
      rw [← singletons_append]
      exact (reported_report calls i read).map _
    rw [reports_report, List.flatMap_append, List.flatMap_singleton, total_append, h.carried, hnew, total_perm k hsamples,
      total_append]
  sound j := by
    rw [dists_report]
    split
    · intro e he
      cases he
    · exact h.sound j
  taken r hr := by
    rw [reports_report, List.mem_append, List.mem_singleton] at hr
    rcases hr with hr | rfl
    · exact h.taken r hr
    · exact (Registry.keyedDists_report _ read time (h.sound i)).2

theorem accounts_run (hfinite : FiniteSamples calls) : Accounts time calls := by
  induction calls using List.reverseRecOn with
  | nil => exact accounts_nil
  | append_singleton calls c ih =>
    have h : Accounts time calls := ih fun x hx => hfinite x (List.mem_append_left _ hx)
    rcases c with ⟨i, r | read⟩
    · exact h.record i (hfinite (i, .record r) (List.mem_append_right _ List.mem_cons_self))
    · exact h.report i read

/-! ## Merging the reports -/

/-- the samples that are reported, as a client would send them raw -/
def reportedValues (calls : ClientCalls ι R P) : List (Named R) := (reported calls).map fun e => ⟨e.1.text, e.2⟩

/-- **Pre-aggregation is invisible.** The reports of all clients, merged in any order, make the same distributions as
the reported samples added one by one in any order, and none of them is rejected. -/
theorem preaggregation_invisible (time : SurveyTime) {calls : ClientCalls ι Exact P} (hfinite : FiniteSamples calls)
    {merged : List (Report Exact)} (hmerged : merged.Perm (run time calls).2) {raw : List (Named Exact)}
    (hraw : raw.Perm (reportedValues calls)) :
    (Snapshot.mergeAll (.new time) merged).2 = 0 ∧
      ∀ name, (Snapshot.mergeAll (.new time) merged).1.dist name =
        (raw.foldl Snapshot.addValue (.new time)).dist name := by
  have h : Accounts time calls := accounts_run hfinite
  constructor
  · rw [Snapshot.mergeAll_snd, List.sum_eq_zero_iff]
    intro n hn
    obtain ⟨r, hr, rfl⟩ := List.mem_map.1 hn
    exact h.taken r (hmerged.subset hr)
  · intro name
    have hreports : (Snapshot.mergeAll (.new time) merged).1.dists.amount ⟨name⟩ =
        total ⟨name⟩ (singletons (reported calls)) := by
      rw [Snapshot.amount_mergeAll, total_perm _ (hmerged.flatMap_right _), h.carried]
      exact zero_add _
    have hsamples : (raw.foldl Snapshot.addValue (.new time)).dists.amount ⟨name⟩ =
        total ⟨name⟩ (singletons (reported calls)) := by
      rw [(Snapshot.tables_foldl_addValue _ _).2, amount_addAll, total_perm _ (hraw.map _), reportedValues, List.map_map]
      exact zero_add _
    exact hreports.trans hsamples.symm

/-- two clients: what the first records after its only report, and the second after its last, stays with them -/
def twoClients : ClientCalls Bool Exact Unit :=
  [(false, .record (.sample ⟨"rtt"⟩ (.finite 3))),
    (true, .record (.samples [(⟨"rtt"⟩, [.finite 1, .finite 5]), (⟨"idle"⟩, [])])),
    (true, .report fun _ => .finite 0),
    (false, .report fun _ => .finite 0),
    (false, .record (.sample ⟨"rtt"⟩ (.finite 4))),
    (true, .record (.sample ⟨"size"⟩ (.finite (1 / 2)))),
    (true, .report fun _ => .finite 0),
    (true, .record (.sample ⟨"rtt"⟩ (.finite 9)))]

theorem preaggregation_invisible_twoClients :
    FiniteSamples twoClients ∧ (run 1000 twoClients).2.reverse.Perm (run 1000 twoClients).2 ∧
      (reportedValues twoClients).reverse.Perm (reportedValues twoClients) ∧
      (Snapshot.mergeAll (.new 1000) (run 1000 twoClients).2.reverse).2 = 0 ∧
      (∀ name, (Snapshot.mergeAll (.new 1000) (run 1000 twoClients).2.reverse).1.dist name =
        ((reportedValues twoClients).reverse.foldl Snapshot.addValue (.new 1000)).dist name) ∧
      (Snapshot.mergeAll (.new 1000) (run 1000 twoClients).2.reverse).1.dist "rtt" =
        some ⟨.finite 3, .finite 1, .finite 5, .finite 9, .finite 35⟩ ∧
      reportedValues twoClients =
        [⟨"rtt", .finite 3⟩, ⟨"rtt", .finite 1⟩, ⟨"rtt", .finite 5⟩, ⟨"size", .finite (1 / 2)⟩] := by
  have hfinite : FiniteSamples twoClients := by
    unfold FiniteSamples twoClients
    decide
  have hreports := (run 1000 twoClients).2.reverse_perm
  have hvalues := (reportedValues twoClients).reverse_perm
  obtain ⟨htaken, hdists⟩ := preaggregation_invisible 1000 hfinite hreports hvalues
  exact ⟨hfinite, hreports, hvalues, htaken, hdists, by decide +kernel, by decide +kernel⟩

end Clients

end MetricSurvey

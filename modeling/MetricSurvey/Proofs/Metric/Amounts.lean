/-
Amounts under keys: tables that grow by adding to what is held under one key.

Counters and distributions are kept in tables of this kind. What such a table holds under a key is a sum in which no entry
counts as zero (`WithZero`), so a table that was added to is known by one sum for each key.

- `amount_addAll`: adding a list adds, under each key, the total of what the list has for it.
- `addAll_perm`: the order in which a list is added does not matter.
- `total_toList`: the entries of a table total what the table holds.
-/
import Mathlib.Algebra.BigOperators.Group.List.Basic
import Mathlib.Algebra.Group.WithOne.Defs
import MetricSurvey.Proofs.Table

namespace MetricSurvey.Table

variable {κ ν : Type} [Ord κ]

/-- what a table holds under a key; no entry counts as zero -/
def amount (t : Table κ ν) (k : κ) : WithZero ν := t.get? k

@[simp] theorem amount_emptyc (k : κ) : (∅ : Table κ ν).amount k = 0 := rfl

variable [Std.TransOrd κ]

/-- **A table is what it holds.** -/
theorem ext_amount [Std.LawfulEqOrd κ] {t u : Table κ ν} (h : ∀ k, t.amount k = u.amount k) : t = u := ext_get h

section Adding

variable [Add ν]

/-- add to what is held under a key -/
def add (t : Table κ ν) (k : κ) (v : ν) : Table κ ν :=
  t.alter k fun old => some (old.elim v (· + v))

/-- add what a list has, one after another -/
def addAll (t : Table κ ν) (l : List (κ × ν)) : Table κ ν := l.foldl (fun t e => t.add e.1 e.2) t

theorem addAll_cons (t : Table κ ν) (e : κ × ν) (l : List (κ × ν)) : t.addAll (e :: l) = (t.add e.1 e.2).addAll l := rfl

theorem addAll_append (t : Table κ ν) (l m : List (κ × ν)) : t.addAll (l ++ m) = (t.addAll l).addAll m :=
  List.foldl_append

end Adding

variable [DecidableEq κ] [AddCommSemigroup ν]

/-! ## Totals -/

/-- all that a list has for a key -/
def total (k : κ) (l : List (κ × ν)) : WithZero ν := (l.map fun e => if e.1 = k then (e.2 : WithZero ν) else 0).sum

section

omit [Ord κ] [Std.TransOrd κ]

theorem total_cons (k : κ) (e : κ × ν) (l : List (κ × ν)) :
    total k (e :: l) = (if e.1 = k then (e.2 : WithZero ν) else 0) + total k l := by
  rw [total, List.map_cons, List.sum_cons, total]

theorem total_append (k : κ) (l m : List (κ × ν)) : total k (l ++ m) = total k l + total k m := by
  rw [total, List.map_append, List.sum_append, total, total]

theorem total_perm (k : κ) {l m : List (κ × ν)} (h : l.Perm m) : total k l = total k m := (h.map _).sum_eq

/-- a total is the sum of what the list has under the key -/
theorem total_eq_sum (k : κ) (l : List (κ × ν)) : total k l = ((under k l).map WithZero.coe).sum := by
  induction l with
  | nil => rfl
  | cons e l ih =>
    rw [total_cons, ih, under_cons]
    split_ifs
    · rfl
    · rw [zero_add]

end

variable [Std.LawfulEqOrd κ]

omit [Std.TransOrd κ] in
/-- **The entries of a table total what it holds.** -/
theorem total_toList (t : Table κ ν) (k : κ) : total k t.toList = t.amount k := by
  have hunder : under k t.toList = (t.get? k).toList := under_eq_find k (nodup_keys t)
  rw [total_eq_sum, hunder, amount]
  cases t.get? k with
  | none => rfl
  | some v => exact add_zero (v : WithZero ν)

/-! ## Sums -/

theorem amount_add (t : Table κ ν) (k j : κ) (v : ν) :
    (t.add k v).amount j = t.amount j + if k = j then (v : WithZero ν) else 0 := by
  unfold amount add
  by_cases hk : k = j
  · subst hk
    rw [get?_alter_self, if_pos rfl]
    cases t.get? k with
    | none => exact (zero_add (v : WithZero ν)).symm
    | some w => rfl
  · rw [get?_alter_of_ne t (Ne.symm hk), if_neg hk]
    exact (add_zero (t.amount j)).symm

/-- **Adding a list adds its total under each key.** -/
theorem amount_addAll (t : Table κ ν) (l : List (κ × ν)) (k : κ) : (t.addAll l).amount k = t.amount k + total k l := by
  induction l generalizing t with
  | nil => exact (add_zero (t.amount k)).symm
  | cons e l ih => rw [addAll_cons, ih, amount_add, total_cons, add_assoc]

/-- **The order of additions does not matter.** -/
theorem addAll_perm (t : Table κ ν) {l m : List (κ × ν)} (h : l.Perm m) : t.addAll l = t.addAll m := by
  refine ext_amount ?_
  intro k
  rw [amount_addAll, amount_addAll, total_perm k h]

/-! ## Values -/

omit [DecidableEq κ] in
/-- what holds of all values, and of all that is added, holds of all values afterwards, if addition keeps it -/
theorem forall_addAll {p : ν → Prop} (hadd : ∀ {v w}, p v → p w → p (v + w)) {t : Table κ ν}
    (ht : ∀ e ∈ t.toList, p e.2) {l : List (κ × ν)} (hl : ∀ e ∈ l, p e.2) : ∀ e ∈ (t.addAll l).toList, p e.2 := by
  induction l generalizing t with
  | nil => exact ht
  | cons e l ih =>
    refine ih ?_ fun x hx => hl x (List.mem_cons_of_mem e hx)
    intro x hx
    have he : p e.2 := hl e List.mem_cons_self
    have hget : (t.add e.1 e.2).get? x.1 = some x.2 := get?_eq_some.2 hx
    rw [add, get?_alter] at hget
    split at hget
    · cases hold : t.get? e.1 with
      | none =>
        rw [hold] at hget
        rw [← Option.some.inj hget]
        exact he
      | some w =>
        rw [hold] at hget
        rw [← Option.some.inj hget]
        exact hadd (ht (e.1, w) (get?_eq_some.1 hold)) he
    · exact ht x (get?_eq_some.1 hget)

end MetricSurvey.Table

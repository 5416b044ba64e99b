/-
Tables: the laws of the operations that walk over all entries, and of tables used as sets of keys.

- `get?_filter`, `get?_mapValues`: what a filtered or mapped table answers.
- `isEmpty_iff`, `nodup_keys`, `size_eq`: keys as a set.
- `get?_alter_self`, `get?_alter_of_ne`: an operation on one key, seen at that key and at another.
- `contains_alter`, `contains_insert`, `contains_erase`, `contains_modify`: which keys an operation leaves.
- `under_eq_find`, `get?_insertAll`, `get?_ofList`: what a list has under a key, and what a table made of a list answers.
- `get?_foldl_insert`: what a table answers that has taken one value under several keys.
- `mem_of_mem_ofList`, `ofList_toList`: the entries of a table made of a list, and a table made of the entries of a table.
- `keys_ofKeys`: a set made of the keys of a table has the same keys, in the same order.
- `perm_values_erase`, `perm_values_insert`: the values of a table, when an entry is removed or replaced.
-/
import Mathlib.Tactic
import MetricSurvey.Table

namespace MetricSurvey.Table

variable {κ ν μ : Type} [Ord κ]

@[simp] theorem get?_emptyc (k : κ) : (∅ : Table κ ν).get? k = none := rfl

@[simp] theorem isEmpty_emptyc : (∅ : Table κ ν).isEmpty = true := rfl

theorem size_eq (t : Table κ ν) : t.size = t.keys.length := by simp [size, keys]

theorem contains_eq_isSome (t : Table κ ν) (k : κ) : t.contains k = (t.get? k).isSome := rfl

variable [Std.LawfulEqOrd κ]

/-! ## Operations on all entries -/

theorem get?_filter (p : κ → ν → Bool) (t : Table κ ν) (k : κ) : (t.filter p).get? k = (t.get? k).filter (p k) := by
  ext v
  rw [get?_eq_some, Option.filter_eq_some_iff, get?_eq_some]
  exact List.mem_filter

theorem get?_mapValues (f : κ → ν → μ) (t : Table κ ν) (k : κ) : (t.mapValues f).get? k = (t.get? k).map (f k) := by
  ext v
  rw [get?_eq_some, Option.map_eq_some_iff]
  constructor
  · intro h
    obtain ⟨e, he, hev⟩ := List.mem_map.1 h
    cases hev
    exact ⟨e.2, get?_eq_some.2 he, rfl⟩
  · rintro ⟨w, hw, rfl⟩
    exact List.mem_map.2 ⟨(k, w), get?_eq_some.1 hw, rfl⟩

/-! ## Keys -/

theorem isEmpty_iff {t : Table κ ν} : t.isEmpty = true ↔ ∀ k, t.contains k = false := by
  constructor
  · intro h k
    rw [← Bool.not_eq_true, contains_iff, keys, List.isEmpty_iff.1 h]
    simp
  · intro h
    rw [isEmpty, List.isEmpty_iff, List.eq_nil_iff_forall_not_mem]
    intro e he
    have := h e.1
    rw [← Bool.not_eq_true, contains_iff] at this
    exact this (List.mem_map_of_mem he)

theorem isEmpty_eq_false_iff {t : Table κ ν} : t.isEmpty = false ↔ ∃ k, t.contains k = true := by
  rw [← Bool.not_eq_true, isEmpty_iff]
  simp

theorem nodup_keys (t : Table κ ν) : t.keys.Nodup := by
  rw [keys, List.nodup_iff_pairwise_ne, List.pairwise_map]
  exact t.sorted.imp fun {a b} hlt he => by simp [he] at hlt

variable [Std.TransOrd κ]

/-! ## One key -/

@[simp] theorem get?_alter_self (t : Table κ ν) (k : κ) (f : Option ν → Option ν) : (t.alter k f).get? k = f (t.get? k) := by
  rw [get?_alter, if_pos Std.ReflCmp.compare_self]

/-- an operation on one key leaves the others -/
theorem get?_alter_of_ne (t : Table κ ν) {k j : κ} (h : j ≠ k) (f : Option ν → Option ν) :
    (t.alter k f).get? j = t.get? j := by
  rw [get?_alter, if_neg (mt Std.LawfulEqOrd.compare_eq_iff_eq.1 h)]

theorem get?_insert_self (t : Table κ ν) (k : κ) (v : ν) : (t.insert k v).get? k = some v := get?_alter_self t k _

theorem get?_insert_of_ne (t : Table κ ν) {k j : κ} (h : j ≠ k) (v : ν) : (t.insert k v).get? j = t.get? j :=
  get?_alter_of_ne t h _

theorem get?_erase_self (t : Table κ ν) (k : κ) : (t.erase k).get? k = none := get?_alter_self t k _

theorem get?_erase_of_ne (t : Table κ ν) {k j : κ} (h : j ≠ k) : (t.erase k).get? j = t.get? j := get?_alter_of_ne t h _

/-- an operation that always leaves an entry under its key adds the key -/
theorem contains_alter (t : Table κ ν) (k j : κ) {f : Option ν → Option ν} (hf : ∀ old, (f old).isSome = true) :
    (t.alter k f).contains j = true ↔ j = k ∨ t.contains j = true := by
  rw [contains]
  by_cases h : j = k
  · rw [h, get?_alter_self, hf]
    simp
  · rw [get?_alter_of_ne t h, or_iff_right h, contains]

theorem contains_insert (t : Table κ ν) (k j : κ) (v : ν) :
    (t.insert k v).contains j = true ↔ j = k ∨ t.contains j = true := contains_alter t k j fun _ => rfl

theorem contains_erase (t : Table κ ν) (k j : κ) :
    (t.erase k).contains j = true ↔ j ≠ k ∧ t.contains j = true := by
  rw [contains, get?_erase]
  split
  · rename_i h; simp [Std.LawfulEqOrd.compare_eq_iff_eq.1 h]
  · rename_i h; simp [mt Std.LawfulEqOrd.compare_eq_iff_eq.2 h, contains]

theorem contains_modify (t : Table κ ν) (k j : κ) (f : ν → ν) : (t.modify k f).contains j = t.contains j := by
  rw [contains, get?_modify]
  split
  · rename_i h; simp [Std.LawfulEqOrd.compare_eq_iff_eq.1 h, contains]
  · rfl

omit [Std.TransOrd κ] in
theorem contains_filter (p : κ → ν → Bool) (t : Table κ ν) (k : κ) :
    (t.filter p).contains k = true ↔ ∃ v, t.get? k = some v ∧ p k v = true := by
  rw [contains, get?_filter, Option.isSome_iff_exists]
  simp only [Option.filter_eq_some_iff]

omit [Std.LawfulEqOrd κ] [Std.TransOrd κ] in
/-- keeping keys in the table is keeping them in the list of keys -/
theorem keys_filter (q : κ → Bool) (t : Table κ ν) : (t.filter fun k _ => q k).keys = t.keys.filter q := by
  rw [keys, keys, filter, List.filter_map]
  rfl

/-! ## Tables of lists -/

/-- what a list has under a key, in order -/
def under [DecidableEq κ] (k : κ) (l : List (κ × ν)) : List ν := (l.filter fun e => e.1 = k).map Prod.snd

section

omit [Ord κ] [Std.LawfulEqOrd κ] [Std.TransOrd κ]

variable [DecidableEq κ]

theorem mem_under {k : κ} {v : ν} {l : List (κ × ν)} : v ∈ under k l ↔ (k, v) ∈ l := by
  simp [under]

theorem under_append (k : κ) (l m : List (κ × ν)) : under k (l ++ m) = under k l ++ under k m := by
  rw [under, List.filter_append, List.map_append, under, under]

theorem under_cons (k : κ) (e : κ × ν) (l : List (κ × ν)) :
    under k (e :: l) = if e.1 = k then e.2 :: under k l else under k l := by
  by_cases h : e.1 = k <;> simp [under, h]

theorem under_eq_nil {k : κ} {l : List (κ × ν)} (h : k ∉ l.map Prod.fst) : under k l = [] := by
  rw [List.eq_nil_iff_forall_not_mem]
  intro v hv
  exact h (List.mem_map_of_mem (mem_under.1 hv))

end

omit [Std.TransOrd κ] in
/-- where every key stands once, a list has under a key what is found -/
theorem under_eq_find [DecidableEq κ] (k : κ) {l : List (κ × ν)} (hl : (l.map Prod.fst).Nodup) :
    under k l = (find k l).toList := by
  induction l with
  | nil => rfl
  | cons e l ih =>
    rw [List.map_cons, List.nodup_cons] at hl
    rw [under_cons, find]
    by_cases hk : e.1 = k
    · rw [if_pos hk, if_pos (Std.LawfulEqOrd.compare_eq_iff_eq.2 hk.symm), under_eq_nil (hk ▸ hl.1)]
      rfl
    · rw [if_neg hk, if_neg (mt Std.LawfulEqOrd.compare_eq_iff_eq.1 (Ne.symm hk))]
      exact ih hl.2

/-- store what a list has, one after another -/
def insertAll (t : Table κ ν) (l : List (κ × ν)) : Table κ ν := l.foldl (fun t e => t.insert e.1 e.2) t

omit [Std.LawfulEqOrd κ] in
theorem insertAll_cons (t : Table κ ν) (e : κ × ν) (l : List (κ × ν)) :
    t.insertAll (e :: l) = (t.insert e.1 e.2).insertAll l := rfl

omit [Std.LawfulEqOrd κ] in
theorem ofList_append (l m : List (κ × ν)) : ofList (l ++ m) = (ofList l).insertAll m := List.foldl_append

theorem get?_insertAll [DecidableEq κ] (t : Table κ ν) (l : List (κ × ν)) (k : κ) :
    (t.insertAll l).get? k = (under k l).getLast?.or (t.get? k) := by
  induction l generalizing t with
  | nil => rfl
  | cons e l ih =>
    rw [insertAll_cons, ih, under_cons]
    by_cases hk : e.1 = k
    · subst hk
      rw [get?_insert_self, if_pos rfl, List.getLast?_cons]
      cases (under e.1 l).getLast? <;> rfl
    · rw [get?_insert_of_ne t (Ne.symm hk), if_neg hk]

/-- what one value stored under several keys makes of a table -/
theorem get?_foldl_insert [DecidableEq κ] (t : Table κ ν) (keys : List κ) (v : ν) (k : κ) :
    (keys.foldl (fun t k => t.insert k v) t).get? k = if k ∈ keys then some v else t.get? k := by
  induction keys generalizing t with
  | nil => simp
  | cons j keys ih =>
    rw [List.foldl_cons, ih]
    by_cases hk : k = j
    · subst hk
      rw [get?_insert_self]
      simp
    · rw [get?_insert_of_ne t hk]
      simp [hk]

/-- **Of the pairs with one key the last counts.** -/
theorem get?_ofList [DecidableEq κ] (l : List (κ × ν)) (k : κ) : (ofList l).get? k = (under k l).getLast? := by
  show (insertAll empty l).get? k = _
  rw [get?_insertAll, get?_empty, Option.or_none]

/-- the entries of a table made of a list are among those of the list -/
theorem mem_of_mem_ofList {l : List (κ × ν)} {e : κ × ν} (h : e ∈ (ofList l).toList) : e ∈ l := by
  classical
  have hget : (ofList l).get? e.1 = some e.2 := get?_eq_some.2 h
  rw [get?_ofList] at hget
  exact mem_under.1 (List.mem_of_getLast? hget)

/-- **A table made of the entries of a table is that table.** -/
theorem ofList_toList (t : Table κ ν) : Table.ofList t.toList = t := by
  classical
  refine ext_get ?_
  intro k
  have hunder : under k t.toList = (t.get? k).toList := under_eq_find k (nodup_keys t)
  rw [get?_ofList, hunder]
  cases t.get? k <;> rfl

/-! ## Sets of keys -/

/-- a set holds the keys that it was made of -/
theorem contains_ofKeys (l : List κ) (k : κ) :
    (Table.ofList (l.map fun k => (k, ()))).contains k = true ↔ k ∈ l := by
  classical
  rw [contains, get?_ofList, List.getLast?_isSome, ← List.length_pos_iff, List.length_pos_iff_exists_mem]
  simp [mem_under]

/-- two tables of units with the same keys are equal -/
theorem ext_keys {t u : Table κ Unit} (h : ∀ k, t.contains k = true ↔ u.contains k = true) : t = u := by
  refine ext_get fun k => ?_
  have hk := h k
  rw [contains, contains] at hk
  cases ht : t.get? k <;> cases hu : u.get? k <;> simp_all

/-- the keys of a table make a set with the same keys, in the same order -/
theorem keys_ofKeys (t : Table κ ν) : (Table.ofList (t.keys.map fun k => (k, ()))).keys = t.keys := by
  have h : Table.ofList (t.keys.map fun k => (k, ())) = t.mapValues fun _ _ => () := ext_keys fun k => by
    rw [contains_ofKeys, ← contains_iff, contains, contains, get?_mapValues, Option.isSome_map]
  rw [h, keys, mapValues, List.map_map]
  rfl

/-! ## Values -/

omit [Std.TransOrd κ] in
theorem nodup_toList (t : Table κ ν) : t.toList.Nodup := (nodup_keys t).of_map Prod.fst

/-- the entries of a table are the one under a key and those of the table without it -/
theorem perm_toList_erase (t : Table κ ν) (k : κ) :
    t.toList.Perm ((t.get? k).toList.map (fun v => (k, v)) ++ (t.erase k).toList) := by
  refine (List.perm_ext_iff_of_nodup (nodup_toList t) ?_).2 ?_
  · refine List.nodup_append.2 ⟨?_, nodup_toList _, ?_⟩
    · cases t.get? k with
      | none => exact List.nodup_nil
      | some v => exact List.nodup_singleton _
    · rintro e he e' he' rfl
      obtain ⟨v, -, rfl⟩ := List.mem_map.1 he
      have hgone := get?_eq_some.2 he'
      rw [get?_erase_self] at hgone
      cases hgone
  · rintro ⟨j, v⟩
    rw [List.mem_append, List.mem_map, ← get?_eq_some, ← get?_eq_some]
    by_cases hj : j = k
    · subst hj
      rw [get?_erase_self]
      simp
    · rw [get?_erase_of_ne t hj]
      simp [Ne.symm hj]

theorem perm_values_erase (t : Table κ ν) (k : κ) : t.values.Perm ((t.get? k).toList ++ (t.erase k).values) := by
  have hperm := (perm_toList_erase t k).map Prod.snd
  rwa [List.map_append, List.map_map, Function.comp_def, List.map_id'] at hperm

theorem perm_values_insert (t : Table κ ν) (k : κ) (v : ν) : (t.insert k v).values.Perm (v :: (t.erase k).values) := by
  have herase : (t.insert k v).erase k = t.erase k := by
    refine ext_get fun j => ?_
    rw [get?_erase, get?_erase, get?_insert]
    split_ifs <;> rfl
  have hperm := perm_values_erase (t.insert k v) k
  rwa [get?_insert_self, herase] at hperm

end MetricSurvey.Table

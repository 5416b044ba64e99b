/-
Cutting text at a character.

`split c` cuts at every `c`; joining the segments with `c` gives the text back, and no segment holds a `c`. `splitFirst c`
cuts at the first `c` only.
-/
namespace MetricSurvey.Segment

/-- the stretches between the occurrences of `c`; there is always at least one -/
def split (c : Char) : List Char → List (List Char)
  | [] => [[]]
  | x :: rest =>
    if x = c then [] :: split c rest
    else match split c rest with
      | [] => [[x]]
      | s :: more => (x :: s) :: more

/-- what stands before and after the first `c`, if there is one -/
def splitFirst (c : Char) : List Char → Option (List Char × List Char)
  | [] => none
  | x :: rest =>
    if x = c then some ([], rest)
    else (splitFirst c rest).map fun p => (x :: p.1, p.2)

theorem split_ne_nil (c : Char) (s : List Char) : split c s ≠ [] := by
  cases s with
  | nil => simp [split]
  | cons x rest =>
    simp only [split]
    split
    · simp
    · split <;> simp

/-- nothing is cut where no `c` stands -/
theorem split_of_not_mem {c : Char} {s : List Char} (h : c ∉ s) : split c s = [s] := by
  induction s with
  | nil => rfl
  | cons x rest ih =>
    have hx : x ≠ c := fun e => h (e ▸ List.mem_cons_self)
    simp [split, hx, ih fun hm => h (List.mem_cons_of_mem _ hm)]

theorem split_append_cons {c : Char} {s : List Char} (h : c ∉ s) (t : List Char) :
    split c (s ++ c :: t) = s :: split c t := by
  induction s with
  | nil => simp [split]
  | cons x rest ih =>
    have hx : x ≠ c := fun e => h (e ▸ List.mem_cons_self)
    simp [split, hx, ih fun hm => h (List.mem_cons_of_mem _ hm)]

theorem splitFirst_append_cons {c : Char} {s : List Char} (h : c ∉ s) (t : List Char) :
    splitFirst c (s ++ c :: t) = some (s, t) := by
  induction s with
  | nil => simp [splitFirst]
  | cons x rest ih =>
    have hx : x ≠ c := fun e => h (e ▸ List.mem_cons_self)
    simp [splitFirst, hx, ih fun hm => h (List.mem_cons_of_mem _ hm)]

theorem not_mem_of_mem_split {c : Char} {s seg : List Char} (h : seg ∈ split c s) : c ∉ seg := by
  induction s generalizing seg with
  | nil =>
    rw [split, List.mem_singleton] at h
    rw [h]
    exact List.not_mem_nil
  | cons x rest ih =>
    simp only [split] at h
    split at h
    · rcases List.mem_cons.1 h with rfl | h
      · exact List.not_mem_nil
      · exact ih h
    · rename_i hx
      split at h
      · rename_i hnil
        exact absurd hnil (split_ne_nil c rest)
      · rename_i first more hrest
        rw [hrest] at ih
        rcases List.mem_cons.1 h with rfl | h
        · intro hc
          rcases List.mem_cons.1 hc with rfl | hc
          · exact hx rfl
          · exact ih List.mem_cons_self hc
        · exact ih (List.mem_cons_of_mem first h)

/-- the first `c` stands between the two parts -/
theorem of_splitFirst {c : Char} {s : List Char} {p : List Char × List Char} (h : splitFirst c s = some p) :
    s = p.1 ++ c :: p.2 ∧ c ∉ p.1 := by
  induction s generalizing p with
  | nil => cases h
  | cons x rest ih =>
    simp only [splitFirst] at h
    split at h
    · rename_i hx
      cases h
      exact ⟨by rw [hx]; rfl, List.not_mem_nil⟩
    · rename_i hx
      obtain ⟨q, hq, rfl⟩ := Option.map_eq_some_iff.1 h
      obtain ⟨hrest, hfront⟩ := ih hq
      refine ⟨by rw [hrest]; rfl, ?_⟩
      intro hc
      rcases List.mem_cons.1 hc with rfl | hc
      · exact hx rfl
      · exact hfront hc

end MetricSurvey.Segment

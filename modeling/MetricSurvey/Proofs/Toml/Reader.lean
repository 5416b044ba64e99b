/-
Written documents are read back line by line.

- `scalar_write`: a value that fits is read back from the form in which it is written.
- `reads_break`, `reads_header`, `reads_entry`: what a blank line, the header of a table and an entry do to what is read.
- `lines_flatMap`: lines that stand one behind another are read in turn.
-/
import MetricSurvey.Proofs.Toml.Number
import MetricSurvey.Proofs.Toml.TextForm
import MetricSurvey.Toml.Document
import MetricSurvey.Toml.Reader

namespace MetricSurvey.Toml

open Reader

variable {s rest : List Char} {c : Char} {k : String} {v : Setting}

/-! ## Values -/

/-- the value that a setting is read as -/
def Setting.value : Setting → Value
  | .text s => .text s
  | .integer n => .integer n
  | .boolean b => .boolean b

/-- a written text begins with a quote -/
theorem TextForm.write_eq_cons (s : List Char) : ∃ r, write s = '"' :: r ∨ write s = '\'' :: r := by
  unfold write
  cases form s with
  | basic => exact ⟨_, Or.inl rfl⟩
  | literal => exact ⟨_, Or.inr rfl⟩
  | basicLines => exact ⟨_, Or.inl rfl⟩
  | literalLines => exact ⟨_, Or.inr rfl⟩

/-- a written value begins with what neither opens an array or a table nor is blank -/
theorem Setting.write_eq_cons (v : Setting) :
    ∃ c r, v.write = c :: r ∧ c ≠ '[' ∧ c ≠ '\x7b' ∧ TextForm.isBlank c = false := by
  cases v with
  | text s =>
    obtain ⟨r, hr | hr⟩ := TextForm.write_eq_cons s.toList
    · exact ⟨_, r, hr, by decide⟩
    · exact ⟨_, r, hr, by decide⟩
  | integer n =>
    obtain ⟨d, ds, hdigits, hall, -⟩ := Number.digits_cons n
    have hd := hall d List.mem_cons_self
    refine ⟨d, ds, hdigits, ?_, ?_, ?_⟩
    · rintro rfl
      cases hd
    · rintro rfl
      cases hd
    · simp only [TextForm.isBlank, Bool.or_eq_false_iff, decide_eq_false_iff_not]
      constructor
      · rintro rfl
        cases hd
      · rintro rfl
        cases hd
  | boolean b =>
    cases b with
    | true => exact ⟨_, _, rfl, by decide⟩
    | false => exact ⟨_, _, rfl, by decide⟩

namespace Reader

theorem scalar_of_quote (hc : c = '"' ∨ c = '\'') :
    scalar (c :: s) = ((.text ∘ String.ofList) <$> TextForm.read : Scan Value) (c :: s) := by
  rcases hc with rfl | rfl <;> rfl

theorem scalar_of_digit (hc : c.isDigit = true) :
    scalar (c :: s) = (Scan.orElse Moment.read Number.read : Scan Value) (c :: s) := by
  rw [scalar]
  all_goals
    intro r h
    obtain ⟨rfl, -⟩ := List.cons.inj h
    cases hc

/-- **A value that fits is read back** at the end of its line. -/
theorem scalar_write (hfits : v.fits = true) (rest : List Char) :
    scalar (v.write ++ '\n' :: rest) = some (v.value, '\n' :: rest) := by
  cases v with
  | text s =>
    have hread : TextForm.read (TextForm.write s.toList ++ '\n' :: rest) = some (s.toList, '\n' :: rest) :=
      TextForm.read_write s.toList (by simp) (by simp)
    have hmap := Scan.map_some hread (Value.text ∘ String.ofList)
    rw [Function.comp_apply, String.ofList_toList] at hmap
    rw [Setting.write]
    obtain ⟨r, hr | hr⟩ := TextForm.write_eq_cons s.toList
    all_goals
      rw [hr, List.cons_append] at hmap ⊢
      rw [scalar_of_quote (by simp)]
      exact hmap
  | integer n =>
    have hn : n < 2 ^ 63 := by simpa [Setting.fits] using hfits
    obtain ⟨d, ds, hdigits, hall, -⟩ := Number.digits_cons n
    have hmoment := Moment.read_digits (DigitsThenBreak.intro_digits hall rest)
    have hread := Number.read_digits hn rest
    rw [Setting.write]
    rw [hdigits] at hread ⊢
    rw [List.cons_append] at hmoment hread ⊢
    rw [scalar_of_digit (hall d List.mem_cons_self), Scan.orElse_of_none hmoment]
    exact hread
  | boolean b =>
    cases b with
    | true => exact Scan.bind_some (Scan.chars_append ['t', 'r', 'u', 'e'] ('\n' :: rest)) _
    | false => exact Scan.bind_some (Scan.chars_append ['f', 'a', 'l', 's', 'e'] ('\n' :: rest)) _

/-- what opens neither an array nor an inline table is a value that holds no others -/
theorem value_of_ne (harray : c ≠ '[') (htable : c ≠ '\x7b') (n depth : Nat) :
    value (n + 1) depth (c :: s) = scalar (c :: s) := by
  rw [value, Scan.bind_some (Scan.peek_apply _), List.head?_cons]
  refine congrFun ?_ (c :: s)
  split
  · rename_i h
    exact absurd (Option.some.inj h) harray
  · rename_i h
    exact absurd (Option.some.inj h) htable
  · rfl

theorem value_write (hfits : v.fits = true) (n depth : Nat) (rest : List Char) :
    value (n + 1) depth (v.write ++ '\n' :: rest) = some (v.value, '\n' :: rest) := by
  have hscalar := scalar_write hfits rest
  obtain ⟨c, r, hwrite, harray, htable, -⟩ := v.write_eq_cons
  rw [hwrite, List.cons_append] at hscalar ⊢
  rw [value_of_ne harray htable]
  exact hscalar

/-! ## Keys -/

theorem blanks_append (bs : List Char) (hbs : ∀ b ∈ bs, TextForm.isBlank b = true)
    (hstop : ∀ b ∈ s.head?, TextForm.isBlank b = false) : blanks (bs ++ s) = some ((), s) :=
  Scan.map_some (Scan.span_append hbs hstop) _

/-- a key that is written without quotes -/
def BareKey (k : String) : Prop := k.toList.isEmpty = false ∧ k.toList.all isBare = true

instance (k : String) : Decidable (BareKey k) := inferInstanceAs (Decidable (_ ∧ _))

/-- what may not stand in a bare key -/
theorem ne_of_isBare {d : Char} (hc : isBare c = true) (hd : isBare d = false) : c ≠ d := by
  rintro rfl
  rw [hd] at hc
  cases hc

theorem isBlank_of_isBare (hc : isBare c = true) : TextForm.isBlank c = false := by
  simp [TextForm.isBlank, ne_of_isBare hc (d := ' ') (by decide), ne_of_isBare hc (d := '\t') (by decide)]

theorem BareKey.eq_cons (hk : BareKey k) : ∃ c cs, k.toList = c :: cs ∧ isBare c = true ∧ ∀ d ∈ cs, isBare d = true := by
  obtain ⟨hne, hall⟩ := hk
  rw [List.all_eq_true] at hall
  cases hcs : k.toList with
  | nil =>
    rw [hcs] at hne
    cases hne
  | cons c cs =>
    rw [hcs] at hall
    exact ⟨c, cs, rfl, hall c List.mem_cons_self, fun d hd => hall d (List.mem_cons_of_mem c hd)⟩

theorem keyPart_bare (hk : BareKey k) (hstop : ∀ c ∈ s.head?, isBare c = false) :
    keyPart (k.toList ++ s) = some (k, s) := by
  obtain ⟨c, cs, hcs, hc, hrest⟩ := hk.eq_cons
  have hbare : keyPart (c :: (cs ++ s)) = some (String.ofList (c :: cs), s) := by
    rw [keyPart]
    · rw [Scan.bind_some (Scan.one_cons hc _), Scan.bind_some (Scan.span_append hrest hstop)]
      rfl
    · intro r h
      exact ne_of_isBare hc (by decide) (List.cons.inj h).1
    · intro r h
      exact ne_of_isBare hc (by decide) (List.cons.inj h).1
  rw [hcs, List.cons_append, hbare, ← hcs, String.ofList_toList]

/-- **A bare key alone**, with blanks behind it, up to what ends it. -/
theorem key_bare (hk : BareKey k) (bs : List Char) (hbs : ∀ b ∈ bs, TextForm.isBlank b = true)
    (hblank : TextForm.isBlank c = false) (hbare : isBare c = false) (hpoint : c ≠ '.') (rest : List Char) :
    key (k.toList ++ (bs ++ c :: rest)) = some ([k], c :: rest) := by
  have hfront : blanks (k.toList ++ (bs ++ c :: rest)) = some ((), k.toList ++ (bs ++ c :: rest)) := by
    obtain ⟨d, ds, hds, hd, -⟩ := hk.eq_cons
    rw [hds]
    exact blanks_append [] (by simp) (by simpa using isBlank_of_isBare hd)
  have hpart : keyPart (k.toList ++ (bs ++ c :: rest)) = some (k, bs ++ c :: rest) := by
    refine keyPart_bare hk ?_
    cases bs with
    | nil => simpa using hbare
    | cons b bs =>
      have hb := hbs b List.mem_cons_self
      intro d hd
      obtain rfl : b = d := by simpa using hd
      by_contra hbare
      rw [isBlank_of_isBare (by simpa using hbare)] at hb
      cases hb
  have hbehind : blanks (bs ++ c :: rest) = some ((), c :: rest) := blanks_append bs hbs (by simpa using hblank)
  rw [key, limit, keyParts, Scan.bind_some hfront, Scan.bind_some hpart, Scan.bind_some hbehind,
    Scan.bind_some (Scan.peek_apply _), List.head?_cons]
  refine congrFun (?_ : _ = (pure [k] : Scan (List String))) (c :: rest)
  split
  · rename_i h
    exact absurd (Option.some.inj h) hpoint
  · rfl

/-! ## Lines -/

theorem lineEnd_break (rest : List Char) : lineEnd ('\n' :: rest) = some ((), rest) := rfl

theorem ofOption_apply {α : Type} (o : Option α) (s : List Char) : Scan.ofOption o s = o.map (·, s) := by
  cases o with
  | none => rfl
  | some x => rfl

/-- what a text of one line or of a value over several does to what is read -/
def Reads (text : List Char) (change : Draft → Option Draft) : Prop :=
  text ≠ [] ∧ ∀ d rest, line d (text ++ rest) = (change d).map (·, rest)

/-- **A blank line** changes nothing. -/
theorem reads_break : Reads ['\n'] some := ⟨List.cons_ne_nil _ _, fun _ _ => rfl⟩

/-- behind one bracket and a bare key, a header is that of a table -/
theorem header_of_bare (hk : BareKey k) (d : Draft) : header d ('[' :: (k.toList ++ s)) = (do
    let ks ← key
    Scan.char ']'
    lineEnd
    Scan.ofOption (d.header Entries.openTable ks) : Scan Draft) (k.toList ++ s) := by
  obtain ⟨c, cs, hcs, hc, -⟩ := hk.eq_cons
  rw [hcs, List.cons_append, header, Scan.bind_some (Scan.char_cons _ _), Scan.bind_some (Scan.peek_apply _),
    List.head?_cons]
  refine congrFun ?_ (c :: (cs ++ s))
  split
  · rename_i h
    exact absurd (Option.some.inj h) (ne_of_isBare hc (by decide))
  · rfl

/-- **A header** opens a table. -/
theorem reads_header (hk : BareKey k) : Reads ('[' :: k.toList ++ [']', '\n']) (·.header Entries.openTable [k]) := by
  refine ⟨List.cons_ne_nil _ _, fun d rest => ?_⟩
  have hkey := key_bare (c := ']') hk [] (by simp) (by decide) (by decide) (by decide) ('\n' :: rest)
  have hline : line d ('[' :: (k.toList ++ ([] ++ ']' :: '\n' :: rest))) =
      header d ('[' :: (k.toList ++ ([] ++ ']' :: '\n' :: rest))) := rfl
  have hwritten : '[' :: k.toList ++ [']', '\n'] ++ rest = '[' :: (k.toList ++ ([] ++ ']' :: '\n' :: rest)) := by simp
  rw [hwritten, hline, header_of_bare hk, Scan.bind_some hkey, Scan.bind_some (Scan.char_cons _ _),
    Scan.bind_some (lineEnd_break rest)]
  exact ofOption_apply _ rest

/-- what begins with a key is an entry -/
theorem line_of_isBare (hc : isBare c = true) (d : Draft) : line d (c :: s) = entry d (c :: s) := by
  have hfront : blanks (c :: s) = some ((), c :: s) :=
    blanks_append [] (by simp) (by simpa using isBlank_of_isBare hc)
  rw [line, Scan.bind_some hfront, Scan.bind_some (Scan.peek_apply _), List.head?_cons]
  refine congrFun ?_ (c :: s)
  split
  case h_6 => rfl
  case h_1 h => cases h
  all_goals
    rename_i h
    exact absurd (Option.some.inj h) (ne_of_isBare hc (by decide))

/-- **An entry** assigns its value to its key. -/
theorem reads_entry {e : Entry} (hk : BareKey e.key) (hfits : e.value.fits = true) :
    Reads e.write (·.assign [] e.key e.value.value) := by
  have hwritten : ∀ rest, e.write ++ rest =
      e.key.toList ++ ([' '] ++ '=' :: ([' '] ++ (e.value.write ++ '\n' :: rest))) := by simp [Entry.write]
  obtain ⟨c, cs, hcs, hc, -⟩ := hk.eq_cons
  refine ⟨by simp [Entry.write], fun d rest => ?_⟩
  have hspace : ∀ b ∈ [' '], TextForm.isBlank b = true := List.forall_mem_singleton.2 rfl
  have hkey := key_bare (c := '=') hk [' '] hspace (by decide) (by decide) (by decide)
    ([' '] ++ (e.value.write ++ '\n' :: rest))
  have hblanks : blanks ([' '] ++ (e.value.write ++ '\n' :: rest)) = some ((), e.value.write ++ '\n' :: rest) := by
    obtain ⟨b, bs, hbs, -, -, hb⟩ := e.value.write_eq_cons
    rw [hbs]
    exact blanks_append [' '] hspace (by simpa using hb)
  have hvalue : (fun s => value (steps s) 0 s) (e.value.write ++ '\n' :: rest) = some (e.value.value, '\n' :: rest) :=
    value_write hfits _ _ rest
  have hline : line d (e.write ++ rest) = entry d (e.write ++ rest) := by
    rw [hwritten, hcs]
    exact line_of_isBare hc d
  rw [hline, hwritten, entry, Scan.bind_some hkey]
  rw [splitKey, List.getLast?_singleton, Scan.ofOption_some, Scan.bind_some (Scan.pure_apply _ _)]
  dsimp only
  rw [Scan.bind_some (Scan.char_cons _ _), Scan.bind_some hblanks, Scan.bind_some (a := fun s => value (steps s) 0 s) hvalue,
    Scan.bind_some (lineEnd_break rest)]
  exact ofOption_apply _ rest

/-- **Lines that stand one behind another are read in turn.** -/
theorem lines_flatMap {α : Type} {text : α → List Char} {change : α → Draft → Option Draft} {ps : List α}
    (h : ∀ p ∈ ps, Reads (text p) (change p)) {n : Nat} (hn : (ps.flatMap text).length ≤ n) (d : Draft) :
    lines n d (ps.flatMap text) = ps.foldlM (fun d p => change p d) d := by
  induction ps generalizing n d with
  | nil => cases n <;> rfl
  | cons p ps ih =>
    obtain ⟨hne, hread⟩ := h p List.mem_cons_self
    have hlength := List.length_pos_iff.2 hne
    rw [List.flatMap_cons, List.length_append] at hn
    obtain ⟨n, rfl⟩ : ∃ m, n = m + 1 := ⟨n - 1, by omega⟩
    have hps := ih (fun q hq => h q (List.mem_cons_of_mem p hq)) (n := n) (by omega)
    rw [List.flatMap_cons, List.foldlM_cons, lines]
    · rw [hread]
      cases change p d with
      | none => rfl
      | some d' => exact hps d'
    · intro hnil
      exact hne (List.append_eq_nil_iff.1 hnil).1

end Reader

end MetricSurvey.Toml

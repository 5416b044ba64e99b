/-
Written texts are read back, in whichever form they are written.

- `basicRest_encode`, `basicLinesRest_encode`: what is written between double quotes, on one line or on several.
- `literalRest_append`, `literalLinesRest_append`: a text that stands as it is between single quotes.
- `read_write`: so the form that is chosen for a text is read back as that text, in front of anything but a quote.
-/
import Mathlib.Tactic
import MetricSurvey.Toml.TextForm

namespace MetricSurvey.Toml.TextForm

variable {c : Char} {s rest : List Char}

/-! ## Characters -/

theorem isPlain_of_not_needsEscape (h : needsEscape c = false) (hbreak : c ≠ '\n') : isPlain c = true := by
  simp only [needsEscape, Bool.or_eq_false_iff, Bool.and_eq_false_iff, decide_eq_false_iff_not, bne_eq_false_iff_eq] at h
  simp only [isPlain, Bool.or_eq_true, decide_eq_true_iff, Bool.and_eq_true, bne_iff_ne]
  obtain ⟨(hlow | htab) | hline, hdel⟩ := h
  · exact Or.inr ⟨Nat.not_lt.1 hlow, hdel⟩
  · exact Or.inl htab
  · exact absurd hline hbreak

/-- a number below 128 is read back from its escape -/
theorem hexNumber?_numbered : ∀ n < 128, hexNumber? ['0', '0', upperDigit (n / 16), upperDigit (n % 16)] = some n := by
  decide

theorem escaped?_numbered (h : needsEscape c = true) :
    escaped? ['0', '0', upperDigit (c.toNat / 16), upperDigit (c.toNat % 16)] = some c := by
  have hsmall : c.toNat < 128 := by
    simp only [needsEscape, Bool.or_eq_true, Bool.and_eq_true, decide_eq_true_iff] at h
    omega
  have hvalid : c.toNat.isValidChar := c.valid
  rw [escaped?, hexNumber?_numbered c.toNat hsmall]
  show scalar? c.toNat = some c
  rw [scalar?, if_pos hvalid, Char.ofNat_toNat]

theorem encode_cons (lines : Bool) (allowed run : Nat) (c : Char) (s : List Char) :
    encode lines allowed run (c :: s) =
      if c = '"' then
        if run < allowed then '"' :: encode lines allowed (run + 1) s else '\\' :: '"' :: encode lines allowed 0 s
      else if c = '\n' then (if lines then ['\n'] else ['\\', 'n']) ++ encode lines allowed 0 s
      else encodeChar c ++ encode lines allowed 0 s := rfl

/-! ## Double quotes, on one line -/

theorem basicRest_plain (hplain : isPlain c = true) (hquote : c ≠ '"') (hslash : c ≠ '\\') :
    basicRest (c :: rest) = cons c (basicRest rest) := by
  rw [basicRest]
  · simp [hplain, hslash]
  all_goals simp_all

theorem basicRest_encodeChar (hquote : c ≠ '"') (hbreak : c ≠ '\n') :
    basicRest (encodeChar c ++ rest) = cons c (basicRest rest) := by
  unfold encodeChar
  split_ifs with h1 h2 h3 h4 h5 h6
  · rw [h1]; rfl
  · rw [h2]; rfl
  · rw [h3]; rfl
  · rw [h4]; rfl
  · rw [h5]; rfl
  · show basicRest ('\\' :: 'u' :: '0' :: '0' :: _ :: _ :: rest) = _
    rw [basicRest, escaped?_numbered h6]
  · exact basicRest_plain (isPlain_of_not_needsEscape (by simpa using h6) hbreak) hquote h5

/-- **Between double quotes, on one line**: any text is read back. -/
theorem basicRest_encode (s rest : List Char) : basicRest (encode false 0 0 s ++ '"' :: rest) = some (s, rest) := by
  induction s with
  | nil => rfl
  | cons c s ih =>
    rw [encode_cons]
    by_cases hquote : c = '"'
    · rw [hquote]
      exact congrArg (cons '"') ih
    by_cases hbreak : c = '\n'
    · rw [hbreak]
      exact congrArg (cons '\n') ih
    · rw [if_neg hquote, if_neg hbreak, List.append_assoc, basicRest_encodeChar hquote hbreak, ih]
      rfl

/-! ## Single quotes, on one line -/

/-- **Between single quotes, on one line**: a text that may stand there is read back. -/
theorem literalRest_append (hplain : ∀ c ∈ s, isPlain c = true ∧ c ≠ '\'') (rest : List Char) :
    literalRest (s ++ '\'' :: rest) = some (s, rest) := by
  induction s with
  | nil => rfl
  | cons c s ih =>
    obtain ⟨hc, hquote⟩ := hplain c List.mem_cons_self
    have hrest := ih fun d hd => hplain d (List.mem_cons_of_mem c hd)
    rw [List.cons_append, literalRest]
    · rw [if_pos hc, hrest]
      rfl
    · exact hquote

/-! ## Three quotes -/

/-- characters in front of what is read behind them -/
def prepend (cs : List Char) (r : Option (List Char × List Char)) : Option (List Char × List Char) := cs.foldr cons r

theorem prepend_some (cs s rest : List Char) : prepend cs (some (s, rest)) = some (cs ++ s, rest) := by
  induction cs with
  | nil => rfl
  | cons c cs ih => exact congrArg (cons c) ih

/-- what stands in a text in three quotes, and is neither a quote nor a backslash -/
theorem basicLinesRest_plain (hplain : c = '\n' ∨ isPlain c = true) (hquote : c ≠ '"') (hslash : c ≠ '\\') :
    basicLinesRest false (c :: rest) = cons c (basicLinesRest false rest) := by
  have hreturn : c ≠ '\r' := by
    rintro rfl
    rcases hplain with h | h <;> cases h
  rw [basicLinesRest]
  · rcases hplain with h | h <;> simp [h, hslash]
  all_goals simp_all

theorem basicLinesRest_encodeChar (hquote : c ≠ '"') (hbreak : c ≠ '\n') :
    basicLinesRest false (encodeChar c ++ rest) = cons c (basicLinesRest false rest) := by
  unfold encodeChar
  split_ifs with h1 h2 h3 h4 h5 h6
  · rw [h1]; rfl
  · rw [h2]; rfl
  · rw [h3]; rfl
  · rw [h4]; rfl
  · rw [h5]; rfl
  · show basicLinesRest false ('\\' :: 'u' :: '0' :: '0' :: _ :: _ :: rest) = _
    rw [basicLinesRest, escaped?_numbered h6]
  · exact basicLinesRest_plain (Or.inr (isPlain_of_not_needsEscape (by simpa using h6) hbreak)) hquote h5

/-- fewer than three quotes stand for themselves -/
theorem basicLinesRest_quotes {n : Nat} (hn : n ≤ 2) (hrest : ∀ r, rest ≠ '"' :: r) :
    basicLinesRest false (List.replicate n '"' ++ rest) = prepend (List.replicate n '"') (basicLinesRest false rest) := by
  have hone : basicLinesRest false ('"' :: rest) = cons '"' (basicLinesRest false rest) := by
    rw [basicLinesRest]
    · rfl
    all_goals simp [hrest]
  match n, hn with
  | 0, _ => rfl
  | 1, _ => exact hone
  | 2, _ =>
    show basicLinesRest false ('"' :: '"' :: rest) = cons '"' (cons '"' (basicLinesRest false rest))
    rw [← hone, basicLinesRest]
    · rfl
    all_goals simp [hrest]

/-- at the end, up to two quotes stand in front of the closing three -/
theorem basicLinesRest_closing {n : Nat} (hn : n ≤ 2) (hrest : ∀ r, rest ≠ '"' :: r) :
    basicLinesRest false (List.replicate n '"' ++ '"' :: '"' :: '"' :: rest) = some (List.replicate n '"', rest) := by
  match n, hn with
  | 0, _ =>
    show basicLinesRest false ('"' :: '"' :: '"' :: rest) = some ([], rest)
    rw [basicLinesRest]
    all_goals simp [hrest]
  | 1, _ =>
    show basicLinesRest false ('"' :: '"' :: '"' :: '"' :: rest) = some (['"'], rest)
    rw [basicLinesRest]
    simp [hrest]
  | 2, _ => rfl

/-- what is written for a character begins with a backslash, or is that character, which is no carriage return then -/
theorem eq_of_encodeChar_append {d : Char} {r : List Char} (h : encodeChar c ++ rest = d :: r) :
    d = '\\' ∨ d = c ∧ c ≠ '\r' := by
  unfold encodeChar at h
  split_ifs at h with h1 h2 h3 h4 h5 h6
  all_goals
    cases h
    first
      | exact Or.inl rfl
      | exact Or.inr ⟨rfl, h4⟩

theorem encodeChar_append_ne (hquote : c ≠ '"') (r : List Char) : encodeChar c ++ rest ≠ '"' :: r := by
  intro h
  rcases eq_of_encodeChar_append h with hslash | ⟨hc, -⟩
  · cases hslash
  · exact hquote hc.symm

/-- **Between three double quotes**: any text is read back; the induction is on the text, with up to two quotes of a row
in front of it. -/
theorem basicLinesRest_encode (hrest : ∀ r, rest ≠ '"' :: r) {n : Nat} (hn : n ≤ 2) (s : List Char) :
    basicLinesRest false (List.replicate n '"' ++ (encode true 2 n s ++ '"' :: '"' :: '"' :: rest)) =
      some (List.replicate n '"' ++ s, rest) := by
  induction s generalizing n with
  | nil =>
    rw [List.append_nil]
    exact basicLinesRest_closing hn hrest
  | cons c s ih =>
    have hfresh := ih (n := 0) (Nat.zero_le 2)
    rw [List.replicate_zero, List.nil_append, List.nil_append] at hfresh
    rw [encode_cons]
    by_cases hquote : c = '"'
    · rw [if_pos hquote, hquote]
      by_cases hrow : n < 2
      · -- the row goes on
        have hnext := ih (n := n + 1) hrow
        rw [List.replicate_succ', List.append_assoc, List.append_assoc] at hnext
        rw [if_pos hrow]
        exact hnext
      · rw [if_neg hrow, List.cons_append, List.cons_append, basicLinesRest_quotes hn (by simp)]
        have hescape : basicLinesRest false ('\\' :: '"' :: (encode true 2 0 s ++ '"' :: '"' :: '"' :: rest)) =
            cons '"' (some (s, rest)) := by rw [← hfresh]; rfl
        rw [hescape]
        exact prepend_some _ _ _
    by_cases hbreak : c = '\n'
    · rw [if_neg hquote, if_pos hbreak, if_pos rfl, hbreak, List.append_assoc, List.singleton_append,
        basicLinesRest_quotes hn (by simp), basicLinesRest_plain (Or.inl rfl) (by decide) (by decide), hfresh]
      exact prepend_some _ _ _
    · rw [if_neg hquote, if_neg hbreak, List.append_assoc,
        basicLinesRest_quotes hn (encodeChar_append_ne hquote), basicLinesRest_encodeChar hquote hbreak, hfresh]
      exact prepend_some _ _ _

theorem literalLinesRest_plain (hplain : c = '\n' ∨ isPlain c = true) (hquote : c ≠ '\'') :
    literalLinesRest (c :: rest) = cons c (literalLinesRest rest) := by
  have hreturn : c ≠ '\r' := by
    rintro rfl
    rcases hplain with h | h <;> cases h
  rw [literalLinesRest]
  · rcases hplain with h | h <;> simp [h]
  all_goals simp_all

theorem literalLinesRest_quotes {n : Nat} (hn : n ≤ 2) (hrest : ∀ r, rest ≠ '\'' :: r) :
    literalLinesRest (List.replicate n '\'' ++ rest) = prepend (List.replicate n '\'') (literalLinesRest rest) := by
  have hone : literalLinesRest ('\'' :: rest) = cons '\'' (literalLinesRest rest) := by
    rw [literalLinesRest]
    · rfl
    all_goals simp [hrest]
  match n, hn with
  | 0, _ => rfl
  | 1, _ => exact hone
  | 2, _ =>
    show literalLinesRest ('\'' :: '\'' :: rest) = cons '\'' (cons '\'' (literalLinesRest rest))
    rw [← hone, literalLinesRest]
    · rfl
    all_goals simp [hrest]

theorem literalLinesRest_closing {n : Nat} (hn : n ≤ 2) (hrest : ∀ r, rest ≠ '\'' :: r) :
    literalLinesRest (List.replicate n '\'' ++ '\'' :: '\'' :: '\'' :: rest) = some (List.replicate n '\'', rest) := by
  match n, hn with
  | 0, _ =>
    show literalLinesRest ('\'' :: '\'' :: '\'' :: rest) = some ([], rest)
    rw [literalLinesRest]
    all_goals simp [hrest]
  | 1, _ =>
    show literalLinesRest ('\'' :: '\'' :: '\'' :: '\'' :: rest) = some (['\''], rest)
    rw [literalLinesRest]
    simp [hrest]
  | 2, _ => rfl

/-- the row so far, and the longest row, behind a character -/
def rowStep (q : Char) (row : Nat × Nat) (c : Char) : Nat × Nat :=
  if c = q then (row.1 + 1, max row.2 (row.1 + 1)) else (0, row.2)

theorem longestRun_eq (q : Char) (s : List Char) : longestRun q s = (s.foldl (rowStep q) (0, 0)).2 := rfl

theorem le_foldl_rowStep (q : Char) (s : List Char) (row : Nat × Nat) : row.2 ≤ (s.foldl (rowStep q) row).2 := by
  induction s generalizing row with
  | nil => exact le_rfl
  | cons c s ih =>
    refine le_trans ?_ (ih _)
    unfold rowStep
    split_ifs
    · exact le_max_left _ _
    · exact le_rfl

/-- **Between three single quotes**: a text that may stand there is read back, if no row of quotes in it is longer than
two; the induction is on the text, with the row so far in front of it. -/
theorem literalLinesRest_append (hrest : ∀ r, rest ≠ '\'' :: r) {n best : Nat} (hn : n ≤ 2)
    (hplain : ∀ c ∈ s, c = '\n' ∨ isPlain c = true) (hrow : (s.foldl (rowStep '\'') (n, best)).2 ≤ 2) :
    literalLinesRest (List.replicate n '\'' ++ (s ++ '\'' :: '\'' :: '\'' :: rest)) =
      some (List.replicate n '\'' ++ s, rest) := by
  induction s generalizing n best with
  | nil =>
    rw [List.append_nil]
    exact literalLinesRest_closing hn hrest
  | cons c s ih =>
    have hplain' : ∀ d ∈ s, d = '\n' ∨ isPlain d = true := fun d hd => hplain d (List.mem_cons_of_mem c hd)
    rw [List.foldl_cons] at hrow
    by_cases hquote : c = '\''
    · rw [rowStep, if_pos hquote] at hrow
      have hlonger : n + 1 ≤ 2 := (le_max_right best (n + 1)).trans ((le_foldl_rowStep _ s _).trans hrow)
      have hnext := ih hlonger hplain' hrow
      rw [List.replicate_succ', List.append_assoc, List.append_assoc] at hnext
      rw [hquote]
      exact hnext
    · rw [rowStep, if_neg hquote] at hrow
      have hfresh := ih (Nat.zero_le 2) hplain' hrow
      rw [List.replicate_zero, List.nil_append, List.nil_append] at hfresh
      rw [List.cons_append, literalLinesRest_quotes hn (by simp [hquote]),
        literalLinesRest_plain (hplain c List.mem_cons_self) hquote, hfresh]
      exact prepend_some _ _ _

/-! ## Any form -/

/-- of what stands behind the opening quotes, no more than the line break is dropped that stands there with them -/
theorem dropFirstBreak_opening {body : List Char} (h : '\n' ∉ s → ∀ d r, body = d :: r → d ≠ '\n' ∧ d ≠ '\r') :
    dropFirstBreak ((if s.contains '\n' then ['\n'] else []) ++ body) = body := by
  by_cases hbreaks : '\n' ∈ s
  · rw [if_pos (List.contains_iff_mem.2 hbreaks)]
    rfl
  · rw [if_neg (mt List.contains_iff_mem.1 hbreaks), List.nil_append, dropFirstBreak]
    · exact fun r hr => (h hbreaks _ r hr).1 rfl
    · exact fun r hr => (h hbreaks _ _ hr).2 rfl

/-- where three quotes do not stand first, the text stands on one line -/
theorem read_eq_readLine (hdouble : ∀ r, s ≠ '"' :: '"' :: '"' :: r) (hsingle : ∀ r, s ≠ '\'' :: '\'' :: '\'' :: r) :
    read s = readLine s := by
  rw [read]
  · exact hdouble
  · exact hsingle

theorem read_basic (s : List Char) (hrest : ∀ r, rest ≠ '"' :: r) : read (writeAs s basic ++ rest) = some (s, rest) := by
  have hwritten : writeAs s basic ++ rest = '"' :: (encode false 0 0 s ++ '"' :: rest) := by simp [writeAs]
  have hshort : ∀ r, encode false 0 0 s ++ '"' :: rest ≠ '"' :: '"' :: r := by
    intro r
    cases s with
    | nil => exact fun h => hrest r (List.cons.inj h).2
    | cons c s =>
      rw [encode_cons]
      by_cases hquote : c = '"'
      · simp [hquote]
      by_cases hbreak : c = '\n'
      · simp [hbreak]
      · rw [if_neg hquote, if_neg hbreak, List.append_assoc]
        exact encodeChar_append_ne hquote _
  rw [hwritten, read_eq_readLine]
  · exact basicRest_encode s rest
  · intro r h
    exact hshort r (List.cons.inj h).2
  · intro r h
    cases h

theorem read_literal (hplain : ∀ c ∈ s, isPlain c = true ∧ c ≠ '\'') (hrest : ∀ r, rest ≠ '\'' :: r) :
    read (writeAs s literal ++ rest) = some (s, rest) := by
  have hwritten : writeAs s literal ++ rest = '\'' :: (s ++ '\'' :: rest) := by simp [writeAs]
  have hshort : ∀ r, s ++ '\'' :: rest ≠ '\'' :: '\'' :: r := by
    intro r h
    cases s with
    | nil => exact hrest r (List.cons.inj h).2
    | cons c s => exact (hplain c List.mem_cons_self).2 (List.cons.inj h).1
  rw [hwritten, read_eq_readLine]
  · exact literalRest_append hplain rest
  · intro r h
    cases h
  · intro r h
    exact hshort r (List.cons.inj h).2

theorem read_basicLines (s : List Char) (hrest : ∀ r, rest ≠ '"' :: r) :
    read (writeAs s basicLines ++ rest) = some (s, rest) := by
  have hwritten : writeAs s basicLines ++ rest = '"' :: '"' :: '"' ::
      ((if s.contains '\n' then ['\n'] else []) ++ (encode true 2 0 s ++ '"' :: '"' :: '"' :: rest)) := by
    simp [writeAs, opening, List.replicate_succ]
  have hstart : '\n' ∉ s → ∀ d r, encode true 2 0 s ++ '"' :: '"' :: '"' :: rest = d :: r → d ≠ '\n' ∧ d ≠ '\r' := by
    intro hbreaks d r h
    cases s with
    | nil =>
      cases h
      decide
    | cons c s =>
      rw [encode_cons] at h
      by_cases hquote : c = '"'
      · rw [if_pos hquote, if_pos (by decide)] at h
        cases h
        decide
      · have hbreak : c ≠ '\n' := fun hc => hbreaks (hc ▸ List.mem_cons_self)
        rw [if_neg hquote, if_neg hbreak, List.append_assoc] at h
        rcases eq_of_encodeChar_append h with rfl | ⟨rfl, hreturn⟩
        · decide
        · exact ⟨hbreak, hreturn⟩
  rw [hwritten]
  show basicLinesRest false (dropFirstBreak _) = _
  rw [dropFirstBreak_opening hstart]
  exact basicLinesRest_encode hrest (Nat.zero_le 2) s

theorem read_literalLines (hplain : ∀ c ∈ s, c = '\n' ∨ isPlain c = true) (hrow : longestRun '\'' s ≤ 2)
    (hrest : ∀ r, rest ≠ '\'' :: r) : read (writeAs s literalLines ++ rest) = some (s, rest) := by
  have hwritten : writeAs s literalLines ++ rest = '\'' :: '\'' :: '\'' ::
      ((if s.contains '\n' then ['\n'] else []) ++ (s ++ '\'' :: '\'' :: '\'' :: rest)) := by
    simp [writeAs, opening, List.replicate_succ]
  have hstart : '\n' ∉ s → ∀ d r, s ++ '\'' :: '\'' :: '\'' :: rest = d :: r → d ≠ '\n' ∧ d ≠ '\r' := by
    intro hbreaks d r h
    cases s with
    | nil =>
      cases h
      decide
    | cons c s =>
      cases h
      refine ⟨fun hd => hbreaks (hd ▸ List.mem_cons_self), ?_⟩
      rintro rfl
      rcases hplain _ List.mem_cons_self with h | h <;> cases h
  rw [longestRun_eq] at hrow
  rw [hwritten]
  show literalLinesRest (dropFirstBreak _) = _
  rw [dropFirstBreak_opening hstart]
  exact literalLinesRest_append hrest (Nat.zero_le 2) hplain hrow

/-- **The form that is chosen for a text is read back as that text**, in front of anything but a quote. -/
theorem read_write (s : List Char) (hdouble : ∀ r, rest ≠ '"' :: r) (hsingle : ∀ r, rest ≠ '\'' :: r) :
    read (write s ++ rest) = some (s, rest) := by
  have hplain : (!s.any needsEscape) = true → ∀ c ∈ s, c = '\n' ∨ isPlain c = true := by
    intro hcontrols c hc
    rw [Bool.not_eq_true', List.any_eq_false] at hcontrols
    by_cases hbreak : c = '\n'
    · exact Or.inl hbreak
    · exact Or.inr (isPlain_of_not_needsEscape (by simpa using hcontrols c hc) hbreak)
  unfold write form
  dsimp only
  split_ifs with h1 h2 h3 h4 h5
  · exact read_basic s hdouble
  · simp only [Bool.and_eq_true] at h2
    obtain ⟨⟨hcontrols, hquotes⟩, hbreaks⟩ := h2
    refine read_literal ?_ hsingle
    intro c hc
    refine ⟨(hplain hcontrols c hc).resolve_left ?_, ?_⟩
    · rintro rfl
      simp [hc] at hbreaks
    · rintro rfl
      simp [hc] at hquotes
  · exact read_basicLines s hdouble
  · simp only [Bool.and_eq_true, decide_eq_true_iff] at h4
    exact read_literalLines (hplain h4.1) h4.2 hsingle
  · exact read_basicLines s hdouble
  · exact read_basic s hdouble

end MetricSurvey.Toml.TextForm

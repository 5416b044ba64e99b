/-
What is left of a written document spells what is left of its entries.

A document is cut into pieces: blank lines, headers and entries. Keys and whole tables may be left out in any choice; what
remains is read as the table that holds the other entries.

- `write_eq_pieces`: the pieces together are what is written.
- `read_entries`, `read_section`, `read_sections`: what is read from the pieces that remain.
- `parse_remaining`: so what remains spells the entries that are not left out.
-/
import MetricSurvey.Proofs.Toml.Reader

namespace MetricSurvey.Toml

/-! ## Tables -/

namespace Entries

variable {es : Entries} {k t : String} {v w : Value}

theorem get?_append (es fs : Entries) (k : String) : get? (es ++ fs) k = (get? es k).or (get? fs k) := by
  unfold get?
  rw [List.find?_append]
  cases es.find? fun e => e.1 == k <;> rfl

theorem get?_singleton_self (k : String) (v : Value) : get? [(k, v)] k = some v := by simp [get?]

theorem get?_eq_none : es.get? k = none ↔ ∀ e ∈ es, e.1 ≠ k := by simp [get?]

/-- leaving keys out hides them and no others -/
theorem get?_filter (keep : String → Bool) (es : Entries) (k : String) :
    get? (es.filter fun e => keep e.1) k = if keep k then es.get? k else none := by
  split_ifs with hk
  · unfold get?
    rw [List.find?_filter]
    refine congrArg (Option.map Prod.snd) (List.find?_congr fun e _ => ?_)
    by_cases he : e.1 = k
    · simp [he, hk]
    · simp [he]
  · rw [get?_eq_none]
    rintro e he rfl
    exact hk (List.mem_filter.1 he).2

theorem add_of_get?_none (h : es.get? k = none) (v : Value) : es.add k v = some (es ++ [(k, v)]) := by
  rw [add, h]
  rfl

theorem get?_last (h : es.get? t = none) (v : Value) : get? (es ++ [(t, v)]) t = some v := by
  rw [get?_append, h, get?_singleton_self]
  rfl

/-- the value that was added last is replaced -/
theorem put_last (h : es.get? t = none) (v w : Value) : put (es ++ [(t, v)]) t w = es ++ [(t, w)] := by
  have hothers : (es.map fun e => if e.1 == t then (t, w) else e) = es := by
    refine (List.map_congr_left fun e he => ?_).trans (List.map_id es)
    have hne := get?_eq_none.1 h e he
    simp [hne]
  rw [put, get?_last h, if_pos Option.isSome_some, List.map_append, hothers]
  simp

end Entries

namespace Draft

variable {es inner : Entries} {k t : String}

/-- above the first header, entries are those of the document itself -/
theorem assign_top (h : es.get? k = none) (v : Value) :
    (Draft.mk es []).assign [] k v = some ⟨es ++ [(k, v)], []⟩ := by
  have hadd : es.assign [] k v .header = es.add k v := rfl
  rw [assign, Entries.within, hadd, Entries.add_of_get?_none h]
  rfl

/-- behind its header, a table is open -/
theorem header_fresh (h : es.get? t = none) (current : List String) :
    (Draft.mk es current).header Entries.openTable [t] = some ⟨es ++ [(t, .table .header [])], [t]⟩ := by
  have hopen : Entries.openTable t es = some (es ++ [(t, .table .header [])]) := by
    rw [Entries.openTable, h]
  rw [header, List.getLast?_singleton]
  show (Entries.openTable t es).bind (fun es => some (Draft.mk es [t])) = _
  rw [hopen]
  rfl

theorem assign_within (ht : es.get? t = none) (hk : inner.get? k = none) (v : Value) :
    (Draft.mk (es ++ [(t, .table .header inner)]) [t]).assign [] k v =
      some ⟨es ++ [(t, .table .header (inner ++ [(k, v)]))], [t]⟩ := by
  have hadd : inner.assign [] k v .header = inner.add k v := rfl
  rw [assign, Entries.within, Entries.get?_last ht]
  dsimp only
  rw [if_neg (by decide), Entries.within, hadd, Entries.add_of_get?_none hk]
  show some (Draft.mk (Entries.put (es ++ [(t, .table .header inner)]) t _) [t]) = _
  rw [Entries.put_last ht]

end Draft

/-! ## Pieces -/

/-- what is written in one go -/
inductive Piece where
  /-- the blank line in front of a header -/
  | gap (table : String)
  | header (table : String)
  /-- an entry of a table, or of the document itself -/
  | entry (table : Option String) (e : Entry)

namespace Piece

def text : Piece → List Char
  | gap _ => ['\n']
  | header t => '[' :: t.toList ++ [']', '\n']
  | entry _ e => e.write

/-- Whether a piece remains if some keys and tables are left out; a table takes its entries with it. Any blank lines may
be left out too. -/
def remains (out : List String → Bool) (gaps : String → Bool) : Piece → Bool
  | gap t => gaps t
  | header t => !out [t]
  | entry none e => !out [e.key]
  | entry (some t) e => !out [t] && !out [t, e.key]

/-- what a piece does to what is read -/
def change : Piece → Draft → Option Draft
  | gap _ => some
  | header t => (·.header Entries.openTable [t])
  | entry _ e => (·.assign [] e.key e.value.value)

/-- whether names are written without quotes, and whole numbers within their bounds -/
def Plain : Piece → Prop
  | gap _ => True
  | header t => Reader.BareKey t
  | entry _ e => Reader.BareKey e.key ∧ e.value.fits = true

variable {p : Piece}

theorem reads (h : p.Plain) : Reader.Reads p.text p.change := by
  cases p with
  | gap t => exact Reader.reads_break
  | header t => exact Reader.reads_header h
  | entry t e => exact Reader.reads_entry h.1 h.2

/-- no piece begins with a mark of the byte order -/
theorem head?_text_ne (h : p.Plain) (rest : List Char) : (p.text ++ rest).head? ≠ some '\ufeff' := by
  cases p with
  | gap t => simp [text]
  | header t => simp [text]
  | entry t e =>
    obtain ⟨c, cs, hcs, hc, -⟩ := h.1.eq_cons
    have hne : c ≠ '\ufeff' := Reader.ne_of_isBare hc (by decide)
    simp [text, Entry.write, hcs, hne]

theorem dropMark_flatMap {ps : List Piece} (h : ∀ p ∈ ps, p.Plain) :
    Reader.dropMark (ps.flatMap text) = ps.flatMap text := by
  have hhead : (ps.flatMap text).head? ≠ some '\ufeff' := by
    cases ps with
    | nil => simp
    | cons p ps => exact head?_text_ne (h p List.mem_cons_self) _
  unfold Reader.dropMark
  split
  · rename_i rest hmark
    rw [hmark] at hhead
    exact absurd rfl hhead
  · rfl

end Piece

/-- pieces in turn -/
def readPieces (ps : List Piece) (d : Draft) : Option Draft := ps.foldlM (fun d p => p.change d) d

theorem readPieces_append (ps qs : List Piece) (d : Draft) :
    readPieces (ps ++ qs) d = (readPieces ps d).bind (readPieces qs) := List.foldlM_append

/-- what a text made of pieces spells -/
theorem parse_pieces {ps : List Piece} (h : ∀ p ∈ ps, p.Plain) :
    parse (String.ofList (ps.flatMap Piece.text)) = (readPieces ps .new).map Draft.entries := by
  have hlines := Reader.lines_flatMap (fun p hp => Piece.reads (h p hp)) (Nat.le_succ (ps.flatMap Piece.text).length) .new
  rw [parse, String.toList_ofList, Piece.dropMark_flatMap h]
  show (Reader.lines _ _ _).bind (fun d => some d.entries) = _
  rw [hlines, Option.map_eq_bind]
  rfl

/-! ## Documents -/

/-- what an entry spells -/
def Entry.spelled (e : Entry) : String × Value := (e.key, e.value.value)

namespace Section

def pieces (s : Section) : List Piece := .gap s.name :: .header s.name :: s.entries.map (.entry (some s.name))

/-- what is left of the entries of a table -/
def remaining (out : List String → Bool) (s : Section) : Entries :=
  (s.entries.map Entry.spelled).filter fun e => !out [s.name, e.1]

/-- what is left of a table, under its name -/
def spelled (out : List String → Bool) (s : Section) : String × Value := (s.name, .table .header (s.remaining out))

theorem get?_remaining (out : List String → Bool) (s : Section) (k : String) : (s.remaining out).get? k =
    if !out [s.name, k] then Entries.get? (s.entries.map Entry.spelled) k else none :=
  Entries.get?_filter (fun k => !out [s.name, k]) _ k

theorem flatMap_pieces (s : Section) : s.pieces.flatMap Piece.text = '\n' :: s.write := by
  simp only [pieces, List.flatMap_cons, List.flatMap_map, Piece.text, write, List.cons_append, List.nil_append,
    List.append_assoc]

end Section

namespace Document

def pieces (d : Document) : List Piece := d.entries.map (.entry none) ++ d.sections.flatMap Section.pieces

/-- what is left of a document -/
def spelled (out : List String → Bool) (d : Document) : Entries :=
  (d.entries.map Entry.spelled ++ d.sections.map (Section.spelled out)).filter fun e => !out [e.1]

theorem get?_spelled (out : List String → Bool) (d : Document) (k : String) : (d.spelled out).get? k =
    if !out [k] then Entries.get? (d.entries.map Entry.spelled ++ d.sections.map (Section.spelled out)) k else none :=
  Entries.get?_filter (fun k => !out [k]) _ k

theorem writeSections_eq {w : List Char} (hw : w ≠ []) (ss : List Section) :
    writeSections w ss = w ++ ss.flatMap fun s => '\n' :: s.write := by
  induction ss generalizing w with
  | nil => simp [writeSections]
  | cons s ss ih =>
    have hnext : writeSections w (s :: ss) = writeSections (w ++ '\n' :: s.write) ss := by
      simp [writeSections, hw]
    rw [hnext, ih (by simp), List.flatMap_cons, List.append_assoc]

/-- **The pieces together are what is written**, if the document has an entry of its own. -/
theorem write_eq_pieces {d : Document} (h : d.entries ≠ []) : d.write = d.pieces.flatMap Piece.text := by
  have hwritten : d.entries.flatMap Entry.write ≠ [] := by
    obtain ⟨e, es, hes⟩ := List.exists_cons_of_ne_nil h
    rw [hes]
    simp [Entry.write]
  have hsections : (d.sections.flatMap Section.pieces).flatMap Piece.text =
      d.sections.flatMap fun s => '\n' :: s.write := by
    rw [List.flatMap_assoc]
    exact List.flatMap_congr fun s _ => s.flatMap_pieces
  rw [write, writeSections_eq hwritten, pieces, List.flatMap_append, List.flatMap_map, hsections]
  rfl

end Document

/-! ## What is read from the pieces that remain -/

variable (out : List String → Bool) (gaps : String → Bool) {es : Entries}

/-- entries are added in turn to the table that is open; `place` says where that table stands -/
theorem read_entries {place : Entries → Draft}
    (hplace : ∀ {inner : Entries} {k : String}, inner.get? k = none → ∀ v,
      (place inner).assign [] k v = some (place (inner ++ [(k, v)])))
    (table : Option String) {inner : Entries} {added : List Entry} (hdistinct : (added.map Entry.key).Nodup)
    (hfresh : ∀ e ∈ added, inner.get? e.key = none) :
    readPieces (added.map (.entry table)) (place inner) = some (place (inner ++ added.map Entry.spelled)) := by
  induction added generalizing inner with
  | nil => simp [readPieces]
  | cons e added ih =>
    obtain ⟨hother, hrest⟩ := List.nodup_cons.1 hdistinct
    have hnext : ∀ f ∈ added, Entries.get? (inner ++ [e.spelled]) f.key = none := by
      intro f hf
      have hne : e.key ≠ f.key := fun h => hother (h ▸ List.mem_map_of_mem hf)
      rw [Entries.get?_append, hfresh f (List.mem_cons_of_mem e hf), Option.none_or, Entries.get?_eq_none]
      simpa [Entry.spelled] using hne
    have hstep : (Piece.entry table e).change (place inner) = some (place (inner ++ [e.spelled])) :=
      hplace (hfresh e List.mem_cons_self) _
    rw [List.map_cons, readPieces, List.foldlM_cons, hstep]
    refine (ih hrest hnext).trans ?_
    rw [List.append_assoc]
    rfl

/-- leaving out by keys, before or behind what an entry spells -/
theorem filter_map_spelled (keep : String → Bool) (added : List Entry) :
    (added.map Entry.spelled).filter (fun e => keep e.1) = (added.filter fun e => keep e.key).map Entry.spelled :=
  List.filter_map

/-- the entries of one place that remain -/
theorem read_remaining (place : Entries → Draft)
    (hplace : ∀ {inner : Entries} {k : String}, inner.get? k = none → ∀ v,
      (place inner).assign [] k v = some (place (inner ++ [(k, v)])))
    (table : Option String) {added : List Entry} (hdistinct : (added.map Entry.key).Nodup) (keep : String → Bool)
    (hkeep : ∀ e, (Piece.entry table e).remains out gaps = keep e.key) :
    readPieces ((added.map (.entry table)).filter (Piece.remains out gaps)) (place []) =
      some (place ((added.map Entry.spelled).filter fun e => keep e.1)) := by
  have hfilter : (added.map (.entry table)).filter (Piece.remains out gaps) =
      (added.filter fun e => keep e.key).map (.entry table) := by
    rw [List.filter_map]
    exact congrArg (List.map _) (List.filter_congr fun e _ => hkeep e)
  have hleft : ((added.filter fun e => keep e.key).map Entry.key).Nodup :=
    hdistinct.sublist (List.filter_sublist.map Entry.key)
  rw [hfilter, read_entries hplace table hleft (fun _ _ => rfl), filter_map_spelled, List.nil_append]

/-- **A table** is read with the entries that are not left out, or not at all. -/
theorem read_section {s : Section} (hdistinct : (s.entries.map Entry.key).Nodup) (hfresh : es.get? s.name = none)
    (current : List String) :
    ∃ current', readPieces (s.pieces.filter (Piece.remains out gaps)) ⟨es, current⟩ =
      some ⟨es ++ [s.spelled out].filter fun e => !out [e.1], current'⟩ := by
  -- the blank line changes nothing, whether it remains or not
  have hgap : readPieces (s.pieces.filter (Piece.remains out gaps)) ⟨es, current⟩ =
      readPieces ((Piece.header s.name :: s.entries.map (.entry (some s.name))).filter (Piece.remains out gaps))
        ⟨es, current⟩ := by
    rw [Section.pieces, List.filter_cons]
    split_ifs <;> rfl
  rw [hgap, List.filter_cons]
  cases hout : out [s.name] with
  | true =>
    have hnone : (s.entries.map (Piece.entry (some s.name))).filter (Piece.remains out gaps) = [] := by
      simp [Piece.remains, hout]
    refine ⟨current, ?_⟩
    rw [hnone]
    simp [Piece.remains, Section.spelled, hout, readPieces]
  | false =>
    have hentries := read_remaining out gaps (fun inner => ⟨es ++ [(s.name, .table .header inner)], [s.name]⟩)
      (Draft.assign_within hfresh) (some s.name) hdistinct (fun k => !out [s.name, k]) (by simp [Piece.remains, hout])
    refine ⟨[s.name], ?_⟩
    rw [if_pos (by simp [Piece.remains, hout]), readPieces, List.foldlM_cons]
    show ((Draft.mk es current).header Entries.openTable [s.name]).bind (readPieces _) = _
    rw [Draft.header_fresh hfresh]
    refine hentries.trans ?_
    simp [Section.spelled, Section.remaining, hout]

/-- **Tables** are read in turn. -/
theorem read_sections {ss : List Section} (hdistinct : ∀ s ∈ ss, (s.entries.map Entry.key).Nodup)
    (hnames : (ss.map Section.name).Nodup) (hfresh : ∀ s ∈ ss, es.get? s.name = none) (current : List String) :
    ∃ current', readPieces ((ss.flatMap Section.pieces).filter (Piece.remains out gaps)) ⟨es, current⟩ =
      some ⟨es ++ (ss.map (Section.spelled out)).filter fun e => !out [e.1], current'⟩ := by
  induction ss generalizing es current with
  | nil => exact ⟨current, by simp [readPieces]⟩
  | cons s ss ih =>
    obtain ⟨hother, hrest⟩ := List.nodup_cons.1 hnames
    obtain ⟨current', hs⟩ := read_section out gaps (hdistinct s List.mem_cons_self)
      (hfresh s List.mem_cons_self) current
    have hnext : ∀ t ∈ ss, Entries.get? (es ++ [s.spelled out].filter fun e => !out [e.1]) t.name = none := by
      intro t ht
      have hne : s.name ≠ t.name := fun h => hother (h ▸ List.mem_map_of_mem ht)
      rw [Entries.get?_append, hfresh t (List.mem_cons_of_mem s ht), Option.none_or,
        Entries.get?_filter (fun k => !out [k]), Entries.get?_eq_none.2]
      · simp
      · simpa [Section.spelled] using hne
    obtain ⟨current'', hss⟩ := ih (fun t ht => hdistinct t (List.mem_cons_of_mem s ht)) hrest hnext current'
    refine ⟨current'', ?_⟩
    rw [List.flatMap_cons, List.filter_append, readPieces_append, hs]
    refine hss.trans ?_
    rw [List.append_assoc, ← List.filter_append]
    rfl

namespace Document

/-- every key and every name of a table -/
def keys (d : Document) : List String :=
  d.entries.map Entry.key ++ d.sections.flatMap fun s => s.name :: s.entries.map Entry.key

/-- a document that can be written, whose keys need no quotes and stand for one thing each -/
structure Plain (d : Document) : Prop where
  fits : d.fits = true
  bare : ∀ k ∈ d.keys, Reader.BareKey k
  top : (d.entries.map Entry.key ++ d.sections.map Section.name).Nodup
  tables : ∀ s ∈ d.sections, (s.entries.map Entry.key).Nodup

theorem Plain.pieces {d : Document} (h : d.Plain) : ∀ p ∈ d.pieces, p.Plain := by
  have hfits : ∀ e ∈ d.entries ++ d.sections.flatMap Section.entries, e.value.fits = true := List.all_eq_true.1 h.fits
  intro p hp
  rcases List.mem_append.1 hp with htop | htable
  · obtain ⟨e, he, rfl⟩ := List.mem_map.1 htop
    exact ⟨h.bare _ (List.mem_append_left _ (List.mem_map_of_mem he)), hfits e (List.mem_append_left _ he)⟩
  · obtain ⟨s, hs, hp⟩ := List.mem_flatMap.1 htable
    have hbare : ∀ k ∈ s.name :: s.entries.map Entry.key, Reader.BareKey k := fun k hk =>
      h.bare k (List.mem_append_right _ (List.mem_flatMap.2 ⟨s, hs, hk⟩))
    rcases List.mem_cons.1 hp with rfl | hp
    · exact trivial
    rcases List.mem_cons.1 hp with rfl | hp
    · exact hbare s.name List.mem_cons_self
    · obtain ⟨e, he, rfl⟩ := List.mem_map.1 hp
      exact ⟨hbare e.key (List.mem_cons_of_mem _ (List.mem_map_of_mem he)),
        hfits e (List.mem_append_right _ (List.mem_flatMap.2 ⟨s, hs, he⟩))⟩

/-- **What remains of a document spells the entries that are not left out.** -/
theorem parse_remaining {d : Document} (h : d.Plain) (out : List String → Bool) (gaps : String → Bool) :
    parse (String.ofList ((d.pieces.filter (Piece.remains out gaps)).flatMap Piece.text)) = some (d.spelled out) := by
  obtain ⟨hentries, hsections, hapart⟩ := List.nodup_append.1 h.top
  have htop := read_remaining out gaps (fun es => ⟨es, []⟩) Draft.assign_top none hentries (fun k => !out [k])
    (fun _ => rfl)
  have hfresh : ∀ s ∈ d.sections,
      Entries.get? ((d.entries.map Entry.spelled).filter fun e => !out [e.1]) s.name = none := by
    intro s hs
    rw [Entries.get?_filter (fun k => !out [k]), Entries.get?_eq_none.2, ite_self]
    intro e he
    obtain ⟨e, hmem, rfl⟩ := List.mem_map.1 he
    exact hapart _ (List.mem_map_of_mem hmem) _ (List.mem_map_of_mem hs)
  obtain ⟨current, hrest⟩ := read_sections out gaps h.tables hsections hfresh []
  rw [parse_pieces fun p hp => h.pieces p (List.mem_filter.1 hp).1, Document.pieces, List.filter_append, readPieces_append]
  show ((readPieces _ ⟨[], []⟩).bind _).map _ = _
  rw [htop, Option.bind_some, hrest, Option.map_some, spelled, List.filter_append]

end Document

end MetricSurvey.Toml

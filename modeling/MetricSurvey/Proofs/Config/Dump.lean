/-
A configuration that is printed is read back, whole or in part.

Any keys may be left out of the printed text, and both tables: what they set has its default then, and all else is as it
was. The texts of a configuration may hold any characters; its whole numbers must be within what TOML can write.

- `plain_document`: the document of a configuration has bare names, each of them once.
- `ofEntries?_spelled`: what remains of the document is read as the configuration without what was left out.
- `dump_survives`: so the printed text is read back in every part of it, and is printed again when it is read whole.
-/
import MetricSurvey.Config.Launch
import MetricSurvey.Proofs.Toml.Document
import MetricSurvey.Proofs.Wire.Reader

namespace MetricSurvey

open Toml

namespace ServerConfig

variable {c : ServerConfig}

/-- every whole number of a configuration -/
def words (c : ServerConfig) : List UInt64 :=
  [c.intervalSecs, c.timeoutMs, c.sendQueueCapacity, c.writeTimeoutMs, c.shutdownGraceMs, c.maxFrameBytes,
    c.output.sinkQueueCapacity]

/-- The configuration in which some settings have their defaults again. `out` tells them by the keys that lead to them; the
key of a table stands for all that is in it. -/
def without (out : List String → Bool) (c : ServerConfig) : ServerConfig :=
  let d : ServerConfig := {}
  { listenAddr := if out ["listen_addr"] then d.listenAddr else c.listenAddr
    intervalSecs := if out ["interval_secs"] then d.intervalSecs else c.intervalSecs
    timeoutMs := if out ["timeout_ms"] then d.timeoutMs else c.timeoutMs
    sendQueueCapacity := if out ["send_queue_capacity"] then d.sendQueueCapacity else c.sendQueueCapacity
    writeTimeoutMs := if out ["write_timeout_ms"] then d.writeTimeoutMs else c.writeTimeoutMs
    shutdownGraceMs := if out ["shutdown_grace_ms"] then d.shutdownGraceMs else c.shutdownGraceMs
    maxFrameBytes := if out ["max_frame_bytes"] then d.maxFrameBytes else c.maxFrameBytes
    log := if out ["log"] then d.log else {
      level := if out ["log", "level"] then d.log.level else c.log.level
      json := if out ["log", "json"] then d.log.json else c.log.json }
    output := if out ["output"] then d.output else {
      logOutput := if out ["output", "log_output"] then d.output.logOutput else c.output.logOutput
      sinkQueueCapacity :=
        if out ["output", "sink_queue_capacity"] then d.output.sinkQueueCapacity else c.output.sinkQueueCapacity } }

/-- the printed text without some keys and tables, and without some blank lines -/
def remainder (out : List String → Bool) (gaps : String → Bool) (c : ServerConfig) : String :=
  String.ofList ((c.document.pieces.filter (Piece.remains out gaps)).flatMap Piece.text)

/-! ## The document -/

/-- the document of a configuration has bare keys, and each of them once in its table -/
theorem plain_document (h : ∀ n ∈ c.words, n.toNat < 2 ^ 63) : c.document.Plain where
  fits := by
    simp only [words, List.forall_mem_cons] at h
    simpa [Document.fits, document, Setting.fits] using h
  bare := by
    have hkeys : c.document.keys = ["listen_addr", "interval_secs", "timeout_ms", "send_queue_capacity",
        "write_timeout_ms", "shutdown_grace_ms", "max_frame_bytes", "log", "level", "json", "output", "log_output",
        "sink_queue_capacity"] := rfl
    rw [hkeys]
    decide
  top := by
    have htop : c.document.entries.map Entry.key ++ c.document.sections.map Section.name = ["listen_addr",
        "interval_secs", "timeout_ms", "send_queue_capacity", "write_timeout_ms", "shutdown_grace_ms",
        "max_frame_bytes", "log", "output"] := rfl
    rw [htop]
    decide
  tables := by
    have hlog : (["level", "json"] : List String).Nodup := by decide
    have houtput : (["log_output", "sink_queue_capacity"] : List String).Nodup := by decide
    intro s hs
    simp only [document, List.mem_cons, List.not_mem_nil, or_false] at hs
    rcases hs with rfl | rfl
    · exact hlog
    · exact houtput

/-! ## Reading what remains -/

/-- a setting that was left out has its default -/
theorem settingOr_ite {α : Type} {spell : Value → Option α} {v : Value} {x : α} (hspell : spell v = some x)
    (default : α) (out : Bool) :
    settingOr spell default (if !out then some v else none) = some (if out then default else x) := by
  cases out with
  | true => rfl
  | false => exact hspell

section Remaining

variable {α : Type} {spell : Value → Option α} {v : Value} {x : α} (out : List String → Bool) (k : String)

/-- a setting of a table of which something was left out -/
theorem settingOr_remaining (s : Section) (hspell : spell v = some x) (default : α)
    (hget : Entries.get? (s.entries.map Entry.spelled) k = some v) :
    settingOr spell default ((s.remaining out).get? k) = some (if out [s.name, k] then default else x) := by
  rw [Section.get?_remaining, hget]
  exact settingOr_ite hspell default _

/-- a setting of a document of which something was left out -/
theorem settingOr_spelled (d : Document) (hspell : spell v = some x) (default : α)
    (hget : Entries.get? (d.entries.map Entry.spelled ++ d.sections.map (Section.spelled out)) k = some v) :
    settingOr spell default ((d.spelled out).get? k) = some (if out [k] then default else x) := by
  rw [Document.get?_spelled, hget]
  exact settingOr_ite hspell default _

end Remaining

theorem text?_text (s : String) : (Value.text s).text? = some s := rfl

theorem boolean?_boolean (b : Bool) : (Value.boolean b).boolean? = some b := rfl

theorem word?_integer (n : UInt64) : (Value.integer n.toNat).word? = some n := by
  have hpos : (0 : Int) ≤ n.toNat := Int.natCast_nonneg _
  rw [Value.word?, if_pos hpos, Int.toNat_natCast, UInt64.ofNat_toNat]

/-- what is left of the table on logging -/
theorem log_of_remaining (s : LogSettings) (out : List String → Bool) :
    LogSettings.ofValue? (Section.spelled out ⟨"log", [⟨"level", .text s.level⟩, ⟨"json", .boolean s.json⟩]⟩).2 =
      some ⟨if out ["log", "level"] then "info" else s.level, if out ["log", "json"] then false else s.json⟩ := by
  let t : Section := ⟨"log", [⟨"level", .text s.level⟩, ⟨"json", .boolean s.json⟩]⟩
  show (settingOr Value.text? "info" ((t.remaining out).get? "level")).bind (fun level =>
    (settingOr Value.boolean? false ((t.remaining out).get? "json")).bind fun json =>
      some (LogSettings.mk level json)) = _
  rw [settingOr_remaining out "level" t (text?_text s.level) _ rfl,
    settingOr_remaining out "json" t (boolean?_boolean s.json) _ rfl]
  rfl

/-- what is left of the table on output -/
theorem output_of_remaining (s : OutputSettings) (out : List String → Bool) :
    OutputSettings.ofValue? (Section.spelled out ⟨"output", [⟨"log_output", .boolean s.logOutput⟩,
      ⟨"sink_queue_capacity", .integer s.sinkQueueCapacity.toNat⟩]⟩).2 =
      some ⟨if out ["output", "log_output"] then true else s.logOutput,
        if out ["output", "sink_queue_capacity"] then 100 else s.sinkQueueCapacity⟩ := by
  let t : Section := ⟨"output", [⟨"log_output", .boolean s.logOutput⟩,
    ⟨"sink_queue_capacity", .integer s.sinkQueueCapacity.toNat⟩]⟩
  show (settingOr Value.boolean? true ((t.remaining out).get? "log_output")).bind (fun logOutput =>
    (settingOr Value.word? 100 ((t.remaining out).get? "sink_queue_capacity")).bind fun capacity =>
      some (OutputSettings.mk logOutput capacity)) = _
  rw [settingOr_remaining out "log_output" t (boolean?_boolean s.logOutput) _ rfl,
    settingOr_remaining out "sink_queue_capacity" t (word?_integer s.sinkQueueCapacity) _ rfl]
  rfl

/-- **What remains of the document** is read as the configuration without what was left out. -/
theorem ofEntries?_spelled (c : ServerConfig) (out : List String → Bool) :
    ofEntries? (c.document.spelled out) = some (c.without out) := by
  rw [ofEntries?,
    settingOr_spelled out "listen_addr" c.document (text?_text c.listenAddr) _ rfl,
    settingOr_spelled out "interval_secs" c.document (word?_integer c.intervalSecs) _ rfl,
    settingOr_spelled out "timeout_ms" c.document (word?_integer c.timeoutMs) _ rfl,
    settingOr_spelled out "send_queue_capacity" c.document (word?_integer c.sendQueueCapacity) _ rfl,
    settingOr_spelled out "write_timeout_ms" c.document (word?_integer c.writeTimeoutMs) _ rfl,
    settingOr_spelled out "shutdown_grace_ms" c.document (word?_integer c.shutdownGraceMs) _ rfl,
    settingOr_spelled out "max_frame_bytes" c.document (word?_integer c.maxFrameBytes) _ rfl,
    settingOr_spelled out "log" c.document (log_of_remaining c.log out) _ rfl,
    settingOr_spelled out "output" c.document (output_of_remaining c.output out) _ rfl]
  rfl

theorem parse?_remainder (h : ∀ n ∈ c.words, n.toNat < 2 ^ 63) (out : List String → Bool) (gaps : String → Bool) :
    parse? (c.remainder out gaps) = some (c.without out) := by
  show (Toml.parse (c.remainder out gaps)).bind ofEntries? = _
  rw [remainder, Document.parse_remaining (plain_document h) out gaps, Option.bind_some, ofEntries?_spelled]

/-- nothing is left out of the whole text -/
theorem remainder_whole (c : ServerConfig) :
    c.remainder (fun _ => false) (fun _ => true) = String.ofList (c.document.pieces.flatMap Piece.text) := by
  have hall : c.document.pieces.filter (Piece.remains (fun _ => false) (fun _ => true)) = c.document.pieces := by
    refine List.filter_eq_self.2 fun p _ => ?_
    cases p with
    | gap t => rfl
    | header t => rfl
    | entry t e => cases t <;> rfl
  rw [remainder, hall]

/-- what is printed when a configuration is asked for -/
theorem ofConfig_print (h : ∀ n ∈ c.words, n.toNat < 2 ^ 63) :
    Launch.ofConfig true c = .print (String.ofList (c.document.pieces.flatMap Piece.text)) := by
  have hwritten : c.document.write = c.document.pieces.flatMap Piece.text :=
    Document.write_eq_pieces (List.cons_ne_nil _ _)
  rw [Launch.ofConfig, if_pos rfl, Document.text?, if_pos (plain_document h).fits, hwritten]

/-- a text with quotes, and one with a line break -/
example : Launch.ofConfig true { listenAddr := "\"a\" 'b'", log := { level := "x\ny" } } =
    .print "listen_addr = \"\"\"\"a\" 'b'\"\"\"
interval_secs = 10
timeout_ms = 1000
send_queue_capacity = 8
write_timeout_ms = 1000
shutdown_grace_ms = 500
max_frame_bytes = 16777216

[log]
level = \"\"\"
x
y\"\"\"
json = false

[output]
log_output = true
sink_queue_capacity = 100
" := by decide +kernel

/-- a configuration that is read from a file, overruled by nothing -/
theorem ofArguments_file {files : String → Option Bytes} {args : List String} {path text : String}
    (hargs : Arguments.parse args = .ok { config := some path, dumpConfig := true })
    (hfile : files path = some (Bytes.ofText text)) (hparse : parse? text = some c) :
    Launch.ofArguments files args = Launch.ofConfig true c := by
  have hload : load (files path) = .ok c := by
    rw [load, hfile, Option.bind_some, Bytes.toText?_ofText]
    dsimp only
    rw [hparse]
  have hconfig : Launch.configFor files { config := some path, dumpConfig := true } = .ok c := by
    rw [Launch.configFor]
    dsimp only
    rw [hload]
    rfl
  rw [Launch.ofArguments, hargs]
  dsimp only
  rw [hconfig]

/-- **A configuration survives its own dump**, whole or in part. Whatever keys, tables and blank lines are left out of the
text that is printed, the rest is read as the configuration in which the left-out settings have their defaults; and a
server that is started with the whole text, and overrules nothing, prints the same text again. -/
theorem dump_survives (c : ServerConfig) (hbounds : ∀ n ∈ c.words, n.toNat < 2 ^ 63) :
    ∃ text, Launch.ofConfig true c = .print text ∧ text = String.ofList (c.document.pieces.flatMap Piece.text) ∧
      (∀ out gaps, parse? (c.remainder out gaps) = some (c.without out)) ∧
      ∀ files args path, Arguments.parse args = .ok { config := some path, dumpConfig := true } →
        files path = some (Bytes.ofText text) → Launch.ofArguments files args = .print text := by
  refine ⟨_, ofConfig_print hbounds, rfl, fun out gaps => parse?_remainder hbounds out gaps, ?_⟩
  intro files args path hargs hfile
  have hwhole := parse?_remainder hbounds (fun _ => false) (fun _ => true)
  have hnone : c.without (fun _ => false) = c := rfl
  rw [remainder_whole, hnone] at hwhole
  rw [ofArguments_file hargs hfile hwhole]
  exact ofConfig_print hbounds

/-- An address with quotes of both kinds, a backslash, a control character and a line break, and the largest number that TOML
can hold. Without the table on logging and that number, the address alone is not at its default. -/
theorem dump_survives_quoted :
    let c : ServerConfig := {
      listenAddr := "\"[::1]\":80 \\ ''' \"\"\"\n\x01\t\u00e9"
      maxFrameBytes := 9223372036854775807
      log := { level := "debug", json := true } }
    (∀ n ∈ c.words, n.toNat < 2 ^ 63) ∧
      ∃ text, Launch.ofConfig true c = .print text ∧
        parse? (c.remainder (fun path => path == ["log"] || path == ["max_frame_bytes"]) fun _ => true) =
          some { listenAddr := c.listenAddr } ∧
        Launch.ofArguments (fun _ => some (Bytes.ofText text)) ["--config", "stagger.toml", "--dump-config"] =
          .print text := by
  intro c
  have hall : (c.words.all fun n => decide (n.toNat < 2 ^ 63)) = true := by decide
  have hbounds : ∀ n ∈ c.words, n.toNat < 2 ^ 63 := fun n hn => of_decide_eq_true (List.all_eq_true.1 hall n hn)
  obtain ⟨text, hprint, -, hparts, hagain⟩ := dump_survives c hbounds
  exact ⟨hbounds, text, hprint, hparts _ _, hagain _ _ "stagger.toml" (by rfl) rfl⟩

end ServerConfig

end MetricSurvey

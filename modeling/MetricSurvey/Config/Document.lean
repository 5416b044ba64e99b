/-
A configuration as a TOML document: how it is written down and how it is read.

Reading keeps the default of every key that is missing and passes over keys that it does not know. A table of settings may
also be an array of their values in order; what is missing there keeps its default, and surplus items do not count. A date
in the place of a table counts as a table of unknown keys.
-/
import MetricSurvey.Config.Basic
import MetricSurvey.Toml.Document
import MetricSurvey.Toml.Reader

namespace MetricSurvey

/-! ## Settings from values -/

namespace Toml.Value

def text? : Value → Option String
  | text s => some s
  | _ => none

def boolean? : Value → Option Bool
  | boolean b => some b
  | _ => none

/-- a whole number that is not negative -/
def word? : Value → Option UInt64
  | integer i => if 0 ≤ i then some (UInt64.ofNat i.toNat) else none
  | _ => none

/-- what stands for each of the named settings: keys in a table, items in an array -/
def settings? (names : List String) : Value → Option (List (Option Value))
  | table _ es => some (names.map (Entries.get? es))
  | array vs => some ((List.range names.length).map fun i => vs[i]?)
  | tables earlier last =>
    some ((List.range names.length).map fun i => (earlier ++ [last])[i]?.map (table .header))
  | moment => some (names.map fun _ => none)
  | _ => none

end Toml.Value

/-- the setting that a value spells, or its default if there is no value -/
def settingOr {α : Type} (spell : Toml.Value → Option α) (default : α) : Option Toml.Value → Option α
  | none => some default
  | some v => spell v

namespace LogSettings

def ofValue? (v : Toml.Value) : Option LogSettings := do
  match ← v.settings? ["level", "json"] with
  | [level, json] =>
    pure ⟨← settingOr Toml.Value.text? "info" level, ← settingOr Toml.Value.boolean? false json⟩
  | _ => none

end LogSettings

namespace OutputSettings

def ofValue? (v : Toml.Value) : Option OutputSettings := do
  match ← v.settings? ["log_output", "sink_queue_capacity"] with
  | [logOutput, capacity] =>
    pure ⟨← settingOr Toml.Value.boolean? true logOutput, ← settingOr Toml.Value.word? 100 capacity⟩
  | _ => none

end OutputSettings

namespace ServerConfig

/-- the configuration that a table spells -/
def ofEntries? (es : Toml.Entries) : Option ServerConfig := do
  let d : ServerConfig := {}
  pure {
    listenAddr := ← settingOr Toml.Value.text? d.listenAddr (es.get? "listen_addr")
    intervalSecs := ← settingOr Toml.Value.word? d.intervalSecs (es.get? "interval_secs")
    timeoutMs := ← settingOr Toml.Value.word? d.timeoutMs (es.get? "timeout_ms")
    sendQueueCapacity := ← settingOr Toml.Value.word? d.sendQueueCapacity (es.get? "send_queue_capacity")
    writeTimeoutMs := ← settingOr Toml.Value.word? d.writeTimeoutMs (es.get? "write_timeout_ms")
    shutdownGraceMs := ← settingOr Toml.Value.word? d.shutdownGraceMs (es.get? "shutdown_grace_ms")
    maxFrameBytes := ← settingOr Toml.Value.word? d.maxFrameBytes (es.get? "max_frame_bytes")
    log := ← settingOr LogSettings.ofValue? d.log (es.get? "log")
    output := ← settingOr OutputSettings.ofValue? d.output (es.get? "output") }

/-- the configuration that a TOML text spells -/
def parse? (text : String) : Option ServerConfig := do ofEntries? (← Toml.parse text)

/-- the document with every setting of a configuration -/
def document (c : ServerConfig) : Toml.Document where
  entries := [
    ⟨"listen_addr", .text c.listenAddr⟩,
    ⟨"interval_secs", .integer c.intervalSecs.toNat⟩,
    ⟨"timeout_ms", .integer c.timeoutMs.toNat⟩,
    ⟨"send_queue_capacity", .integer c.sendQueueCapacity.toNat⟩,
    ⟨"write_timeout_ms", .integer c.writeTimeoutMs.toNat⟩,
    ⟨"shutdown_grace_ms", .integer c.shutdownGraceMs.toNat⟩,
    ⟨"max_frame_bytes", .integer c.maxFrameBytes.toNat⟩]
  sections := [
    ⟨"log", [⟨"level", .text c.log.level⟩, ⟨"json", .boolean c.log.json⟩]⟩,
    ⟨"output", [⟨"log_output", .boolean c.output.logOutput⟩,
      ⟨"sink_queue_capacity", .integer c.output.sinkQueueCapacity.toNat⟩]⟩]

end ServerConfig

/-- why there is no configuration -/
inductive ConfigError where
  /-- the file cannot be read, or is no UTF-8 text -/
  | read
  /-- the text spells no configuration -/
  | parse
  | invalid (fault : ConfigFault)
deriving DecidableEq

namespace ConfigError

/-- the text of an error; the first two are told by what refused them -/
def message : ConfigError → Option String
  | read => none
  | parse => none
  | invalid fault => some ("invalid config: " ++ fault.message)

end ConfigError

namespace ServerConfig

/-- the configuration in a file with these bytes; `none` stands for a file that cannot be read -/
def load (file : Option Bytes) : Except ConfigError ServerConfig :=
  match file.bind Bytes.toText? with
  | none => .error .read
  | some text =>
    match parse? text with
    | none => .error .parse
    | some c => .ok c

/-- refuse a configuration that does not meet every demand -/
def validate (c : ServerConfig) : Except ConfigError Unit :=
  match c.fault? with
  | some fault => .error (.invalid fault)
  | none => .ok ()

end ServerConfig

end MetricSurvey

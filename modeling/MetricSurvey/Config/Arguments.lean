/-
The command line: options that overrule a configuration, and two that ask for something else.

Every option may be given once. One that takes a value has it behind it, or behind `=`; behind the short `-c` the value
may also follow at once. A value that begins with a dash is only taken behind `=`, except for a dash alone. Asking for
help or for the version ends the reading there.
-/
import MetricSurvey.Config.Basic
import MetricSurvey.Text.Segment

namespace MetricSurvey

/-- what the command line says -/
structure Arguments where
  /-- the path of a configuration file -/
  config : Option String := none
  listen : Option String := none
  interval : Option UInt64 := none
  timeout : Option UInt64 := none
  logJson : Bool := false
  noLogOutput : Bool := false
  /-- print the configuration and do nothing else -/
  dumpConfig : Bool := false
deriving DecidableEq

namespace Arguments

/-- why reading the command line ended before its end -/
inductive Stop where
  | usage
  | help
  | version
deriving DecidableEq

/-- options with a value -/
inductive Valued where
  | config
  | listen
  | interval
  | timeout
deriving DecidableEq

/-- options without one -/
inductive Flag where
  | logJson
  | noLogOutput
  | dumpConfig
deriving DecidableEq

/-- what the name of an option stands for -/
inductive Known where
  | valued (v : Valued)
  | flag (f : Flag)
  | stop (s : Stop)
deriving DecidableEq

def long? (name : List Char) : Option Known :=
  match String.ofList name with
  | "config" => some (.valued .config)
  | "listen" => some (.valued .listen)
  | "interval" => some (.valued .interval)
  | "timeout" => some (.valued .timeout)
  | "log-json" => some (.flag .logJson)
  | "no-log-output" => some (.flag .noLogOutput)
  | "dump-config" => some (.flag .dumpConfig)
  | "help" => some (.stop .help)
  | "version" => some (.stop .version)
  | _ => none

/-- the whole number of 64 bits that a text spells; a plus and zeros may stand in front -/
def word? (s : List Char) : Option UInt64 :=
  let digits := match s with
    | '+' :: rest => rest
    | cs => cs
  if digits.isEmpty || !digits.all Char.isDigit then none
  else
    let n := digits.foldl (fun n c => n * 10 + (c.toNat - 48)) 0
    if n < Nat.pow 2 64 then some (UInt64.ofNat n) else none

/-- take an option that was not given before, with its value -/
def setValued (a : Arguments) (v : Valued) (s : List Char) : Except Stop Arguments :=
  let set : Option Arguments :=
    match v with
    | .config => if a.config.isSome || s.isEmpty then none else some { a with config := some (String.ofList s) }
    | .listen => if a.listen.isSome then none else some { a with listen := some (String.ofList s) }
    | .interval => if a.interval.isSome then none else (word? s).map fun n => { a with interval := some n }
    | .timeout => if a.timeout.isSome then none else (word? s).map fun n => { a with timeout := some n }
  match set with
  | some a => .ok a
  | none => .error .usage

/-- take a flag that was not given before -/
def setFlag (a : Arguments) : Flag → Except Stop Arguments
  | .logJson => if a.logJson then .error .usage else .ok { a with logJson := true }
  | .noLogOutput => if a.noLogOutput then .error .usage else .ok { a with noLogOutput := true }
  | .dumpConfig => if a.dumpConfig then .error .usage else .ok { a with dumpConfig := true }

/-- whether an argument can be the value of the option in front of it -/
def isValue : List Char → Bool
  | '-' :: _ :: _ => false
  | _ => true

/-- what an argument asks for -/
inductive Request where
  /-- an option that stands for itself -/
  | known (k : Known)
  /-- an option with its value -/
  | assigned (v : Valued) (value : List Char)
  /-- nothing more comes -/
  | last
  | unknown

def request (arg : List Char) : Request :=
  match arg with
  | ['-', '-'] => .last
  | '-' :: '-' :: name =>
    match Segment.splitFirst '=' name with
    | none => ((long? name).map .known).getD .unknown
    | some (name, value) =>
      match long? name with
      | some (.valued v) => .assigned v value
      | _ => .unknown
  | '-' :: 'h' :: _ => .known (.stop .help)
  | '-' :: 'V' :: _ => .known (.stop .version)
  | ['-', 'c'] => .known (.valued .config)
  | '-' :: 'c' :: '=' :: value => .assigned .config value
  | '-' :: 'c' :: value => .assigned .config value
  | _ => .unknown

/-- read the arguments in order -/
def read (a : Arguments) : List (List Char) → Except Stop Arguments
  | [] => .ok a
  | [arg] =>
    match request arg with
    | .known (.flag f) => a.setFlag f
    | .known (.stop s) => .error s
    | .assigned v value => a.setValued v value
    | .last => .ok a
    | .known (.valued _) | .unknown => .error .usage
  | arg :: value :: rest =>
    match request arg with
    | .known (.flag f) => do read (← a.setFlag f) (value :: rest)
    | .known (.stop s) => .error s
    | .assigned v value' => do read (← a.setValued v value') (value :: rest)
    | .known (.valued v) => do if isValue value then read (← a.setValued v value) rest else .error .usage
    | .last | .unknown => .error .usage

def parse (args : List String) : Except Stop Arguments := read {} (args.map String.toList)

/-- the configuration as the command line overrules it -/
def overrule (a : Arguments) (c : ServerConfig) : ServerConfig :=
  { c with
    listenAddr := a.listen.getD c.listenAddr
    intervalSecs := a.interval.getD c.intervalSecs
    timeoutMs := a.timeout.getD c.timeoutMs
    log := if a.logJson then { c.log with json := true } else c.log
    output := if a.noLogOutput then { c.output with logOutput := false } else c.output }

def versionText : String := "stagger 0.1.0\n"

def helpText : String := "Stagger metrics aggregation server

Usage: stagger [OPTIONS]

Options:
  -c, --config <CONFIG>      Path to a TOML configuration file
      --listen <LISTEN>      Address clients connect to
      --interval <INTERVAL>  Survey interval in seconds
      --timeout <TIMEOUT>    Survey timeout in milliseconds
      --log-json             Log as JSON lines
      --no-log-output        Do not write snapshots to stdout
      --dump-config          Print the effective configuration as TOML and exit
  -h, --help                 Print help
  -V, --version              Print version
"

end Arguments

end MetricSurvey

/-
Starting up: from the command line to a configuration to serve with, a text to print, or a reason to give up.
-/
import MetricSurvey.Config.Arguments
import MetricSurvey.Config.Document
import MetricSurvey.Text.Quoted

namespace MetricSurvey

/-- why the program gives up before it serves anybody -/
inductive LaunchError where
  | usage
  | config (e : ConfigError)
  /-- a number is too large to be written in TOML -/
  | outOfRange
deriving DecidableEq

inductive Launch where
  | print (text : String)
  | serve (config : ServerConfig)
  | refuse (e : LaunchError)
deriving DecidableEq

namespace Launch

/-- the configuration that the arguments ask for; `files` gives the bytes of a file that can be read -/
def configFor (files : String → Option Bytes) (a : Arguments) : Except ConfigError ServerConfig := do
  let c ← match a.config with
    | some path => ServerConfig.load (files path)
    | none => .ok {}
  pure (a.overrule c)

/-- print a configuration, or check it and serve with it -/
def ofConfig (dump : Bool) (c : ServerConfig) : Launch :=
  if dump then
    match c.document.text? with
    | some text => .print text
    | none => .refuse .outOfRange
  else match c.validate with
    | .error e => .refuse (.config e)
    | .ok () => .serve c

def ofArguments (files : String → Option Bytes) (args : List String) : Launch :=
  match Arguments.parse args with
  | .error .usage => .refuse .usage
  | .error .help => .print Arguments.helpText
  | .error .version => .print Arguments.versionText
  | .ok a =>
    match configFor files a with
    | .error e => .refuse (.config e)
    | .ok c => ofConfig a.dumpConfig c

end Launch

namespace LaunchError

def exitCode : LaunchError → UInt8
  | usage => 2
  | _ => 1

/-- the kind of an error, in one word -/
def kind : LaunchError → String
  | usage => "Usage"
  | config .read => "Read"
  | config .parse => "Parse"
  | config (.invalid _) => "Invalid"
  | outOfRange => "OutOfRange"

/-- the whole text of an error whose text is this program's own -/
def text? : LaunchError → Option String
  | config (.invalid fault) => some ("Invalid(" ++ Quoted.encode fault.message ++ ")")
  | _ => none

end LaunchError

end MetricSurvey

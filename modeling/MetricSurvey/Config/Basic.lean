/-
The configuration of a server, and what is demanded of it.

`fault?` names the first demand that is not met: surveys must be shorter than the interval between them, and queues must
hold something.
-/
import MetricSurvey.Time.Duration
import MetricSurvey.Wire.Frame

namespace MetricSurvey

structure LogSettings where
  /-- what is logged unless the environment says otherwise -/
  level : String := "info"
  /-- log one JSON object per line -/
  json : Bool := false
deriving DecidableEq

structure OutputSettings where
  /-- write every snapshot to standard output -/
  logOutput : Bool := true
  /-- how many snapshots may wait for a sink -/
  sinkQueueCapacity : UInt64 := 100
deriving DecidableEq

structure ServerConfig where
  /-- where clients connect to -/
  listenAddr : String := "127.0.0.1:5865"
  intervalSecs : UInt64 := 10
  /-- how long a survey waits for answers -/
  timeoutMs : UInt64 := 1000
  /-- how many messages may wait for a session -/
  sendQueueCapacity : UInt64 := 8
  writeTimeoutMs : UInt64 := 1000
  /-- how long sessions have to close after a shutdown -/
  shutdownGraceMs : UInt64 := 500
  /-- the largest body that is taken or sent -/
  maxFrameBytes : UInt64 := UInt64.ofNat Frame.defaultMax
  log : LogSettings := {}
  output : OutputSettings := {}
deriving DecidableEq

/-- a demand that a configuration does not meet -/
inductive ConfigFault where
  | noInterval
  | intervalTooLong (secs : UInt64)
  | noTimeout
  | timeoutTooLong (ms secs : UInt64)
  | noSendQueue
  | noSinkQueue
deriving DecidableEq

namespace ServerConfig

/-- the longest interval is a day -/
def maxIntervalSecs : UInt64 := 86400

def interval (c : ServerConfig) : Duration := .ofSecs c.intervalSecs.toNat
def timeout (c : ServerConfig) : Duration := .ofMillis c.timeoutMs.toNat
def writeTimeout (c : ServerConfig) : Duration := .ofMillis c.writeTimeoutMs.toNat
def shutdownGrace (c : ServerConfig) : Duration := .ofMillis c.shutdownGraceMs.toNat

/-- how long a session is silent before it pings its peer -/
def pingAfter (c : ServerConfig) : Duration := ⟨c.interval.nanos / 2⟩

/-- how long a session is silent before it is given up, within the longest duration -/
def idleDeadline (c : ServerConfig) : Duration := min ⟨c.interval.nanos * 2⟩ .longest

/-- the first demand that is not met -/
def fault? (c : ServerConfig) : Option ConfigFault :=
  if c.intervalSecs = 0 then some .noInterval
  else if maxIntervalSecs < c.intervalSecs then some (.intervalTooLong c.intervalSecs)
  else if c.timeoutMs = 0 then some .noTimeout
  else if c.interval ≤ c.timeout then some (.timeoutTooLong c.timeoutMs c.intervalSecs)
  else if c.sendQueueCapacity = 0 then some .noSendQueue
  else if c.output.sinkQueueCapacity = 0 then some .noSinkQueue
  else none

end ServerConfig

namespace ConfigFault

def message : ConfigFault → String
  | noInterval => "interval_secs must be positive"
  | intervalTooLong secs => "interval_secs (" ++ toString secs.toNat ++ ") must be at most 86400"
  | noTimeout => "timeout_ms must be positive"
  | timeoutTooLong ms secs =>
    "timeout_ms (" ++ toString ms.toNat ++ ") must be shorter than the interval (" ++ toString secs.toNat ++ "s)"
  | noSendQueue => "send_queue_capacity must be positive"
  | noSinkQueue => "output.sink_queue_capacity must be positive"

end ConfigFault

end MetricSurvey

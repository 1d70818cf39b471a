import Telemetry.Configuration.Decode

/-!
# Settings around an export

How long one attempt may take, how failed attempts are repeated, and whether batches wait in a queue
first. All spans of time are in milliseconds.
-/

namespace Telemetry

/-- How failed attempts are repeated. -/
structure RetryPolicy where
  /-- Whether a failed attempt is repeated at all. -/
  enabled : Bool
  /-- The wait before the second attempt. -/
  initialInterval : Nat
  /-- Each wait is picked from the interval times one plus or minus this. -/
  randomizationFactor : Binary64
  /-- The growth of the interval from one wait to the next. -/
  multiplier : Binary64
  /-- The largest interval. -/
  maxInterval : Nat
  /-- The time after which no further attempt begins; zero for no such time. -/
  maxElapsedTime : Nat
deriving DecidableEq, Repr

namespace RetryPolicy

/-- Five seconds at first, half as much again each time up to thirty seconds, for five minutes. -/
def default : RetryPolicy where
  enabled := true
  initialInterval := 5000
  randomizationFactor := ⟨0x3FE0000000000000⟩
  multiplier := ⟨0x3FF8000000000000⟩
  maxInterval := 30000
  maxElapsedTime := 300000

/-- What rules out a retry policy. -/
inductive Fault
  | multiplier (value : Binary64)
  | randomizationFactor (value : Binary64)
  | zeroInterval
  | intervalOrder (initial largest : Nat)
deriving DecidableEq, Repr

/-- The wording of a fault. -/
def Fault.message : Fault → String
  | .multiplier value =>
    "retry_on_failure.multiplier must be a finite number >= 1, got " ++
      Decimal.Layout.plain.text value
  | .randomizationFactor value =>
    "retry_on_failure.randomization_factor must be within [0, 1], got " ++
      Decimal.Layout.plain.text value
  | .zeroInterval => "retry_on_failure intervals must be positive"
  | .intervalOrder initial largest =>
    "retry_on_failure.initial_interval (" ++ toString initial ++ "ms) exceeds max_interval (" ++
      toString largest ++ "ms)"

/-- Whether a factor lies between zero and one. -/
def isFraction (x : Binary64) : Bool :=
  x.isZero || (x.isFinite && !x.isNegative && x.leNat 1)

/-- The first fault of a policy; one that is switched off has none. -/
def fault? (p : RetryPolicy) : Option Fault :=
  if !p.enabled then none
  else if !p.multiplier.isFinite || p.multiplier.ltNat 1 then some (.multiplier p.multiplier)
  else if !isFraction p.randomizationFactor then
    some (.randomizationFactor p.randomizationFactor)
  else if p.initialInterval = 0 ∨ p.maxInterval = 0 then some .zeroInterval
  else if p.maxInterval < p.initialInterval then
    some (.intervalOrder p.initialInterval p.maxInterval)
  else none

/-- The fields of a retry policy. -/
def fields : List (Settings.Field RetryPolicy) :=
  [Settings.field "enabled" Settings.bool fun v p => { p with enabled := v },
   Settings.field "initial_interval" Settings.milliseconds fun v p =>
     { p with initialInterval := v },
   Settings.field "randomization_factor" Settings.double fun v p =>
     { p with randomizationFactor := v },
   Settings.field "multiplier" Settings.double fun v p => { p with multiplier := v },
   Settings.field "max_interval" Settings.milliseconds fun v p => { p with maxInterval := v },
   Settings.field "max_elapsed_time" Settings.milliseconds fun v p =>
     { p with maxElapsedTime := v }]

/-- Reads a retry policy; members that are no fields are ignored. -/
def read (gathered : Bool) : Settings.Reader RetryPolicy :=
  Settings.record "RetryConfig" ⟨false, gathered⟩ fields default

/-- The JSON form of a retry policy. -/
def toJson (p : RetryPolicy) : Json :=
  .ofMembers [("enabled", .bool p.enabled), ("initial_interval", .ofNat p.initialInterval),
    ("randomization_factor", .ofBinary64 p.randomizationFactor),
    ("multiplier", .ofBinary64 p.multiplier), ("max_interval", .ofNat p.maxInterval),
    ("max_elapsed_time", .ofNat p.maxElapsedTime)]

end RetryPolicy

/-- The queue in front of an exporter. -/
structure QueueSettings where
  /-- Whether there is a queue. -/
  enabled : Bool
  /-- How many workers empty it. -/
  consumers : Nat
  /-- How many batches it holds. -/
  size : Nat
  /-- The storage extension that keeps its batches; without one they are kept in memory. -/
  storage : Option ComponentId
deriving DecidableEq

namespace QueueSettings

/-- A thousand batches in memory and ten workers. -/
def default : QueueSettings := ⟨true, 10, 1000, none⟩

/-- The fields of the settings of a queue. -/
def fields : List (Settings.Field QueueSettings) :=
  [Settings.field "enabled" Settings.bool fun v q => { q with enabled := v },
   Settings.field "num_consumers" Settings.count fun v q => { q with consumers := v },
   Settings.field "queue_size" Settings.count fun v q => { q with size := v },
   Settings.field "storage" (Settings.optional Settings.componentId) fun v q =>
     { q with storage := v }]

/-- Reads the settings of a queue; members that are no fields are ignored. -/
def read (gathered : Bool) : Settings.Reader QueueSettings :=
  Settings.record "QueueConfig" ⟨false, gathered⟩ fields default

/-- The JSON form of the settings of a queue. -/
def toJson (q : QueueSettings) : Json :=
  .ofMembers [("enabled", .bool q.enabled), ("num_consumers", .ofNat q.consumers),
    ("queue_size", .ofNat q.size), ("storage", .ofOption (q.storage.map ComponentId.text))]

end QueueSettings

/-- The settings every exporter has. -/
structure ExportSettings where
  /-- The limit on one attempt; zero for no limit. -/
  timeout : Nat
  /-- How failed attempts are repeated. -/
  retry : RetryPolicy
  /-- The queue in front. -/
  queue : QueueSettings
deriving DecidableEq

namespace ExportSettings

/-- Five seconds for an attempt, and the defaults of retries and of the queue. -/
def default : ExportSettings := ⟨5000, .default, .default⟩

/-- The fields of the settings of an exporter; `gathered` says whether they stand among those of an
outer record. -/
def fields (gathered : Bool) : List (Settings.Field ExportSettings) :=
  [Settings.field "timeout" Settings.milliseconds fun v s => { s with timeout := v },
   Settings.field "retry_on_failure" (RetryPolicy.read gathered) fun v s => { s with retry := v },
   Settings.field "sending_queue" (QueueSettings.read gathered) fun v s => { s with queue := v }]

/-- Reads the settings of an exporter; members that are no fields are ignored. -/
def read : Settings.Reader ExportSettings :=
  Settings.record "HelperConfig" ⟨false, false⟩ (fields false) default

/-- The members of the JSON form of the settings of an exporter. -/
def members (s : ExportSettings) : List (String × Json) :=
  [("timeout", .ofNat s.timeout), ("retry_on_failure", s.retry.toJson),
   ("sending_queue", s.queue.toJson)]

end ExportSettings

end Telemetry

import Telemetry.Component.Settings
import Telemetry.Batch.Request

/-!
# Counts of items

The metrics that say how many items each resource of a batch has: one sum per resource with items,
in the order of the batch.
-/

namespace Telemetry

open Wire (Message MessageType Value)

/-- The name of the scope that counts are reported under. -/
def countScope : String := "otel-agent/count"

/-- The version of that scope. -/
def countScopeVersion : String := "0.1.0"

namespace ItemCounts

/-- The scope of counts. -/
def scope : Message :=
  MessageType.scope.filled
    [("name", [.text countScope]), ("version", [.text countScopeVersion])]

/-- A metric with a label whose one point says how many items there were up to a time. The sum only
grows and counts what was added since the last report. -/
def metric (label : MetricLabel) (time : UInt64) (count : Nat) : Message :=
  let point := MessageType.numberPoint.filled
    [("timeUnixNano", [.word time]), ("asInt", [.word (UInt64.ofNat count)])]
  let sum := MessageType.sum.filled
    [("dataPoints", [.message point]), ("aggregationTemporality", [.word 1]),
     ("isMonotonic", [.word 1])]
  MessageType.metric.filled
    [("name", [.text label.name]), ("description", [.text label.description]),
     ("sum", [.message sum])]

/-- The group that reports the count of one resource. -/
def group (label : MetricLabel) (time : UInt64) (resource : Option Resource) (count : Nat) :
    ResourceGroup :=
  ⟨resource, [⟨some scope, [metric label time count], ""⟩], ""⟩

/-- The counts of a batch, one group for each resource with items. -/
def ofRequest (label : MetricLabel) (time : UInt64) (r : Request) : Request :=
  let counted := r.countsPerResource.filter fun c => 0 < c.2
  ⟨.metrics, counted.map fun (resource, count) => group label time resource count⟩

/-- The counts of a batch that has items. -/
def ofRequest? (label : MetricLabel) (time : UInt64) (r : Request) : Option Request :=
  let counts := ofRequest label time r
  if counts.groups.isEmpty then none else some counts

/-- The label for batches of a type. -/
def labelOf (s : CountSettings) : BatchType → MetricLabel
  | .traces => s.spans
  | .metrics => s.datapoints
  | .logs => s.logs

end ItemCounts

end Telemetry

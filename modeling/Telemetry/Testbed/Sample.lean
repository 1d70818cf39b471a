import Telemetry.Flow.ItemCounts

/-!
# Sample batches

Batches with so many items, one resource and one scope, for trying out what handles batches. Counts of
items are compared without the times of their points.
-/

namespace Telemetry.Sample

open Wire (Message MessageType Value)

/-- The span of a given number. -/
def span (i : Nat) : Message :=
  MessageType.span.filled [("name", [.text ("span-" ++ toString i)])]

/-- The log record of a given number. -/
def logRecord (i : Nat) : Message :=
  MessageType.logRecord.filled [("timeUnixNano", [.word (UInt64.ofNat i)])]

/-- The point of a given number. -/
def point (i : Nat) : Message :=
  MessageType.numberPoint.filled [("asInt", [.word (UInt64.ofNat i)])]

/-- A gauge with so many points. -/
def gauge (n : Nat) : Message :=
  let points := (List.range n).map fun i => Value.message (point i)
  let data := MessageType.gauge.filled [("dataPoints", points)]
  MessageType.metric.filled [("name", [.text "test.gauge"]), ("gauge", [.message data])]

/-- The items of a sample. -/
def items (type : BatchType) (n : Nat) : List Message :=
  match type with
  | .traces => (List.range n).map span
  | .metrics => [gauge n]
  | .logs => (List.range n).map logRecord

/-- A batch with so many items. -/
def request (type : BatchType) (n : Nat) : Request :=
  ⟨type, [⟨some .blank, [⟨none, items type n, ""⟩], ""⟩]⟩

/-- Changes every message in a slot. -/
def mapSlot (type : MessageType) (field : String) (f : Message → Message) (m : Message) :
    Message :=
  let place := type.indexOf field
  m.withSlot place ((m.messagesAt place).map fun part => .message (f part))

/-- A metric whose sum has no times of its points. -/
def untimedMetric : Message → Message :=
  mapSlot .metric "sum" <| mapSlot .sum "dataPoints" fun point =>
    point.withSlot (MessageType.numberPoint.indexOf "timeUnixNano") [.word 0]

/-- A group whose counts have no times. -/
def untimedScope (g : ScopeGroup) : ScopeGroup :=
  if g.scope.any fun s => s.textAt 0 == countScope then
    { g with items := g.items.map untimedMetric }
  else g

/-- A batch whose counts have no times, so that two runs at different times can be compared. -/
def untimed (r : Request) : Request :=
  match r.type with
  | .metrics =>
    { r with groups := r.groups.map fun g => { g with scopes := g.scopes.map untimedScope } }
  | _ => r

end Telemetry.Sample

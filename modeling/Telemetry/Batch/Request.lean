import Telemetry.Identity.Signal
import Telemetry.Wire.Decode

/-!
# Batches of telemetry

A batch holds groups of items by resource, and within a resource by scope. The items (spans, metrics
or log records) are messages as the schema describes them; what surrounds them has types of its own.
-/

namespace Telemetry

open Wire (Message MessageType)
open Text (Bytes)

/-- The signals that have batches. -/
inductive BatchType
  | traces
  | metrics
  | logs
deriving DecidableEq, Repr

namespace BatchType

/-- Every type of batch, in the order of the signals. -/
def all : List BatchType := [traces, metrics, logs]

/-- The signal of a type of batch. -/
def signal : BatchType → Signal
  | traces => .traces
  | metrics => .metrics
  | logs => .logs

/-- The type of the batches of a signal, if it has any. -/
def ofSignal? : Signal → Option BatchType
  | .traces => some traces
  | .metrics => some metrics
  | .logs => some logs
  | .profiles => none

/-- The message that is a whole batch. -/
def requestType : BatchType → MessageType
  | traces => .traceRequest
  | metrics => .metricRequest
  | logs => .logRequest

/-- The message that groups items by resource. -/
def groupType : BatchType → MessageType
  | traces => .resourceSpans
  | metrics => .resourceMetrics
  | logs => .resourceLogs

/-- The message that groups items by scope. -/
def scopeType : BatchType → MessageType
  | traces => .scopeSpans
  | metrics => .scopeMetrics
  | logs => .scopeLogs

end BatchType

/-- A key with a value, which may be absent. -/
structure Attribute where
  /-- The key. -/
  key : String
  /-- The value, a message that is a choice of kinds of values. -/
  value : Option Message
deriving Inhabited

/-- What the items of a group are about. -/
structure Resource where
  /-- The attributes, in order; a key may occur more than once. -/
  attributes : List Attribute
  /-- The number of attributes that were left out. -/
  dropped : UInt64
  /-- References to entities. -/
  entities : List Message
deriving Inhabited

/-- Items of one scope. -/
structure ScopeGroup where
  /-- The scope, if there is one. -/
  scope : Option Message
  /-- The items. -/
  items : List Message
  /-- Where the schema of the items is found. -/
  schemaUrl : String
deriving Inhabited

/-- Items of one resource. -/
structure ResourceGroup where
  /-- The resource, if there is one. -/
  resource : Option Resource
  /-- The items, by scope. -/
  scopes : List ScopeGroup
  /-- Where the schema of the resource is found. -/
  schemaUrl : String
deriving Inhabited

/-- The content of a batch. -/
structure Request where
  /-- What the items are. -/
  type : BatchType
  /-- The items, by resource. -/
  groups : List ResourceGroup

namespace Attribute

/-- Reads an attribute from its message. -/
def ofMessage (m : Message) : Attribute := ⟨m.textAt 0, m.messageAt? 1⟩

/-- The message of an attribute. -/
def toMessage (a : Attribute) : Message :=
  [[.text a.key], a.value.toList.map .message]

end Attribute

namespace Resource

/-- A resource about which nothing is known. -/
def blank : Resource := ⟨[], 0, []⟩

/-- Reads a resource from its message. -/
def ofMessage (m : Message) : Resource :=
  ⟨(m.messagesAt 0).map .ofMessage, m.wordAt 1, m.messagesAt 2⟩

/-- The message of a resource. -/
def toMessage (r : Resource) : Message :=
  [r.attributes.map fun a => .message a.toMessage, [.word r.dropped], r.entities.map .message]

end Resource

namespace ScopeGroup

/-- Reads a group from its message. -/
def ofMessage (m : Message) : ScopeGroup := ⟨m.messageAt? 0, m.messagesAt 1, m.textAt 2⟩

/-- The message of a group. -/
def toMessage (g : ScopeGroup) : Message :=
  [g.scope.toList.map .message, g.items.map .message, [.text g.schemaUrl]]

end ScopeGroup

namespace ResourceGroup

/-- A group without items and without a resource. -/
def blank : ResourceGroup := ⟨none, [], ""⟩

/-- Reads a group from its message. -/
def ofMessage (m : Message) : ResourceGroup :=
  ⟨(m.messageAt? 0).map .ofMessage, (m.messagesAt 1).map .ofMessage, m.textAt 2⟩

/-- The message of a group. -/
def toMessage (g : ResourceGroup) : Message :=
  [g.resource.toList.map fun r => .message r.toMessage,
   g.scopes.map fun s => .message s.toMessage, [.text g.schemaUrl]]

end ResourceGroup

/-- The slots of a metric that hold its points, one for each kind of metric. -/
def metricDataSlots : List Nat := [3, 4, 5, 6, 7]

/-- The points of a metric, of whatever kind it is. -/
def metricPoints (metric : Message) : List Message :=
  metricDataSlots.flatMap fun i => (metric.messagesAt i).flatMap fun data => data.messagesAt 0

/-- The number of points of some metrics. -/
def pointCount (metrics : List Message) : Nat :=
  (metrics.map fun m => (metricPoints m).length).foldr (· + ·) 0

namespace ScopeGroup

/-- The number of items of a group: metrics count by their points. -/
def itemCount (type : BatchType) (g : ScopeGroup) : Nat :=
  match type with
  | .metrics => pointCount g.items
  | _ => g.items.length

end ScopeGroup

/-- The number of items of a group of one resource. -/
def ResourceGroup.itemCount (type : BatchType) (g : ResourceGroup) : Nat :=
  (g.scopes.map (ScopeGroup.itemCount type)).foldr (· + ·) 0

namespace Request

/-- A batch without items. -/
def blank (type : BatchType) : Request := ⟨type, []⟩

/-- Reads a batch from its message. -/
def ofMessage (type : BatchType) (m : Message) : Request :=
  ⟨type, (m.messagesAt 0).map .ofMessage⟩

/-- The message of a batch. -/
def toMessage (r : Request) : Message := [r.groups.map fun g => .message g.toMessage]

/-- The binary form of a batch. -/
def marshal (r : Request) : Bytes := Wire.encode r.type.requestType r.toMessage

/-- Reads a batch from its binary form. -/
def unmarshal? (type : BatchType) (bytes : Bytes) : Option Request :=
  (Wire.decode? type.requestType bytes).map (ofMessage type)

/-- Whether two batches have equal contents, doubles being compared as numbers. -/
def equals (a b : Request) : Bool := Wire.slotsEqual a.toMessage b.toMessage

/-- The number of items: spans, points of metrics, or log records. -/
def itemCount (r : Request) : Nat :=
  (r.groups.map (ResourceGroup.itemCount r.type)).foldr (· + ·) 0

/-- Each resource with the number of its items. -/
def countsPerResource (r : Request) : List (Option Resource × Nat) :=
  r.groups.map fun g => (g.resource, g.itemCount r.type)

/-- The number of metrics. -/
def metricCount (r : Request) : Nat :=
  (r.groups.flatMap fun g => g.scopes.map fun s => s.items.length).foldr (· + ·) 0

/-- The numbers of points of the metrics of every group of one scope. -/
def pointCounts (r : Request) : List (List Nat) :=
  r.groups.flatMap fun g => g.scopes.map fun s => s.items.map fun m => (metricPoints m).length

/-- Changes the resource of every group; a group without one gets a blank one first. -/
def mapResources (f : Resource → Resource) (r : Request) : Request :=
  { r with groups := r.groups.map fun g =>
      { g with resource := some (f (g.resource.getD .blank)) } }

/-- Adds groups at the end. -/
def append (r : Request) (groups : List ResourceGroup) : Request :=
  { r with groups := r.groups ++ groups }

end Request

end Telemetry

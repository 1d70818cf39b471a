import Telemetry.Identity.Id

/-!
# Nodes of a pipeline graph

A node is a component in one role, or the head or the tail of a pipeline. A receiver and an
exporter are one node per signal, a processor one per pipeline, a connector one per pair of signals
it joins. Nodes are ordered by role first, then by their ids.
-/

namespace Telemetry

/-- A node of a pipeline graph. -/
inductive NodeId
  | receiver (id : ComponentId) (signal : Signal)
  | capabilities (pipeline : PipelineId)
  | processor (pipeline : PipelineId) (id : ComponentId)
  | fanOut (pipeline : PipelineId)
  | exporter (id : ComponentId) (signal : Signal)
  | connector (id : ComponentId) (source target : Signal)
deriving DecidableEq

namespace NodeId

/-- The position of a node's role in the order of nodes. -/
def rank : NodeId → Nat
  | receiver .. => 0
  | capabilities .. => 1
  | processor .. => 2
  | fanOut .. => 3
  | exporter .. => 4
  | connector .. => 5

/-- The order of nodes: by role, then by the ids from left to right. -/
def order : NodeId → NodeId → Ordering
  | receiver a s, receiver b t => (compare a b).then (compare s t)
  | capabilities p, capabilities q => compare p q
  | processor p a, processor q b => (compare p q).then (compare a b)
  | fanOut p, fanOut q => compare p q
  | exporter a s, exporter b t => (compare a b).then (compare s t)
  | connector a s t, connector b u v => ((compare a b).then (compare s u)).then (compare t v)
  | m, n => compare m.rank n.rank

instance : Ord NodeId := ⟨order⟩

/-- The component behind a node; the head and the tail of a pipeline have none. -/
def componentId? : NodeId → Option ComponentId
  | receiver id _ | processor _ id | exporter id _ | connector id _ _ => some id
  | capabilities _ | fanOut _ => none

/-- The kind of the component behind a node. -/
def kind? : NodeId → Option Kind
  | receiver .. => some .receiver
  | processor .. => some .processor
  | exporter .. => some .exporter
  | connector .. => some .connector
  | capabilities _ | fanOut _ => none

/-- The signal a node takes in. -/
def signal : NodeId → Signal
  | receiver _ s | exporter _ s => s
  | capabilities p | processor p _ | fanOut p => p.signal
  | connector _ source _ => source

/-- How a node is named in messages. -/
def text : NodeId → String
  | receiver id s => "receiver \"" ++ id.text ++ "\" (" ++ s.text ++ ")"
  | capabilities p => "capabilities of \"" ++ p.text ++ "\""
  | processor p id => "processor \"" ++ id.text ++ "\" in pipeline \"" ++ p.text ++ "\""
  | fanOut p => "fanout of \"" ++ p.text ++ "\""
  | exporter id s => "exporter \"" ++ id.text ++ "\" (" ++ s.text ++ ")"
  | connector id s t => "connector \"" ++ id.text ++ "\" (" ++ s.text ++ " to " ++ t.text ++ ")"

end NodeId

end Telemetry

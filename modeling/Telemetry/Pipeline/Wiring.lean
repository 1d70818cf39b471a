import Telemetry.Digraph
import Telemetry.Pipeline.Validation

/-!
# Wiring

The nodes of a service and the edges along which batches go. Each pipeline has a head, a chain of
processors and a tail; receivers lead to the head, the tail leads to exporters. A connector is one
node per pair of signals it joins: the tails of its sources lead to it, and it leads to the heads of
its targets.
-/

namespace Telemetry

/-- An edge from one node to another. -/
abbrev Edge := NodeId × NodeId

namespace Blueprint

variable {σ κ : Type}

/-- The edges that lead to the head of a pipeline because it receives from a component. -/
def edgesFrom (b : Blueprint σ κ) (ps : Pipelines) (pipeline : PipelineId) (id : ComponentId) :
    List Edge :=
  let head := NodeId.capabilities pipeline
  if b.isConnector id then
    let sources := (ps.exportingTo id).filter fun e =>
      b.factories.connects id e.1.signal pipeline.signal
    sources.map fun e => (.connector id e.1.signal pipeline.signal, head)
  else [(.receiver id pipeline.signal, head)]

/-- The edges from one node along a chain of processors to the tail of a pipeline. -/
def chainEdges (pipeline : PipelineId) (previous : NodeId) : List ComponentId → List Edge
  | [] => [(previous, .fanOut pipeline)]
  | id :: rest =>
    let node := NodeId.processor pipeline id
    (previous, node) :: chainEdges pipeline node rest

/-- The edges that lead from the tail of a pipeline because it exports to a component. -/
def edgesTo (b : Blueprint σ κ) (ps : Pipelines) (pipeline : PipelineId) (id : ComponentId) :
    List Edge :=
  let tail := NodeId.fanOut pipeline
  if b.isConnector id then
    let targets := (ps.receivingFrom id).filter fun e =>
      b.factories.connects id pipeline.signal e.1.signal
    targets.map fun e => (tail, .connector id pipeline.signal e.1.signal)
  else [(tail, .exporter id pipeline.signal)]

/-- The edges of a pipeline. -/
def pipelineEdges (b : Blueprint σ κ) (ps : Pipelines) (pipeline : PipelineId)
    (p : PipelineConfig) : List Edge :=
  p.receivers.flatMap (b.edgesFrom ps pipeline) ++
    chainEdges pipeline (.capabilities pipeline) p.processors ++
    p.exporters.flatMap (b.edgesTo ps pipeline)

/-- The nodes and edges of a service. -/
def wiring (b : Blueprint σ κ) (ps : Pipelines) : Digraph NodeId :=
  Digraph.ofEdges (ps.flatMap fun e => b.pipelineEdges ps e.1 e.2)

end Blueprint

end Telemetry

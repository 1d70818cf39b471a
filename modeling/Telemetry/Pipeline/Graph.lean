import Telemetry.Digraph
import Telemetry.Pipeline.Wiring

/-!
# Pipeline graphs

A graph is built from the ends of the pipelines upwards: when a component is created, the consumers
of everything its batches go to are there already. A graph holds one component per node that stands
for one, and the consumer of every node that takes batches.
-/

namespace Telemetry

/-- A graph that is built, or being built. -/
structure Graph (κ : Type) where
  /-- The pipelines. -/
  pipelines : Pipelines
  /-- The nodes and edges. -/
  wiring : Digraph NodeId
  /-- The nodes in topological order. -/
  order : List NodeId
  /-- How each node takes batches, and of which type. -/
  consumers : Table NodeId (BatchType × Consumer)
  /-- The component of each node that stands for one. -/
  components : Table NodeId κ

/-- What is made for a node. -/
structure Instance (κ : Type) where
  /-- The component, if the node stands for one. -/
  component : Option κ
  /-- How the node takes batches, if it does, and of which type. -/
  consumer : Option (BatchType × Consumer)

namespace Instance

variable {κ : Type}

/-- Nothing is made for the head and the tail of a pipeline whose batches have no type. -/
def nothing : Instance κ := ⟨none, none⟩

/-- What is made for a node that takes batches of a type. -/
def ofInlet (type : BatchType) (i : Inlet κ) : Instance κ :=
  ⟨some i.component, some (type, i.consumer)⟩

end Instance

namespace Graph

variable {σ κ : Type}

/-- The consumers of the nodes that follow a node, as far as they take batches of a type. -/
def nextConsumers (g : Graph κ) (type : BatchType) (node : NodeId) : List Consumer :=
  (g.wiring.successors node).filterMap fun next =>
    match g.consumers.get? next with
    | some (t, c) => if t = type then some c else none
    | none => none

/-- The consumer that hands batches of a type to all nodes that follow a node. -/
def feed? (g : Graph κ) (type : BatchType) (node : NodeId) : Option Consumer :=
  Consumer.ofBranches? (g.nextConsumers type node)

/-- Whether some processor of a pipeline changes batches. -/
def chainMutates (g : Graph κ) (pipeline : PipelineId) : Bool :=
  let chain := ((g.pipelines.get? pipeline).elim [] PipelineConfig.processors).map
    (NodeId.processor pipeline)
  chain.any fun node => (g.consumers.get? node).any fun c => c.2.mutates

/-- The outcome of a creation, with the node named. -/
def created {α : Type} (node : NodeId) (f : α → Instance κ) :
    Except ComponentError α × σ → Except GraphError (Instance κ) × σ
  | (.ok a, s) => (.ok (f a), s)
  | (.error e, s) => (.error (.create (.node node) e), s)

/-- Makes what belongs to a node that takes, or gives, batches of a type. -/
def instantiate (b : Blueprint σ κ) (g : Graph κ) (type : BatchType) (node : NodeId) (s : σ) :
    Except GraphError (Instance κ) × σ :=
  match node with
  | .exporter id _ =>
    match b.factories.exporters.get? id.type with
    | none => (.error (.factoryNotFound .exporter id), s)
    | some f =>
      let settings := settingsOver f.defaults b.config.exporters id
      created node (.ofInlet type) (f.create id type settings s)
  | .fanOut _ =>
    match g.feed? type node with
    | none => (.error .nilNextConsumer, s)
    | some c => (.ok ⟨none, some (type, c)⟩, s)
  | .processor _ id =>
    match b.factories.processors.get? id.type with
    | none => (.error (.factoryNotFound .processor id), s)
    | some f =>
      match (g.nextConsumers type node).head? with
      | none => (.error .nilNextConsumer, s)
      | some next =>
        let settings := settingsOver f.defaults b.config.processors id
        created node (.ofInlet type) (f.create id type settings next s)
  | .capabilities pipeline =>
    match (g.nextConsumers type node).head? with
    | none => (.error .nilNextConsumer, s)
    | some next => (.ok ⟨none, some (type, .pass (g.chainMutates pipeline) next)⟩, s)
  | .receiver id _ =>
    match b.factories.receivers.get? id.type with
    | none => (.error (.factoryNotFound .receiver id), s)
    | some f =>
      match g.feed? type node with
      | none => (.error .nilNextConsumer, s)
      | some next =>
        let settings := settingsOver f.defaults b.config.receivers id
        created node (fun c => ⟨some c, none⟩) (f.create id type settings next s)
  | .connector id source target =>
    match b.factories.connectors.get? id.type with
    | none => (.error (.factoryNotFound .connector id), s)
    | some f =>
      match BatchType.ofSignal? target with
      | none => (.error (.create (.node node) (.connectionNotSupported id source target)), s)
      | some targetType =>
        match g.feed? targetType node with
        | none => (.error .nilNextConsumer, s)
        | some next =>
          let settings := settingsOver f.defaults b.config.connectors id
          created node (.ofInlet type) (f.create id type targetType settings next s)

/-- Makes what belongs to a node. No component takes batches of a signal without a batch type. -/
def make (b : Blueprint σ κ) (g : Graph κ) (node : NodeId) (s : σ) :
    Except GraphError (Instance κ) × σ :=
  match BatchType.ofSignal? node.signal with
  | some type => g.instantiate b type node s
  | none =>
    match node.kind?, node.componentId? with
    | some kind, some id =>
      (.error (.create (.node node) (.signalNotSupported kind id node.signal)), s)
    | _, _ => (.ok .nothing, s)

/-- Adds what was made for a node. -/
def put (g : Graph κ) (node : NodeId) (i : Instance κ) : Graph κ :=
  { g with
    components := i.component.elim g.components fun c => g.components.insert node c
    consumers := i.consumer.elim g.consumers fun c => g.consumers.insert node c }

/-- Makes what belongs to nodes, one after the other, up to the first failure. -/
def makeAll (b : Blueprint σ κ) : List NodeId → Graph κ → σ → Except GraphError (Graph κ) × σ
  | [], g, s => (.ok g, s)
  | node :: rest, g, s =>
    match g.make b node s with
    | (.error e, s) => (.error e, s)
    | (.ok i, s) => makeAll b rest (g.put node i) s

/-- The graph of a blueprint without fault before anything was made. -/
def plan (b : Blueprint σ κ) (ps : Pipelines) : Except GraphError (Graph κ) :=
  let wiring := b.wiring ps
  match wiring.order? with
  | some order => .ok ⟨ps, wiring, order, [], []⟩
  | none => .error (.cycle ((wiring.findCycle? wiring.sorted).getD []))

/-- Builds a graph. -/
def build (b : Blueprint σ κ) (s : σ) : Except GraphError (Graph κ) × σ :=
  match b.validate.bind (plan b) with
  | .error e => (.error e, s)
  | .ok g => makeAll b g.order.reverse g s

/-- The nodes that stand for components in the order in which they are stopped, with their
components. -/
def parts (g : Graph κ) : List (NodeId × κ) :=
  g.order.filterMap fun node => (g.components.get? node).map fun c => (node, c)

/-- The nodes that stand for components in the order in which they are started. -/
def startOrder (g : Graph κ) : List NodeId := g.parts.reverse.map Prod.fst

/-- The nodes that stand for components in the order in which they are stopped. -/
def shutdownOrder (g : Graph κ) : List NodeId := g.parts.map Prod.fst

/-- Whether batches are changed in a pipeline. -/
def capabilities? (g : Graph κ) (pipeline : PipelineId) : Option Bool :=
  (g.consumers.get? (.capabilities pipeline)).map fun c => c.2.mutates

/-- The exporters of a signal. -/
def exporters (g : Graph κ) (signal : Signal) : List (ComponentId × κ) :=
  g.components.filterMap fun
    | (.exporter id s, c) => if s = signal then some (id, c) else none
    | _ => none

end Graph

end Telemetry

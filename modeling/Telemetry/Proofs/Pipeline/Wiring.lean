import Telemetry.Pipeline.Wiring
import Telemetry.Proofs.Digraph.Edges
import Telemetry.Proofs.Pipeline.Validation

/-!
# The wiring is what the pipelines declare

The nodes and edges of a service are those that its pipelines ask for, each once. The edges into a
connector and those out of it are found from opposite ends, and agree.
-/

namespace Telemetry

namespace Blueprint

variable {σ κ : Type} {b : Blueprint σ κ} {ps : Pipelines} {m n : NodeId} {pipeline : PipelineId}
  {id : ComponentId} {ids : List ComponentId}

/-- The nodes of a pipeline from its head to its tail. -/
def stations (pipeline : PipelineId) (ids : List ComponentId) : List NodeId :=
  .capabilities pipeline :: (ids.map (NodeId.processor pipeline) ++ [.fanOut pipeline])

/-- Whether one pipeline feeds another through a connector: the one exports to it, the other receives
from it, and it can join their signals. -/
structure Feeds (b : Blueprint σ κ) (ps : Pipelines) (id : ComponentId)
    (source target : PipelineId) : Prop where
  connector : b.isConnector id = true
  exports : ∃ p, (source, p) ∈ ps ∧ id ∈ p.exporters
  receives : ∃ p, (target, p) ∈ ps ∧ id ∈ p.receivers
  joins : b.factories.connects id source.signal target.signal = true

/-- The nodes that pipelines ask for. -/
inductive HasNode (b : Blueprint σ κ) (ps : Pipelines) : NodeId → Prop
  | head {pipeline : PipelineId} {p : PipelineConfig} (hMem : (pipeline, p) ∈ ps) :
      HasNode b ps (.capabilities pipeline)
  | tail {pipeline : PipelineId} {p : PipelineConfig} (hMem : (pipeline, p) ∈ ps) :
      HasNode b ps (.fanOut pipeline)
  | processor {pipeline : PipelineId} {p : PipelineConfig} {id : ComponentId}
      (hMem : (pipeline, p) ∈ ps) (hId : id ∈ p.processors) : HasNode b ps (.processor pipeline id)
  | receiver {pipeline : PipelineId} {p : PipelineConfig} {id : ComponentId}
      (hMem : (pipeline, p) ∈ ps) (hId : id ∈ p.receivers) (hPlain : b.isConnector id = false) :
      HasNode b ps (.receiver id pipeline.signal)
  | exporter {pipeline : PipelineId} {p : PipelineConfig} {id : ComponentId}
      (hMem : (pipeline, p) ∈ ps) (hId : id ∈ p.exporters) (hPlain : b.isConnector id = false) :
      HasNode b ps (.exporter id pipeline.signal)
  | connector {source target : PipelineId} {id : ComponentId} (hFeeds : b.Feeds ps id source target) :
      HasNode b ps (.connector id source.signal target.signal)

/-- The edges that pipelines ask for. -/
inductive HasEdge (b : Blueprint σ κ) (ps : Pipelines) : NodeId → NodeId → Prop
  | receiver {pipeline : PipelineId} {p : PipelineConfig} {id : ComponentId}
      (hMem : (pipeline, p) ∈ ps) (hId : id ∈ p.receivers) (hPlain : b.isConnector id = false) :
      HasEdge b ps (.receiver id pipeline.signal) (.capabilities pipeline)
  | chain {pipeline : PipelineId} {p : PipelineConfig} {m n : NodeId} (hMem : (pipeline, p) ∈ ps)
      (hNext : [m, n] <:+: stations pipeline p.processors) : HasEdge b ps m n
  | exporter {pipeline : PipelineId} {p : PipelineConfig} {id : ComponentId}
      (hMem : (pipeline, p) ∈ ps) (hId : id ∈ p.exporters) (hPlain : b.isConnector id = false) :
      HasEdge b ps (.fanOut pipeline) (.exporter id pipeline.signal)
  | intoConnector {source target : PipelineId} {id : ComponentId}
      (hFeeds : b.Feeds ps id source target) :
      HasEdge b ps (.fanOut source) (.connector id source.signal target.signal)
  | fromConnector {source target : PipelineId} {id : ComponentId}
      (hFeeds : b.Feeds ps id source target) :
      HasEdge b ps (.connector id source.signal target.signal) (.capabilities target)

/-! ## The edges of one pipeline -/

theorem adjacent_cons_cons {α : Type} {x y a c : α} {l : List α} :
    [x, y] <:+: a :: c :: l ↔ x = a ∧ y = c ∨ [x, y] <:+: c :: l := by
  rw [List.infix_cons_iff, List.cons_prefix_cons, List.cons_prefix_cons]
  simp

theorem mem_chainEdges {previous : NodeId} : (m, n) ∈ chainEdges pipeline previous ids ↔
    [m, n] <:+: previous :: (ids.map (NodeId.processor pipeline) ++ [.fanOut pipeline]) := by
  induction ids generalizing previous with
  | nil => simp [chainEdges, List.infix_cons_iff]
  | cons id ids ih =>
      rw [chainEdges, List.mem_cons, ih, List.map_cons, List.cons_append, adjacent_cons_cons]
      simp

theorem mem_edgesFrom : (m, n) ∈ b.edgesFrom ps pipeline id ↔ n = .capabilities pipeline ∧
    (b.isConnector id = false ∧ m = .receiver id pipeline.signal ∨
      b.isConnector id = true ∧ ∃ source p, ((source, p) ∈ ps ∧ id ∈ p.exporters) ∧
        b.factories.connects id source.signal pipeline.signal = true ∧
          .connector id source.signal pipeline.signal = m) := by
  rw [edgesFrom]
  cases b.isConnector id with
  | false => simp [and_comm]
  | true =>
      simp only [if_true, List.mem_map, List.mem_filter, Pipelines.exportingTo, List.contains_iff_mem,
        Prod.exists, Prod.mk.injEq, Bool.true_eq_false, false_and, false_or, true_and]
      constructor
      · rintro ⟨source, p, ⟨hUse, hJoins⟩, hNode, hHead⟩
        exact ⟨hHead.symm, source, p, hUse, hJoins, hNode⟩
      · rintro ⟨rfl, source, p, hUse, hJoins, hNode⟩
        exact ⟨source, p, ⟨hUse, hJoins⟩, hNode, rfl⟩

theorem mem_edgesTo : (m, n) ∈ b.edgesTo ps pipeline id ↔ m = .fanOut pipeline ∧
    (b.isConnector id = false ∧ n = .exporter id pipeline.signal ∨
      b.isConnector id = true ∧ ∃ target p, ((target, p) ∈ ps ∧ id ∈ p.receivers) ∧
        b.factories.connects id pipeline.signal target.signal = true ∧
          .connector id pipeline.signal target.signal = n) := by
  rw [edgesTo]
  cases b.isConnector id with
  | false => simp
  | true =>
      simp only [if_true, List.mem_map, List.mem_filter, Pipelines.receivingFrom,
        List.contains_iff_mem, Prod.exists, Prod.mk.injEq, Bool.true_eq_false, false_and, false_or,
        true_and]
      constructor
      · rintro ⟨target, p, ⟨hUse, hJoins⟩, hTail, hNode⟩
        exact ⟨hTail.symm, target, p, hUse, hJoins, hNode⟩
      · rintro ⟨rfl, target, p, hUse, hJoins, hNode⟩
        exact ⟨target, p, ⟨hUse, hJoins⟩, rfl, hNode⟩

/-! ## All edges and nodes -/

theorem mem_pipelineEdges {p : PipelineConfig} : (m, n) ∈ b.pipelineEdges ps pipeline p ↔
    ((∃ id ∈ p.receivers, (m, n) ∈ b.edgesFrom ps pipeline id) ∨
      [m, n] <:+: stations pipeline p.processors) ∨
        ∃ id ∈ p.exporters, (m, n) ∈ b.edgesTo ps pipeline id := by
  rw [pipelineEdges, List.mem_append, List.mem_append, List.mem_flatMap, List.mem_flatMap,
    mem_chainEdges, stations]

theorem edge_wiring_iff : (b.wiring ps).Edge m n ↔ b.HasEdge ps m n := by
  rw [wiring, Digraph.edge_ofEdges]
  simp only [List.mem_flatMap, Prod.exists, mem_pipelineEdges, mem_edgesFrom, mem_edgesTo]
  constructor
  · rintro ⟨pipeline, p, hMem, (⟨id, hId, rfl, ⟨hPlain, rfl⟩ | ⟨hConnector, hUse⟩⟩ | hNext) |
      ⟨id, hId, rfl, ⟨hPlain, rfl⟩ | ⟨hConnector, hUse⟩⟩⟩
    · exact .receiver hMem hId hPlain
    · obtain ⟨source, q, hSource, hJoins, rfl⟩ := hUse
      exact .fromConnector ⟨hConnector, ⟨q, hSource⟩, ⟨p, hMem, hId⟩, hJoins⟩
    · exact .chain hMem hNext
    · exact .exporter hMem hId hPlain
    · obtain ⟨target, q, hTarget, hJoins, rfl⟩ := hUse
      exact .intoConnector ⟨hConnector, ⟨p, hMem, hId⟩, ⟨q, hTarget⟩, hJoins⟩
  · rintro (⟨hMem, hId, hPlain⟩ | ⟨hMem, hNext⟩ | ⟨hMem, hId, hPlain⟩ |
      ⟨hConnector, ⟨p, hMem, hId⟩, ⟨q, hTarget⟩, hJoins⟩ |
        ⟨hConnector, ⟨q, hSource⟩, ⟨p, hMem, hId⟩, hJoins⟩)
    · exact ⟨_, _, hMem, .inl (.inl ⟨_, hId, rfl, .inl ⟨hPlain, rfl⟩⟩)⟩
    · exact ⟨_, _, hMem, .inl (.inr hNext)⟩
    · exact ⟨_, _, hMem, .inr ⟨_, hId, rfl, .inl ⟨hPlain, rfl⟩⟩⟩
    · exact ⟨_, _, hMem, .inr ⟨_, hId, rfl, .inr ⟨hConnector, _, q, hTarget, hJoins, rfl⟩⟩⟩
    · exact ⟨_, _, hMem, .inl (.inl ⟨_, hId, rfl, .inr ⟨hConnector, _, q, hSource, hJoins, rfl⟩⟩)⟩

theorem isProper_wiring : (b.wiring ps).IsProper := Digraph.isProper_ofEdges _

/-- A node is an end of some edge. -/
theorem mem_nodes_wiring_iff_hasEdge :
    n ∈ (b.wiring ps).nodes ↔ ∃ m, b.HasEdge ps m n ∨ b.HasEdge ps n m := by
  have hEdge : ∀ m n, (m, n) ∈ ps.flatMap (fun e => b.pipelineEdges ps e.1 e.2) ↔
      b.HasEdge ps m n := fun m n => by rw [← edge_wiring_iff, wiring, Digraph.edge_ofEdges]
  rw [wiring, Digraph.mem_nodes_ofEdges]
  simp only [Prod.exists, hEdge]
  constructor
  · rintro ⟨m, m', hMem, rfl | rfl⟩
    · exact ⟨m', .inr hMem⟩
    · exact ⟨m, .inl hMem⟩
  · rintro ⟨m, hMem | hMem⟩
    · exact ⟨m, n, hMem, .inr rfl⟩
    · exact ⟨n, m, hMem, .inl rfl⟩

theorem mem_stations : n ∈ stations pipeline ids ↔
    n = .capabilities pipeline ∨ (∃ id ∈ ids, .processor pipeline id = n) ∨ n = .fanOut pipeline := by
  simp [stations]

/-- In a list of two or more every member has a neighbour. -/
theorem exists_adjacent {α : Type} {x : α} {l : List α} (hMem : x ∈ l) (hLong : 2 ≤ l.length) :
    ∃ y, [x, y] <:+: l ∨ [y, x] <:+: l := by
  obtain ⟨before, after, rfl⟩ := List.append_of_mem hMem
  cases after with
  | cons y after => exact ⟨y, .inl ⟨before, after, by simp⟩⟩
  | nil =>
      rcases List.eq_nil_or_concat before with rfl | ⟨before, y, rfl⟩
      · simp at hLong
      · exact ⟨y, .inr ⟨before, [], by simp⟩⟩

theorem HasNode.of_mem_stations {p : PipelineConfig} (hMem : (pipeline, p) ∈ ps)
    (hNode : n ∈ stations pipeline p.processors) : b.HasNode ps n := by
  rcases mem_stations.mp hNode with rfl | ⟨id, hId, rfl⟩ | rfl
  · exact .head hMem
  · exact .processor hMem hId
  · exact .tail hMem

theorem HasEdge.ends (h : b.HasEdge ps m n) : b.HasNode ps m ∧ b.HasNode ps n := by
  cases h with
  | receiver hMem hId hPlain => exact ⟨.receiver hMem hId hPlain, .head hMem⟩
  | chain hMem hNext =>
      exact ⟨.of_mem_stations hMem (hNext.subset (by simp)),
        .of_mem_stations hMem (hNext.subset (by simp))⟩
  | exporter hMem hId hPlain => exact ⟨.tail hMem, .exporter hMem hId hPlain⟩
  | intoConnector hFeeds =>
      obtain ⟨p, hMem, -⟩ := hFeeds.exports
      exact ⟨.tail hMem, .connector hFeeds⟩
  | fromConnector hFeeds =>
      obtain ⟨p, hMem, -⟩ := hFeeds.receives
      exact ⟨.connector hFeeds, .head hMem⟩

theorem mem_nodes_wiring_iff : n ∈ (b.wiring ps).nodes ↔ b.HasNode ps n := by
  rw [mem_nodes_wiring_iff_hasEdge]
  constructor
  · rintro ⟨m, hEdge | hEdge⟩
    · exact hEdge.ends.2
    · exact hEdge.ends.1
  · have hStation : ∀ {pipeline p}, (pipeline, p) ∈ ps → ∀ n ∈ stations pipeline p.processors,
        ∃ m, b.HasEdge ps m n ∨ b.HasEdge ps n m := fun hMem n hNode => by
      obtain ⟨m, hNext | hNext⟩ := exists_adjacent hNode (by simp [stations])
      · exact ⟨m, .inr (.chain hMem hNext)⟩
      · exact ⟨m, .inl (.chain hMem hNext)⟩
    intro hNode
    cases hNode with
    | head hMem => exact hStation hMem _ (mem_stations.mpr (.inl rfl))
    | tail hMem => exact hStation hMem _ (mem_stations.mpr (.inr (.inr rfl)))
    | processor hMem hId => exact hStation hMem _ (mem_stations.mpr (.inr (.inl ⟨_, hId, rfl⟩)))
    | receiver hMem hId hPlain => exact ⟨_, .inr (.receiver hMem hId hPlain)⟩
    | exporter hMem hId hPlain => exact ⟨_, .inl (.exporter hMem hId hPlain)⟩
    | connector hFeeds => exact ⟨_, .inl (.intoConnector hFeeds)⟩

/-! ## From pipeline to pipeline -/

theorem edge_tail_connector_iff {s t : Signal} :
    (b.wiring ps).Edge (.fanOut pipeline) (.connector id s t) ↔
      ∃ target, b.Feeds ps id pipeline target ∧ s = pipeline.signal ∧ t = target.signal := by
  rw [edge_wiring_iff]
  constructor
  · intro h
    cases h with
    | @chain _ p _ _ hMem hNext =>
        have hStation : .connector id s t ∈ stations _ p.processors := hNext.subset (by simp)
        simp [stations] at hStation
    | intoConnector hFeeds => exact ⟨_, hFeeds, rfl, rfl⟩
  · rintro ⟨target, hFeeds, rfl, rfl⟩
    exact .intoConnector hFeeds

theorem edge_connector_head_iff {s t : Signal} :
    (b.wiring ps).Edge (.connector id s t) (.capabilities pipeline) ↔
      ∃ source, b.Feeds ps id source pipeline ∧ s = source.signal ∧ t = pipeline.signal := by
  rw [edge_wiring_iff]
  constructor
  · intro h
    cases h with
    | @chain _ p _ _ hMem hNext =>
        have hStation : .connector id s t ∈ stations _ p.processors := hNext.subset (by simp)
        simp [stations] at hStation
    | fromConnector hFeeds => exact ⟨_, hFeeds, rfl, rfl⟩
  · rintro ⟨source, hFeeds, rfl, rfl⟩
    exact .fromConnector hFeeds

/-- The edges into a connector and those out of it agree on which pipelines it joins. -/
theorem exists_connector_iff_feeds {source target : PipelineId} :
    (∃ s t, (b.wiring ps).Edge (.fanOut source) (.connector id s t) ∧
      (b.wiring ps).Edge (.connector id s t) (.capabilities target)) ↔ b.Feeds ps id source target := by
  simp only [edge_tail_connector_iff, edge_connector_head_iff]
  constructor
  · rintro ⟨s, t, ⟨target', hExports, rfl, hTarget⟩, source', hReceives, hSource, rfl⟩
    refine ⟨hExports.connector, hExports.exports, hReceives.receives, ?_⟩
    rw [hTarget]
    exact hExports.joins
  · intro hFeeds
    exact ⟨_, _, ⟨target, hFeeds, rfl, rfl⟩, source, hFeeds, rfl, rfl⟩

end Blueprint

/-! ## A service with a connector

Traces are stamped, kept, and handed on as logs to two pipelines, which keep them in one place. -/

namespace Relay

def source : ComponentId := ⟨⟨"source", by decide⟩, none⟩

def stamp : ComponentId := ⟨⟨"stamp", by decide⟩, none⟩

def relay : ComponentId := ⟨⟨"relay", by decide⟩, none⟩

def store : ComponentId := ⟨⟨"store", by decide⟩, none⟩

def clock : ComponentId := ⟨⟨"clock", by decide⟩, none⟩

def traces : PipelineId := ⟨.traces, none⟩

def logs : PipelineId := ⟨.logs, none⟩

def copies : PipelineId := ⟨.logs, some ⟨"copies", by decide⟩⟩

def config : ServiceConfig where
  receivers := [(source, .object [])]
  processors := [(stamp, .object [])]
  exporters := [(store, .object [])]
  connectors := [(relay, .object [])]
  extensions := [(clock, .object [])]
  service := ⟨[clock], [("logs", ⟨[relay], [], [store]⟩), ("logs/copies", ⟨[relay], [], [store]⟩),
    ("traces", ⟨[source], [stamp], [store, relay]⟩)]⟩

/-- Components are numbered as they are made. -/
def factories : Factories Nat Nat where
  receivers := .ofList .receiver
    [(source.type, ⟨.object [], Stability.beta.general, fun _ _ _ _ n => (.ok n, n + 1)⟩)]
  processors := .ofList .processor
    [(stamp.type, ⟨.object [], Stability.beta.general, fun _ _ _ next n =>
      (.ok ⟨n, .edit (fun r => r.append [.blank]) next⟩, n + 1)⟩)]
  exporters := .ofList .exporter
    [(store.type, ⟨.object [], Stability.beta.general, fun _ _ _ n =>
      (.ok ⟨n, .leaf false n⟩, n + 1)⟩)]
  connectors := .ofList .connector
    [(relay.type, ⟨.object [], fun s t => if s = .traces ∧ t = .logs then .beta else .undefined,
      fun _ _ target _ next n =>
        (.ok ⟨n, .convert (fun _ r => some { r with type := target }) next⟩, n + 1)⟩)]
  extensions := .ofList .extension [(clock.type, ⟨.object [], .beta, fun _ _ n => (.ok n, n + 1)⟩)]

def blueprint : Blueprint Nat Nat := ⟨config, factories⟩

def pipelines : Pipelines :=
  [(traces, ⟨[source], [stamp], [store, relay]⟩), (logs, ⟨[relay], [], [store]⟩),
    (copies, ⟨[relay], [], [store]⟩)]

theorem validate_blueprint : blueprint.validate = .ok pipelines := rfl

theorem hasDistinctPipelines : blueprint.config.HasDistinctPipelines := by
  rw [ServiceConfig.HasDistinctPipelines]
  decide

end Relay

namespace Blueprint

variable {σ κ : Type} {b : Blueprint σ κ} {ps : Pipelines}

/-- The wiring of a blueprint without fault has the nodes and edges that the declared pipelines ask
for, each once; one pipeline feeds another through a connector just if the one exports to it, the
other receives from it, and it joins their signals. -/
theorem wiring_eq_declared (hValid : b.validate = .ok ps) (hDistinct : b.config.HasDistinctPipelines) :
    (∀ pipeline p, (pipeline, p) ∈ ps ↔ b.config.Declares pipeline p) ∧
    (b.wiring ps).nodes.Nodup ∧ (∀ n, n ∈ (b.wiring ps).nodes ↔ b.HasNode ps n) ∧
    (∀ m, ((b.wiring ps).successors m).Nodup) ∧
    (∀ m n, n ∈ (b.wiring ps).successors m ↔ b.HasEdge ps m n) ∧
    ∀ id source target, (∃ s t, .connector id s t ∈ (b.wiring ps).successors (.fanOut source) ∧
      .capabilities target ∈ (b.wiring ps).successors (.connector id s t)) ↔
        b.Feeds ps id source target := by
  refine ⟨?declared, ?nodes, ?node, ?edges, ?edge, ?feeds⟩
  case declared =>
    exact fun _ _ => Pipelines.mem_iff_declares (validate_eq_ok_iff.mp hValid).1 hDistinct
  case nodes => exact isProper_wiring.ascending.nodup_keys
  case node => exact fun _ => mem_nodes_wiring_iff
  case edges => exact isProper_wiring.nodup
  case edge => exact fun _ _ => edge_wiring_iff
  case feeds => exact fun _ _ _ => exists_connector_iff_feeds

theorem wiring_eq_declared_relay :
    Relay.blueprint.validate = .ok Relay.pipelines ∧
      Relay.blueprint.config.HasDistinctPipelines ∧
      ((Relay.blueprint.wiring Relay.pipelines).nodes.Nodup ∧
        ∀ n, n ∈ (Relay.blueprint.wiring Relay.pipelines).nodes ↔
          Relay.blueprint.HasNode Relay.pipelines n) ∧
      Relay.blueprint.Feeds Relay.pipelines Relay.relay Relay.traces Relay.copies := by
  have hWiring := wiring_eq_declared Relay.validate_blueprint Relay.hasDistinctPipelines
  obtain ⟨-, hNodes, hNode, -, -, hFeeds⟩ := hWiring
  refine ⟨Relay.validate_blueprint, Relay.hasDistinctPipelines, ⟨hNodes, hNode⟩, ?_⟩
  exact (hFeeds _ _ _).mp ⟨.traces, .logs, by decide +kernel, by decide +kernel⟩

end Blueprint

end Telemetry

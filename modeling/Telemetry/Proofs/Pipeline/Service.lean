import Telemetry.Pipeline.Service
import Telemetry.Proofs.Component.Lifecycle
import Telemetry.Proofs.Pipeline.Building

/-!
# The order of starts and shutdowns

A service starts its extensions and then its components, each after all that it leads to, and shuts them
down in the opposite order.
-/

namespace Telemetry

open Relation (TransGen)

namespace GraphError

mutual

/-- The errors that were joined to make an error, in order. -/
def leaves : GraphError → List GraphError
  | joined members => leavesOfAll members
  | e => [e]

/-- The errors that were joined to make some errors, in order. -/
def leavesOfAll : List GraphError → List GraphError
  | [] => []
  | e :: rest => leaves e ++ leavesOfAll rest

end

theorem leavesOfAll_eq_flatMap (errors : List GraphError) :
    leavesOfAll errors = errors.flatMap leaves := by
  induction errors with
  | nil => rfl
  | cons e errors ih => rw [leavesOfAll, ih, List.flatMap_cons]

/-- What an outcome reports. -/
def leavesOf : Except GraphError Unit → List GraphError
  | .ok () => []
  | .error e => e.leaves

theorem leavesOf_join (errors : List GraphError) : leavesOf (join errors) = errors.flatMap leaves := by
  match errors with
  | [] => rfl
  | [e] => simp [join, leavesOf]
  | e :: e' :: errors => simp [join, leavesOf, leaves, leavesOfAll_eq_flatMap]

theorem join_eq_ok_iff {errors : List GraphError} : join errors = .ok () ↔ errors = [] := by
  match errors with
  | [] => simp [join]
  | [e] => simp [join]
  | e :: e' :: errors => simp [join]

/-- What an outcome hands on to be joined with other errors. -/
def errorsOf (outcome : Except GraphError Unit) : List GraphError :=
  match outcome with
  | .ok () => []
  | .error e => [e]

theorem flatMap_leaves_errorsOf (outcome : Except GraphError Unit) :
    (errorsOf outcome).flatMap leaves = leavesOf outcome := by
  cases outcome <;> simp [errorsOf, leavesOf]

theorem errorsOf_eq_nil_iff {outcome : Except GraphError Unit} :
    errorsOf outcome = [] ↔ outcome = .ok () := by
  cases outcome <;> simp [errorsOf]

end GraphError

namespace Graph

variable {σ κ : Type} {b : Blueprint σ κ} {ps : Pipelines} {g : Graph κ}

/-- The nodes that stand for components, each once and after all components it leads to. -/
structure IsStartOrder (g : Graph κ) (nodes : List NodeId) : Prop where
  nodup : nodes.Nodup
  mem_iff : ∀ n, n ∈ nodes ↔ n ∈ g.wiring.nodes ∧ n.componentId?.isSome = true
  downstream_first : ∀ {before n after m}, nodes = before ++ n :: after → m ∈ nodes →
    TransGen g.wiring.Edge n m → m ∈ before

theorem shutdownOrder_eq_filter :
    g.shutdownOrder = g.order.filter fun n => (g.components.get? n).isSome := by
  rw [shutdownOrder, parts, List.map_filterMap, ← List.filterMap_eq_filter]
  congr 1
  funext n
  cases hGet : g.components.get? n <;> simp [hGet, Option.guard]

theorem startOrder_eq_reverse : g.startOrder = g.shutdownOrder.reverse := by
  rw [startOrder, shutdownOrder, List.map_reverse]

theorem Built.isStartOrder (h : g.Built b ps) : g.IsStartOrder g.startOrder := by
  have hSublist : g.shutdownOrder.Sublist g.order := by
    rw [shutdownOrder_eq_filter]
    exact List.filter_sublist
  have hPairwise : g.startOrder.Pairwise fun x y => ¬ TransGen g.wiring.Edge x y := by
    rw [startOrder_eq_reverse]
    exact List.pairwise_reverse.mpr (h.topological.pairwise.sublist hSublist)
  constructor
  case nodup =>
    rw [startOrder_eq_reverse]
    exact List.nodup_reverse.mpr (h.topological.nodup.sublist hSublist)
  case mem_iff =>
    intro n
    rw [startOrder_eq_reverse, List.mem_reverse, shutdownOrder_eq_filter, List.mem_filter,
      h.isSome_components, h.perm.mem_iff]
    tauto
  case downstream_first =>
    intro before n after m hNodes hMem hWay
    rw [hNodes] at hPairwise hMem
    rcases List.mem_append.mp hMem with hBefore | hRest
    · exact hBefore
    · rcases List.mem_cons.mp hRest with rfl | hAfter
      · obtain ⟨k, hEdge, -⟩ := TransGen.head'_iff.mp hWay
        exact absurd hWay (h.topological.not_transGen_self (h.perm.mem_iff.mpr hEdge.source_mem))
      · exact absurd hWay ((List.pairwise_cons.mp (List.pairwise_append.mp hPairwise).2.1).1 m hAfter)

end Graph

namespace Service

variable {σ τ κ : Type} {b : Blueprint σ κ} {x : Service κ} {ids : List ComponentId}

/-! ## What is built -/

theorem createExtensions_cons_eq_ok {id : ComponentId} {made extensions : Table ComponentId κ} {s : σ}
    (h : (createExtensions b (id :: ids) made s).1 = .ok extensions) :
    ∃ c s', (createExtensions b ids (made.insert id c) s').1 = .ok extensions := by
  rw [createExtensions] at h
  split at h
  · cases h
  · exact ⟨_, _, h⟩

theorem keys_createExtensions {made extensions : Table ComponentId κ} {s : σ}
    (h : (createExtensions b ids made s).1 = .ok extensions) {id : ComponentId} :
    id ∈ extensions.keys ↔ id ∈ made.keys ∨ id ∈ ids := by
  induction ids generalizing made s with
  | nil =>
      cases h
      simp
  | cons a ids ih =>
      obtain ⟨c, s', hRest⟩ := createExtensions_cons_eq_ok h
      rw [ih hRest, Table.mem_keys_insert_iff, List.mem_cons]
      tauto

theorem build_eq_ok {s : σ} (h : (build b s).1 = .ok x) :
    x.order = b.config.service.extensions ∧ (∀ id ∈ x.order, (x.extensions.get? id).isSome = true) ∧
      ∃ s', (Graph.build b s').1 = .ok x.graph := by
  rw [build] at h
  split at h
  · cases h
  · rename_i extensions s' hExtensions
    split at h
    · cases h
    · rename_i graph s'' hGraph
      cases h
      refine ⟨rfl, fun id hId => ?_, s', by rw [hGraph]⟩
      have hCreate : (createExtensions b b.config.service.extensions [] s).1 = .ok extensions := by
        rw [hExtensions]
      exact Table.isSome_get?_iff.mpr ((keys_createExtensions hCreate).mpr (.inr hId))

/-! ## Writing down what a service asks -/

/-- A service whose components know which parts they are. -/
def labelled (x : Service κ) : Service (Part κ) where
  extensions := x.extensions.map fun e => (e.1, (.extension e.1, e.2))
  order := x.order
  graph := { x.graph with components := x.graph.components.map fun e => (e.1, (.node e.1, e.2)) }

theorem extensionParts_labelled : x.labelled.extensionParts = x.extensionParts.map Part.labelled := by
  rw [extensionParts, extensionParts, List.map_filterMap]
  refine List.filterMap_congr fun id _ => ?_
  have hGet : x.labelled.extensions.get? id = (x.extensions.get? id).map fun c => (.extension id, c) :=
    Table.get?_map (fun id c => (ServicePart.extension id, c)) id x.extensions
  rw [hGet, Option.map_map, Option.map_map]
  rfl

theorem graphParts_labelled : x.labelled.graphParts = x.graphParts.map Part.labelled := by
  rw [graphParts, graphParts, Graph.parts, Graph.parts, List.map_filterMap, List.map_map,
    List.map_filterMap]
  refine List.filterMap_congr fun n _ => ?_
  have hGet : x.labelled.graph.components.get? n =
      (x.graph.components.get? n).map fun c => (.node n, c) :=
    Table.get?_map (fun n c => (ServicePart.node n, c)) n x.graph.components
  rw [hGet, Option.map_map, Option.map_map, Option.map_map]
  rfl

theorem map_fst_extensionParts (h : ∀ id ∈ x.order, (x.extensions.get? id).isSome = true) :
    x.extensionParts.map Prod.fst = x.order.map .extension := by
  rw [extensionParts, List.map_filterMap, ← List.filterMap_eq_map]
  refine List.filterMap_congr fun id hId => ?_
  obtain ⟨c, hGet⟩ := Option.isSome_iff_exists.mp (h id hId)
  rw [hGet]
  rfl

theorem map_fst_graphParts : x.graphParts.map Prod.fst = x.graph.shutdownOrder.map .node := by
  rw [graphParts, Graph.shutdownOrder, List.map_map, List.map_map]
  rfl

/-- A service is started by the parts that it lists for it. -/
theorem start_recorded (l : Lifecycle τ κ) (x : Service κ) (s : τ) :
    ∃ calls, x.labelled.start l.recorded (s, []) = ((x.start l s).1, (x.start l s).2, calls) ∧
      Startup [] ((x.extensionParts ++ x.graphParts.reverse).map Prod.fst) (x.start l s).1 calls := by
  obtain ⟨calls, hCalls, hStartup⟩ :=
    l.startAll_recorded [] (x.extensionParts ++ x.graphParts.reverse) s []
  refine ⟨calls, ?_, hStartup⟩
  rw [start, extensionParts_labelled, graphParts_labelled, ← List.map_reverse, ← List.map_append]
  exact hCalls

theorem flatMap_leaves_shutdownErrors (calls : List Call) :
    (calls.filterMap Call.shutdownError?).flatMap GraphError.leaves =
      calls.filterMap Call.shutdownError? := by
  induction calls with
  | nil => rfl
  | cons call calls ih =>
      obtain ⟨verb, part, outcome⟩ := call
      cases outcome with
      | ok =>
          rw [List.filterMap_cons_none rfl]
          exact ih
      | error e =>
          have hError : Call.shutdownError? ⟨verb, part, .error e⟩ = some (.shutdown part e) := rfl
          rw [List.filterMap_cons_some hError, List.flatMap_cons, ih]
          simp [GraphError.leaves]

/-- A service is shut down by all its parts, and reports those that failed. -/
theorem shutdown_recorded (l : Lifecycle τ κ) (x : Service κ) (s : τ) :
    ∃ calls, x.labelled.shutdown l.recorded (s, []) =
        ((x.shutdown l s).1, (x.shutdown l s).2, calls) ∧
      calls.map Call.asked = ((x.graphParts ++ x.extensionParts.reverse).map Prod.fst).map
        (fun p => (.shutdown, p)) ∧
      GraphError.leavesOf (x.shutdown l s).1 = calls.filterMap Call.shutdownError? ∧
      ((x.shutdown l s).1 = .ok () ↔ calls.filterMap Call.shutdownError? = []) := by
  obtain ⟨nodeCalls, hNodes, hNodesAsked, hNodeErrors⟩ := l.shutdownAll_recorded x.graphParts s []
  obtain ⟨extensionCalls, hExtensions, hExtensionsAsked, hExtensionErrors⟩ :=
    l.shutdownAll_recorded x.extensionParts.reverse (l.shutdownAll x.graphParts s).2 nodeCalls
  rw [List.nil_append] at hNodes
  have hShutdown : (x.shutdown l s).1 = GraphError.join
      (GraphError.errorsOf (GraphError.join (l.shutdownAll x.graphParts s).1) ++
        (l.shutdownAll x.extensionParts.reverse (l.shutdownAll x.graphParts s).2).1) := rfl
  refine ⟨nodeCalls ++ extensionCalls, ?recorded, ?asked, ?leaves, ?ok⟩
  case recorded =>
    rw [shutdown, extensionParts_labelled, graphParts_labelled, ← List.map_reverse, hNodes]
    dsimp only
    rw [hExtensions]
    rfl
  case asked =>
    rw [List.map_append, hNodesAsked, hExtensionsAsked, List.map_map, List.map_append]
    rfl
  case leaves =>
    rw [hShutdown, GraphError.leavesOf_join, List.flatMap_append, GraphError.flatMap_leaves_errorsOf,
      GraphError.leavesOf_join, hNodeErrors, hExtensionErrors, flatMap_leaves_shutdownErrors,
      flatMap_leaves_shutdownErrors, List.filterMap_append]
  case ok =>
    rw [hShutdown, GraphError.join_eq_ok_iff, List.append_eq_nil_iff, GraphError.errorsOf_eq_nil_iff,
      GraphError.join_eq_ok_iff, hNodeErrors, hExtensionErrors, List.filterMap_append,
      List.append_eq_nil_iff]

/-- Extensions are started in the order of the configuration and then every component, after all that
it leads to; a start that fails is followed by the shutdowns of what was started, the last first. A
shutdown asks everything the other way round, and reports just what failed. -/
theorem start_and_shutdown_in_order {s : σ} (hBuild : (build b s).1 = .ok x)
    (hDistinct : b.config.service.extensions.Nodup) (l : Lifecycle τ κ) :
    ∃ ps nodes, b.validate = .ok ps ∧ x.graph.wiring = b.wiring ps ∧ x.graph.IsStartOrder nodes ∧
      let parts := b.config.service.extensions.map ServicePart.extension ++ nodes.map ServicePart.node
      parts.Nodup ∧
      (∀ t, ∃ calls, x.labelled.start l.recorded (t, []) = ((x.start l t).1, (x.start l t).2, calls) ∧
        Startup [] parts (x.start l t).1 calls) ∧
      ∀ t, ∃ calls, x.labelled.shutdown l.recorded (t, []) =
          ((x.shutdown l t).1, (x.shutdown l t).2, calls) ∧
        calls.map Call.asked = parts.reverse.map (fun p => (.shutdown, p)) ∧
        GraphError.leavesOf (x.shutdown l t).1 = calls.filterMap Call.shutdownError? ∧
        ((x.shutdown l t).1 = .ok () ↔ calls.filterMap Call.shutdownError? = []) := by
  obtain ⟨hOrder, hSome, s', hGraph⟩ := build_eq_ok hBuild
  obtain ⟨ps, hBuilt⟩ := Graph.built_of_build hGraph
  have hExtensions := map_fst_extensionParts hSome
  rw [hOrder] at hExtensions
  have hStarts : (x.extensionParts ++ x.graphParts.reverse).map Prod.fst =
      b.config.service.extensions.map .extension ++ x.graph.startOrder.map .node := by
    rw [List.map_append, hExtensions, List.map_reverse, map_fst_graphParts,
      Graph.startOrder_eq_reverse, List.map_reverse]
  refine ⟨ps, x.graph.startOrder, hBuilt.valid, hBuilt.wiring, hBuilt.isStartOrder, ?distinct, ?start,
    ?shutdown⟩
  case distinct =>
    rw [List.nodup_append]
    refine ⟨hDistinct.map fun _ _ => ServicePart.extension.inj,
      hBuilt.isStartOrder.nodup.map fun _ _ => ServicePart.node.inj, ?_⟩
    simp
  case start =>
    intro t
    rw [← hStarts]
    exact start_recorded l x t
  case shutdown =>
    intro t
    rw [← hStarts, ← List.map_reverse, List.reverse_append, List.reverse_reverse]
    exact shutdown_recorded l x t

/-- Component 3 refuses to start. -/
theorem start_and_shutdown_in_order_relay :
    let l : Lifecycle Unit Nat :=
      ⟨fun n s => (if n = 3 then .error (.start "refused") else .ok (), s), fun _ s => (.ok (), s)⟩
    ∃ x, (build Relay.blueprint 0).1 = .ok x ∧ Relay.blueprint.config.service.extensions.Nodup ∧
      (∃ part, (x.start l ()).1 = .error (.start part (.start "refused"))) ∧
      ∃ nodes calls, x.graph.IsStartOrder nodes ∧
        x.labelled.start l.recorded ((), []) = ((x.start l ()).1, (), calls) ∧
        Startup [] (.extension Relay.clock :: nodes.map .node) (x.start l ()).1 calls := by
  intro l
  obtain ⟨x, hBuild⟩ : ∃ x, (build Relay.blueprint 0).1 = .ok x := ⟨_, rfl⟩
  have hDistinct : Relay.blueprint.config.service.extensions.Nodup := by decide
  obtain ⟨ps, nodes, -, -, hNodes, -, hStart, -⟩ := start_and_shutdown_in_order hBuild hDistinct l
  obtain ⟨calls, hCalls, hStartup⟩ := hStart ()
  refine ⟨x, hBuild, hDistinct, ?_, nodes, calls, hNodes, hCalls, hStartup⟩
  cases hBuild
  exact ⟨_, rfl⟩

end Service

end Telemetry

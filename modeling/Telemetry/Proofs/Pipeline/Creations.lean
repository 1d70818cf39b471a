import Telemetry.Proofs.Pipeline.Building

/-!
# Calls of constructors

Factories that write their calls down make what they would make without. What they have written when a
build is over is every call that it made, node by node, also when it failed.
-/

namespace Telemetry

/-- A call of a constructor: for which component, for batches of which types, and with which consumer. -/
structure Creation where
  kind : Kind
  id : ComponentId
  types : List BatchType
  next : Option Consumer

section Noting

variable {σ κ α φ ψ : Type}

/-- A call that is written down. -/
def Creation.noting (call : Creation) (create : σ → α × σ) (t : σ × List Creation) :
    α × (σ × List Creation) :=
  ((create t.1).1, (create t.1).2, t.2 ++ [call])

/-- The factory, writing its calls down. -/
def ReceiverFactory.noting (f : ReceiverFactory σ κ) : ReceiverFactory (σ × List Creation) κ where
  defaults := f.defaults
  stability := f.stability
  create id type settings next :=
    Creation.noting ⟨.receiver, id, [type], some next⟩ (f.create id type settings next)

/-- The factory, writing its calls down. -/
def ProcessorFactory.noting (f : ProcessorFactory σ κ) : ProcessorFactory (σ × List Creation) κ where
  defaults := f.defaults
  stability := f.stability
  create id type settings next :=
    Creation.noting ⟨.processor, id, [type], some next⟩ (f.create id type settings next)

/-- The factory, writing its calls down. -/
def ExporterFactory.noting (f : ExporterFactory σ κ) : ExporterFactory (σ × List Creation) κ where
  defaults := f.defaults
  stability := f.stability
  create id type settings :=
    Creation.noting ⟨.exporter, id, [type], none⟩ (f.create id type settings)

/-- The factory, writing its calls down. -/
def ConnectorFactory.noting (f : ConnectorFactory σ κ) : ConnectorFactory (σ × List Creation) κ where
  defaults := f.defaults
  stability := f.stability
  create id source target settings next :=
    Creation.noting ⟨.connector, id, [source, target], some next⟩ (f.create id source target settings next)

/-- The factory, writing its calls down. -/
def ExtensionFactory.noting (f : ExtensionFactory σ κ) : ExtensionFactory (σ × List Creation) κ where
  defaults := f.defaults
  stability := f.stability
  create id settings := Creation.noting ⟨.extension, id, [], none⟩ (f.create id settings)

/-- The factories of a registry, changed one by one. -/
def Registry.map (f : φ → ψ) (r : Registry φ) : Registry ψ := ⟨r.kind, r.entries.mapValues f⟩

@[simp] theorem Registry.get?_map (f : φ → ψ) (r : Registry φ) (type : ComponentType) :
    (r.map f).get? type = (r.get? type).map f :=
  Table.get?_mapValues f type r.entries

/-- The factories, writing their calls down. -/
def Factories.noting (f : Factories σ κ) : Factories (σ × List Creation) κ where
  receivers := f.receivers.map ReceiverFactory.noting
  processors := f.processors.map ProcessorFactory.noting
  exporters := f.exporters.map ExporterFactory.noting
  connectors := f.connectors.map ConnectorFactory.noting
  extensions := f.extensions.map ExtensionFactory.noting

theorem Factories.connects_noting (f : Factories σ κ) : f.noting.connects = f.connects := by
  funext id source target
  rw [connects, connects, noting, Registry.get?_map, Option.any_map]
  rfl

namespace Blueprint

variable (b : Blueprint σ κ) (ps : Pipelines)

/-- The blueprint with factories that write their calls down. -/
def noting : Blueprint (σ × List Creation) κ := ⟨b.config, b.factories.noting⟩

theorem wiring_noting : b.noting.wiring ps = b.wiring ps := by
  have hConnects : b.noting.factories.connects = b.factories.connects := b.factories.connects_noting
  have hFrom : b.noting.edgesFrom ps = b.edgesFrom ps := by
    funext pipeline id
    rw [edgesFrom, edgesFrom, hConnects]
    rfl
  have hTo : b.noting.edgesTo ps = b.edgesTo ps := by
    funext pipeline id
    rw [edgesTo, edgesTo, hConnects]
    rfl
  simp only [wiring, pipelineEdges, hFrom, hTo]

theorem checkReference_map (f : φ → ψ) (pipeline : PipelineId) (kind : Kind) (table : ComponentTable)
    (r : Registry φ) : checkReference pipeline kind table (r.map f) =
      checkReference pipeline kind table r := by
  funext id
  rw [checkReference, checkReference, Registry.get?_map, Option.isNone_map]

theorem checkProcessors_noting (pipeline : PipelineId) (seen ids : List ComponentId) :
    b.noting.checkProcessors pipeline seen ids = b.checkProcessors pipeline seen ids := by
  induction ids generalizing seen with
  | nil => rfl
  | cons id ids ih =>
      rw [checkProcessors, checkProcessors, ih]
      simp only [noting, Factories.noting, Registry.get?_map, Option.isNone_map]

theorem checkPipeline_noting : b.noting.checkPipeline = b.checkPipeline := by
  funext pipeline p
  rw [checkPipeline, checkPipeline, checkProcessors_noting]
  simp only [noting, Factories.noting, checkReference_map]
  rfl

theorem checkConnector_noting : b.noting.checkConnector = b.checkConnector := by
  funext ps id
  rw [checkConnector, checkConnector]
  simp only [noting, Factories.connects_noting]
  simp only [Factories.noting, Registry.get?_map, Option.isNone_map]
  rfl

theorem validate_noting : b.noting.validate = b.validate := by
  rw [validate, validate, checkPipeline_noting, checkConnector_noting]
  rfl

end Blueprint

end Noting

namespace Graph

variable {σ κ : Type} {b : Blueprint σ κ} {g g' : Graph κ} {n : NodeId} {s s' : σ}
  {nodes : List NodeId} {log : List Creation}

/-- The call of a constructor that is made for a node, if one is. -/
def creation? (b : Blueprint σ κ) (g : Graph κ) (n : NodeId) : Option Creation := do
  let type ← BatchType.ofSignal? n.signal
  match n with
  | .exporter id _ =>
    let _ ← b.factories.exporters.get? id.type
    some ⟨.exporter, id, [type], none⟩
  | .processor _ id =>
    let _ ← b.factories.processors.get? id.type
    let next ← (g.nextConsumers type n).head?
    some ⟨.processor, id, [type], some next⟩
  | .receiver id _ =>
    let _ ← b.factories.receivers.get? id.type
    let next ← g.feed? type n
    some ⟨.receiver, id, [type], some next⟩
  | .connector id _ target =>
    let _ ← b.factories.connectors.get? id.type
    let targetType ← BatchType.ofSignal? target
    let next ← g.feed? targetType n
    some ⟨.connector, id, [type, targetType], some next⟩
  | .capabilities _ | .fanOut _ => none

/-- What a node comes to, with a call written down behind others. -/
def written {α : Type} (log : List Creation) (call : Option Creation) (r : α × σ) :
    α × (σ × List Creation) :=
  (r.1, r.2, log ++ call.toList)

theorem created_noting {α : Type} (n : NodeId) (f : α → Instance κ) (call : Creation)
    (create : σ → Except ComponentError α × σ) (s : σ) (log : List Creation) :
    created n f (call.noting create (s, log)) = written log (some call) (created n f (create s)) := by
  rw [Creation.noting, written]
  obtain ⟨_ | a, s'⟩ := create s <;> rfl

theorem instantiate_noting {type : BatchType} (hType : BatchType.ofSignal? n.signal = some type) :
    g.instantiate b.noting type n (s, log) =
      written log (creation? b g n) (g.instantiate b type n s) := by
  have hQuiet {α : Type} (a : α) : (a, s, log) = written log none (a, s) := by simp [written]
  rw [creation?, hType, Option.bind_eq_bind, Option.bind_some]
  cases n with
  | exporter id signal =>
      simp only [instantiate, Blueprint.noting, Factories.noting, Registry.get?_map]
      cases b.factories.exporters.get? id.type with
      | none => exact hQuiet _
      | some f => exact created_noting ..
  | fanOut pipeline =>
      simp only [instantiate]
      cases g.feed? type (.fanOut pipeline) <;> exact hQuiet _
  | processor pipeline id =>
      simp only [instantiate, Blueprint.noting, Factories.noting, Registry.get?_map]
      cases b.factories.processors.get? id.type with
      | none => exact hQuiet _
      | some f =>
          simp only [Option.map_some, Option.bind_eq_bind, Option.bind_some]
          cases (g.nextConsumers type (.processor pipeline id)).head? with
          | none => exact hQuiet _
          | some next => exact created_noting ..
  | capabilities pipeline =>
      simp only [instantiate]
      cases (g.nextConsumers type (.capabilities pipeline)).head? <;> exact hQuiet _
  | receiver id signal =>
      simp only [instantiate, Blueprint.noting, Factories.noting, Registry.get?_map]
      cases b.factories.receivers.get? id.type with
      | none => exact hQuiet _
      | some f =>
          simp only [Option.map_some, Option.bind_eq_bind, Option.bind_some]
          cases g.feed? type (.receiver id signal) with
          | none => exact hQuiet _
          | some next => exact created_noting ..
  | connector id source target =>
      simp only [instantiate, Blueprint.noting, Factories.noting, Registry.get?_map]
      cases b.factories.connectors.get? id.type with
      | none => exact hQuiet _
      | some f =>
          simp only [Option.map_some, Option.bind_eq_bind, Option.bind_some]
          cases BatchType.ofSignal? target with
          | none => exact hQuiet _
          | some targetType =>
              simp only [Option.bind_some]
              cases g.feed? targetType (.connector id source target) with
              | none => exact hQuiet _
              | some next => exact created_noting ..

/-- Making a node makes one call of a constructor at most. -/
theorem make_noting : g.make b.noting n (s, log) = written log (creation? b g n) (g.make b n s) := by
  rw [make, make]
  cases hType : BatchType.ofSignal? n.signal with
  | some type => exact instantiate_noting hType
  | none =>
      rw [creation?, hType]
      simp only
      split <;> simp [written]

/-! ## All nodes -/

/-- What a build finds when it comes to a node. -/
structure Visit (σ κ : Type) where
  node : NodeId
  graph : Graph κ
  state : σ

/-- The constructors that are called when the build makes the node. -/
def Visit.creations (b : Blueprint σ κ) (v : Visit σ κ) : List Creation :=
  (v.graph.make b.noting v.node (v.state, [])).2.2

/-- The nodes that are come to one after the other; the last may be one that cannot be made. -/
def visitsOf (b : Blueprint σ κ) : List NodeId → Graph κ → σ → List (Visit σ κ)
  | [], _, _ => []
  | node :: rest, g, s =>
    ⟨node, g, s⟩ :: match g.make b node s with
      | (.error _, _) => []
      | (.ok i, s) => visitsOf b rest (g.put node i) s

/-- The nodes that a build comes to, also when it fails. -/
def visits (b : Blueprint σ κ) (s : σ) : List (Visit σ κ) :=
  match b.validate.bind (plan b) with
  | .error _ => []
  | .ok g => visitsOf b g.order.reverse g s

theorem Visit.creations_eq (v : Visit σ κ) : v.creations b = (creation? b v.graph v.node).toList := by
  rw [creations, make_noting, written, List.nil_append]

theorem makeAll_noting : makeAll b.noting nodes g (s, log) =
    ((makeAll b nodes g s).1, (makeAll b nodes g s).2,
      log ++ (visitsOf b nodes g s).flatMap (Visit.creations b)) := by
  induction nodes generalizing g s log with
  | nil => simp [makeAll, visitsOf]
  | cons n nodes ih =>
      rw [makeAll, makeAll, visitsOf, make_noting, written, List.flatMap_cons, Visit.creations_eq]
      rcases g.make b n s with ⟨e | i, s'⟩
      · simp
      · simp only [ih, List.append_assoc]

/-- A build with factories that write their calls down goes as it would without; in the end the calls are
there that it made at the nodes it came to. -/
theorem build_noting (b : Blueprint σ κ) (s : σ) : build b.noting (s, []) =
    ((build b s).1, (build b s).2, (visits b s).flatMap (Visit.creations b)) := by
  have hPlan : plan (κ := κ) b.noting = plan b := by
    funext ps
    rw [plan, plan, Blueprint.wiring_noting]
  rw [build, build, visits, Blueprint.validate_noting, hPlan]
  cases b.validate.bind (plan b) with
  | error e => rfl
  | ok g => exact makeAll_noting

end Graph

end Telemetry

import Telemetry.Component.Lifecycle
import Telemetry.Pipeline.Graph

/-!
# Services

A service is a set of extensions and a pipeline graph. Extensions are started before every component
of the graph and stopped after all of them; components are started from the ends of the pipelines
upwards and stopped the other way round.
-/

namespace Telemetry

/-- A service that was built. -/
structure Service (κ : Type) where
  /-- The extensions. -/
  extensions : Table ComponentId κ
  /-- The extensions in the order they are started. -/
  order : List ComponentId
  /-- The pipelines. -/
  graph : Graph κ

namespace Service

variable {σ κ : Type}

/-- Creates an extension that a service lists. -/
def createExtension (b : Blueprint σ κ) (id : ComponentId) (s : σ) : Except GraphError κ × σ :=
  match b.config.extensions.get? id with
  | none => (.error (.notConfigured .service .extension id), s)
  | some user =>
    match b.factories.extensions.get? id.type with
    | none => (.error (.factoryNotFound .extension id), s)
    | some f =>
      match f.create id (Json.overlay f.defaults user) s with
      | (.ok c, s) => (.ok c, s)
      | (.error e, s) => (.error (.create (.extension id) e), s)

/-- Creates extensions in turn, up to the first failure; of two with one id the later stays. -/
def createExtensions (b : Blueprint σ κ) :
    List ComponentId → Table ComponentId κ → σ → Except GraphError (Table ComponentId κ) × σ
  | [], made, s => (.ok made, s)
  | id :: rest, made, s =>
    match createExtension b id s with
    | (.error e, s) => (.error e, s)
    | (.ok c, s) => createExtensions b rest (made.insert id c) s

/-- Builds a service. -/
def build (b : Blueprint σ κ) (s : σ) : Except GraphError (Service κ) × σ :=
  let order := b.config.service.extensions
  match createExtensions b order [] s with
  | (.error e, s) => (.error e, s)
  | (.ok extensions, s) =>
    match Graph.build b s with
    | (.error e, s) => (.error e, s)
    | (.ok graph, s) => (.ok ⟨extensions, order, graph⟩, s)

/-- The extensions as parts, in the order they are started. -/
def extensionParts (x : Service κ) : List (Part κ) :=
  x.order.filterMap fun id => (x.extensions.get? id).map fun c => (.extension id, c)

/-- The components of the graph as parts, in the order they are stopped. -/
def graphParts (x : Service κ) : List (Part κ) :=
  x.graph.parts.map fun (node, c) => (.node node, c)

/-- What is started, in order. -/
def startOrder (x : Service κ) : List ServicePart :=
  x.order.map ServicePart.extension ++ x.graph.startOrder.map ServicePart.node

/-- Starts a service. -/
def start (l : Lifecycle σ κ) (x : Service κ) (s : σ) : Except GraphError Unit × σ :=
  l.startAll [] (x.extensionParts ++ x.graphParts.reverse) s

/-- Shuts a service down. What the components of the graph answered is one error among those of the
extensions. -/
def shutdown (l : Lifecycle σ κ) (x : Service κ) (s : σ) : Except GraphError Unit × σ :=
  let (nodeErrors, s) := l.shutdownAll x.graphParts s
  let (extensionErrors, s) := l.shutdownAll x.extensionParts.reverse s
  let graphErrors := match GraphError.join nodeErrors with
    | .ok () => []
    | .error e => [e]
  (GraphError.join (graphErrors ++ extensionErrors), s)

end Service

end Telemetry

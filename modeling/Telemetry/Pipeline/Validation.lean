import Telemetry.Component.Factory
import Telemetry.Configuration.Service

/-!
# Validation of pipelines

Before anything is built, every pipeline must have an id, come from somewhere and lead somewhere,
and every component it lists must be configured and have a factory. Every use of a connector needs a
counterpart: a pipeline that it comes from, or leads to, by a pair of signals the connector can
join. The first fault found, in the order below, is the one reported.
-/

namespace Telemetry

/-- The pipelines of a service, by id. -/
abbrev Pipelines := Table PipelineId PipelineConfig

namespace Pipelines

/-- Reads the id of a pipeline. -/
def parseId (key : String) : Except GraphError PipelineId :=
  (PipelineId.parse key).mapError fun
    | .unknownSignal signal => .unknownSignal key signal
    | source => .invalidPipelineId key source

/-- The pipelines of a configuration, in the order of their keys; of two keys that are read as one id
the later counts. -/
def ofConfig (c : ServiceConfig) : Except GraphError Pipelines :=
  if c.service.pipelines.isEmpty then .error .noPipelines
  else
    c.service.pipelines.foldlM (fun (t : Pipelines) (key, p) => do
      return t.insert (← parseId key) p) []

/-- The pipelines that export to a component. -/
def exportingTo (ps : Pipelines) (id : ComponentId) : Pipelines :=
  ps.filter fun e => e.2.exporters.contains id

/-- The pipelines that receive from a component. -/
def receivingFrom (ps : Pipelines) (id : ComponentId) : Pipelines :=
  ps.filter fun e => e.2.receivers.contains id

end Pipelines

/-- What a service is built from. -/
structure Blueprint (σ κ : Type) where
  /-- The configuration. -/
  config : ServiceConfig
  /-- The factories. -/
  factories : Factories σ κ

namespace Blueprint

variable {σ κ : Type}

/-- Whether an id stands for a connector. -/
def isConnector (b : Blueprint σ κ) (id : ComponentId) : Bool := b.config.connectors.contains id

/-- A listed component must be configured and have a factory. -/
def checkReference {φ : Type} (pipeline : PipelineId) (kind : Kind) (table : ComponentTable)
    (r : Registry φ) (id : ComponentId) : Except GraphError Unit :=
  if !table.contains id then .error (.notConfigured (.pipeline pipeline) kind id)
  else if (r.get? id.type).isNone then .error (.factoryNotFound kind id)
  else .ok ()

/-- Checks the processors of a pipeline, given those before them: each must be configured, be listed
once, and have a factory. -/
def checkProcessors (b : Blueprint σ κ) (pipeline : PipelineId) (seen : List ComponentId) :
    List ComponentId → Except GraphError Unit
  | [] => .ok ()
  | id :: rest =>
    if !b.config.processors.contains id then
      .error (.notConfigured (.pipeline pipeline) .processor id)
    else if seen.contains id then .error (.duplicateProcessor pipeline id)
    else if (b.factories.processors.get? id.type).isNone then
      .error (.factoryNotFound .processor id)
    else checkProcessors b pipeline (id :: seen) rest

/-- Checks a pipeline. -/
def checkPipeline (b : Blueprint σ κ) (id : PipelineId) (p : PipelineConfig) :
    Except GraphError Unit := do
  if p.receivers.isEmpty then .error (.missingReceivers id)
  if p.exporters.isEmpty then .error (.missingExporters id)
  (p.receivers.filter (!b.isConnector ·)).forM
    (checkReference id .receiver b.config.receivers b.factories.receivers)
  b.checkProcessors id [] p.processors
  (p.exporters.filter (!b.isConnector ·)).forM
    (checkReference id .exporter b.config.exporters b.factories.exporters)

/-- Every pipeline that uses a connector in one role needs one that uses it in the other role, by a
pair of signals the connector can join. -/
def checkUses (joins : Signal → Signal → Bool) (id : ComponentId) (usedAs missingAs : Kind)
    (users counterparts : Pipelines) : Except GraphError Unit :=
  users.forM fun (user, _) =>
    if counterparts.any fun e => joins user.signal e.1.signal then .ok ()
    else .error (.connectorUnused id user usedAs missingAs)

/-- Checks a connector; one that no pipeline lists needs no factory. -/
def checkConnector (b : Blueprint σ κ) (ps : Pipelines) (id : ComponentId) :
    Except GraphError Unit := do
  if (b.factories.connectors.get? id.type).isNone then
    if b.config.isReferenced id then .error (.factoryNotFound .connector id)
  else
    let sources := ps.exportingTo id
    let targets := ps.receivingFrom id
    let joins := b.factories.connects id
    checkUses joins id .exporter .receiver sources targets
    checkUses (fun target source => joins source target) id .receiver .exporter targets sources

/-- The pipelines of a blueprint that has no fault. -/
def validate (b : Blueprint σ κ) : Except GraphError Pipelines := do
  let ps ← Pipelines.ofConfig b.config
  ps.forM fun (id, p) => b.checkPipeline id p
  b.config.connectors.forM fun (id, _) => b.checkConnector ps id
  return ps

end Blueprint

end Telemetry

import Telemetry.Configuration.Decode

/-!
# Service configuration

A service configuration names every component once, in the table of its kind, with its settings as
they were written, and then lists, by id, the components of each pipeline and the extensions that
run.
-/

namespace Telemetry

/-- The components of a pipeline, in order. -/
structure PipelineConfig where
  /-- Where batches come from: receivers, and connectors fed by other pipelines. -/
  receivers : List ComponentId
  /-- What batches pass through. -/
  processors : List ComponentId
  /-- Where batches go: exporters, and connectors that feed other pipelines. -/
  exporters : List ComponentId
deriving DecidableEq

namespace PipelineConfig

/-- A pipeline without components. -/
def empty : PipelineConfig := ⟨[], [], []⟩

/-- Reads a pipeline; members that are no fields are refused. -/
def read : Settings.Reader PipelineConfig :=
  let ids := Settings.list Settings.componentId
  Settings.record "PipelineConfig" ⟨true, false⟩
    [Settings.field "receivers" ids fun v p => { p with receivers := v },
     Settings.field "processors" ids fun v p => { p with processors := v },
     Settings.field "exporters" ids fun v p => { p with exporters := v }] empty

/-- The JSON form of a list of ids. -/
def idsToJson (ids : List ComponentId) : Json := .array (ids.map fun id => .string id.text)

/-- The JSON form. -/
def toJson (p : PipelineConfig) : Json :=
  .ofMembers [("receivers", idsToJson p.receivers), ("processors", idsToJson p.processors),
    ("exporters", idsToJson p.exporters)]

end PipelineConfig

/-- What runs: extensions and pipelines. -/
structure ServiceSection where
  /-- The extensions that run, in the order they are started. -/
  extensions : List ComponentId
  /-- The pipelines, by the texts of their ids. -/
  pipelines : Table String PipelineConfig
deriving DecidableEq

namespace ServiceSection

/-- Nothing runs. -/
def empty : ServiceSection := ⟨[], []⟩

/-- Reads the section; members that are no fields are refused. -/
def read : Settings.Reader ServiceSection :=
  Settings.record "ServiceSection" ⟨true, false⟩
    [Settings.field "extensions" (Settings.list Settings.componentId) fun v s =>
       { s with extensions := v },
     Settings.field "pipelines" (Settings.table .ok PipelineConfig.read) fun v s =>
       { s with pipelines := v }] empty

/-- The JSON form. -/
def toJson (s : ServiceSection) : Json :=
  .ofMembers [("extensions", PipelineConfig.idsToJson s.extensions),
    ("pipelines", .object (s.pipelines.mapValues PipelineConfig.toJson))]

end ServiceSection

/-- The settings of the components of one kind, as they were written. -/
abbrev ComponentTable := Table ComponentId Json

/-- The configuration of a service. -/
structure ServiceConfig where
  /-- Settings of receivers. -/
  receivers : ComponentTable
  /-- Settings of processors. -/
  processors : ComponentTable
  /-- Settings of exporters. -/
  exporters : ComponentTable
  /-- Settings of connectors. -/
  connectors : ComponentTable
  /-- Settings of extensions. -/
  extensions : ComponentTable
  /-- What runs. -/
  service : ServiceSection

namespace ServiceConfig

/-- A configuration without components. -/
def empty : ServiceConfig := ⟨[], [], [], [], [], .empty⟩

/-- Reads a table of components. -/
def readTable : Settings.Reader ComponentTable :=
  Settings.table (fun k => (ComponentId.parse k).mapError .badId) .ok

/-- Reads a configuration; members that are no fields are refused. -/
def read : Settings.Reader ServiceConfig :=
  Settings.record "ServiceConfig" ⟨true, false⟩
    [Settings.field "receivers" readTable fun v c => { c with receivers := v },
     Settings.field "processors" readTable fun v c => { c with processors := v },
     Settings.field "exporters" readTable fun v c => { c with exporters := v },
     Settings.field "connectors" readTable fun v c => { c with connectors := v },
     Settings.field "extensions" readTable fun v c => { c with extensions := v },
     Settings.field "service" ServiceSection.read fun v c => { c with service := v }] empty

/-- The JSON form of a table of components. -/
def tableToJson (t : ComponentTable) : Json := .ofMembers (t.map fun e => (e.1.text, e.2))

/-- The JSON form. -/
def toJson (c : ServiceConfig) : Json :=
  .ofMembers [("receivers", tableToJson c.receivers), ("processors", tableToJson c.processors),
    ("exporters", tableToJson c.exporters), ("connectors", tableToJson c.connectors),
    ("extensions", tableToJson c.extensions), ("service", c.service.toJson)]

/-- The settings of a connector, if the id is one. -/
def connector? (c : ServiceConfig) (id : ComponentId) : Option Json := c.connectors.get? id

/-- Whether some pipeline lists an id. -/
def isReferenced (c : ServiceConfig) (id : ComponentId) : Bool :=
  c.service.pipelines.any fun (_, p) =>
    p.receivers.contains id || p.processors.contains id || p.exporters.contains id

end ServiceConfig

end Telemetry

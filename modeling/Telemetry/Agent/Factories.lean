import Telemetry.Agent.Installation
import Telemetry.Flow.AttributeEdit
import Telemetry.Flow.ItemCounts

/-!
# The components of an agent

A receiver that listens for requests, processors that gather batches and that edit resources,
exporters that post batches and that describe them, connectors that pass batches on and that count
items, and storage in files and in memory.

Settings that can be read may still break a rule: an interval that must not be zero, an address that
must be given, a member that is no field. They are read and checked before a component is made from
them; the first fault found is the one reported.
-/

namespace Telemetry.Agent

/-- Reads the settings of a component. -/
def settingsOf {α : Type} (id : ComponentId) (read : Settings.Reader α) (v : Json) :
    Except ComponentError α :=
  (read v).mapError fun e => .invalidConfig id e.message

/-- Settings of a processor that gathers batches; time must pass between two of them. -/
def gatheringSettings : Settings.Reader BatchSettings := fun v => do
  let s ← BatchSettings.read v
  if s.timeout = 0 then throw (.rule "timeout must be positive")
  return s

/-- The edits of a processor that edits resources. -/
def editSettings : Settings.Reader (List AttributeEdit) := fun v => do
  (← ResourceSettings.read v).attributes.mapM AttributeEdit.ofSettings

/-- The settings every exporter has must describe a policy for retries that makes sense. -/
def checkExports (s : ExportSettings) : Except SettingsError Unit :=
  match s.retry.fault? with
  | none => .ok ()
  | some f => .error (.rule f.message)

/-- Settings of an exporter that describes batches. -/
def logSettings : Settings.Reader DebugSettings := fun v => do
  let s ← DebugSettings.read v
  Leftover.refuse s.unknown
  checkExports s.exports
  return s

/-- Settings of an exporter that posts batches, with its endpoint. -/
def postSettings : Settings.Reader (HttpSettings × String) := fun v => do
  let s ← HttpSettings.read v
  Leftover.refuse s.unknown
  match s.endpoint with
  | none => throw (.rule "endpoint is required")
  | some endpoint =>
    checkExports s.exports
    return (s, endpoint)

/-- Makes something from settings that are in order. -/
def making {α β : Type} (settings : Except ComponentError α)
    (make : α → Installation → β × Installation) (x : Installation) :
    Except ComponentError β × Installation :=
  match settings with
  | .error e => (.error e, x)
  | .ok s =>
    let (made, x) := make s x
    (.ok made, x)

/-- Receivers that listen for requests, one for all signals of an id. The settings must be in order
every time; those of the first time count. -/
def otlpReceivers : ReceiverFactory Installation Component where
  defaults := ReceiverSettings.default.toJson
  stability := Stability.beta.general
  create id type v next x :=
    match settingsOf id ReceiverSettings.read v with
    | .error e => (.error e, x)
    | .ok s => x.addListener id type s next

/-- Processors that gather batches. -/
def batchProcessors : ProcessorFactory Installation Component where
  defaults := BatchSettings.default.toJson
  stability := Stability.beta.general
  create id _ v next := making (settingsOf id gatheringSettings v) fun s x => x.addGatherer s next

/-- Processors that edit the attributes of resources. -/
def resourceProcessors : ProcessorFactory Installation Component where
  defaults := ResourceSettings.default.toJson
  stability := Stability.beta.general
  create id _ v next := making (settingsOf id editSettings v) fun edits x =>
    (⟨.idle, .edit (Request.editResources edits) next⟩, x)

/-- Exporters that post batches to a server. -/
def httpExporters : ExporterFactory Installation Component where
  defaults := HttpSettings.default.toJson
  stability
    | .traces | .metrics => .stable
    | .logs => .beta
    | .profiles => .undefined
  create id type v := making (settingsOf id postSettings v) fun (s, endpoint) x =>
    x.addExporter s.exports ⟨id, type, .server s endpoint⟩

/-- Exporters that describe batches in the agent's own log. -/
def debugExporters : ExporterFactory Installation Component where
  defaults := DebugSettings.default.toJson
  stability := Stability.development.general
  create id type v := making (settingsOf id logSettings v) fun s x =>
    x.addExporter s.exports ⟨id, type, .log⟩

/-- Connectors that pass batches on to further pipelines of the same signal. They have no settings. -/
def forwardConnectors : ConnectorFactory Installation Component where
  defaults := .object []
  stability source target := if source = target then Stability.beta.general source else .undefined
  create id source target _ next x :=
    if source = target then (.ok ⟨.idle, .pass false next⟩, x)
    else (.error (.connectionNotSupported id source.signal target.signal), x)

/-- Connectors that count the items of batches. -/
def countConnectors : ConnectorFactory Installation Component where
  defaults := CountSettings.default.toJson
  stability source target :=
    if target = .metrics then Stability.alpha.general source else .undefined
  create id source target v next x :=
    if target = .metrics then
      making (settingsOf id CountSettings.read v) (fun s x =>
        let counts := ItemCounts.ofRequest? (ItemCounts.labelOf s source)
        (⟨.idle, .convert (fun time r => counts time r) next⟩, x)) x
    else (.error (.connectionNotSupported id source.signal target.signal), x)

/-- Storage in files. -/
def fileStorage : ExtensionFactory Installation Component where
  defaults := FileStorageSettings.default.toJson
  stability := .beta
  create id v := making (settingsOf id FileStorageSettings.read v) fun s x => (.files s, x)

/-- The type of storage in memory. -/
def memoryStorageType : ComponentType := ⟨"memory_storage", by decide⟩

/-- Storage in memory, which outlives the extension. It has no settings. -/
def memoryStorage : ExtensionFactory Installation Component where
  defaults := .object []
  stability := .development
  create id _ x :=
    let (store, x) := x.storeFor id
    (.ok (.memory store), x)

/-- The factories of an agent. -/
def factories : Factories Installation Component where
  receivers := .ofList .receiver [(⟨"otlp", by decide⟩, otlpReceivers)]
  processors := .ofList .processor
    [(⟨"batch", by decide⟩, batchProcessors), (⟨"resource", by decide⟩, resourceProcessors)]
  exporters := .ofList .exporter
    [(⟨"otlphttp", by decide⟩, httpExporters), (⟨"debug", by decide⟩, debugExporters)]
  connectors := .ofList .connector
    [(⟨"forward", by decide⟩, forwardConnectors), (⟨"count", by decide⟩, countConnectors)]
  extensions := .ofList .extension
    [(⟨"file_storage", by decide⟩, fileStorage), (memoryStorageType, memoryStorage)]

end Telemetry.Agent

import Telemetry.Agent.Factories

/-!
# Components for trying out pipelines

Receivers, processors, exporters, connectors and extensions that write down when they are started
and shut down and refuse either if they are told to. Their exporters keep what they get. Besides,
there is a type of every kind whose factory supports nothing.
-/

namespace Telemetry.Testbed

open Agent (Component Installation making settingsOf)

/-- Settings of every component for trying out. -/
structure KitSettings where
  /-- Whether a processor says that it changes batches. -/
  mutatesData : Bool
  /-- Whether the component refuses to start. -/
  failsStart : Bool
  /-- Whether the component refuses to shut down. -/
  failsShutdown : Bool

namespace KitSettings

/-- Reads the settings; members that are no fields are refused. -/
def read : Settings.Reader KitSettings :=
  Settings.record "TestConfig" ⟨true, false⟩
    [Settings.field "mutates_data" Settings.bool fun v s => { s with mutatesData := v },
     Settings.field "fail_start" Settings.bool fun v s => { s with failsStart := v },
     Settings.field "fail_shutdown" Settings.bool fun v s => { s with failsShutdown := v }]
    ⟨false, false, false⟩

/-- The component with these settings. -/
def component (s : KitSettings) (kind : Kind) (id : ComponentId) : Component :=
  .recorder (kind.text ++ " " ++ id.text) s.failsStart s.failsShutdown

end KitSettings

namespace Kit

/-- Receivers. -/
def receivers : ReceiverFactory Installation Component where
  defaults := .object []
  stability := Stability.beta.general
  create id _ v _ :=
    making (settingsOf id KitSettings.read v) fun s x => (s.component .receiver id, x)

/-- Processors that pass batches on. -/
def processors : ProcessorFactory Installation Component where
  defaults := .object []
  stability := Stability.beta.general
  create id _ v next := making (settingsOf id KitSettings.read v) fun s x =>
    (⟨s.component .processor id, .pass s.mutatesData next⟩, x)

/-- Exporters that keep batches. -/
def exporters : ExporterFactory Installation Component where
  defaults := .object []
  stability := Stability.beta.general
  create id _ v := making (settingsOf id KitSettings.read v) fun s x =>
    let (consumer, x) := x.addPort (.sink .blank)
    (⟨s.component .exporter id, consumer⟩, x)

/-- Connectors. Where the signal stays the same they pass batches on; else they hand on a blank batch
for each. -/
def connectors : ConnectorFactory Installation Component where
  defaults := .object []
  stability source target :=
    if target = .profiles then .undefined else Stability.development.general source
  create id source target v next := making (settingsOf id KitSettings.read v) fun s x =>
    let consumer :=
      if source = target then .pass false next
      else .convert (fun _ _ => some (.blank target)) next
    (⟨s.component .connector id, consumer⟩, x)

/-- Extensions. -/
def extensions : ExtensionFactory Installation Component where
  defaults := .object []
  stability := .beta
  create id v :=
    making (settingsOf id KitSettings.read v) fun s x => (s.component .extension id, x)

/-- The factories of the components for trying out. -/
def factories : Factories Installation Component where
  receivers := .ofList .receiver [(⟨"testrcv", by decide⟩, receivers)]
  processors := .ofList .processor [(⟨"testproc", by decide⟩, processors)]
  exporters := .ofList .exporter [(⟨"testexp", by decide⟩, exporters)]
  connectors := .ofList .connector [(⟨"testconn", by decide⟩, connectors)]
  extensions := .ofList .extension
    [(⟨"testext", by decide⟩, extensions), (Agent.memoryStorageType, Agent.memoryStorage)]

/-- The type whose factories support nothing. -/
def bare : ComponentType := ⟨"bare", by decide⟩

/-- The error for a signal that is not supported. -/
def refused {α : Type} (kind : Kind) (id : ComponentId) (type : BatchType) :
    Installation → Except ComponentError α × Installation :=
  fun x => (.error (.signalNotSupported kind id type.signal), x)

/-- Factories that support nothing. -/
def bareFactories : Factories Installation Component where
  receivers := .ofList .receiver
    [(bare, ⟨.object [], fun _ => .undefined, fun id type _ _ => refused .receiver id type⟩)]
  processors := .ofList .processor
    [(bare, ⟨.object [], fun _ => .undefined, fun id type _ _ => refused .processor id type⟩)]
  exporters := .ofList .exporter
    [(bare, ⟨.object [], fun _ => .undefined, fun id type _ => refused .exporter id type⟩)]
  connectors := .ofList .connector
    [(bare, ⟨.object [], fun _ _ => .undefined, fun id source target _ _ x =>
      (.error (.connectionNotSupported id source.signal target.signal), x)⟩)]
  extensions := .ofList .extension
    [(bare, ⟨.object [], .undefined, fun id _ x => (.error (.start (id.text ++ " is bare")), x)⟩)]

/-- The components for trying out, those of an agent, and the type that supports nothing. -/
def everything : Factories Installation Component :=
  (factories.orElse Agent.factories).orElse bareFactories

end Kit

end Telemetry.Testbed

import Telemetry.Component.Registry
import Telemetry.Configuration.Overlay
import Telemetry.Flow.Consumer

/-!
# Factories

A factory makes the components of one type. It knows the default settings, says how mature its
components are for each signal, and creates a component from its id and its settings. What creating
one leaves behind is a change of a state the factories share; a creation that fails may have changed
it too.
-/

namespace Telemetry

/-- Where a batch goes in and the component that takes it. -/
structure Inlet (κ : Type) where
  /-- The component. -/
  component : κ
  /-- How it takes batches. -/
  consumer : Consumer

/-- Makes receivers, which hand batches of one type to a consumer. -/
structure ReceiverFactory (σ κ : Type) where
  /-- The default settings. -/
  defaults : Json
  /-- The maturity for a signal. -/
  stability : Signal → Stability
  /-- Creates a receiver. -/
  create : ComponentId → BatchType → Json → Consumer → σ → Except ComponentError κ × σ

/-- Makes processors, which take batches of one type and hand on batches of the same type. -/
structure ProcessorFactory (σ κ : Type) where
  /-- The default settings. -/
  defaults : Json
  /-- The maturity for a signal. -/
  stability : Signal → Stability
  /-- Creates a processor. -/
  create : ComponentId → BatchType → Json → Consumer → σ → Except ComponentError (Inlet κ) × σ

/-- Makes exporters, which take batches of one type. -/
structure ExporterFactory (σ κ : Type) where
  /-- The default settings. -/
  defaults : Json
  /-- The maturity for a signal. -/
  stability : Signal → Stability
  /-- Creates an exporter. -/
  create : ComponentId → BatchType → Json → σ → Except ComponentError (Inlet κ) × σ

/-- Makes connectors, which take batches of one type and hand on batches of another, or of the same
one, to further pipelines. -/
structure ConnectorFactory (σ κ : Type) where
  /-- The default settings. -/
  defaults : Json
  /-- The maturity for a pair of signals. -/
  stability : Signal → Signal → Stability
  /-- Creates a connector. -/
  create : ComponentId → BatchType → BatchType → Json → Consumer → σ →
    Except ComponentError (Inlet κ) × σ

/-- Makes extensions, which run beside the pipelines. -/
structure ExtensionFactory (σ κ : Type) where
  /-- The default settings. -/
  defaults : Json
  /-- The maturity. -/
  stability : Stability
  /-- Creates an extension. -/
  create : ComponentId → Json → σ → Except ComponentError κ × σ

/-- The factories of every kind. -/
structure Factories (σ κ : Type) where
  /-- Factories of receivers. -/
  receivers : Registry (ReceiverFactory σ κ)
  /-- Factories of processors. -/
  processors : Registry (ProcessorFactory σ κ)
  /-- Factories of exporters. -/
  exporters : Registry (ExporterFactory σ κ)
  /-- Factories of connectors. -/
  connectors : Registry (ConnectorFactory σ κ)
  /-- Factories of extensions. -/
  extensions : Registry (ExtensionFactory σ κ)

namespace Factories

variable {σ κ : Type}

/-- No factories. -/
def empty : Factories σ κ :=
  ⟨.empty .receiver, .empty .processor, .empty .exporter, .empty .connector, .empty .extension⟩

/-- The factories of two sets; where both have one for a type, the first set's. -/
def orElse (f g : Factories σ κ) : Factories σ κ :=
  let join {φ : Type} (a b : Registry φ) : Registry φ :=
    { a with entries := a.entries.foldl (fun t e => t.insert e.1 e.2) b.entries }
  ⟨join f.receivers g.receivers, join f.processors g.processors, join f.exporters g.exporters,
    join f.connectors g.connectors, join f.extensions g.extensions⟩

/-- The default settings of a type of component. -/
def defaults? (f : Factories σ κ) (kind : Kind) (type : ComponentType) : Option Json :=
  match kind with
  | .receiver => (f.receivers.get? type).map ReceiverFactory.defaults
  | .processor => (f.processors.get? type).map ProcessorFactory.defaults
  | .exporter => (f.exporters.get? type).map ExporterFactory.defaults
  | .connector => (f.connectors.get? type).map ConnectorFactory.defaults
  | .extension => (f.extensions.get? type).map ExtensionFactory.defaults

/-- Whether a connector can join two signals. -/
def connects (f : Factories σ κ) (id : ComponentId) (source target : Signal) : Bool :=
  (f.connectors.get? id.type).any fun c => (c.stability source target).isSupported

end Factories

/-- The settings of a component: those its user wrote, over the defaults. -/
def settingsOver (defaults : Json) (table : Table ComponentId Json) (id : ComponentId) : Json :=
  Json.overlay? defaults (table.get? id)

end Telemetry

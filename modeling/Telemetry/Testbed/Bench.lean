import Telemetry.Agent.Lifecycle
import Telemetry.Testbed.Kit

/-!
# A component by itself

A component on a bench has a sink behind it for each type of batches. The bench notes when batches
arrive in the sinks.
-/

namespace Telemetry.Testbed

open Agent (Component Installation)

/-- A component by itself. -/
structure Bench where
  /-- The state of the component and of its surroundings. -/
  state : Agent.State
  /-- The component. -/
  component : Component
  /-- How it takes batches, if it does. -/
  consumer : Option Consumer
  /-- The times at which batches arrived in the sinks. -/
  arrivals : List Nat

namespace Bench

/-- The consumer that leads to the sink for a type of batches. -/
def outlet (type : BatchType) : Consumer := .leaf false (BatchType.all.idxOf type)

/-- Nothing but a sink for each type of batches, with what they refuse batches with. -/
def table (refusal : Option ConsumeError) : Installation :=
  { Installation.empty none with
    ports := BatchType.all.map fun _ => .sink { Sink.blank with refusal := refusal } }

/-- Puts what was made on a bench. -/
def ofMade {α : Type} (part : α → Component × Option Consumer) :
    Except ComponentError α × Installation → Except ComponentError Bench
  | (.error e, _) => .error e
  | (.ok made, x) =>
    let (component, consumer) := part made
    .ok ⟨⟨.empty, x⟩, component, consumer, []⟩

/-- Makes a component of a kind, from settings over the defaults, between the types of batches it
takes and hands on. There is no result if its type has no factory. -/
def make? (f : Factories Installation Component) (kind : Kind) (id : ComponentId)
    (source target : BatchType) (settings : Json) (refusal : Option ConsumeError) :
    Option (Except ComponentError Bench) :=
  let x := table refusal
  let alone (c : Component) : Component × Option Consumer := (c, none)
  let inlet (i : Inlet Component) : Component × Option Consumer := (i.component, some i.consumer)
  match kind with
  | .receiver => (f.receivers.get? id.type).map fun f =>
    ofMade alone (f.create id source settings (outlet source) x)
  | .processor => (f.processors.get? id.type).map fun f =>
    ofMade inlet (f.create id source settings (outlet source) x)
  | .exporter => (f.exporters.get? id.type).map fun f =>
    ofMade inlet (f.create id source settings x)
  | .connector => (f.connectors.get? id.type).map fun f =>
    ofMade inlet (f.create id source target settings (outlet target) x)
  | .extension => (f.extensions.get? id.type).map fun f =>
    ofMade alone (f.create id settings x)

/-- Whether the component says that it changes batches. -/
def mutates (b : Bench) : Bool := b.consumer.any Consumer.mutates

/-- The batches in the sink for a type. -/
def kept (b : Bench) (type : BatchType) : List Handle :=
  match b.state.installed.ports[BatchType.all.idxOf type]? with
  | some (.sink s) => s.kept
  | _ => []

/-- The number of items the component holds back. -/
def pending (b : Bench) : Nat :=
  match b.component with
  | .gatherer n => (b.state.installed.gatherers[n]?).elim 0 fun g => g.held.items
  | _ => 0

/-- Takes over a state and notes what has arrived since the last one. -/
def update (b : Bench) (s : Agent.State) : Bench :=
  let b := { b with state := s }
  let total := (BatchType.all.map fun t => (b.kept t).length).foldr (· + ·) 0
  let fresh := List.replicate (total - b.arrivals.length) s.installed.now
  { b with arrivals := b.arrivals ++ fresh }

/-- Hands a batch to the component. -/
def consume (b : Bench) (batch : Handle) : Outcome × Bench :=
  match b.consumer with
  | none => (.ok (), b)
  | some c =>
    let (outcome, s) := b.state.consume c batch
    (outcome, b.update s.settle)

/-- Hands a new batch to the component; the second result is a further handle onto it, if that is
asked for. -/
def feed (b : Bench) (r : Request) (share : Bool) : Outcome × Option Handle × Bench :=
  let (batch, h) := b.state.heap.new r
  if share then
    let ((batch, other), h) := h.share batch
    let (outcome, b) := { b with state := { b.state with heap := h } }.consume batch
    (outcome, some other, b)
  else
    let (outcome, b) := { b with state := { b.state with heap := h } }.consume batch
    (outcome, none, b)

/-- Starts the component. -/
def start (b : Bench) : Except ComponentError Unit × Bench :=
  let (outcome, s) := Agent.startComponent [] b.component b.state
  (outcome, b.update s.settle)

/-- Shuts the component down. -/
def shutdown (b : Bench) : Except ComponentError Unit × Bench :=
  let (outcome, s) := Agent.shutdownComponent b.component b.state
  (outcome, b.update s.settle)

/-- Lets time go on. -/
def advance (b : Bench) (ms : Nat) : Bench := (b.state.elapse ms).foldl update b

/-- Sets what all sinks refuse batches with. -/
def refuse (b : Bench) (refusal : Option ConsumeError) : Bench :=
  let x := b.state.installed
  let set : Agent.Port → Agent.Port
    | .sink s => .sink { s with refusal := refusal }
    | p => p
  { b with state := { b.state with installed := { x with ports := x.ports.map set } } }

end Bench

end Telemetry.Testbed

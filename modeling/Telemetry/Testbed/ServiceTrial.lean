import Telemetry.Agent.Running
import Telemetry.Testbed.Kit

/-!
# Trying out services

A service that is fed through its receivers for trying out and watched through the sinks of its
exporters for trying out.
-/

namespace Telemetry.Testbed

open Agent (Component)

/-- A service with its state. -/
structure ServiceTrial where
  /-- The service. -/
  service : Service Component
  /-- The state. -/
  state : Agent.State

namespace ServiceTrial

/-- Builds a service; the second result is what was written down. -/
def build (plan : Agent.Plan) : Except GraphError ServiceTrial × List String :=
  match Service.build plan (.empty none) with
  | (.error e, x) => (.error e, x.journal)
  | (.ok service, x) => (.ok ⟨service, ⟨.empty, x⟩⟩, x.journal)

/-- Takes over an outcome and a state. -/
def update {α : Type} (t : ServiceTrial) (r : α × Agent.State) : α × ServiceTrial :=
  (r.1, { t with state := r.2.settle })

/-- Starts the service. -/
def start (t : ServiceTrial) : Except GraphError Unit × ServiceTrial :=
  t.update (t.state.start t.service)

/-- Shuts the service down. -/
def shutdown (t : ServiceTrial) : Except GraphError Unit × ServiceTrial :=
  t.update (t.state.shutdown t.service)

/-- Lets time go on. -/
def advance (t : ServiceTrial) (ms : Nat) : ServiceTrial := { t with state := t.state.advance ms }

/-- The consumer that a receiver for trying out hands batches to. -/
def feed? (t : ServiceTrial) (type : BatchType) (id : ComponentId) : Option Consumer :=
  let node := NodeId.receiver id type.signal
  if id.type.text = "testrcv" && t.service.graph.components.contains node then
    t.service.graph.feed? type node
  else none

/-- Hands a batch to a consumer. -/
def send (t : ServiceTrial) (c : Consumer) (r : Request) : Outcome × ServiceTrial :=
  t.update (t.state.receive c r)

/-- The sinks of exporters, with the signal, the id and the place of each. -/
def sinks (t : ServiceTrial) : List (String × Nat × Sink) :=
  t.service.graph.consumers.filterMap fun
    | (.exporter id signal, (_, .leaf _ place)) =>
      match t.state.installed.ports[place]? with
      | some (.sink s) => some (signal.text ++ " " ++ id.text, place, s)
      | _ => none
    | _ => none

/-- Makes the sink of an exporter refuse batches. -/
def refuse (t : ServiceTrial) (label : String) (e : ConsumeError) : ServiceTrial :=
  let x := t.state.installed
  match t.sinks.lookup label with
  | some (place, s) =>
    let ports := x.ports.set place (.sink { s with refusal := some e })
    { t with state := { t.state with installed := { x with ports := ports } } }
  | none => t

/-- What was written down. -/
def journal (t : ServiceTrial) : List String := t.state.installed.journal

/-- The batches that were kept since an earlier time, by exporter. -/
def arrivals (before after : ServiceTrial) : List (String × List Handle) :=
  after.sinks.filterMap fun (label, _, s) =>
    let known := (before.sinks.lookup label).elim 0 fun e => e.2.kept.length
    if known < s.kept.length then some (label, s.kept.drop known) else none

end ServiceTrial

end Telemetry.Testbed

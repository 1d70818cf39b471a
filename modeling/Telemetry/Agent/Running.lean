import Telemetry.Agent.Delivery
import Telemetry.Agent.Lifecycle
import Telemetry.Http.Reception
import Telemetry.Pipeline.Service

/-!
# Running an agent

An agent is built, started, kept running until it is told to stop, and shut down. A failed start has
shut down what it started. A listener that was started hands the batches of the requests it gets to
the pipelines that were there when it was started.
-/

namespace Telemetry.Agent

/-- What an agent is built from. -/
abbrev Plan := Blueprint Installation Component

/-- Starts a service. -/
def State.start (x : Service Component) (s : State) : Except GraphError Unit × State :=
  let (outcome, s) := x.start (lifecycle x.extensions) s
  (outcome, s.settle)

/-- Shuts a service down. -/
def State.shutdown (x : Service Component) (s : State) : Except GraphError Unit × State :=
  let (outcome, s) := x.shutdown (lifecycle x.extensions) s
  (outcome, s.settle)

/-- Runs an agent that is told to stop after so many milliseconds. -/
def run (plan : Plan) (network : Http.Network) (ms : Nat) : Except GraphError Unit × State :=
  match Service.build plan (.empty network) with
  | (.error e, x) => (.error e, ⟨.empty, x⟩)
  | (.ok service, x) =>
    match State.start service ⟨.empty, x⟩ with
    | (.error e, s) => (.error e, s)
    | (.ok (), s) => (s.advance ms).shutdown service

/-- A listener as it answers requests, given where its batches go. -/
def Listener.reception (l : Listener) (routes : Routes) : Http.Reception State :=
  ⟨l.settings.maxRequestBodySize, fun type => (routes type).map State.receive, l.accepted⟩

/-- Answers a request to a listener; one that was not started does not answer. -/
def State.serve (number : Nat) (r : Http.Request) (s : State) : Option Http.Reply × State :=
  match s.installed.listeners[number]? with
  | none => (none, s)
  | some l =>
    match l.serving with
    | none => (none, s)
    | some routes =>
      let (reply, x, s) := (l.reception routes).answer .standard r s
      let count (l : Listener) : Listener := { l with accepted := x.delivered }
      let installed :=
        { s.installed with listeners := s.installed.listeners.modify number count }
      (some reply, { s with installed := installed })

end Telemetry.Agent

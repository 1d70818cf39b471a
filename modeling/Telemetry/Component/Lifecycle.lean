import Telemetry.Failure.Component

/-!
# Starting and stopping components

Components are started one after the other. If one fails to start, it and those before it are shut
down in the opposite order, for a start that failed halfway may hold what only a shutdown gives
back. A shutdown asks every component, whatever the others answer.
-/

namespace Telemetry

/-- How components are started and shut down. -/
structure Lifecycle (σ κ : Type) where
  /-- Starts a component. -/
  start : κ → σ → Except ComponentError Unit × σ
  /-- Shuts a component down. -/
  shutdown : κ → σ → Except ComponentError Unit × σ

/-- A part of a service with its component. -/
abbrev Part (κ : Type) := ServicePart × κ

namespace Lifecycle

variable {σ κ : Type}

/-- Shuts parts down one after the other and collects their errors. -/
def shutdownAll (l : Lifecycle σ κ) : List (Part κ) → σ → List GraphError × σ
  | [], s => ([], s)
  | (part, c) :: rest, s =>
    let (outcome, s) := l.shutdown c s
    let (errors, s) := shutdownAll l rest s
    match outcome with
    | .ok () => (errors, s)
    | .error e => (.shutdown part e :: errors, s)

/-- Starts parts one after the other, given those started before, the last first. -/
def startAll (l : Lifecycle σ κ) (started : List (Part κ)) :
    List (Part κ) → σ → Except GraphError Unit × σ
  | [], s => (.ok (), s)
  | (part, c) :: rest, s =>
    match l.start c s with
    | (.ok (), s) => startAll l ((part, c) :: started) rest s
    | (.error e, s) =>
      let (_, s) := l.shutdownAll ((part, c) :: started) s
      (.error (.start part e), s)

end Lifecycle

end Telemetry

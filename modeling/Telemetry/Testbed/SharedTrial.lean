import Telemetry.Component.Shared

/-!
# Trying out shared components

Components that write down when they are made, started and shut down, shared under ids and held by
named handles.
-/

namespace Telemetry.Testbed

/-- A component that writes down what happens to it. -/
structure Recorder where
  /-- Its label. -/
  label : String
  /-- How many more times it refuses to start. -/
  refusals : Nat
  /-- Whether it refuses to shut down. -/
  failsShutdown : Bool

/-- Recorders by number, and what they wrote down. -/
structure Recorders where
  /-- The recorders. -/
  made : List Recorder
  /-- What they wrote down. -/
  journal : List String

namespace Recorders

/-- Writes down what happens to the recorder with a label. -/
def note (event label : String) (r : Recorders) : Recorders :=
  { r with journal := r.journal ++ [event ++ " " ++ label] }

/-- Makes a recorder, or fails to. -/
def create (recorder : Recorder) (fails : Bool) (r : Recorders) :
    Except ComponentError Nat × Recorders :=
  let r := r.note "create" recorder.label
  if fails then (.error (.start "bind failed"), r)
  else (.ok r.made.length, { r with made := r.made ++ [recorder] })

/-- How recorders are started and shut down. -/
def lifecycle : Lifecycle Recorders Nat where
  start n r :=
    match r.made[n]? with
    | none => (.ok (), r)
    | some x =>
      let r := r.note "start" x.label
      if x.refusals = 0 then (.ok (), r)
      else
        let made := r.made.set n { x with refusals := x.refusals - 1 }
        (.error (.start "refused"), { r with made := made })
  shutdown n r :=
    match r.made[n]? with
    | none => (.ok (), r)
    | some x =>
      (if x.failsShutdown then .error (.shutdown "refused") else .ok (), r.note "shutdown" x.label)

end Recorders

/-- Shared recorders and named handles onto them. -/
structure SharedTrial where
  /-- The recorders. -/
  recorders : Recorders
  /-- How they are shared. -/
  shared : SharedComponents Nat
  /-- The shared component of each handle, the latest handle first. -/
  handles : List (String × Nat)

namespace SharedTrial

/-- Nothing was made. -/
def empty : SharedTrial := ⟨⟨[], []⟩, .empty, []⟩

/-- The label of the shared component with a number. -/
def label? (t : SharedTrial) (n : Nat) : Option String := do
  let recorder ← t.shared.inner? n
  return (← t.recorders.made[recorder]?).label

/-- Asks for the component of an id, which is made if there is none, and names the handle. -/
def add (t : SharedTrial) (handle : String) (id : ComponentId) (recorder : Recorder)
    (fails : Bool) : Except ComponentError (Option String) × SharedTrial :=
  match t.shared.getOrAdd id (Recorders.create recorder fails) t.recorders with
  | (.error e, shared, r) => (.error e, ⟨r, shared, t.handles⟩)
  | (.ok n, shared, r) =>
    let t : SharedTrial := ⟨r, shared, (handle, n) :: t.handles⟩
    (.ok (t.label? n), t)

/-- The label of the component to be shared under an id. -/
def get? (t : SharedTrial) (id : ComponentId) : Option String := (t.shared.get? id).bind t.label?

/-- Starts a component, or shuts it down, through a handle. -/
def call (t : SharedTrial) (handle : String) (starts : Bool) :
    Except ComponentError Unit × SharedTrial :=
  match t.handles.lookup handle with
  | none => (.ok (), t)
  | some n =>
    let f := if starts then SharedComponents.start else SharedComponents.shutdown
    let (outcome, shared, r) := f Recorders.lifecycle n t.shared t.recorders
    (outcome, { t with recorders := r, shared := shared })

end SharedTrial

end Telemetry.Testbed

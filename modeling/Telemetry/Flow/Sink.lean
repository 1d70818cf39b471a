import Telemetry.Flow.Consumer

/-!
# Sinks

Ends of pipelines that keep the batches they get, or refuse them, for seeing what a consumer does.
-/

namespace Telemetry

/-- A sink. -/
structure Sink where
  /-- The error it answers with, if it refuses batches. -/
  refusal : Option ConsumeError
  /-- Whether it adds a blank group to every batch. -/
  edits : Bool
  /-- The batches it kept, in the order they came. -/
  kept : List Handle

namespace Sink

/-- A sink that keeps batches as they are. -/
def blank : Sink := ⟨none, false, []⟩

/-- What a sink does with a batch. -/
def deliver (b : Handle) (h : Heap) (s : Sink) : Outcome × Heap × Sink :=
  match s.refusal with
  | some e => (.error e, h.release b, s)
  | none =>
    let (b, h) := if s.edits then h.edit b fun r => r.append [.blank] else (b, h)
    (.ok (), h, { s with kept := s.kept ++ [b] })

end Sink

/-- Sinks by their numbers. -/
abbrev Sinks := List Sink

namespace Sinks

/-- What the sink with a number does with a batch. -/
def deliver (place : Nat) (b : Handle) (h : Heap) (sinks : Sinks) : Outcome × Heap × Sinks :=
  match sinks[place]? with
  | none => (.ok (), h.release b, sinks)
  | some s =>
    let (outcome, h, s) := s.deliver b h
    (outcome, h, sinks.set place s)

/-- Sinks as the ends of pipelines that hold nothing back and know no time. -/
def outlets : Outlets Sinks := ⟨deliver, fun _ b h sinks => (some b, h, sinks), fun _ => 0⟩

end Sinks

end Telemetry

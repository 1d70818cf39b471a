import Telemetry.Proofs.Exporter.Moves
import Telemetry.Proofs.Queue.Redelivery

/-!
# Exporters with persistent queues

One exporter after the other runs on a storage, each with a persistent queue in front. What a worker is
handed it sends by the moves of a sending, beside those of any number of other workers, and it tells the
queue how the sending has ended. A shutdown may be asked for at any time, and so may the process die
between two batches of operations.
-/

namespace Telemetry.Shipping

open Queue (Setup concluded handed)
open Sending (Move Stands)
open Storage (Space)

variable {ε χ : Type}

/-- An item that a worker was handed, and how its sending stands or has ended. -/
structure Shipment (χ : Type) where
  index : UInt64
  request : Request
  state : Sending χ ⊕ Outcome

/-- The item of a shipment. -/
def Shipment.item (s : Shipment χ) : UInt64 × Request := (s.index, s.request)

/-- Whether no attempt was made to deliver an item. -/
def Shipment.IsFresh (s : Shipment χ) : Prop :=
  ∃ sending, s.state = .inl sending ∧ sending.stage = .fresh

/-- A storage with the queue that runs on it, the exporters, the number of the one whose queue it is,
and what the workers of the queue send. -/
structure World (ε χ : Type) where
  queue : Queue.World Request Space
  exporters : Exporters ε
  number : Nat
  shipments : List (Shipment χ)

/-- No exporter was started on the storage, which is empty. -/
def World.blank (x : Exporters ε) : World ε χ := ⟨.idle [], x, 0, []⟩

/-- What shows of a step. -/
inductive Event
  | queue (e : Queue.Event Request)
  | moved (i : UInt64) (r : Request) (p : Progress)
  | aside

/-- What shows of a step of the queue. -/
def Event.queue? : Event → Option (Queue.Event Request)
  | .queue e => some e
  | _ => none

/-- Whether a step leaves the instance that runs running. -/
def Event.isLocal : Event → Bool
  | .queue e => e.isLocal
  | _ => true

/-- What shows of the queue. -/
def queueTrace (trace : List Event) : List (Queue.Event Request) := trace.filterMap Event.queue?

/-- The outcomes of the attempts at an item since it was handed out, the last first. -/
def answers (i : UInt64) : List Event → List Outcome
  | [] => []
  | .queue (.started _) :: _ => []
  | .queue (.claimed j _) :: trace => if j = i then [] else answers i trace
  | .moved j _ p :: trace => if j = i then p.enter (answers i trace) else answers i trace
  | _ :: trace => answers i trace

/-- The items at which an attempt was made since the last start. -/
def attempted : List Event → List (UInt64 × Request)
  | [] => []
  | .queue (.started _) :: _ => []
  | .moved i r .begins :: trace => (i, r) :: attempted trace
  | _ :: trace => attempted trace

/-- The index and the outcome of a sending whose end a step enters, or was entering when the process
died. -/
def ending? : Queue.Event Request → Option (UInt64 × Outcome)
  | .ended i _ outcome | .diedEnding i _ outcome _ => some (i, outcome)
  | _ => none

/-- Whether a step neither hands an item out nor ends a sending, nor starts a queue nor kills it. -/
def isPlain : Queue.Event Request → Bool
  | .accepted _ | .refused .. | .quiet => true
  | _ => false

/-- The steps of exporters with persistent queues. -/
inductive Step (dest : Destination ε χ) (codec : Queue.Codec Request) (admits : Request → Prop) :
    World ε χ → Event → World ε χ → Prop
  | start {w : World ε χ} {settings : ExportSettings} {answer : Except QueueError Unit}
      {queue : Queue.World Request Space} (hPolicy : settings.retry.IsEndless) (x : Exporters ε)
      (hQueue : Queue.Step (.ofSpace codec admits false) w.queue (.started answer) queue) :
      Step dest codec admits w (.queue (.started answer))
        ⟨queue, x.add settings, x.exporters.length, []⟩
  | tend {w : World ε χ} {e : Queue.Event Request} {queue : Queue.World Request Space}
      (hPlain : isPlain e = true)
      (hQueue : Queue.Step (.ofSpace codec admits false) w.queue e queue) :
      Step dest codec admits w (.queue e) { w with queue := queue }
  | claim {w : World ε χ} {i : UInt64} {r : Request} {queue : Queue.World Request Space}
      (hQueue : Queue.Step (.ofSpace codec admits false) w.queue (.claimed i r) queue) :
      Step dest codec admits w (.queue (.claimed i r))
        { w with
          queue := queue
          shipments := w.shipments ++
            [⟨i, r, .inl (.fresh w.number (w.exporters.exporter w.number).context r)⟩] }
  | move {w : World ε χ} {before after : List (Shipment χ)} {s : Shipment χ} {sending : Sending χ}
      {p : Progress} {state : Sending χ ⊕ Outcome} {x : Exporters ε} (now : Nat)
      (hShipments : w.shipments = before ++ s :: after) (hState : s.state = .inl sending)
      (hMove : Move dest now sending w.exporters p (state, x)) :
      Step dest codec admits w (.moved s.index s.request p)
        { w with exporters := x, shipments := before ++ { s with state := state } :: after }
  | finish {w : World ε χ} {before after : List (Shipment χ)} {s : Shipment χ} {outcome : Outcome}
      {queue : Queue.World Request Space} (hShipments : w.shipments = before ++ s :: after)
      (hState : s.state = .inr outcome)
      (hQueue : Queue.Step (.ofSpace codec admits false) w.queue
        (.ended s.index s.request outcome) queue)
      (hLeft : queue.carried = (before ++ after).map Shipment.item) :
      Step dest codec admits w (.queue (.ended s.index s.request outcome))
        { w with queue := queue, shipments := before ++ after }
  | die {w : World ε χ} {e : Queue.Event Request} {queue : Queue.World Request Space}
      (hDeath : e.isDeath = true)
      (hQueue : Queue.Step (.ofSpace codec admits false) w.queue e queue)
      (hOver : ∀ i r outcome count, e = .diedEnding i r outcome count →
        ⟨i, r, .inr outcome⟩ ∈ w.shipments) :
      Step dest codec admits w (.queue e) { w with queue := queue, shipments := [] }
  | halt {w : World ε χ} :
      Step dest codec admits w .aside { w with exporters := w.exporters.stop w.number }
  | pass {w : World ε χ} {x : Exporters ε} (hAlike : x.Alike w.exporters w.number)
      (hLive : w.exporters.tokens.IsLive (w.exporters.exporter w.number).context →
        x.tokens.IsLive (w.exporters.exporter w.number).context) :
      Step dest codec admits w .aside { w with exporters := x }

/-- The runs from a world, with what showed of their steps, the last step first. -/
inductive Runs (dest : Destination ε χ) (codec : Queue.Codec Request) (admits : Request → Prop)
    (origin : World ε χ) : List Event → World ε χ → Prop
  | refl : Runs dest codec admits origin [] origin
  | step {trace : List Event} {w w' : World ε χ} {e : Event}
      (prior : Runs dest codec admits origin trace w) (hWords : w.queue.FitsWords)
      (last : Step dest codec admits w e w') : Runs dest codec admits origin (e :: trace) w'

variable {dest : Destination ε χ} {codec : Queue.Codec Request} {admits : Request → Prop}
  {w w' origin : World ε χ} {e : Event} {trace : List Event}

/-- A step of an exporter is one of its queue, or leaves the queue alone. -/
theorem Step.queue_cases (hStep : Step dest codec admits w e w') :
    (∃ qe, e = .queue qe ∧ Queue.Step (.ofSpace codec admits false) w.queue qe w'.queue) ∨
      (e.queue? = none ∧ w'.queue = w.queue) := by
  cases hStep with
  | start hPolicy x hQueue => exact .inl ⟨_, rfl, hQueue⟩
  | tend hPlain hQueue => exact .inl ⟨_, rfl, hQueue⟩
  | claim hQueue => exact .inl ⟨_, rfl, hQueue⟩
  | finish hShipments hState hQueue hLeft => exact .inl ⟨_, rfl, hQueue⟩
  | die hDeath hQueue hOver => exact .inl ⟨_, rfl, hQueue⟩
  | move | halt | pass => exact .inr ⟨rfl, rfl⟩

/-- What an exporter does to its queue is a run of the queue. -/
theorem Runs.queue (hRuns : Runs dest codec admits origin trace w) :
    Queue.Runs (.ofSpace codec admits false) Queue.World.FitsWords origin.queue (queueTrace trace)
      w.queue := by
  induction hRuns with
  | refl => exact .refl
  | @step trace w w' e prior hWords last ih =>
      rcases last.queue_cases with ⟨qe, rfl, hQueue⟩ | ⟨hNone, hSame⟩
      · exact .step ih hWords hQueue
      · rw [queueTrace, List.filterMap_cons_none hNone, hSame]
        exact ih

theorem Runs.trans {after : List Event} (hBefore : Runs dest codec admits origin trace w)
    (hAfter : Runs dest codec admits w after w') :
    Runs dest codec admits origin (after ++ trace) w' := by
  induction hAfter with
  | refl => exact hBefore
  | step prior hWords last ih => exact .step ih hWords last

/-- A run may be parted at each of its steps. -/
theorem Runs.split {after before : List Event}
    (hRuns : Runs dest codec admits origin (after ++ e :: before) w) :
    ∃ w₁ w₂, Runs dest codec admits origin before w₁ ∧ w₁.queue.FitsWords ∧
      Step dest codec admits w₁ e w₂ ∧ Runs dest codec admits w₂ after w := by
  induction after generalizing w with
  | nil =>
      cases hRuns with
      | step prior hWords last => exact ⟨_, w, prior, hWords, last, .refl⟩
  | cons f after ih =>
      cases hRuns with
      | step prior hWords last =>
          obtain ⟨w₁, w₂, hBefore, hWithin, hStep, hAfter⟩ := ih prior
          exact ⟨w₁, w₂, hBefore, hWithin, hStep, .step hAfter hWords last⟩

end Telemetry.Shipping

import Telemetry.Agent.Installation

/-!
# How batches are delivered in an agent

A batch that reaches an exporter is put into its queue, or is sent at once if it has none. A batch
that reaches a processor which holds batches back is merged into what is held there.
-/

namespace Telemetry

namespace Sending

variable {ε χ : Type}

/-- Sends a batch to the end, in at most so many turns. Time goes on for this sending alone. -/
def toEnd (dest : Destination ε χ) : Nat → Nat → Sending χ → Exporters ε → Outcome × Exporters ε
  | 0, _, _, x => (.error .cancelled, x)
  | fuel + 1, now, s, x =>
    if s.canGo dest now x then
      match s.turn dest now x with
      | (.inl s, x) => toEnd dest fuel now s x
      | (.inr outcome, x) => (outcome, x)
    else
      match ((s.due dest).filter (now < ·)).min? with
      | some later => toEnd dest fuel later s x
      | none => (.error .cancelled, x)

end Sending

namespace Agent

open Queue (Depot Works)
open Scheduling (Rules)
open Storage (Vault)

/-- The most turns that are served before the clock moves. -/
def patience : Nat := 1000000

/-- Where an exporter finds storage, given the extensions that run. -/
def depot (host : Table ComponentId Component) (o : Outside) (exporter : Nat) : Depot Vault :=
  let space := match o.stations[exporter]? with
    | some s => Storage.clientNamespace .exporter s.id s.type.signal.text
    | none => ""
  ⟨Vault.client, fun id v =>
    match host.get? id with
    | none => (.error (.noStorageClient id none), v)
    | some (.memory store) => let (n, v) := v.openMemory store space; (.ok n, v)
    | some (.files s) =>
      let (opened, v) := v.openFiles s space
      (opened.mapError fun e => .noStorageClient id (some e), v)
    | some _ => (.error (.wrongExtensionType id), v)⟩

/-- How the batches of an exporter are turned into bytes and back. -/
def codec (o : Outside) (exporter : Nat) : Queue.Codec Request :=
  .ofType (o.stations[exporter]?.elim .logs Station.type)

/-- How exporters send the batches of their queues. -/
def sendRules : Queue.SendRules Request (Exporters Outside) (Sending Posting) :=
  Sending.rules destination

/-- The stations of the exporters. -/
def Installation.outside (x : Installation) : Outside := x.exporting.state.outside.outside

/-- The rules of the tasks of exporters. -/
def taskRules (o : Outside) :
    Rules (Works Request Vault (Exporters Outside)) (Queue.Task (Sending Posting)) :=
  Works.rules sendRules (depot [] o) (codec o)

/-- Lets every exporter go on until all wait. -/
def Installation.settle (x : Installation) : Installation :=
  let rules := taskRules x.outside
  { x with exporting := (x.exporting.wake rules).settle rules patience }

/-- Delivers a batch to an exporter. -/
def Installation.sendTo (exporter : Nat) (r : Request) (x : Installation) :
    Outcome × Installation :=
  let w := x.exporting.state
  if (w.line exporter).queue.isNone then
    let (token, tokens) := w.outside.tokens.root
    let e := { w.outside with tokens := tokens }
    let (outcome, e) := Sending.toEnd destination patience x.now (.fresh exporter token r) e
    (outcome, x.updateWorks fun w => { w with outside := e })
  else
    let (outcome, w) := w.offer sendRules (depot [] x.outside) (codec x.outside) exporter r
    (outcome.mapError .ofQueue, x.updateWorks fun _ => w)

/-- Delivers a batch to an end of the pipelines. -/
def Installation.deliver (place : Nat) (b : Handle) (h : Heap) (x : Installation) :
    Outcome × Heap × Installation :=
  match x.ports[place]? with
  | none => (.ok (), h.release b, x)
  | some (.sink s) =>
    let (outcome, h, s) := s.deliver b h
    (outcome, h, { x with ports := x.ports.set place (.sink s) })
  | some (.exporter n) =>
    let (r, h) := h.take b
    let (outcome, x) := x.sendTo n r
    (outcome, h, x)

/-- Holds a batch back. -/
def Installation.hold (number : Nat) (b : Handle) (h : Heap) (x : Installation) :
    Option Handle × Heap × Installation :=
  match x.gatherers[number]? with
  | none => (some b, h, x)
  | some g =>
    let (full, held, h) := g.held.offer g.settings b h
    (full, h, { x with gatherers := x.gatherers.set number { g with held := held } })

/-- The time, in nanoseconds. -/
def Installation.clock (x : Installation) : UInt64 := UInt64.ofNat (x.now * 1000000)

/-- The places of an agent. -/
def outlets : Outlets Installation :=
  ⟨Installation.deliver, Installation.hold, Installation.clock⟩

/-- Consumes a batch. -/
def State.consume (c : Consumer) (b : Handle) (s : State) : Outcome × State :=
  let (outcome, h, x) := c.consume outlets b s.heap s.installed
  (outcome, ⟨h, x⟩)

/-- Consumes a batch that nobody holds yet. -/
def State.receive (c : Consumer) (r : Request) (s : State) : Outcome × State :=
  let (b, h) := s.heap.new r
  { s with heap := h }.consume c b

/-- Passes on what a processor holds back; nobody learns how that ended. -/
def State.flush (number : Nat) (s : State) : State :=
  match s.installed.gatherers[number]? with
  | none => s
  | some g =>
    match g.held.batch with
    | none => s
    | some b =>
      let gatherers := s.installed.gatherers.set number { g with held := .empty }
      let s := { s with installed := { s.installed with gatherers := gatherers } }
      (s.consume g.next b).2

end Agent

end Telemetry

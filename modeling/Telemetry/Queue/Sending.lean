import Telemetry.Exporter.Policy
import Telemetry.Queue.Persistent

/-!
# Sending queues

The queue in front of an exporter is one in memory or a persistent one. Both are offered batches,
are started, hand batches to workers, are told how the sending of each batch ended, and are shut down
in two parts, between which the workers leave.
-/

namespace Telemetry.Queue

open Storage (Access Client)

/-- Where persistent queues get their clients from. -/
structure Depot (σ : Type) where
  /-- The client with a number. -/
  client : Nat → Client σ
  /-- Opens a client of a storage extension. -/
  openClient : ComponentId → σ → Except QueueError Nat × σ

/-- Runs a program against a client, if there is one. -/
def Depot.run {σ α : Type} (d : Depot σ) (client : Option Nat) (p : Access α) : σ → α × σ :=
  p.run (client.elim .absent d.client)

/-- Runs a program with its checks against a client, if there is one. -/
def Depot.attempt {σ α : Type} (d : Depot σ) (client : Option Nat) (p : Access α) :
    σ → Option α × σ :=
  p.attempt (client.elim .absent d.client)

/-- A sending queue. -/
inductive SendingQueue (β : Type)
  | memory (queue : MemoryQueue β)
  /-- A persistent queue and the storage extension it uses. -/
  | persistent (storage : ComponentId) (queue : PersistentQueue)

namespace SendingQueue

variable {β σ : Type}

/-- The queue that settings ask for, if they do. -/
def ofSettings? (s : QueueSettings) : Option (SendingQueue β) :=
  if !s.enabled then none
  else
    match s.storage with
    | some storage => some (persistent storage (.empty s.size))
    | none => some (memory (.empty s.size))

/-- The number of batches in the queue. -/
def size : SendingQueue β → Nat
  | memory q => q.size
  | persistent _ q => q.size

/-- The number of batches at which offers are refused. -/
def capacity : SendingQueue β → Nat
  | memory q => q.capacity
  | persistent _ q => q.capacity

/-- Whether batches survive the process. -/
def isPersistent : SendingQueue β → Bool
  | memory _ => false
  | persistent .. => true

/-- Offers a batch. -/
def offer (d : Depot σ) (codec : Codec β) (b : β) (s : σ) :
    SendingQueue β → Except QueueError Unit × SendingQueue β × σ
  | memory q =>
    let (accepted, q) := q.offer b
    (if accepted then .ok () else .error .queueFull, memory q, s)
  | persistent storage q =>
    match d.run q.client (q.offer (codec.marshal b)) s with
    | (.ok q, s) => (.ok (), persistent storage q, s)
    | (.error e, s) => (.error e, persistent storage q, s)

/-- Whether the check of an offer fails, so that its caller panics. -/
def offerPanics (d : Depot σ) (codec : Codec β) (b : β) (s : σ) : SendingQueue β → Bool
  | memory _ => false
  | persistent _ q => (d.attempt q.client (q.offer (codec.marshal b)) s).1.isNone

/-- Starts the queue; the second result says whether workers are to be started. -/
def start (d : Depot σ) (codec : Codec β) (s : σ) :
    SendingQueue β → Except QueueError Bool × SendingQueue β × σ
  | memory q => (.ok (!q.started), memory { q with started := true }, s)
  | persistent storage q =>
    match d.openClient storage s with
    | (.error e, s) => (.error e, persistent storage q, s)
    | (.ok client, s) =>
      match d.run (some client) (q.start codec client) s with
      | ((.ok (), q), s) => (.ok true, persistent storage q, s)
      | ((.error e, q), s) => (.error e, persistent storage q, s)

/-- Whether a check of a start fails, so that its caller panics. -/
def startPanics (d : Depot σ) (codec : Codec β) (s : σ) : SendingQueue β → Bool
  | memory _ => false
  | persistent storage q =>
    match d.openClient storage s with
    | (.error _, _) => false
    | (.ok client, s) => (d.attempt (some client) (q.start codec client) s).1.isNone

/-- What a worker does that is free: it leaves, waits, or is to look for a batch. -/
inductive Call
  | leave
  | wait
  | look
deriving DecidableEq, Repr

/-- Calls a worker that is free. A persistent queue uses up a permit for it. -/
def call : SendingQueue β → Call × SendingQueue β
  | memory q => (if q.channel.isEmpty then (if q.connected then .wait else .leave) else .look, memory q)
  | persistent storage q =>
    if q.closed then (.leave, persistent storage q)
    else
      match q.takePermit with
      | none => (.wait, persistent storage q)
      | some q => (.look, persistent storage q)

/-- What a worker finds that was called. A worker whose check fails panics, and is gone. -/
def take (d : Depot σ) (codec : Codec β) (s : σ) :
    SendingQueue β → Found β × SendingQueue β × σ
  | memory q =>
    let (found, q) := q.take
    (found, memory q, s)
  | persistent storage q =>
    match d.attempt q.client (q.claim codec) s with
    | (some (found, q), s) => (found, persistent storage q, s)
    | (none, s) => (.over, persistent storage q, s)

/-- Whether a worker that is free need not wait. -/
def isReady (q : SendingQueue β) : Bool := q.call.1 != .wait

/-- Ends the sending of a batch. -/
def finish (d : Depot σ) (index : Option UInt64) (outcome : Outcome) (s : σ) :
    SendingQueue β → SendingQueue β × σ
  | memory q => (memory q.freeSlot, s)
  | persistent storage q =>
    match index with
    | none => (persistent storage q, s)
    | some index =>
      let (q, s) := d.run q.client (q.acknowledge index outcome) s
      (persistent storage q, s)

/-- Begins a shutdown; the first result says whether its second part is to follow once the workers
have left. -/
def beginShutdown : SendingQueue β → Bool × SendingQueue β
  | memory q => (true, memory q.hangUp)
  | persistent storage q => (!q.retired, persistent storage q.retire.stop.dismiss)

/-- Ends a shutdown; the first result is what nobody sent. -/
def endShutdown (d : Depot σ) (s : σ) : SendingQueue β → List β × SendingQueue β × σ
  | memory q =>
    let (rest, q) := q.drain
    (rest, memory q, s)
  | persistent storage q =>
    let (q, s) := d.run q.client q.detach s
    ([], persistent storage q, s)

end SendingQueue

end Telemetry.Queue

/-!
# Queues in memory

A queue in memory is a bounded channel with a counter in front of it. An offer first claims a slot
of the counter, then puts its batch into the channel. A worker takes the oldest batch and frees the
slot when it is done with it, so the counter also counts the batches being sent. A shutdown hangs
the channel up, lets the workers empty it, and takes out what nobody will send.

Each function is one step that no other party can see half of.
-/

namespace Telemetry.Queue

/-- What a worker finds when it asks a queue for a batch. -/
inductive Found (β : Type)
  /-- Nothing yet. -/
  | nothing
  /-- Nothing, and nothing will come. -/
  | over
  /-- A batch, with the index it is stored under if it is stored. -/
  | item (index : Option UInt64) (batch : β)

/-- A queue in memory. -/
structure MemoryQueue (β : Type) where
  /-- The number of slots. -/
  capacity : Nat
  /-- The number of slots in use. -/
  size : Nat
  /-- Whether offers are refused from the start. -/
  stopped : Bool
  /-- Whether workers were started. -/
  started : Bool
  /-- Whether the channel takes batches. -/
  connected : Bool
  /-- The batches in the channel, oldest first. -/
  channel : List β

namespace MemoryQueue

variable {β : Type}

/-- A queue with so many slots. -/
def empty (capacity : Nat) : MemoryQueue β := ⟨capacity, 0, false, false, true, []⟩

/-- Claims a slot, if one is free. -/
def claimSlot (q : MemoryQueue β) : Option (MemoryQueue β) :=
  if q.size < q.capacity then some { q with size := q.size + 1 } else none

/-- Frees a slot. -/
def freeSlot (q : MemoryQueue β) : MemoryQueue β := { q with size := q.size - 1 }

/-- Puts a batch into the channel, if it is connected and has room. -/
def enqueue (q : MemoryQueue β) (b : β) : Option (MemoryQueue β) :=
  if q.connected && q.channel.length < q.capacity then
    some { q with channel := q.channel ++ [b] }
  else none

/-- Offers a batch; the first result says whether it was accepted. -/
def offer (q : MemoryQueue β) (b : β) : Bool × MemoryQueue β :=
  if q.stopped then (false, q)
  else
    match q.claimSlot with
    | none => (false, q)
    | some claimed =>
      match claimed.enqueue b with
      | none => (false, claimed.freeSlot)
      | some accepted => (true, accepted)

/-- Takes the oldest batch out of the channel. -/
def take (q : MemoryQueue β) : Found β × MemoryQueue β :=
  match q.channel with
  | b :: rest => (.item none b, { q with channel := rest })
  | [] => (if q.connected then .nothing else .over, q)

/-- Refuses every further offer and hangs the channel up. -/
def hangUp (q : MemoryQueue β) : MemoryQueue β := { q with stopped := true, connected := false }

/-- Takes out what is left in the channel. -/
def drain (q : MemoryQueue β) : List β × MemoryQueue β :=
  (q.channel, { q with channel := [], size := q.size - q.channel.length })

end MemoryQueue

end Telemetry.Queue

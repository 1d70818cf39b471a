import Telemetry.Batch.Request
import Telemetry.Queue.Index
import Telemetry.Queue.Memory
import Telemetry.Storage.Client

/-!
# Persistent queues

A persistent queue keeps its batches in the namespace of a storage client: each under its index,
with the indices of the next batch to read and of the next slot to write, and the list of the
batches that workers hold. Batches are handed out in the order of their indices. A batch is removed
once its sending is over; what is still listed when a queue starts was being sent when the last one
stopped, and is appended again.

What needs the queue's lock is a program of storage accesses whose result is the new state. The
indices are words of 64 bits. Where one is added to them, or one is subtracted from the other, the
program checks that the result is a word again; without the check it would wrap around.
-/

namespace Telemetry.Queue

open Storage (Access Operation)
open Text (Bytes)

/-- How batches are turned into bytes and back. -/
structure Codec (β : Type) where
  /-- The bytes of a batch. -/
  marshal : β → Bytes
  /-- The batch of some bytes, if they are those of a batch. -/
  unmarshal? : Bytes → Option β

/-- Batches of a type are kept in their protobuf encoding. -/
def Codec.ofType (type : BatchType) : Codec Request := ⟨Request.marshal, Request.unmarshal? type⟩

/-- A persistent queue. -/
structure PersistentQueue where
  /-- The number of batches at which offers are refused. -/
  capacity : Nat
  /-- The client it works with, by number. -/
  client : Option Nat
  /-- One for the running queue and one for every batch being sent. -/
  references : Nat
  /-- The index of the next batch to hand out. -/
  readIndex : UInt64
  /-- The index of the next batch to come. -/
  writeIndex : UInt64
  /-- The indices of the batches being sent. -/
  dispatched : List UInt64
  /-- Whether it is shut down, as seen under the lock. -/
  stopped : Bool
  /-- The number of batches waiting, as reported. -/
  size : Nat
  /-- The number of batches for which no worker was woken yet. -/
  permits : Nat
  /-- Whether workers are told to leave. -/
  closed : Bool
  /-- Whether a shutdown has begun, as seen without the lock. -/
  retired : Bool
deriving DecidableEq, Repr

namespace PersistentQueue

/-- A queue that was never started. -/
def empty (capacity : Nat) : PersistentQueue :=
  ⟨capacity, none, 0, 0, 0, [], false, 0, 0, false, false⟩

/-- The number of batches between the indices. -/
def backlog (q : PersistentQueue) : Nat := (q.writeIndex - q.readIndex).toNat

/-- The read index is not past the write index, so that their difference does not wrap around. -/
def IsOrdered (q : PersistentQueue) : Prop := q.readIndex ≤ q.writeIndex

instance (q : PersistentQueue) : Decidable q.IsOrdered :=
  inferInstanceAs (Decidable (q.readIndex ≤ q.writeIndex))

/-- Whether an index is followed by another one. -/
def hasNext (i : UInt64) : Bool := i.toNat + 1 < UInt64.size

/-- The most permits that can be waiting for workers. -/
def maxPermits : Nat := (UInt64.size - 1) / 8

/-- Stores the bytes of a batch under the next index. -/
def put (q : PersistentQueue) (value : Bytes) : Access (Except StorageError PersistentQueue) := do
  Access.require (hasNext q.writeIndex)
  let next := q.writeIndex + 1
  let answer ← Access.perform
    [.set writeKey (encodeIndex next), .set (itemKey q.writeIndex) value]
  return answer.map fun _ => { q with writeIndex := next, size := q.size + 1 }

/-- What speaks against an offer, as seen under the lock. -/
def refusal? (q : PersistentQueue) : Option QueueError :=
  if q.client.isNone then some .notStarted
  else if q.stopped || q.capacity ≤ q.backlog then some .queueFull
  else none

/-- Whether an offer can subtract the indices. It does not if the queue has no client or is shut
down. -/
def subtracts (q : PersistentQueue) : Bool := q.client.isNone || q.stopped || q.IsOrdered

/-- Offers the bytes of a batch to a queue that is not retired. -/
def offerLocked (q : PersistentQueue) (value : Bytes) :
    Access (Except QueueError PersistentQueue) := do
  Access.require q.subtracts
  match q.refusal? with
  | some e => return .error e
  | none => return (← q.put value).mapError .storage

/-- Adds a permit for a worker. -/
def addPermit (q : PersistentQueue) : PersistentQueue := { q with permits := q.permits + 1 }

/-- Wakes a worker. -/
def wake (q : PersistentQueue) : Access PersistentQueue := do
  Access.require (q.permits + 1 ≤ maxPermits)
  return q.addPermit

/-- The rest of an offer that has seen that the queue is not retired. -/
def offerEntered (q : PersistentQueue) (value : Bytes) :
    Access (Except QueueError PersistentQueue) := do
  match ← q.offerLocked value with
  | .error e => return .error e
  | .ok q => return .ok (← q.wake)

/-- Offers the bytes of a batch. -/
def offer (q : PersistentQueue) (value : Bytes) : Access (Except QueueError PersistentQueue) :=
  if q.retired then return .error .queueFull
  else q.offerEntered value

/-- Reads a stored index; one that is missing is zero. -/
def storedIndex (value : Option Bytes) : Except QueueError UInt64 :=
  value.elim (.ok 0) decodeIndex

/-- Takes over the stored indices, as far as they can be read. -/
def takeOver (q : PersistentQueue) (read write : Option Bytes) :
    Except QueueError Unit × PersistentQueue :=
  match storedIndex read with
  | .error e => (.error e, q)
  | .ok r =>
    let q := { q with readIndex := r }
    match storedIndex write with
    | .error e => (.error e, q)
    | .ok w =>
      let q := { q with writeIndex := w }
      if w < r then (.error (.invalidIndex "read index is past write index"), q)
      else (.ok (), { q with size := q.backlog })

/-- Reads the stored indices. -/
def load (q : PersistentQueue) : Access (Except QueueError Unit × PersistentQueue) := do
  match ← Access.perform [.get readKey, .get writeKey] with
  | .error e => return (.error (.storage e), q)
  | .ok reads => return q.takeOver (reads.getD 0 none) (reads.getD 1 none)

/-- Appends the values that are batches, in order; one that cannot be stored is left out. -/
def putAll {β : Type} (codec : Codec β) (q : PersistentQueue) :
    List (Option Bytes) → Access PersistentQueue
  | [] => return q
  | value :: rest => do
    match value.bind codec.unmarshal? with
    | none => putAll codec q rest
    | some b =>
      let answer ← q.put (codec.marshal b)
      putAll codec (answer.toOption.getD q) rest

/-- Appends the batches that were being sent when the last queue stopped. The list of them is emptied
first, and their old places are freed last. -/
def recover {β : Type} (codec : Codec β) (q : PersistentQueue) :
    Access (Except QueueError Unit × PersistentQueue) := do
  match ← Access.get dispatchedKey with
  | .error e => return (.error (.storage e), q)
  | .ok none => return (.ok (), q)
  | .ok (some bytes) =>
    match decodeIndices bytes with
    | .error e => return (.error e, q)
    | .ok [] => return (.ok (), q)
    | .ok indices =>
      let reads := indices.map fun i => Operation.get (itemKey i)
      match ← Access.perform (.set dispatchedKey (encodeIndices []) :: reads) with
      | .error e => return (.error (.storage e), q)
      | .ok values =>
        let q ← putAll codec q values
        let _ ← Access.perform (indices.map fun i => .delete (itemKey i))
        return (.ok (), q)

/-- Starts a queue with a client that was just opened. Whatever fails, the client stays. -/
def start {β : Type} (codec : Codec β) (client : Nat) (q : PersistentQueue) :
    Access (Except QueueError Unit × PersistentQueue) := do
  let q := { q with client := some client, references := 1 }
  match ← q.load with
  | (.error e, q) => return (.error e, q)
  | (.ok (), q) =>
    match ← q.recover codec with
    | (.error e, q) => return (.error e, q)
    | (.ok (), q) =>
      Access.require (q.IsOrdered && q.permits + q.backlog ≤ maxPermits)
      return (.ok (), { q with permits := q.permits + q.backlog })

/-- Strikes an index off the list of batches being sent and removes the batch. When that fails as
one batch, both halves are tried alone. -/
def remove (q : PersistentQueue) (index : UInt64) : Access PersistentQueue := do
  let q := { q with dispatched := q.dispatched.filter (· != index) }
  let list := encodeIndices q.dispatched
  match ← Access.perform [.set dispatchedKey list, .delete (itemKey index)] with
  | .ok _ => return q
  | .error _ =>
    let _ ← Access.delete (itemKey index)
    let _ ← Access.set dispatchedKey list
    return q

/-- Uses up the permit of a worker that was woken. -/
def takePermit (q : PersistentQueue) : Option PersistentQueue :=
  if 0 < q.permits then some { q with permits := q.permits - 1 } else none

/-- Hands out the next batch. The index is listed before its value is looked at; what cannot be
read is removed. -/
def claim {β : Type} (codec : Codec β) (q : PersistentQueue) :
    Access (Found β × PersistentQueue) := do
  if q.stopped || q.client.isNone then return (.over, q)
  else if q.readIndex = q.writeIndex then return (.nothing, q)
  else
    Access.require (hasNext q.readIndex)
    let index := q.readIndex
    let q := { q with
      readIndex := index + 1
      dispatched := q.dispatched ++ [index]
      size := q.size - 1 }
    let answer ← Access.perform
      [.set readKey (encodeIndex q.readIndex),
       .set dispatchedKey (encodeIndices q.dispatched), .get (itemKey index)]
    match (answer.toOption.bind fun reads => reads.head?.join).bind codec.unmarshal? with
    | some b => return (.item (some index) b, { q with references := q.references + 1 })
    | none => return (.nothing, ← q.remove index)

/-- Gives one reference up, and the client with the last. -/
def unref (q : PersistentQueue) : Access PersistentQueue := do
  let q := { q with references := q.references - 1 }
  if q.references = 0 && q.client.isSome then
    Access.hangUp
    return { q with client := none }
  else return q

/-- Ends the sending of a batch. One that was held up by a shutdown stays listed. -/
def acknowledge (q : PersistentQueue) (index : UInt64) (outcome : Outcome) :
    Access PersistentQueue := do
  let keep := match outcome with
    | .error e => e.isShutdown
    | .ok () => false
  let q ← if keep || q.client.isNone then pure q else q.remove index
  q.unref

/-- Refuses further offers without the lock: the first step of a shutdown. -/
def retire (q : PersistentQueue) : PersistentQueue := { q with retired := true }

/-- Refuses further offers and claims under the lock: the second step. -/
def stop (q : PersistentQueue) : PersistentQueue := { q with stopped := true }

/-- Tells the workers to leave: the third step. -/
def dismiss (q : PersistentQueue) : PersistentQueue := { q with closed := true }

/-- Ends a shutdown, once no worker is left. -/
def detach (q : PersistentQueue) : Access PersistentQueue :=
  if q.client.isSome then q.unref else return q

end PersistentQueue

end Telemetry.Queue

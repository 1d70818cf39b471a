import Telemetry.Proofs.Queue.Starts

/-!
# Runs of persistent queues

One persistent queue after the other runs on a storage. What a queue does under its lock is one step,
in any order, for any number of producers and workers: every step in which a program is run against the
client is that of the queue itself. A process may die between two steps, or on the way through a
program; during a start it does not.
-/

namespace Telemetry.Queue

open Storage (Access Client Space)
open Text (Bytes)

/-- What queues run on: a client, how batches become bytes, which batches are offered, and whether a
process may die between two operations of one batch. -/
structure Setup (β σ : Type) where
  client : Client σ
  codec : Codec β
  admits : β → Prop
  tears : Bool

/-- A storage, the queue that runs on it, and those who use the queue: offers that have stored their
batch and are about to wake a worker, workers that were woken, and the batches that workers hold. -/
structure World (β σ : Type) where
  storage : σ
  running : Option PersistentQueue
  owed : Nat
  called : Nat
  carried : List (UInt64 × β)

namespace World

variable {β σ : Type}

/-- No queue runs. -/
def idle (s : σ) : World β σ := ⟨s, none, 0, 0, []⟩

/-- A queue may start: none runs, or the last one has given its client up. -/
def IsFree (w : World β σ) : Prop := ∀ q, w.running = some q → q.client = none

/-- The next index and the number of indices in a list still fit into their words. -/
def FitsWords (w : World β σ) : Prop :=
  ∀ q, w.running = some q →
    q.writeIndex.toNat + q.dispatched.length + 1 < 2 ^ 64 ∧ q.dispatched.length + 1 < 2 ^ 32

end World

/-- What shows of a step. A process that dies on the way through a program has carried out so many
operations of it. -/
inductive Event (β : Type)
  | started (answer : Except QueueError Unit)
  | accepted (b : β)
  | refused (b : β) (e : QueueError)
  | claimed (i : UInt64) (b : β)
  | ended (i : UInt64) (b : β) (outcome : Outcome)
  | quiet
  | died
  | diedOffering (b : β) (count : Nat)
  | diedClaiming (found : Found β) (count : Nat)
  | diedEnding (i : UInt64) (b : β) (outcome : Outcome) (count : Nat)

namespace Event

variable {β : Type}

/-- The batches that a step stores. -/
def stored : Event β → Multiset β
  | accepted b => {b}
  | diedOffering b count => if 2 ≤ count then {b} else 0
  | _ => 0

/-- The batches that a step gives up because their sending is over and was not held up by a
shutdown. -/
def settled : Event β → Multiset β
  | ended _ b outcome => if outcome.isShutdown then 0 else {b}
  | diedEnding _ b outcome count => if outcome.isShutdown ∨ count = 0 then 0 else {b}
  | _ => 0

/-- Whether the process dies. -/
def isDeath : Event β → Bool
  | died | diedOffering .. | diedClaiming .. | diedEnding .. => true
  | _ => false

/-- The batches that a step leaves out: the process has moved the read index past one, and dies before
it is listed. -/
def lost : Event β → Multiset β
  | diedClaiming (.item _ b) 1 => {b}
  | _ => 0

end Event

variable {β σ : Type}

/-- Whether a process may die after so many operations of a program. -/
def Setup.CutsAt {α : Type} (setup : Setup β σ) (p : Access α) (s : σ) (count : Nat) : Prop :=
  setup.tears = true ∨ count ∈ p.seams setup.client s

/-- The steps of queues, of those who use them, and of a process that dies. -/
inductive Step (setup : Setup β σ) : World β σ → Event β → World β σ → Prop
  | start {w : World β σ} {q q' : PersistentQueue} {s : σ} {answer : Except QueueError Unit}
      (hNew : q.Unstarted) (hFree : w.IsFree) (number : Nat)
      (hRun : (q.start setup.codec number).run setup.client w.storage = ((answer, q'), s)) :
      Step setup w (.started answer) ⟨s, some q', 0, 0, []⟩
  | offer {w : World β σ} {q q' : PersistentQueue} {s : σ} {b : β}
      (hRunning : w.running = some q) (hAdmitted : setup.admits b)
      (hRun : (q.offerLocked (setup.codec.marshal b)).run setup.client w.storage = (.ok q', s)) :
      Step setup w (.accepted b) { w with storage := s, running := some q', owed := w.owed + 1 }
  | refuse {w : World β σ} {q : PersistentQueue} {s : σ} {b : β} {e : QueueError}
      (hRunning : w.running = some q)
      (hRun : (q.offerLocked (setup.codec.marshal b)).run setup.client w.storage = (.error e, s)) :
      Step setup w (.refused b e) { w with storage := s }
  | turnAway {w : World β σ} {q : PersistentQueue} {b : β} (hRunning : w.running = some q)
      (hRetired : q.retired = true) : Step setup w (.refused b .queueFull) w
  | wake {w : World β σ} {q : PersistentQueue} (hRunning : w.running = some q) (hOwed : 0 < w.owed) :
      Step setup w .quiet { w with running := some q.addPermit, owed := w.owed - 1 }
  | call {w : World β σ} {q q' : PersistentQueue} (hRunning : w.running = some q)
      (hOpen : q.closed = false) (hPermit : q.takePermit = some q') :
      Step setup w .quiet { w with running := some q', called := w.called + 1 }
  | claim {w : World β σ} {q q' : PersistentQueue} {s : σ} {i : UInt64} {b : β}
      (hRunning : w.running = some q) (hCalled : 0 < w.called)
      (hRun : (q.claim setup.codec).run setup.client w.storage = ((.item (some i) b, q'), s)) :
      Step setup w (.claimed i b)
        ⟨s, some q', w.owed, w.called - 1, w.carried ++ [(i, b)]⟩
  | miss {w : World β σ} {q q' : PersistentQueue} {s : σ} {found : Found β}
      (hRunning : w.running = some q) (hCalled : 0 < w.called)
      (hRun : (q.claim setup.codec).run setup.client w.storage = ((found, q'), s))
      (hNone : ∀ i b, found ≠ .item i b) :
      Step setup w .quiet { w with storage := s, running := some q', called := w.called - 1 }
  | finish {w : World β σ} {q q' : PersistentQueue} {s : σ} {before after : List (UInt64 × β)}
      {i : UInt64} {b : β} (hRunning : w.running = some q)
      (hCarried : w.carried = before ++ (i, b) :: after) (outcome : Outcome)
      (hRun : (q.acknowledge i outcome).run setup.client w.storage = (q', s)) :
      Step setup w (.ended i b outcome)
        { w with storage := s, running := some q', carried := before ++ after }
  | retire {w : World β σ} {q : PersistentQueue} (hRunning : w.running = some q) :
      Step setup w .quiet { w with running := some q.retire }
  | stop {w : World β σ} {q : PersistentQueue} (hRunning : w.running = some q)
      (hRetired : q.retired = true) : Step setup w .quiet { w with running := some q.stop }
  | dismiss {w : World β σ} {q : PersistentQueue} (hRunning : w.running = some q)
      (hStopped : q.stopped = true) : Step setup w .quiet { w with running := some q.dismiss }
  | detach {w : World β σ} {q q' : PersistentQueue} {s : σ} (hRunning : w.running = some q)
      (hClosed : q.closed = true) (hCalled : w.called = 0) (hCarried : w.carried = [])
      (hRun : q.detach.run setup.client w.storage = (q', s)) :
      Step setup w .quiet { w with storage := s, running := some q' }
  | die {w : World β σ} : Step setup w .died (.idle w.storage)
  | dieOffering {w : World β σ} {q : PersistentQueue} {b : β} (hRunning : w.running = some q)
      (hAdmitted : setup.admits b) (hRoom : q.refusal? = none) {count : Nat}
      (hCut : setup.CutsAt (q.offerLocked (setup.codec.marshal b)) w.storage count) :
      Step setup w (.diedOffering b count)
        (.idle ((q.offerLocked (setup.codec.marshal b)).cut setup.client count w.storage))
  | dieClaiming {w : World β σ} {q : PersistentQueue} (hRunning : w.running = some q) {count : Nat}
      (hCut : setup.CutsAt (q.claim setup.codec) w.storage count) :
      Step setup w (.diedClaiming ((q.claim setup.codec).run setup.client w.storage).1.1 count)
        (.idle ((q.claim setup.codec).cut setup.client count w.storage))
  | dieEnding {w : World β σ} {q : PersistentQueue} {i : UInt64} {b : β}
      (hRunning : w.running = some q) (hMem : (i, b) ∈ w.carried) (outcome : Outcome) {count : Nat}
      (hCut : setup.CutsAt (q.acknowledge i outcome) w.storage count) :
      Step setup w (.diedEnding i b outcome count)
        (.idle ((q.acknowledge i outcome).cut setup.client count w.storage))

/-- The runs from a world, with what showed of their steps, the last step first. Each step is taken
from a world that satisfies a condition. -/
inductive Runs (setup : Setup β σ) (within : World β σ → Prop) (origin : World β σ) :
    List (Event β) → World β σ → Prop
  | refl : Runs setup within origin [] origin
  | step {trace : List (Event β)} {w w' : World β σ} {e : Event β}
      (prior : Runs setup within origin trace w) (hWithin : within w) (last : Step setup w e w') :
      Runs setup within origin (e :: trace) w'

/-- The batches that were stored in a run. -/
def stored (trace : List (Event β)) : Multiset β := (trace.map Event.stored).sum

/-- The batches that were given up in a run because their sending was over. -/
def settled (trace : List (Event β)) : Multiset β := (trace.map Event.settled).sum

/-- The batches that were left out in a run. -/
def lost (trace : List (Event β)) : Multiset β := (trace.map Event.lost).sum

@[simp] theorem stored_cons (e : Event β) (trace : List (Event β)) :
    stored (e :: trace) = e.stored + stored trace := by
  rw [stored, List.map_cons, List.sum_cons]
  rfl

@[simp] theorem settled_cons (e : Event β) (trace : List (Event β)) :
    settled (e :: trace) = e.settled + settled trace := by
  rw [settled, List.map_cons, List.sum_cons]
  rfl

@[simp] theorem lost_cons (e : Event β) (trace : List (Event β)) :
    lost (e :: trace) = e.lost + lost trace := by
  rw [lost, List.map_cons, List.sum_cons]
  rfl

/-- The batches whose sending a shutdown held up since the last start, with their indices. -/
def interrupted : List (Event β) → List (UInt64 × β)
  | [] => []
  | .started _ :: _ => []
  | .ended i b outcome :: trace =>
    if outcome.isShutdown then (i, b) :: interrupted trace else interrupted trace
  | _ :: trace => interrupted trace

end Telemetry.Queue

import Telemetry.Failure.Consume
import Telemetry.Queue.Memory

/-!
# The traffic of a queue in memory

Threads share a queue in memory: any number of offers, the workers, and one shutdown. Each of them goes
through the queue in steps, between which the others go on: an offer reads the flag, claims a slot,
uses it or gives it back, and a shutdown sets the flag, hangs the channel up, waits for the workers and
empties what they left. The steps are those of the queue; what a party does by itself and without a
break is what the queue's own functions say.
-/

namespace Telemetry.Queue

/-- How far an offer has come. -/
inductive OfferStage
  /-- It has not looked at the queue yet. -/
  | begun
  /-- It has seen that the queue is not stopped. -/
  | admitted
  /-- It has claimed a slot. -/
  | holding
  /-- The channel did not take its batch, and it still has its slot. -/
  | failed
  /-- It has no slot and is about to drop its batch. -/
  | refusing
  /-- Its batch is in the channel. -/
  | accepted
  /-- Its batch was dropped. -/
  | refused
deriving DecidableEq, Repr

/-- Whether an offer has a slot that it has neither used nor given back. -/
def OfferStage.hasSlot : OfferStage → Bool
  | holding | failed => true
  | _ => false

/-- Whether an offer is one that has not got past the flag. -/
def OfferStage.isTurnedAway : OfferStage → Bool
  | begun | refusing | refused => true
  | _ => false

/-- A batch with the number of its offer. -/
abbrev Ticket (β : Type) := Nat × β

/-- What a worker is doing. -/
inductive WorkerStage (β : Type)
  | free
  /-- It has taken a batch out of the channel. -/
  | received (c : Ticket β)
  | sending (c : Ticket β)
  /-- It has sent a batch and is about to free its slot. -/
  | sent (c : Ticket β)
  | left

namespace WorkerStage

variable {β : Type}

/-- Whether a worker has a batch whose slot it has not freed. -/
def isBusy : WorkerStage β → Bool
  | free | left => false
  | received _ | sending _ | sent _ => true

/-- The batch that a worker has taken and not begun to send. -/
def unsent : WorkerStage β → List (Ticket β)
  | received c => [c]
  | _ => []

end WorkerStage

/-- How far the shutdown has come. -/
inductive Closing (β : Type)
  /-- It has not begun. -/
  | none
  /-- Offers are refused from the start. -/
  | stopped
  /-- The channel is hung up, and the workers are waited for. -/
  | hungUp
  /-- What the workers left was taken out of the channel. -/
  | draining (rest : List (Ticket β))
  /-- The slot of a batch was freed, and the batch is about to be dropped. -/
  | discarding (c : Ticket β) (rest : List (Ticket β))
  | over

namespace Closing

variable {β : Type}

/-- The batches that the shutdown has taken out of the channel and not dropped. -/
def undropped : Closing β → List (Ticket β)
  | draining rest => rest
  | discarding c rest => c :: rest
  | _ => []

/-- The number of these batches whose slots it has not freed. -/
def slots : Closing β → Nat
  | draining rest | discarding _ rest => rest.length
  | _ => 0

/-- Whether the queue has been stopped. -/
def isStopped : Closing β → Bool
  | none => false
  | _ => true

/-- Whether the channel has been hung up. -/
def isHungUp : Closing β → Bool
  | none | stopped => false
  | _ => true

/-- Whether the channel has been emptied. -/
def isDrained : Closing β → Bool
  | none | stopped | hungUp => false
  | _ => true

theorem isHungUp_of_isDrained {x : Closing β} (hDrained : x.isDrained = true) : x.isHungUp = true := by
  cases x <;> first | rfl | cases hDrained

end Closing

/-- A queue in memory with those who share it. The number of an offer is its place among the offers. -/
structure Traffic (β : Type) where
  queue : MemoryQueue (Ticket β)
  offers : List (OfferStage × β)
  workers : List (WorkerStage β)
  closing : Closing β

/-- What shows of a step. -/
inductive Passage (β : Type)
  /-- An offer succeeds. -/
  | accepted (c : Ticket β)
  /-- An offer fails, and its batch is dropped. -/
  | refused (c : Ticket β)
  /-- Batches leave the channel. -/
  | left (cs : List (Ticket β))
  /-- The sending of a batch begins. -/
  | sent (c : Ticket β)
  /-- The shutdown drops a batch. -/
  | discarded (c : Ticket β)
  | quiet

namespace Traffic

variable {β : Type}

/-- A new queue. -/
def empty (capacity : Nat) : Traffic β := ⟨.empty capacity, [], [], .none⟩

/-- The steps of those who share a queue. -/
inductive Step : Traffic β → Passage β → Traffic β → Prop
  | start {w : Traffic β} (count : Nat) (hOpen : w.closing = .none) (hNew : w.queue.started = false) :
      Step w .quiet { w with
        queue := { w.queue with started := true }
        workers := w.workers ++ List.replicate count .free }
  | begin {w : Traffic β} (b : β) : Step w .quiet { w with offers := w.offers ++ [(.begun, b)] }
  | enter {w : Traffic β} {before after : List (OfferStage × β)} {b : β}
      (hOffers : w.offers = before ++ (.begun, b) :: after) (hRunning : w.queue.stopped = false) :
      Step w .quiet { w with offers := before ++ (.admitted, b) :: after }
  | turnAway {w : Traffic β} {before after : List (OfferStage × β)} {b : β}
      (hOffers : w.offers = before ++ (.begun, b) :: after) (hStopped : w.queue.stopped = true) :
      Step w .quiet { w with offers := before ++ (.refusing, b) :: after }
  | claim {w : Traffic β} {q : MemoryQueue (Ticket β)} {before after : List (OfferStage × β)} {b : β}
      (hOffers : w.offers = before ++ (.admitted, b) :: after) (hSlot : w.queue.claimSlot = some q) :
      Step w .quiet { w with queue := q, offers := before ++ (.holding, b) :: after }
  | overflow {w : Traffic β} {before after : List (OfferStage × β)} {b : β}
      (hOffers : w.offers = before ++ (.admitted, b) :: after) (hFull : w.queue.claimSlot = none) :
      Step w .quiet { w with offers := before ++ (.refusing, b) :: after }
  | enqueue {w : Traffic β} {q : MemoryQueue (Ticket β)} {before after : List (OfferStage × β)} {b : β}
      (hOffers : w.offers = before ++ (.holding, b) :: after)
      (hTaken : w.queue.enqueue (before.length, b) = some q) :
      Step w (.accepted (before.length, b))
        { w with queue := q, offers := before ++ (.accepted, b) :: after }
  | fail {w : Traffic β} {before after : List (OfferStage × β)} {b : β}
      (hOffers : w.offers = before ++ (.holding, b) :: after)
      (hNotTaken : w.queue.enqueue (before.length, b) = none) :
      Step w .quiet { w with offers := before ++ (.failed, b) :: after }
  | giveBack {w : Traffic β} {before after : List (OfferStage × β)} {b : β}
      (hOffers : w.offers = before ++ (.failed, b) :: after) :
      Step w .quiet
        { w with queue := w.queue.freeSlot, offers := before ++ (.refusing, b) :: after }
  | refuse {w : Traffic β} {before after : List (OfferStage × β)} {b : β}
      (hOffers : w.offers = before ++ (.refusing, b) :: after) :
      Step w (.refused (before.length, b)) { w with offers := before ++ (.refused, b) :: after }
  | receive {w : Traffic β} {q : MemoryQueue (Ticket β)} {before after : List (WorkerStage β)}
      {c : Ticket β} (hWorkers : w.workers = before ++ .free :: after)
      (hFound : w.queue.take = (.item none c, q)) :
      Step w (.left [c]) { w with queue := q, workers := before ++ .received c :: after }
  | leave {w : Traffic β} {q : MemoryQueue (Ticket β)} {before after : List (WorkerStage β)}
      (hWorkers : w.workers = before ++ .free :: after) (hFound : w.queue.take = (.over, q)) :
      Step w .quiet { w with queue := q, workers := before ++ .left :: after }
  | send {w : Traffic β} {before after : List (WorkerStage β)} {c : Ticket β}
      (hWorkers : w.workers = before ++ .received c :: after) :
      Step w (.sent c) { w with workers := before ++ .sending c :: after }
  | finish {w : Traffic β} {before after : List (WorkerStage β)} {c : Ticket β}
      (hWorkers : w.workers = before ++ .sending c :: after) (outcome : Outcome) :
      Step w .quiet { w with workers := before ++ .sent c :: after }
  | free {w : Traffic β} {before after : List (WorkerStage β)} {c : Ticket β}
      (hWorkers : w.workers = before ++ .sent c :: after) :
      Step w .quiet { w with queue := w.queue.freeSlot, workers := before ++ .free :: after }
  | stop {w : Traffic β} (hOpen : w.closing = .none) :
      Step w .quiet { w with queue := { w.queue with stopped := true }, closing := .stopped }
  | hangUp {w : Traffic β} (hStopped : w.closing = .stopped) :
      Step w .quiet { w with queue := { w.queue with connected := false }, closing := .hungUp }
  | drain {w : Traffic β} (hHungUp : w.closing = .hungUp) (hLeft : ∀ x ∈ w.workers, x = .left) :
      Step w (.left w.queue.channel)
        { w with queue := { w.queue with channel := [] }, closing := .draining w.queue.channel }
  | vacate {w : Traffic β} {c : Ticket β} {rest : List (Ticket β)}
      (hDraining : w.closing = .draining (c :: rest)) :
      Step w .quiet { w with queue := w.queue.freeSlot, closing := .discarding c rest }
  | discard {w : Traffic β} {c : Ticket β} {rest : List (Ticket β)}
      (hDiscarding : w.closing = .discarding c rest) :
      Step w (.discarded c) { w with closing := .draining rest }
  | conclude {w : Traffic β} (hDrained : w.closing = .draining []) :
      Step w .quiet { w with closing := .over }

/-- The runs from a state, with what showed of their steps, the last step first. -/
inductive Runs (origin : Traffic β) : List (Passage β) → Traffic β → Prop
  | refl : Runs origin [] origin
  | step {trace : List (Passage β)} {w w' : Traffic β} {e : Passage β}
      (prior : Runs origin trace w) (last : Step w e w') : Runs origin (e :: trace) w'

theorem Runs.trans {w₀ w₁ w₂ : Traffic β} {first second : List (Passage β)}
    (left : Runs w₀ first w₁) (right : Runs w₁ second w₂) : Runs w₀ (second ++ first) w₂ := by
  induction right with
  | refl => exact left
  | step prior last ih => exact ih.step last

/-! ## Without a break -/

variable {w : Traffic β} {before after : List (OfferStage × β)} {b : β}

theorem Runs.single {w' : Traffic β} {e : Passage β} (h : Step w e w') : Runs w [e] w' := .step .refl h

/-- An offer that nobody disturbs ends as an offer to the queue does. -/
theorem runs_offer (hOffers : w.offers = before ++ (.begun, b) :: after) :
    ∃ trace, Runs w trace { w with
      queue := (w.queue.offer (before.length, b)).2
      offers := before ++
        (if (w.queue.offer (before.length, b)).1 then .accepted else .refused, b) :: after } := by
  rw [MemoryQueue.offer]
  cases hStopped : w.queue.stopped with
  | true => exact ⟨_, .step (.single (.turnAway hOffers hStopped)) (.refuse rfl)⟩
  | false =>
      have hAdmitted := Runs.single (.enter hOffers hStopped)
      cases hSlot : w.queue.claimSlot with
      | none => exact ⟨_, .step (.step hAdmitted (.overflow rfl hSlot)) (.refuse rfl)⟩
      | some claimed =>
          have hHolding := hAdmitted.step (.claim rfl hSlot)
          cases hTaken : claimed.enqueue (before.length, b) with
          | some accepted =>
              simp only [hTaken]
              exact ⟨_, hHolding.step (.enqueue rfl hTaken)⟩
          | none =>
              simp only [hTaken]
              exact ⟨_, ((hHolding.step (.fail rfl hTaken)).step (.giveBack rfl)).step (.refuse rfl)⟩

/-- The first half of a shutdown. -/
theorem runs_hangUp (hOpen : w.closing = .none) :
    Runs w [.quiet, .quiet] { w with queue := w.queue.hangUp, closing := .hungUp } :=
  .step (.single (.stop hOpen)) (.hangUp rfl)

theorem runs_discardAll {rest : List (Ticket β)} (hDraining : w.closing = .draining rest) :
    ∃ trace, Runs w trace { w with
      queue := { w.queue with size := w.queue.size - rest.length }
      closing := .draining [] } := by
  induction rest generalizing w with
  | nil =>
      refine ⟨[], ?_⟩
      rw [List.length_nil, Nat.sub_zero, ← hDraining]
      exact .refl
  | cons c rest ih =>
      obtain ⟨trace, hRest⟩ := ih (w := { w with queue := w.queue.freeSlot, closing := .draining rest })
        rfl
      have hFirst := (Runs.single (.vacate hDraining)).step (.discard rfl)
      have hSize : w.queue.freeSlot.size - rest.length = w.queue.size - (c :: rest).length := by
        rw [List.length_cons, Nat.add_comm, Nat.sub_add_eq]
        rfl
      rw [← hSize]
      exact ⟨_, hFirst.trans hRest⟩

/-- The second half of a shutdown, once the workers have left. -/
theorem runs_drain (hHungUp : w.closing = .hungUp) (hLeft : ∀ x ∈ w.workers, x = .left) :
    ∃ trace, Runs w trace { w with queue := w.queue.drain.2, closing := .over } := by
  obtain ⟨trace, hRest⟩ := runs_discardAll
    (w := { w with queue := { w.queue with channel := [] }, closing := .draining w.queue.channel }) rfl
  exact ⟨_, ((Runs.single (.drain hHungUp hLeft)).trans hRest).step (.conclude rfl)⟩

end Traffic

end Telemetry.Queue

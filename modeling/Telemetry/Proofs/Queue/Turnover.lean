import Telemetry.Proofs.Queue.Traffic

/-!
# Every batch is sent or dropped once

However offers, workers and the shutdown of a queue in memory take turns, its counter has a slot for
each batch in the channel, for each batch in the hands of a worker or of the shutdown, and for each
offer that is about to use its slot. So there is always room in the channel for an offer that has a
slot, and whatever is accepted leaves the channel in order and is sent or dropped, once.
-/

namespace Telemetry.Queue

variable {β : Type}

/-! ## What shows of a run -/

namespace Passage

/-- The batches that are accepted. -/
def accepts : Passage β → List (Ticket β)
  | accepted c => [c]
  | _ => []

/-- The batches that are refused. -/
def refuses : Passage β → List (Ticket β)
  | refused c => [c]
  | _ => []

/-- The batches that leave the channel. -/
def leaves : Passage β → List (Ticket β)
  | left cs => cs
  | _ => []

/-- The batches whose sending begins. -/
def sends : Passage β → List (Ticket β)
  | sent c => [c]
  | _ => []

/-- The accepted batches that are dropped. -/
def discards : Passage β → List (Ticket β)
  | discarded c => [c]
  | _ => []

/-- The batches that are dropped. -/
def drops : Passage β → List (Ticket β)
  | refused c | discarded c => [c]
  | _ => []

/-- What a run did to batches, in the order it was done, given what a step does. -/
def during (f : Passage β → List (Ticket β)) : List (Passage β) → List (Ticket β)
  | [] => []
  | e :: trace => during f trace ++ f e

@[simp] theorem during_cons (f : Passage β → List (Ticket β)) (e : Passage β)
    (trace : List (Passage β)) : during f (e :: trace) = during f trace ++ f e := rfl

theorem count_during_drops [DecidableEq β] (trace : List (Passage β)) (c : Ticket β) :
    (during drops trace).count c =
      (during refuses trace).count c + (during discards trace).count c := by
  induction trace with
  | nil => rfl
  | cons e trace ih =>
      rw [during_cons, during_cons, during_cons, List.count_append, List.count_append,
        List.count_append, ih]
      cases e <;> simp [drops, refuses, discards] <;> omega

end Passage

open Passage (accepts refuses leaves sends discards drops during)

namespace MemoryQueue

variable {q q' : MemoryQueue β} {b : β}

theorem claimSlot_eq_some (h : q.claimSlot = some q') :
    q.size < q.capacity ∧ q' = { q with size := q.size + 1 } := by
  rw [claimSlot] at h
  split at h
  · next hRoom => exact ⟨hRoom, (Option.some.inj h).symm⟩
  · cases h

theorem enqueue_eq_some (h : q.enqueue b = some q') :
    q.connected = true ∧ q' = { q with channel := q.channel ++ [b] } := by
  rw [enqueue] at h
  split at h
  · next hRoom =>
    rw [Bool.and_eq_true] at hRoom
    exact ⟨hRoom.1, (Option.some.inj h).symm⟩
  · cases h

theorem take_eq_item {index : Option UInt64} (h : q.take = (.item index b, q')) :
    q.channel = b :: q'.channel ∧ q' = { q with channel := q'.channel } := by
  rw [take] at h
  cases hChannel : q.channel with
  | cons c rest =>
      rw [hChannel] at h
      cases h
      exact ⟨rfl, rfl⟩
  | nil =>
      rw [hChannel] at h
      cases hConnected : q.connected <;> simp [hConnected] at h

theorem take_eq_over (h : q.take = (.over, q')) :
    q.channel = [] ∧ q.connected = false ∧ q' = q := by
  rw [take] at h
  cases hChannel : q.channel with
  | cons c rest =>
      rw [hChannel] at h
      cases h
  | nil =>
      rw [hChannel] at h
      cases hConnected : q.connected with
      | true => simp [hConnected] at h
      | false =>
          simp only [hConnected] at h
          cases h
          exact ⟨rfl, rfl, rfl⟩

end MemoryQueue

namespace Traffic

variable {w w' w₀ : Traffic β} {e : Passage β} {trace : List (Passage β)} {capacity : Nat}

/-! ## Slots -/

/-- The number of batches in the hands of workers whose slots are not freed. -/
def inHands (w : Traffic β) : Nat := w.workers.countP WorkerStage.isBusy

/-- The number of offers with a slot that they have neither used nor given back. -/
def unused (w : Traffic β) : Nat := w.offers.countP fun o => o.1.hasSlot

/-- Every slot is there for a batch or for an offer. -/
structure Slotted (capacity : Nat) (w : Traffic β) : Prop where
  bound : w.queue.capacity = capacity
  size : w.queue.size = w.queue.channel.length + w.inHands + w.closing.slots + w.unused
  within : w.queue.size ≤ capacity

theorem Step.slotted (hStep : Step w e w') (h : Slotted capacity w) : Slotted capacity w' := by
  obtain ⟨hCapacity, hSize, hWithin⟩ := h
  cases hStep with
  | start count hOpen hNew =>
      refine ⟨hCapacity, ?_, hWithin⟩
      simpa [inHands, unused, List.countP_replicate, List.countP_cons, WorkerStage.isBusy] using hSize
  | begin b =>
      refine ⟨hCapacity, ?_, hWithin⟩
      simpa [inHands, unused, OfferStage.hasSlot] using hSize
  | enter hOffers | turnAway hOffers | overflow hOffers | fail hOffers | refuse hOffers =>
      refine ⟨hCapacity, ?_, hWithin⟩
      simpa [inHands, unused, hOffers, OfferStage.hasSlot] using hSize
  | claim hOffers hSlot =>
      obtain ⟨hRoom, rfl⟩ := MemoryQueue.claimSlot_eq_some hSlot
      refine ⟨hCapacity, ?_, by simp only; omega⟩
      simp [inHands, unused, hOffers, OfferStage.hasSlot] at hSize ⊢
      omega
  | enqueue hOffers hTaken =>
      obtain ⟨hConnected, rfl⟩ := MemoryQueue.enqueue_eq_some hTaken
      refine ⟨hCapacity, ?_, hWithin⟩
      simp [inHands, unused, hOffers, OfferStage.hasSlot] at hSize ⊢
      omega
  | giveBack hOffers =>
      refine ⟨hCapacity, ?_, Nat.le_trans (Nat.sub_le _ _) hWithin⟩
      simp [inHands, unused, hOffers, OfferStage.hasSlot, MemoryQueue.freeSlot] at hSize ⊢
      omega
  | receive hWorkers hFound =>
      obtain ⟨hChannel, hRest⟩ := MemoryQueue.take_eq_item hFound
      rw [hRest]
      refine ⟨hCapacity, ?_, hWithin⟩
      simp [inHands, unused, hWorkers, hChannel, List.countP_cons, WorkerStage.isBusy] at hSize ⊢
      omega
  | leave hWorkers hFound =>
      obtain ⟨-, -, rfl⟩ := MemoryQueue.take_eq_over hFound
      refine ⟨hCapacity, ?_, hWithin⟩
      simpa [inHands, unused, hWorkers, List.countP_cons, WorkerStage.isBusy] using hSize
  | send hWorkers | finish hWorkers =>
      refine ⟨hCapacity, ?_, hWithin⟩
      simpa [inHands, unused, hWorkers, List.countP_cons, WorkerStage.isBusy] using hSize
  | free hWorkers =>
      refine ⟨hCapacity, ?_, Nat.le_trans (Nat.sub_le _ _) hWithin⟩
      simp [inHands, unused, hWorkers, List.countP_cons, WorkerStage.isBusy,
        MemoryQueue.freeSlot] at hSize ⊢
      omega
  | stop hClosing | hangUp hClosing | discard hClosing | conclude hClosing =>
      refine ⟨hCapacity, ?_, hWithin⟩
      simpa [inHands, unused, hClosing, Closing.slots] using hSize
  | drain hHungUp hLeft =>
      refine ⟨hCapacity, ?_, hWithin⟩
      simp [inHands, unused, hHungUp, Closing.slots] at hSize ⊢
      omega
  | vacate hDraining =>
      refine ⟨hCapacity, ?_, Nat.le_trans (Nat.sub_le _ _) hWithin⟩
      simp [inHands, unused, hDraining, Closing.slots, MemoryQueue.freeSlot] at hSize ⊢
      omega

/-- An offer with a slot finds room in the channel. -/
theorem Slotted.length_lt (h : Slotted capacity w) {n : Nat} {b : β}
    (hHolding : w.offers[n]? = some (.holding, b)) : w.queue.channel.length < w.queue.capacity := by
  have hUnused : 0 < w.unused :=
    List.countP_pos_iff.mpr ⟨_, List.mem_of_getElem? hHolding, rfl⟩
  have hSize := h.size
  have hWithin := h.within
  have hBound := h.bound
  omega

/-! ## The order of the channel -/

theorem Step.order (hStep : Step w e w')
    (h : during accepts trace = during leaves trace ++ w.queue.channel) :
    during accepts (e :: trace) = during leaves (e :: trace) ++ w'.queue.channel := by
  rw [Passage.during_cons, Passage.during_cons, h]
  cases hStep with
  | claim hOffers hSlot =>
      obtain ⟨-, rfl⟩ := MemoryQueue.claimSlot_eq_some hSlot
      simp [accepts, leaves]
  | enqueue hOffers hTaken =>
      obtain ⟨-, rfl⟩ := MemoryQueue.enqueue_eq_some hTaken
      simp [accepts, leaves]
  | receive hWorkers hFound =>
      obtain ⟨hChannel, -⟩ := MemoryQueue.take_eq_item hFound
      simp [accepts, leaves, hChannel]
  | leave hWorkers hFound =>
      obtain ⟨-, -, rfl⟩ := MemoryQueue.take_eq_over hFound
      simp [accepts, leaves]
  | _ => simp [accepts, leaves, MemoryQueue.freeSlot]

/-! ## Where a batch is that has left the channel -/

section Counts

variable [DecidableEq β]

/-- Whatever has left the channel is in the hands of a worker, was sent, is in the hands of the shutdown,
or was dropped. -/
def Placed (trace : List (Passage β)) (w : Traffic β) : Prop :=
  ∀ c, (during leaves trace).count c =
    (w.workers.flatMap WorkerStage.unsent).count c + (during sends trace).count c +
      w.closing.undropped.count c + (during discards trace).count c

theorem Step.placed (hStep : Step w e w') (h : Placed trace w) : Placed (e :: trace) w' := by
  intro c
  have hCount := h c
  simp only [Passage.during_cons, List.count_append]
  cases hStep with
  | start count hOpen hNew =>
      have hNone : (List.replicate count (WorkerStage.free (β := β))).flatMap WorkerStage.unsent = [] :=
        List.flatMap_eq_nil_iff.mpr fun x hx => by rw [List.eq_of_mem_replicate hx]; rfl
      simp [leaves, sends, discards, hNone, hCount]
  | receive hWorkers hFound | leave hWorkers hFound | send hWorkers | finish hWorkers
  | free hWorkers =>
      simp [leaves, sends, discards, hWorkers, WorkerStage.unsent, List.count_cons] at hCount ⊢
      omega
  | stop hClosing | hangUp hClosing | drain hClosing | vacate hClosing | discard hClosing
  | conclude hClosing =>
      simp [leaves, sends, discards, hClosing, Closing.undropped, List.count_cons] at hCount ⊢
      omega
  | _ => simp [leaves, sends, discards, hCount]

end Counts

/-! ## How an offer ends -/

theorem getElem?_middle {α : Type} (before after : List α) (x y : α) (k : Nat) :
    (before ++ y :: after)[k]? = if k = before.length then some y else (before ++ x :: after)[k]? := by
  split
  · next hEq =>
    rw [hEq]
    simp
  · next hNe =>
    rcases Nat.lt_or_gt_of_ne hNe with hLt | hGt
    · rw [List.getElem?_append_left hLt, List.getElem?_append_left hLt]
    · rw [List.getElem?_append_right (Nat.le_of_lt hGt), List.getElem?_append_right (Nat.le_of_lt hGt)]
      obtain ⟨d, hd⟩ : ∃ d, k - before.length = d + 1 := ⟨k - before.length - 1, by omega⟩
      rw [hd, List.getElem?_cons_succ, List.getElem?_cons_succ]

/-- The offer that a ticket is for is at a stage. -/
def IsAt (stage : OfferStage) (offers : List (OfferStage × β)) (c : Ticket β) : Prop :=
  offers[c.1]? = some (stage, c.2)

instance [DecidableEq β] (stage : OfferStage) (offers : List (OfferStage × β)) (c : Ticket β) :
    Decidable (IsAt stage offers c) := inferInstanceAs (Decidable (_ = _))

theorem isAt_append_begun {stage : OfferStage} (hStage : stage ≠ .begun)
    (offers : List (OfferStage × β)) (b : β) (c : Ticket β) :
    IsAt stage (offers ++ [(.begun, b)]) c ↔ IsAt stage offers c := by
  rw [IsAt, IsAt, List.getElem?_append]
  split
  · rfl
  · next hLt =>
    rw [List.getElem?_eq_none (Nat.not_lt.mp hLt), List.getElem?_singleton]
    split <;> simp [Ne.symm hStage]

/-- An offer that goes on is not at the stages it has left and not yet come to. -/
theorem isAt_middle {stage old new : OfferStage} {before after : List (OfferStage × β)} {b : β}
    (hOld : old ≠ stage) (c : Ticket β) :
    IsAt stage (before ++ (new, b) :: after) c ↔
      c = (before.length, b) ∧ new = stage ∨ IsAt stage (before ++ (old, b) :: after) c := by
  rw [IsAt, IsAt, getElem?_middle before after (old, b) (new, b)]
  by_cases hPlace : c.1 = before.length
  · have hNot : (before ++ (old, b) :: after)[c.1]? ≠ some (stage, c.2) := by
      rw [hPlace]
      simp [hOld]
    rw [if_pos hPlace, or_iff_left hNot, Option.some_inj, Prod.mk.injEq, Prod.ext_iff]
    constructor
    · rintro ⟨hStage, hBatch⟩
      exact ⟨⟨hPlace, hBatch.symm⟩, hStage⟩
    · rintro ⟨⟨-, hBatch⟩, hStage⟩
      exact ⟨hStage, hBatch.symm⟩
  · rw [if_neg hPlace, or_iff_right]
    rintro ⟨rfl, -⟩
    exact hPlace rfl

theorem not_isAt_middle {stage old : OfferStage} {before after : List (OfferStage × β)} {b : β}
    (hOld : old ≠ stage) : ¬ IsAt stage (before ++ (old, b) :: after) (before.length, b) := by
  simp [IsAt, hOld]

section Ends

variable [DecidableEq β] {f : Passage β → List (Ticket β)} {stage old new : OfferStage}
  {before after : List (OfferStage × β)} {b : β}

/-- What shows of an offer shows once it is at a stage, and once only. -/
def Shown (f : Passage β → List (Ticket β)) (stage : OfferStage) (trace : List (Passage β))
    (offers : List (OfferStage × β)) : Prop :=
  ∀ c, (during f trace).count c = if IsAt stage offers c then 1 else 0

theorem Shown.stays (h : Shown f stage trace w.offers) (hQuiet : f e = []) :
    Shown f stage (e :: trace) w.offers := by
  intro c
  rw [Passage.during_cons, hQuiet, List.append_nil]
  exact h c

theorem Shown.goesOn (h : Shown f stage trace w.offers)
    (hOffers : w.offers = before ++ (old, b) :: after) (hOld : old ≠ stage)
    (hShows : f e = if new = stage then [(before.length, b)] else []) :
    Shown f stage (e :: trace) (before ++ (new, b) :: after) := by
  intro c
  rw [Passage.during_cons, List.count_append, h c, hShows, hOffers]
  simp only [@isAt_middle _ stage old new before after b hOld c]
  by_cases hTicket : c = (before.length, b)
  · rw [hTicket, if_neg (not_isAt_middle hOld)]
    by_cases hNew : new = stage <;> simp [hNew, not_isAt_middle hOld]
  · have hOther : ((before.length, b) == c) = false := beq_false_of_ne (Ne.symm hTicket)
    by_cases hNew : new = stage <;> simp [hNew, hTicket, List.count_cons, hOther]

end Ends

/-- Offers end as they seem to. -/
structure Ended [DecidableEq β] (trace : List (Passage β)) (w : Traffic β) : Prop where
  accepted : Shown accepts .accepted trace w.offers
  refused : Shown refuses .refused trace w.offers

theorem Step.ended [DecidableEq β] (hStep : Step w e w') (h : Ended trace w) : Ended (e :: trace) w' := by
  obtain ⟨hAccepted, hRefused⟩ := h
  cases hStep with
  | begin b =>
      refine ⟨fun c => ?_, fun c => ?_⟩
      · simpa [isAt_append_begun, accepts] using hAccepted c
      · simpa [isAt_append_begun, refuses] using hRefused c
  | enter hOffers | turnAway hOffers | claim hOffers | overflow hOffers | enqueue hOffers
  | fail hOffers | giveBack hOffers | refuse hOffers =>
      exact ⟨hAccepted.goesOn hOffers (by decide) rfl, hRefused.goesOn hOffers (by decide) rfl⟩
  | _ => exact ⟨hAccepted.stays rfl, hRefused.stays rfl⟩

/-! ## The shutdown -/

/-- What is the case once the shutdown has come so far. -/
structure Closes (w : Traffic β) : Prop where
  stopped : w.closing.isStopped = true → w.queue.stopped = true
  hungUp : w.closing.isHungUp = true → w.queue.connected = false
  emptied : w.closing.isDrained = true → w.queue.channel = []
  left : w.closing.isDrained = true → ∀ x ∈ w.workers, x = .left

theorem Step.closes (hStep : Step w e w') (h : Closes w) : Closes w' := by
  obtain ⟨hStopped, hHungUp, hEmptied, hLeft⟩ := h
  -- While there is a worker that has not left, nothing is drained.
  have hEarly : ∀ {before after : List (WorkerStage β)} {x : WorkerStage β},
      w.workers = before ++ x :: after → x ≠ .left → ¬ w.closing.isDrained = true :=
    fun hWorkers hHere hDrained => hHere (hLeft hDrained _ (by simp [hWorkers]))
  cases hStep with
  | start count hOpen hNew =>
      constructor <;> simp [hOpen, Closing.isStopped, Closing.isHungUp, Closing.isDrained]
  | claim hOffers hSlot =>
      obtain ⟨-, rfl⟩ := MemoryQueue.claimSlot_eq_some hSlot
      exact ⟨hStopped, hHungUp, hEmptied, hLeft⟩
  | enqueue hOffers hTaken =>
      obtain ⟨hConnected, rfl⟩ := MemoryQueue.enqueue_eq_some hTaken
      refine ⟨hStopped, hHungUp, fun hDrained => ?_, hLeft⟩
      have hOff := hHungUp (Closing.isHungUp_of_isDrained hDrained)
      simp [hConnected] at hOff
  | receive hWorkers hFound =>
      obtain ⟨-, hRest⟩ := MemoryQueue.take_eq_item hFound
      have hNot := hEarly hWorkers (by simp)
      rw [hRest]
      exact ⟨hStopped, hHungUp, fun hDrained => absurd hDrained hNot,
        fun hDrained => absurd hDrained hNot⟩
  | leave hWorkers hFound =>
      obtain ⟨-, -, rfl⟩ := MemoryQueue.take_eq_over hFound
      have hNot := hEarly hWorkers (by simp)
      exact ⟨hStopped, hHungUp, hEmptied, fun hDrained => absurd hDrained hNot⟩
  | send hWorkers | finish hWorkers | free hWorkers =>
      have hNot := hEarly hWorkers (by simp)
      exact ⟨hStopped, hHungUp, hEmptied, fun hDrained => absurd hDrained hNot⟩
  | stop hOpen => constructor <;> simp [Closing.isHungUp, Closing.isDrained]
  | hangUp hClosing =>
      rw [hClosing] at hStopped
      refine ⟨fun _ => hStopped rfl, fun _ => rfl, ?_, ?_⟩ <;> simp [Closing.isDrained]
  | drain hClosing hGone =>
      rw [hClosing] at hStopped hHungUp
      exact ⟨fun _ => hStopped rfl, fun _ => hHungUp rfl, fun _ => rfl, fun _ => hGone⟩
  | vacate hClosing | discard hClosing | conclude hClosing =>
      simp only [hClosing] at hStopped hHungUp hEmptied hLeft
      exact ⟨hStopped, hHungUp, hEmptied, hLeft⟩
  | _ => exact ⟨hStopped, hHungUp, hEmptied, hLeft⟩

/-! ## Offers after the flag -/

theorem forall_drop_middle {α : Type} {P : α → Prop} {before after : List α} {x y : α} {n : Nat}
    (h : ∀ o ∈ (before ++ x :: after).drop n, P o) (hKept : P x → P y) :
    ∀ o ∈ (before ++ y :: after).drop n, P o := by
  rw [List.drop_append] at h ⊢
  cases hRest : n - before.length with
  | zero =>
      simp only [hRest, List.drop_zero, List.forall_mem_append, List.forall_mem_cons] at h ⊢
      exact ⟨h.1, hKept h.2.1, h.2.2⟩
  | succ k => rwa [hRest, List.drop_succ_cons] at h

/-- No offer beyond the first `n` gets past the flag. -/
structure TurnsAway (n : Nat) (w : Traffic β) : Prop where
  stopped : w.queue.stopped = true
  late : ∀ o ∈ w.offers.drop n, o.1.isTurnedAway = true

theorem Step.turnsAway {n : Nat} (hStep : Step w e w') (h : TurnsAway n w) : TurnsAway n w' := by
  obtain ⟨hStopped, hLate⟩ := h
  cases hStep with
  | begin b =>
      refine ⟨hStopped, fun o hMem => ?_⟩
      rw [List.drop_append, List.mem_append] at hMem
      rcases hMem with hOld | hNew
      · exact hLate o hOld
      · rw [List.mem_singleton.mp (List.mem_of_mem_drop hNew)]
        rfl
  | enter hOffers hRunning => simp [hStopped] at hRunning
  | turnAway hOffers | overflow hOffers | fail hOffers | giveBack hOffers | refuse hOffers =>
      rw [hOffers] at hLate
      exact ⟨hStopped, forall_drop_middle hLate (by simp [OfferStage.isTurnedAway])⟩
  | claim hOffers hSlot =>
      obtain ⟨-, rfl⟩ := MemoryQueue.claimSlot_eq_some hSlot
      rw [hOffers] at hLate
      exact ⟨hStopped, forall_drop_middle hLate (by simp [OfferStage.isTurnedAway])⟩
  | enqueue hOffers hTaken =>
      obtain ⟨-, rfl⟩ := MemoryQueue.enqueue_eq_some hTaken
      rw [hOffers] at hLate
      exact ⟨hStopped, forall_drop_middle hLate (by simp [OfferStage.isTurnedAway])⟩
  | receive hWorkers hFound =>
      obtain ⟨-, hRest⟩ := MemoryQueue.take_eq_item hFound
      rw [hRest]
      exact ⟨hStopped, hLate⟩
  | leave hWorkers hFound =>
      obtain ⟨-, -, rfl⟩ := MemoryQueue.take_eq_over hFound
      exact ⟨hStopped, hLate⟩
  | stop hOpen => exact ⟨rfl, hLate⟩
  | _ => exact ⟨hStopped, hLate⟩

theorem Runs.turnsAway (hRuns : Runs w₀ trace w) (hStopped : w₀.queue.stopped = true) :
    TurnsAway w₀.offers.length w := by
  induction hRuns with
  | refl => exact ⟨hStopped, by simp⟩
  | step prior last ih => exact last.turnsAway ih

/-! ## Whole runs -/

section Whole

variable [DecidableEq β]

/-- What is the case after every run of a new queue. -/
structure Sound (capacity : Nat) (trace : List (Passage β)) (w : Traffic β) : Prop where
  slotted : Slotted capacity w
  order : during accepts trace = during leaves trace ++ w.queue.channel
  placed : Placed trace w
  ended : Ended trace w
  closes : Closes w

theorem sound_empty (capacity : Nat) : Sound capacity [] (empty capacity : Traffic β) where
  slotted := ⟨rfl, rfl, Nat.zero_le _⟩
  order := rfl
  placed _ := rfl
  ended := ⟨fun _ => rfl, fun _ => rfl⟩
  closes := ⟨nofun, nofun, nofun, nofun⟩

theorem Runs.sound (hRuns : Runs (empty capacity) trace w) : Sound capacity trace w := by
  induction hRuns with
  | refl => exact sound_empty capacity
  | step prior last ih =>
      exact ⟨last.slotted ih.slotted, last.order ih.order, last.placed ih.placed,
        last.ended ih.ended, last.closes ih.closes⟩

namespace Sound

variable {c : Ticket β}

/-- Whatever was sent or taken out by the shutdown was accepted before. -/
theorem sends_add_discards_le (h : Sound capacity trace w) :
    (during sends trace).count c + (during discards trace).count c ≤ (during accepts trace).count c := by
  have hPlaced := h.placed c
  rw [h.order, List.count_append]
  omega

/-- Once the shutdown is over, whatever was accepted was sent or dropped. -/
theorem sends_add_discards_eq (h : Sound capacity trace w) (hOver : w.closing = .over) :
    (during sends trace).count c + (during discards trace).count c = (during accepts trace).count c := by
  have hPlaced := h.placed c
  have hDrained : w.closing.isDrained = true := by rw [hOver]; rfl
  have hIdle : w.workers.flatMap WorkerStage.unsent = [] :=
    List.flatMap_eq_nil_iff.mpr fun x hx => by rw [h.closes.left hDrained x hx]; rfl
  rw [hIdle, hOver] at hPlaced
  rw [h.order, h.closes.emptied hDrained, List.append_nil]
  simp only [Closing.undropped, List.count_nil] at hPlaced
  omega

end Sound

/-- In every state every slot is there for a batch or for an offer, no offer with a slot finds the channel
full, and no batch is sent or dropped twice. Batches leave the channel as they were accepted, and once the
shutdown is over, each of them has been either sent or dropped. A batch that is refused is dropped and
never sent, and so is every batch whose offer begins after the queue was stopped. -/
theorem every_batch_sent_or_dropped_once {before after : List (Passage β)}
    (hEarlier : Runs (empty capacity) before w₀) (hRuns : Runs w₀ after w) :
    w.queue.size = w.queue.channel.length + w.inHands + w.closing.slots + w.unused ∧
    w.queue.size ≤ capacity ∧
    (∀ c, IsAt .holding w.offers c → w.queue.channel.length < capacity) ∧
    during leaves (after ++ before) <+: during accepts (after ++ before) ∧
    (∀ c, (during sends (after ++ before)).count c + (during drops (after ++ before)).count c ≤ 1) ∧
    (∀ c, IsAt .accepted w.offers c → w.closing = .over →
      (during sends (after ++ before)).count c + (during drops (after ++ before)).count c = 1) ∧
    (∀ c, IsAt .refused w.offers c →
      (during drops (after ++ before)).count c = 1 ∧ c ∉ during sends (after ++ before)) ∧
    (w₀.queue.stopped = true → ∀ n stage b, w₀.offers.length ≤ n → w.offers[n]? = some (stage, b) →
      stage.isTurnedAway = true) := by
  have hSound := (hEarlier.trans hRuns).sound
  -- An offer is not both accepted and refused.
  have hApart : ∀ c, IsAt .accepted w.offers c → ¬ IsAt .refused w.offers c := by
    intro c hAccepted hRefused
    rw [IsAt] at hAccepted hRefused
    simp [hAccepted] at hRefused
  refine ⟨hSound.slotted.size, hSound.slotted.within, ?_, ?_, ?_, ?_, ?_, ?_⟩
  · intro c hHolding
    rw [← hSound.slotted.bound]
    exact hSound.slotted.length_lt hHolding
  · rw [hSound.order]
    exact List.prefix_append _ _
  · intro c
    have hLe := hSound.sends_add_discards_le (c := c)
    rw [hSound.ended.accepted c] at hLe
    rw [Passage.count_during_drops, hSound.ended.refused c]
    by_cases hAccepted : IsAt .accepted w.offers c
    · rw [if_pos hAccepted] at hLe
      rw [if_neg (hApart c hAccepted)]
      omega
    · rw [if_neg hAccepted] at hLe
      split <;> omega
  · intro c hAccepted hOver
    have hEq := hSound.sends_add_discards_eq (c := c) hOver
    rw [hSound.ended.accepted c, if_pos hAccepted] at hEq
    rw [Passage.count_during_drops, hSound.ended.refused c, if_neg (hApart c hAccepted)]
    omega
  · intro c hRefused
    have hLe := hSound.sends_add_discards_le (c := c)
    rw [hSound.ended.accepted c, if_neg fun hAccepted => hApart c hAccepted hRefused] at hLe
    rw [Passage.count_during_drops, hSound.ended.refused c, if_pos hRefused]
    refine ⟨by omega, List.count_eq_zero.mp (by omega)⟩
  · intro hStopped n stage b hLate hOffer
    refine (hRuns.turnsAway hStopped).late (stage, b) (List.mem_of_getElem? (i := n - w₀.offers.length) ?_)
    rw [List.getElem?_drop, Nat.add_sub_cancel' hLate, hOffer]

end Whole

/-- One slot and one worker. The first offer is accepted and sent. The second has taken the slot that was
freed when the shutdown hangs the channel up, and the third comes too late. -/
theorem every_batch_sent_or_dropped_once_racing :
    ∃ (before after : List (Passage Nat)) (w₀ w : Traffic Nat),
      Runs (empty 1) before w₀ ∧ Runs w₀ after w ∧ w₀.queue.stopped = true ∧ w₀.offers.length = 2 ∧
      w.closing = .over ∧ w.offers = [(.accepted, 10), (.refused, 11), (.refused, 12)] ∧
      (during sends (after ++ before)).count (0, 10) + (during drops (after ++ before)).count (0, 10) = 1 ∧
      (during drops (after ++ before)).count (1, 11) = 1 ∧
      (1, 11) ∉ during sends (after ++ before) := by
  have hEarlier : Runs (empty 1) _
      ⟨⟨1, 1, true, true, true, []⟩, [(.accepted, 10), (.holding, 11)], [.free], .stopped⟩ :=
    (Runs.single (.start 1 rfl rfl)).step (.begin 10)
      |>.step (@Step.enter _ _ [] [] _ rfl rfl)
      |>.step (@Step.claim _ _ _ [] [] _ rfl rfl)
      |>.step (@Step.enqueue _ _ _ [] [] _ rfl rfl)
      |>.step (@Step.receive _ _ _ [] [] _ rfl rfl)
      |>.step (@Step.send _ _ [] [] _ rfl)
      |>.step (@Step.finish _ _ [] [] _ rfl (.ok ()))
      |>.step (@Step.free _ _ [] [] _ rfl)
      |>.step (.begin 11)
      |>.step (@Step.enter _ _ [(.accepted, 10)] [] _ rfl rfl)
      |>.step (@Step.claim _ _ _ [(.accepted, 10)] [] _ rfl rfl)
      |>.step (.stop rfl)
  have hRuns : Runs ⟨⟨1, 1, true, true, true, []⟩, [(.accepted, 10), (.holding, 11)], [.free], .stopped⟩ _
      ⟨⟨1, 0, true, true, false, []⟩, [(.accepted, 10), (.refused, 11), (.refused, 12)], [.left], .over⟩ :=
    (Runs.single (.hangUp rfl)).step (@Step.leave _ _ _ [] [] rfl rfl)
      |>.step (.drain rfl (by simp))
      |>.step (@Step.fail _ _ [(.accepted, 10)] [] _ rfl rfl)
      |>.step (.begin 12)
      |>.step (@Step.turnAway _ _ [(.accepted, 10), (.failed, 11)] [] _ rfl rfl)
      |>.step (@Step.refuse _ _ [(.accepted, 10), (.failed, 11)] [] _ rfl)
      |>.step (.conclude rfl)
      |>.step (@Step.giveBack _ _ [(.accepted, 10)] [(.refused, 12)] _ rfl)
      |>.step (@Step.refuse _ _ [(.accepted, 10)] [(.refused, 12)] _ rfl)
  have hAll := every_batch_sent_or_dropped_once hEarlier hRuns
  obtain ⟨-, -, -, -, -, hAccepted, hRefused, -⟩ := hAll
  exact ⟨_, _, _, _, hEarlier, hRuns, rfl, rfl, rfl, rfl, hAccepted (0, 10) rfl rfl,
    (hRefused (1, 11) rfl).1, (hRefused (1, 11) rfl).2⟩

end Traffic

end Telemetry.Queue

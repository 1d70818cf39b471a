import Telemetry.Proofs.Queue.Tidiness

/-!
# The queue and its storage

A running queue and its namespace tell the same story: the records are what the queue remembers, the
items are those in use, and their batches are those that were accepted and whose sending is not over.
-/

namespace Telemetry.Queue

open Storage (Access Space)
open Text (Bytes)

variable {β : Type} {codec : Codec β} {admits : β → Prop} {trace : List (Event β)}
  {w w' : World β Space} {q : PersistentQueue} {e : Event β}

/-- A namespace as the image of the queue that runs on it, after a run of queues. -/
structure Represents (codec : Codec β) (s : Space) (q : PersistentQueue)
    (trace : List (Event β)) : Prop where
  records : Records s q.readIndex q.writeIndex q.dispatched
  nodup : q.dispatched.Nodup
  below : ∀ i ∈ q.dispatched, i < q.readIndex
  ordered : q.readIndex ≤ q.writeIndex
  items : ∀ i, (s.get? (itemKey i)).isSome = true ↔
    i ∈ q.dispatched ∨ (q.readIndex ≤ i ∧ i < q.writeIndex)
  others : ∀ key, key ≠ readKey → key ≠ writeKey → key ≠ dispatchedKey → (∀ i, key ≠ itemKey i) →
    s.get? key = none
  balance : batches codec s (q.dispatched ++ window q.readIndex q.writeIndex) + settled trace =
    stored trace

/-- Where no batch is torn a claim leaves no batch out. -/
theorem Step.lost_eq_zero (hStep : Step (Setup.ofSpace codec admits false) w e w') :
    e.lost = 0 := by
  cases hStep with
  | @dieClaiming q hRunning count hCut =>
      have hSeam := hCut.resolve_left Bool.noConfusion
      cases PersistentQueue.claim_cases codec q w.storage with
      | idle found hFound hIdle hClaim =>
          rw [hClaim, Access.run_done]
          cases found with
          | item i b => exact absurd rfl (hFound i b)
          | _ => rfl
      | item b hOpen hWaiting hBatch =>
          rw [PersistentQueue.seams_claim_of_item hOpen hWaiting hBatch] at hSeam
          rw [PersistentQueue.run_claim_of_item hOpen hWaiting hBatch]
          rcases List.mem_pair.mp hSeam with rfl | rfl <;> rfl
      | hole hOpen hWaiting hBatch =>
          rw [PersistentQueue.run_claim_of_hole hOpen hWaiting hBatch]
          rfl
  | _ => rfl

theorem Runs.lost_eq_zero {within : World β Space → Prop} {origin : World β Space}
    (hRuns : Runs (Setup.ofSpace codec admits false) within origin trace w) : lost trace = 0 := by
  induction hRuns with
  | refl => rfl
  | step prior hWithin last ih => rw [lost_cons, ih, last.lost_eq_zero, add_zero]

/-- In every run of queues on a namespace that was empty, with any number of producers, workers and
processes that die between two batches of operations, the namespace represents the queue that runs. It
is assumed that batches can be read back, and that indices and their number fit into their words. -/
theorem storage_represents_queue
    (hCodec : ∀ b, admits b → codec.unmarshal? (codec.marshal b) = some b)
    (hRuns : Runs (Setup.ofSpace codec admits false) World.FitsWords (.idle []) trace w)
    (hRunning : w.running = some q) : Represents codec w.storage q trace := by
  have hServed := (hRuns.balanced hCodec).served q hRunning
  have hTidy := hRuns.isTidy hCodec _ _ _ hServed.books.toRecords
  have hBalance := hServed.books.balance
  rw [hRuns.lost_eq_zero, add_zero] at hBalance
  constructor
  case records => exact hServed.books.toRecords
  case nodup => exact hServed.books.nodup
  case below => exact hServed.books.below
  case ordered => exact hServed.books.ordered
  case items =>
    intro i
    rw [hTidy.items i, mem_window]
  case others => exact hTidy.others
  case balance => exact hBalance

/-! ## A batch that survives its process -/

/-- A queue that has started on nothing. -/
def firstQueue : PersistentQueue := (PersistentQueue.empty 5).begun 0 0 0 0 0

/-- The queue that has handed its only batch out. -/
def busyQueue : PersistentQueue :=
  { firstQueue with
    references := 2
    readIndex := 1
    writeIndex := 1
    dispatched := [0] }

/-- A worker holds the only batch. -/
def oneClaimed : Space :=
  [("0", [7]), (dispatchedKey, encodeIndices [0]), (readKey, encodeIndex 1), (writeKey, encodeIndex 1)]

/-- The queue that starts after the process of the other one has died. -/
def secondQueue : PersistentQueue := (PersistentQueue.empty 5).begun 1 1 1 2 1

/-- The batch waits again, under its next index. -/
def oneRecovered : World Bytes Space :=
  ⟨[("1", [7]), (dispatchedKey, encodeIndices []), (readKey, encodeIndex 1),
    (writeKey, encodeIndex 2)], some secondQueue, 0, 0, []⟩

/-- Batches that are their own bytes are stored and claimed, and no batch of operations is torn. -/
abbrev Setup.plain : Setup Bytes Space := .ofSpace Codec.plain (fun _ => True) false

theorem runs_oneClaimed : Runs Setup.plain World.FitsWords (.idle [])
    [.claimed 0 [7], .quiet, .quiet, .accepted [7], .started (.ok ())]
    ⟨oneClaimed, some busyQueue, 0, 0, [(0, [7])]⟩ := by
  have hStarted : Runs Setup.plain World.FitsWords (.idle []) [.started (.ok ())]
      ⟨[], some firstQueue, 0, 0, []⟩ :=
    .step .refl (by rintro q ⟨⟩)
      (.start (PersistentQueue.unstarted_empty 5) (by rintro q ⟨⟩) 0 rfl)
  have hStored : Runs Setup.plain World.FitsWords (.idle []) [.accepted [7], .started (.ok ())]
      ⟨afterPut [] 0 [7], some (firstQueue.grown 1 1), 1, 0, []⟩ :=
    .step hStarted (by rintro q ⟨⟩; decide) (.offer rfl trivial rfl)
  have hCalled : Runs Setup.plain World.FitsWords (.idle [])
      [.quiet, .quiet, .accepted [7], .started (.ok ())]
      ⟨afterPut [] 0 [7], some (firstQueue.grown 1 1), 0, 1, []⟩ :=
    .step (.step hStored (by rintro q ⟨⟩; decide) (.wake rfl (by decide)))
      (by rintro q ⟨⟩; decide) (.call rfl rfl rfl)
  exact .step hCalled (by rintro q ⟨⟩; decide) (.claim rfl (by decide) rfl)

theorem runs_oneRecovered : Runs Setup.plain World.FitsWords (.idle [])
    [.started (.ok ()), .died, .claimed 0 [7], .quiet, .quiet, .accepted [7], .started (.ok ())]
    oneRecovered :=
  .step (.step runs_oneClaimed (by rintro q ⟨⟩; decide) .die) (by rintro q ⟨⟩)
    (.start (PersistentQueue.unstarted_empty 5) (by rintro q ⟨⟩) 1 rfl)

/-- The batch is the only one stored, and its sending is not over. -/
theorem storage_represents_restarted_queue :
    stored ([.started (.ok ()), .died, .claimed 0 [7], .quiet, .quiet, .accepted [7],
      .started (.ok ())] : List (Event Bytes)) = {[7]} ∧
    oneRecovered.running = some secondQueue ∧
    Represents Codec.plain oneRecovered.storage secondQueue
      [.started (.ok ()), .died, .claimed 0 [7], .quiet, .quiet, .accepted [7],
        .started (.ok ())] :=
  ⟨rfl, rfl, storage_represents_queue (fun _ _ => rfl) runs_oneRecovered rfl⟩

end Telemetry.Queue

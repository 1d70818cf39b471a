import Telemetry.Proofs.Queue.Clients
import Telemetry.Queue.Sending

/-!
# The tenure of a storage client

A persistent queue opens a storage client when it starts. The running queue holds it, and so does each
worker that is sending a batch; the last one to let go of it gives it up. Offers, workers and calls that
start the queue or shut it down go through the queue in steps, between which the others go on and
storage may do what it likes. At any time the queue counts those who hold its client.
-/

namespace Telemetry.Queue

open Storage (Access Client Use)
open Text (Bytes)

/-! ## Those who share a queue -/

namespace Tenure

/-- How far the start of a queue has come. -/
inductive Launch
  | idle
  /-- The client is open, and the queue does not have it yet. -/
  | opened (client : Nat)
  /-- What is stored was taken over, and there are no workers yet. -/
  | loaded (client : Nat)
  /-- The start has returned, with the client that was opened, if one was. -/
  | over (client : Option Nat)
deriving DecidableEq, Repr

namespace Launch

/-- The client that was opened. -/
def client? : Launch → Option Nat
  | .idle => none
  | .opened client | .loaded client => some client
  | .over client => client

/-- The client that was opened and given to the queue. -/
def attached? : Launch → Option Nat
  | .idle | .opened _ => none
  | .loaded client => some client
  | .over client => client

end Launch

/-- What a worker is doing. -/
inductive Post (β : Type)
  | free
  /-- It was called and is to look for a batch. -/
  | called
  | sending (index : UInt64) (b : β)
  | left

/-- The index of the batch that a worker is sending. -/
def Post.index? {β : Type} : Post β → Option UInt64
  | sending index _ => some index
  | _ => none

/-- How far the first call that shuts the queue down has come. -/
inductive Closing
  | none
  /-- Offers are refused without the lock. -/
  | retired
  /-- Offers and claims are refused under the lock. -/
  | stopped
  /-- Workers that are free leave, and all are waited for. -/
  | dismissed
  | returned
deriving DecidableEq, Repr

namespace Closing

/-- Whether offers and claims are refused under the lock. -/
def isStopped : Closing → Bool
  | none | retired => false
  | _ => true

/-- Whether workers that are free leave. -/
def isDismissed : Closing → Bool
  | dismissed | returned => true
  | _ => false

end Closing

/-- What shows of a step. -/
inductive Event
  /-- The start opens a client. -/
  | opened (client : Nat)
  /-- Somebody uses a client: for a batch of operations, or to give it up. -/
  | used (client : Option Nat) (use : Use)
  /-- A worker is handed the batch with an index. -/
  | claimed (index : UInt64)
  /-- The sending of the batch with an index is over. -/
  | acknowledged (index : UInt64)
  /-- A shutdown has set the stopped state. -/
  | halted
  /-- The first call that shuts the queue down returns. -/
  | returned

namespace Event

/-- The client that is opened. -/
@[simp] def opens : Event → List Nat
  | opened client => [client]
  | _ => []

/-- The client that is given up. -/
@[simp] def closes : Event → List (Option Nat)
  | used client .close => [client]
  | _ => []

/-- The index of a batch that is handed out. -/
@[simp] def claims : Event → List UInt64
  | claimed i => [i]
  | _ => []

/-- The index of a batch whose sending is over. -/
@[simp] def acknowledges : Event → List UInt64
  | acknowledged i => [i]
  | _ => []

end Event

end Tenure

/-- A queue with those who share it, and the state of storage. -/
structure Tenure (β σ : Type) where
  store : σ
  queue : PersistentQueue
  launch : Tenure.Launch
  /-- The bytes of the batches whose offers have seen that the queue is not retired. -/
  offers : List Bytes
  /-- The number of offers that have stored their batch and not woken a worker. -/
  owed : Nat
  workers : List (Tenure.Post β)
  closing : Tenure.Closing

namespace Tenure

variable {β σ : Type}

/-- A new queue. -/
def fresh (capacity : Nat) (s : σ) : Tenure β σ := ⟨s, .empty capacity, .idle, [], 0, [], .none⟩

/-- The indices of the batches that are being sent. -/
def sending (w : Tenure β σ) : List UInt64 := w.workers.filterMap Post.index?

/-- What a program that is run against the client of the queue shows. -/
def shown {α : Type} (d : Depot σ) (client : Option Nat) (p : Access α) (s : σ) : List Event :=
  (p.uses (client.elim .absent d.client) s).map (.used client)

/-- The steps of those who share a queue. Storage may change by itself at any time. -/
inductive Step (d : Depot σ) (codec : Codec β) (storage : ComponentId) :
    Tenure β σ → List Event → Tenure β σ → Prop
  | drift {w : Tenure β σ} (s : σ) : Step d codec storage w [] { w with store := s }
  | openClient {w : Tenure β σ} {client : Nat} {s : σ} (hIdle : w.launch = .idle)
      (hRunning : w.closing = .none) (hOpen : d.openClient storage w.store = (.ok client, s)) :
      Step d codec storage w [.opened client] { w with store := s, launch := .opened client }
  | openNone {w : Tenure β σ} {e : QueueError} {s : σ} (hIdle : w.launch = .idle)
      (hRunning : w.closing = .none) (hOpen : d.openClient storage w.store = (.error e, s)) :
      Step d codec storage w [] { w with store := s, launch := .over .none }
  | load {w : Tenure β σ} {client : Nat} {q : PersistentQueue} {s : σ}
      (hOpened : w.launch = .opened client)
      (hRun : d.run (some client) (w.queue.start codec client) w.store = ((.ok (), q), s)) :
      Step d codec storage w (shown d (some client) (w.queue.start codec client) w.store)
        { w with store := s, queue := q, launch := .loaded client }
  | loadNone {w : Tenure β σ} {client : Nat} {q : PersistentQueue} {e : QueueError} {s : σ}
      (hOpened : w.launch = .opened client)
      (hRun : d.run (some client) (w.queue.start codec client) w.store = ((.error e, q), s)) :
      Step d codec storage w (shown d (some client) (w.queue.start codec client) w.store)
        { w with store := s, queue := q, launch := .over client }
  | staff {w : Tenure β σ} {client : Nat} (hLoaded : w.launch = .loaded client) (count : Nat) :
      Step d codec storage w []
        { w with launch := .over client, workers := List.replicate count .free }
  | enter {w : Tenure β σ} (value : Bytes) (hRunning : w.queue.retired = false) :
      Step d codec storage w [] { w with offers := w.offers ++ [value] }
  | store {w : Tenure β σ} {before after : List Bytes} {value : Bytes} {q : PersistentQueue} {s : σ}
      (hOffers : w.offers = before ++ value :: after)
      (hRun : d.run w.queue.client (w.queue.offerLocked value) w.store = (.ok q, s)) :
      Step d codec storage w (shown d w.queue.client (w.queue.offerLocked value) w.store)
        { w with store := s, queue := q, offers := before ++ after, owed := w.owed + 1 }
  | refuse {w : Tenure β σ} {before after : List Bytes} {value : Bytes} {e : QueueError} {s : σ}
      (hOffers : w.offers = before ++ value :: after)
      (hRun : d.run w.queue.client (w.queue.offerLocked value) w.store = (.error e, s)) :
      Step d codec storage w (shown d w.queue.client (w.queue.offerLocked value) w.store)
        { w with store := s, offers := before ++ after }
  | wake {w : Tenure β σ} (hOwed : 0 < w.owed) :
      Step d codec storage w [] { w with queue := w.queue.addPermit, owed := w.owed - 1 }
  | call {w : Tenure β σ} {before after : List (Post β)} {q : PersistentQueue}
      (hWorkers : w.workers = before ++ .free :: after) (hOpen : w.queue.closed = false)
      (hPermit : w.queue.takePermit = some q) :
      Step d codec storage w [] { w with queue := q, workers := before ++ .called :: after }
  | leave {w : Tenure β σ} {before after : List (Post β)}
      (hWorkers : w.workers = before ++ .free :: after) (hClosed : w.queue.closed = true) :
      Step d codec storage w [] { w with workers := before ++ .left :: after }
  | claim {w : Tenure β σ} {before after : List (Post β)} {i : UInt64} {b : β} {q : PersistentQueue}
      {s : σ} (hWorkers : w.workers = before ++ .called :: after)
      (hRun : d.run w.queue.client (w.queue.claim codec) w.store = ((.item (some i) b, q), s)) :
      Step d codec storage w (shown d w.queue.client (w.queue.claim codec) w.store ++ [.claimed i])
        { w with store := s, queue := q, workers := before ++ .sending i b :: after }
  | miss {w : Tenure β σ} {before after : List (Post β)} {q : PersistentQueue} {s : σ}
      (hWorkers : w.workers = before ++ .called :: after)
      (hRun : d.run w.queue.client (w.queue.claim codec) w.store = ((.nothing, q), s)) :
      Step d codec storage w (shown d w.queue.client (w.queue.claim codec) w.store)
        { w with store := s, queue := q, workers := before ++ .free :: after }
  | give {w : Tenure β σ} {before after : List (Post β)} {q : PersistentQueue} {s : σ}
      (hWorkers : w.workers = before ++ .called :: after)
      (hRun : d.run w.queue.client (w.queue.claim codec) w.store = ((.over, q), s)) :
      Step d codec storage w (shown d w.queue.client (w.queue.claim codec) w.store)
        { w with store := s, queue := q, workers := before ++ .left :: after }
  | acknowledge {w : Tenure β σ} {before after : List (Post β)} {i : UInt64} {b : β}
      {q : PersistentQueue} {s : σ} (hWorkers : w.workers = before ++ .sending i b :: after)
      (outcome : Outcome)
      (hRun : d.run w.queue.client (w.queue.acknowledge i outcome) w.store = (q, s)) :
      Step d codec storage w
        (shown d w.queue.client (w.queue.acknowledge i outcome) w.store ++ [.acknowledged i])
        { w with store := s, queue := q, workers := before ++ .free :: after }
  | retire {w : Tenure β σ} (hFirst : w.queue.retired = false)
      (hStarted : w.launch = .idle ∨ ∃ client, w.launch = .over client) :
      Step d codec storage w [] { w with queue := w.queue.retire, closing := .retired }
  | retireAgain {w : Tenure β σ} (hLater : w.queue.retired = true) : Step d codec storage w [] w
  | stop {w : Tenure β σ} (hRetired : w.closing = .retired) :
      Step d codec storage w [.halted] { w with queue := w.queue.stop, closing := .stopped }
  | dismiss {w : Tenure β σ} (hStopped : w.closing = .stopped) :
      Step d codec storage w [] { w with queue := w.queue.dismiss, closing := .dismissed }
  | detach {w : Tenure β σ} {q : PersistentQueue} {s : σ} (hDismissed : w.closing = .dismissed)
      (hLeft : ∀ x ∈ w.workers, x = .left)
      (hRun : d.run w.queue.client w.queue.detach w.store = (q, s)) :
      Step d codec storage w (shown d w.queue.client w.queue.detach w.store ++ [.returned])
        { w with store := s, queue := q, closing := .returned }

/-- The runs from a state, with what showed of their steps, in order. -/
inductive Runs (d : Depot σ) (codec : Codec β) (storage : ComponentId) (origin : Tenure β σ) :
    List Event → Tenure β σ → Prop
  | refl : Runs d codec storage origin [] origin
  | step {trace events : List Event} {w w' : Tenure β σ} (prior : Runs d codec storage origin trace w)
      (last : Step d codec storage w events w') : Runs d codec storage origin (trace ++ events) w'

/-! ## Without a break -/

section Unbroken

variable {d : Depot σ} {codec : Codec β} {storage : ComponentId} {w : Tenure β σ} {q : PersistentQueue}
  {s : σ}

theorem Runs.single {w' : Tenure β σ} {events : List Event} (h : Step d codec storage w events w') :
    Runs d codec storage w events w' := .step .refl h

/-- A start that nobody disturbs ends as the start of the queue does. -/
theorem runs_start {answer : Except QueueError Bool} (hIdle : w.launch = .idle)
    (hRunning : w.closing = .none)
    (hStart : (SendingQueue.persistent storage w.queue).start d codec w.store =
      (answer, .persistent storage q, s)) :
    ∃ trace launch, Runs d codec storage w trace { w with store := s, queue := q, launch := launch } := by
  rw [SendingQueue.start] at hStart
  rcases hOpen : d.openClient storage w.store with ⟨e | client, s₁⟩
  · rw [hOpen] at hStart
    cases hStart
    exact ⟨_, _, .single (.openNone hIdle hRunning hOpen)⟩
  · have hOpened : Runs d codec storage w _ _ := .single (.openClient hIdle hRunning hOpen)
    rw [hOpen] at hStart
    rcases hRun : d.run (some client) (w.queue.start codec client) s₁ with ⟨⟨e | _, q₂⟩, s₂⟩
    · simp only [hRun] at hStart
      cases hStart
      exact ⟨_, _, hOpened.step (.loadNone rfl hRun)⟩
    · simp only [hRun] at hStart
      cases hStart
      exact ⟨_, _, hOpened.step (.load rfl hRun)⟩

/-- An offer that nobody disturbs ends as an offer to the queue does. -/
theorem runs_offer {answer : Except QueueError PersistentQueue} {value : Bytes}
    (hOffer : d.run w.queue.client (w.queue.offer value) w.store = (answer, s)) :
    ∃ trace, Runs d codec storage w trace
      { w with store := s, queue := answer.toOption.getD w.queue } := by
  rw [PersistentQueue.offer] at hOffer
  cases hRetired : w.queue.retired with
  | true =>
      rw [hRetired, if_pos rfl] at hOffer
      cases hOffer
      exact ⟨_, .refl⟩
  | false =>
      have hNone : w.offers ++ [] = w.offers := List.append_nil _
      have hEntered : Runs d codec storage w _ _ := .single (.enter value hRetired)
      rw [hRetired, if_neg Bool.false_ne_true, Depot.run, PersistentQueue.offerEntered,
        Access.run_bind] at hOffer
      rcases hRun : d.run w.queue.client (w.queue.offerLocked value) w.store with ⟨e | q, s₁⟩
      · rw [Depot.run] at hRun
        rw [hRun] at hOffer
        cases hOffer
        have hRefused := hEntered.step (.refuse rfl hRun)
        rw [hNone] at hRefused
        exact ⟨_, hRefused⟩
      · rw [Depot.run] at hRun
        rw [hRun] at hOffer
        cases hOffer
        have hStored := (hEntered.step (.store rfl hRun)).step (.wake (Nat.succ_pos _))
        rw [hNone] at hStored
        exact ⟨_, hStored⟩

end Unbroken

/-! ## Who holds the client -/

/-- The running queue holds the client, and so does every worker that is sending. Nobody is left to use it
once the shutdown has returned. -/
structure Sound (w : Tenure β σ) : Prop where
  client : w.queue.client = if w.closing = .returned then none else w.launch.attached?
  references : w.queue.client.isSome = true → w.queue.references = w.sending.length + 1
  retired : w.queue.retired = decide (w.closing ≠ .none)
  stopped : w.queue.stopped = w.closing.isStopped
  closed : w.queue.closed = w.closing.isDismissed
  staffed : (∀ client, w.launch ≠ .over (some client)) → w.workers = []
  settled : w.closing ≠ .none → w.launch = .idle ∨ ∃ client, w.launch = .over client
  left : w.closing = .returned → ∀ x ∈ w.workers, x = .left

variable {d : Depot σ} {codec : Codec β} {storage : ComponentId} {w w' : Tenure β σ}
  {events : List Event} {q : PersistentQueue} {s : σ} {before after workers : List (Post β)}
  {x y : Post β}

theorem sound_fresh (capacity : Nat) (s : σ) : Sound (fresh capacity s : Tenure β σ) where
  client := rfl
  references := fun h => absurd h Bool.false_ne_true
  retired := rfl
  stopped := rfl
  closed := rfl
  staffed := fun _ => rfl
  settled := fun h => absurd rfl h
  left := fun h => nomatch h

theorem filterMap_index?_middle (x : Post β) :
    (before ++ x :: after).filterMap Post.index? =
      before.filterMap Post.index? ++ (x.index?.toList ++ after.filterMap Post.index?) := by
  rw [List.filterMap_append, List.filterMap_cons]
  cases x.index? <;> rfl

namespace Sound

theorem launch_of_mem (h : Sound w) (hMem : x ∈ w.workers) : ∃ client, w.launch = .over (some client) := by
  by_contra hNone
  rw [h.staffed (not_exists.mp hNone)] at hMem
  exact absurd hMem List.not_mem_nil

/-- A worker that has not left has a client. -/
theorem isSome_of_mem (h : Sound w) (hMem : x ∈ w.workers) (hThere : x ≠ .left) :
    w.queue.client.isSome = true := by
  obtain ⟨client, hLaunch⟩ := h.launch_of_mem hMem
  have hOpen : w.closing ≠ .returned := fun hReturned => hThere (h.left hReturned x hMem)
  rw [h.client, if_neg hOpen, hLaunch]
  rfl

/-- A worker that is sending is not the only one to hold the client. -/
theorem holds {i : UInt64} {b : β} (h : Sound w) (hWorkers : w.workers = before ++ .sending i b :: after) :
    w.queue.client.isSome = true ∧ 2 ≤ w.queue.references := by
  have hSome := h.isSome_of_mem (x := .sending i b) (by simp [hWorkers]) (by simp)
  have hCount := h.references hSome
  rw [sending, hWorkers, filterMap_index?_middle] at hCount
  simp only [Post.index?, Option.toList_some, List.length_append, List.length_singleton] at hCount
  exact ⟨hSome, by omega⟩

/-- A step in the middle of the life of the queue, after which the client is the same. -/
theorem adjust {offers : List Bytes} {owed : Nat} (h : Sound w) (hClient : q.client = w.queue.client)
    (hReferences : w.queue.client.isSome = true →
      q.references = (workers.filterMap Post.index?).length + 1)
    (hStopped : q.stopped = w.queue.stopped) (hClosed : q.closed = w.queue.closed)
    (hRetired : q.retired = w.queue.retired) (hStaffed : w.workers = [] → workers = [])
    (hLeft : (∀ x ∈ w.workers, x = .left) → ∀ x ∈ workers, x = .left) :
    Sound ⟨s, q, w.launch, offers, owed, workers, w.closing⟩ where
  client := hClient.trans h.client
  references := fun hSome => hReferences (hClient ▸ hSome)
  retired := hRetired.trans h.retired
  stopped := hStopped.trans h.stopped
  closed := hClosed.trans h.closed
  staffed := fun hNone => hStaffed (h.staffed hNone)
  settled := h.settled
  left := fun hReturned => hLeft (h.left hReturned)

/-- A start that is under way was not overtaken by a shutdown. -/
theorem running_of_launch (h : Sound w) (hBegun : w.launch ≠ .idle)
    (hUnderWay : ∀ client, w.launch ≠ .over client) : w.closing = .none := by
  by_contra hClosing
  rcases h.settled hClosing with hIdle | ⟨client, hOver⟩
  · exact hBegun hIdle
  · exact hUnderWay client hOver

/-- A step of the start, before any shutdown. -/
theorem progress {launch : Launch} (h : Sound w) (hRunning : w.closing = .none)
    (hClient : q.client = launch.attached?)
    (hReferences : q.client.isSome = true →
      q.references = (workers.filterMap Post.index?).length + 1)
    (hStopped : q.stopped = w.queue.stopped) (hClosed : q.closed = w.queue.closed)
    (hRetired : q.retired = w.queue.retired)
    (hStaffed : (∀ client, launch ≠ .over (some client)) → workers = []) :
    Sound { w with store := s, queue := q, launch := launch, workers := workers } where
  client := by
    rw [hRunning]
    exact hClient
  references := hReferences
  retired := hRetired.trans h.retired
  stopped := hStopped.trans h.stopped
  closed := hClosed.trans h.closed
  staffed := hStaffed
  settled := fun hNot => absurd hRunning hNot
  left := fun hReturned => by
    rw [hRunning] at hReturned
    cases hReturned

/-- The start has taken over what is stored, or has failed at it. -/
theorem load {client : Nat} {launch : Launch} (h : Sound w) (hOpened : w.launch = .opened client)
    (hAlike : (w.queue.opened client).HeldAlike q) (hLaunch : launch.attached? = some client) :
    Sound { w with store := s, queue := q, launch := launch } := by
  have hNone : w.workers = [] := h.staffed fun client' => by simp [hOpened]
  have hRunning := h.running_of_launch (by simp [hOpened]) (by simp [hOpened])
  refine h.progress hRunning (hAlike.client.trans hLaunch.symm) (fun _ => ?_) hAlike.stopped
    hAlike.closed hAlike.retired fun _ => hNone
  rw [hAlike.references, hNone]
  rfl

/-- A step of the shutdown before its end. -/
theorem close {closing : Closing} (h : Sound w) (hBefore : w.closing ≠ .returned)
    (hAfter : closing ≠ .returned) (hClient : q.client = w.queue.client)
    (hReferences : q.references = w.queue.references)
    (hRetired : q.retired = decide (closing ≠ .none)) (hStopped : q.stopped = closing.isStopped)
    (hClosed : q.closed = closing.isDismissed)
    (hSettled : w.launch = .idle ∨ ∃ client, w.launch = .over client) :
    Sound { w with queue := q, closing := closing } where
  client := by
    rw [if_neg hAfter, hClient, h.client, if_neg hBefore]
  references := by
    rw [hClient, hReferences]
    exact h.references
  retired := hRetired
  stopped := hStopped
  closed := hClosed
  staffed := h.staffed
  settled := fun _ => hSettled
  left := fun hReturned => absurd hReturned hAfter

/-- Once nobody is sending the queue alone holds the client. -/
theorem eq_one_of_left (h : Sound w) (hLeft : ∀ x ∈ w.workers, x = .left)
    (hSome : w.queue.client.isSome = true) : w.queue.references = 1 := by
  have hNone : w.sending = [] := List.filterMap_eq_nil_iff.mpr fun x hx => by rw [hLeft x hx]; rfl
  rw [h.references hSome, hNone]
  rfl

/-- A step of one worker. -/
theorem work (h : Sound w) (hWorkers : w.workers = before ++ x :: after) (hThere : x ≠ .left)
    (hClient : q.client = w.queue.client)
    (hReferences : q.references + x.index?.toList.length = w.queue.references + y.index?.toList.length)
    (hStopped : q.stopped = w.queue.stopped) (hClosed : q.closed = w.queue.closed)
    (hRetired : q.retired = w.queue.retired) :
    Sound { w with store := s, queue := q, workers := before ++ y :: after } := by
  refine h.adjust hClient (fun hSome => ?_) hStopped hClosed hRetired ?_ ?_
  · have hCount := h.references hSome
    rw [sending, hWorkers, filterMap_index?_middle] at hCount
    rw [filterMap_index?_middle]
    simp only [List.length_append] at hCount ⊢
    omega
  · intro hNone
    exact absurd (hWorkers.symm.trans hNone) (by simp)
  · intro hLeft
    exact absurd (hLeft x (by simp [hWorkers])) hThere

end Sound

theorem Step.sound (hStep : Step d codec storage w events w') (h : Sound w) : Sound w' := by
  have hIdle : w.launch = .idle → w.closing = .none → w.queue.client = none := by
    intro hLaunch hRunning
    rw [h.client, hRunning, hLaunch]
    rfl
  cases hStep with
  | drift s =>
      exact h.adjust rfl h.references rfl rfl rfl id id
  | openClient hLaunch hRunning hOpen =>
      exact h.progress hRunning (hIdle hLaunch hRunning) h.references rfl rfl rfl
        fun _ => h.staffed (by simp [hLaunch])
  | openNone hLaunch hRunning hOpen =>
      exact h.progress hRunning (hIdle hLaunch hRunning) h.references rfl rfl rfl
        fun _ => h.staffed (by simp [hLaunch])
  | load hOpened hRun => exact h.load hOpened (PersistentQueue.heldAlike_of_start hRun) rfl
  | loadNone hOpened hRun => exact h.load hOpened (PersistentQueue.heldAlike_of_start hRun) rfl
  | @staff client hLoaded count =>
      have hRunning := h.running_of_launch (by simp [hLoaded]) (by simp [hLoaded])
      have hNone : w.workers = [] := h.staffed fun client' => by simp [hLoaded]
      have hClient : w.queue.client = some client := by
        rw [h.client, hRunning, hLoaded]
        rfl
      have hReferences := h.references (by rw [hClient]; rfl)
      rw [sending, hNone] at hReferences
      refine h.progress hRunning hClient (fun _ => ?_) rfl rfl rfl fun hNot => absurd rfl (hNot client)
      rw [hReferences, List.filterMap_replicate_of_none rfl]
      rfl
  | enter value hOpen => exact h.adjust rfl h.references rfl rfl rfl id id
  | store hOffers hRun =>
      obtain ⟨hRoom, rfl⟩ := PersistentQueue.stored_of_run hRun
      exact h.adjust rfl h.references rfl rfl rfl id id
  | refuse hOffers hRun => exact h.adjust rfl h.references rfl rfl rfl id id
  | wake hOwed => exact h.adjust rfl h.references rfl rfl rfl id id
  | call hWorkers hOpen hPermit =>
      rw [PersistentQueue.takePermit] at hPermit
      split at hPermit
      · cases hPermit
        exact h.work hWorkers (by simp) rfl rfl rfl rfl rfl
      · cases hPermit
  | leave hWorkers hClosed => exact h.work hWorkers (by simp) rfl rfl rfl rfl rfl
  | claim hWorkers hRun =>
      cases PersistentQueue.claimed_of_run hRun with
      | item hOpen hWaiting => exact h.work hWorkers (by simp) rfl rfl rfl rfl rfl
  | miss hWorkers hRun =>
      cases PersistentQueue.claimed_of_run hRun with
      | caughtUp hOpen hSame => exact h.work hWorkers (by simp) rfl rfl rfl rfl rfl
      | dropped hWaiting => exact h.work hWorkers (by simp) rfl rfl rfl rfl rfl
  | give hWorkers hRun =>
      cases PersistentQueue.claimed_of_run hRun with
      | shut hShut => exact h.work hWorkers (by simp) rfl rfl rfl rfl rfl
  | @acknowledge before after i b q s hWorkers outcome hRun =>
      obtain ⟨hClient, hMore⟩ := h.holds hWorkers
      have hLess : w.queue.references - 1 + 1 = w.queue.references + 0 := by omega
      rcases PersistentQueue.ended_of_run hClient hMore hRun with rfl | rfl
      · exact h.work hWorkers (by simp) rfl hLess rfl rfl rfl
      · exact h.work hWorkers (by simp) rfl hLess rfl rfl rfl
  | retire hFirst hStarted =>
      have hRunning : w.closing = .none := by simpa [h.retired] using hFirst
      exact h.close (by simp [hRunning]) (by simp) rfl rfl rfl (h.stopped.trans (by rw [hRunning]; rfl))
        (h.closed.trans (by rw [hRunning]; rfl)) hStarted
  | retireAgain hLater => exact h
  | stop hRetired =>
      exact h.close (by simp [hRetired]) (by simp) rfl rfl (h.retired.trans (by rw [hRetired]; rfl)) rfl
        (h.closed.trans (by rw [hRetired]; rfl)) (h.settled (by simp [hRetired]))
  | dismiss hStopped =>
      exact h.close (by simp [hStopped]) (by simp) rfl rfl (h.retired.trans (by rw [hStopped]; rfl))
        (h.stopped.trans (by rw [hStopped]; rfl)) rfl (h.settled (by simp [hStopped]))
  | @detach q s hDismissed hLeft hRun =>
      have hLast := h.eq_one_of_left hLeft
      have hNone := PersistentQueue.client_of_detach hLast hRun
      obtain ⟨hRetired, hStopped, hClosed⟩ : q.retired = w.queue.retired ∧ q.stopped = w.queue.stopped ∧
          q.closed = w.queue.closed := by
        rcases PersistentQueue.detached_of_run hLast hRun with rfl | rfl <;> exact ⟨rfl, rfl, rfl⟩
      rw [h.retired, hDismissed] at hRetired
      rw [h.stopped, hDismissed] at hStopped
      rw [h.closed, hDismissed] at hClosed
      exact ⟨hNone, by simp [hNone], hRetired, hStopped, hClosed, h.staffed,
        fun _ => h.settled (by simp [hDismissed]), fun _ => hLeft⟩

theorem Runs.sound {trace : List Event} {origin : Tenure β σ}
    (hRuns : Runs d codec storage origin trace w) (hOrigin : Sound origin) : Sound w := by
  induction hRuns with
  | refl => exact hOrigin
  | step prior last ih => exact last.sound ih

end Tenure

end Telemetry.Queue

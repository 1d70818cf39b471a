import Mathlib.Logic.Function.Basic
import Telemetry.Proofs.Queue.Tenure
import Telemetry.Proofs.Storage.Space
import Telemetry.Queue.Line

/-!
# Offers to a persistent queue

An offer is turned away before the lock or under it, or storage refuses its batch, or the batch is stored
and a worker is called for. Where storage carries out a batch of operations as a whole or not at all, so
does the queue with an offer: one that is refused changes nothing, and its batch is dropped once.
-/

namespace Telemetry.Storage

open Text (Bytes)

/-- The values by key once an operation has been carried out. -/
def Operation.apply (values : String → Option Bytes) : Operation → String → Option Bytes
  | get _ => values
  | set key value => Function.update values key (some value)
  | delete key => Function.update values key none

/-- A client that carries out a batch as a whole or not at all, given the values by key. -/
structure Client.Atomic {σ : Type} (client : Client σ) (values : σ → String → Option Bytes) : Prop where
  refused : ∀ {ops : List Operation} {s : σ} {e : StorageError},
    (client.batch ops s).1.outcome = .error e → values (client.batch ops s).2 = values s
  carried : ∀ {ops : List Operation} {s : σ}, (client.batch ops s).1.outcome = .ok () →
    values (client.batch ops s).2 = ops.foldl Operation.apply (values s)

/-- The values of a namespace by key. -/
def Space.values (s : Space) (key : String) : Option Bytes := s.get? key

theorem Space.values_run (s : Space) (ops : List Operation) :
    Space.values (s.run ops).2 = ops.foldl Operation.apply s.values := by
  induction ops generalizing s with
  | nil => rfl
  | cons op rest ih =>
      rw [List.foldl_cons]
      cases op with
      | get key => exact ih s
      | set key value =>
          rw [run_set, ih]
          congr 1
          funext other
          rw [values, get?_insert, Operation.apply, Function.update_apply, values]
      | delete key =>
          rw [run_delete, ih]
          congr 1
          funext other
          rw [values, get?_erase, Operation.apply, Function.update_apply, values]

theorem FatedSpace.atomic_client (fates : Nat → Fate) :
    (FatedSpace.client fates).Atomic fun s => s.space.values := by
  constructor
  case refused =>
    rintro ops ⟨space, k, _ | _⟩ e h
    · cases hFate : fates k with
      | refused e' => rw [batch_refused hFate]
      | carried =>
          rw [batch_carried hFate] at h
          cases h
      | last =>
          rw [batch_last hFate] at h
          cases h
    · rfl
  case carried =>
    rintro ops ⟨space, k, _ | _⟩ h
    · cases hFate : fates k with
      | refused e =>
          rw [batch_refused hFate] at h
          cases h
      | carried =>
          rw [batch_carried hFate]
          exact space.values_run ops
      | last =>
          rw [batch_last hFate]
          exact space.values_run ops
    · cases h

end Telemetry.Storage

namespace Telemetry.Queue

open Storage (Access Client Operation)
open Text (Bytes)

variable {β σ ε ς : Type}

namespace PersistentQueue

variable {q : PersistentQueue} {value : Bytes} {client : Client σ} {d : Depot σ} {number : Nat} {s : σ}

/-! ## What an offer finds -/

/-- The operations that store the bytes of a batch. -/
def putting (q : PersistentQueue) (value : Bytes) : List Operation :=
  [.set writeKey (encodeIndex (q.writeIndex + 1)), .set (itemKey q.writeIndex) value]

/-- A queue that has taken in one more batch, and calls for one more worker. -/
def accepting (q : PersistentQueue) : PersistentQueue :=
  { q with writeIndex := q.writeIndex + 1, size := q.size + 1, permits := q.permits + 1 }

theorem offer_of_retired (hRetired : q.retired = true) (value : Bytes) :
    q.offer value = .done (.error .queueFull) := by
  rw [offer, if_pos hRetired]
  rfl

theorem offer_of_running (hRunning : q.retired = false) (value : Bytes) :
    q.offer value = q.offerEntered value := by
  rw [offer, hRunning, if_neg Bool.false_ne_true]

/-- How an offer ends: the queue has no client any more, or is shut, or full, or storage does not take the
batch, or does. -/
inductive Answered (client : Client σ) (q : PersistentQueue) (value : Bytes) (s : σ) (shut : Bool) :
    Except QueueError PersistentQueue × σ → Prop
  | gone (hShut : shut = true) (hNone : q.client = none) :
      Answered client q value s shut (.error .notStarted, s)
  | shut (hShut : shut = true) : Answered client q value s shut (.error .queueFull, s)
  | full (hFull : q.capacity ≤ q.backlog) : Answered client q value s shut (.error .queueFull, s)
  | failed {e : StorageError} (hFailed : (client.batch (q.putting value) s).1.outcome = .error e) :
      Answered client q value s shut (.error (.storage e), (client.batch (q.putting value) s).2)
  | stored (hOpen : shut = false) (hRoom : q.backlog < q.capacity)
      (hStored : (client.batch (q.putting value) s).1.outcome = .ok ()) :
      Answered client q value s shut (.ok q.accepting, (client.batch (q.putting value) s).2)

theorem refusal?_of_none (hNone : q.client = none) : q.refusal? = some .notStarted := by
  rw [refusal?, hNone]
  rfl

theorem refusal?_of_client (hClient : q.client = some number) :
    q.refusal? = if q.stopped || q.capacity ≤ q.backlog then some .queueFull else none := by
  rw [refusal?, hClient]
  rfl

theorem run_offerEntered_of_refusal {e : QueueError} (hRefusal : q.refusal? = some e) (value : Bytes)
    (client : Client σ) (s : σ) : (q.offerEntered value).run client s = (.error e, s) := by
  rw [offerEntered, offerLocked_of_refusal hRefusal]
  rfl

theorem run_offerEntered_of_room (hRoom : q.refusal? = none) (value : Bytes) (client : Client σ) (s : σ) :
    (q.offerEntered value).run client s =
      (((client.batch (q.putting value) s).1.outcome.map fun _ => q.accepting).mapError .storage,
        (client.batch (q.putting value) s).2) := by
  rw [offerEntered, offerLocked_of_room hRoom, Access.run_bind, Access.run_check, Access.run_check,
    Access.run_batch, ← putting]
  rcases (client.batch (q.putting value) s).1.outcome with e | u
  · rfl
  · rfl

/-- The queue has the client, or was shut down to the end. -/
theorem answered_offerEntered
    (hHeld : q.client = some number ∨ q.client = none ∧ q.stopped = true) (value : Bytes) (s : σ) :
    Answered (d.client number) q value s q.stopped (d.run q.client (q.offerEntered value) s) := by
  rcases hHeld with hClient | ⟨hNone, hStopped⟩
  · have hRefusal := refusal?_of_client hClient
    rw [hClient, Depot.run]
    by_cases hShut : q.stopped = true
    · rw [hShut] at hRefusal ⊢
      rw [run_offerEntered_of_refusal hRefusal]
      exact .shut rfl
    · have hOpen : q.stopped = false := Bool.not_eq_true _ ▸ hShut
      by_cases hFull : q.capacity ≤ q.backlog
      · have hRefused : q.refusal? = some .queueFull := hRefusal.trans (by simp [hFull])
        rw [run_offerEntered_of_refusal hRefused]
        exact .full hFull
      · rw [run_offerEntered_of_room (hRefusal.trans (by simp [hOpen, hFull]))]
        cases hStored : ((d.client number).batch (q.putting value) s).1.outcome with
        | error e =>
            simp only [Option.elim_some, hStored]
            exact .failed hStored
        | ok u =>
            simp only [Option.elim_some, hStored]
            exact .stored hOpen (Nat.lt_of_not_le hFull) hStored
  · rw [Depot.run, run_offerEntered_of_refusal (refusal?_of_none hNone)]
    exact .gone hStopped hNone

theorem answered_offer (hHeld : q.retired = false → q.client = some number)
    (hStopped : q.retired = false → q.stopped = false) (value : Bytes) (s : σ) :
    Answered (d.client number) q value s q.retired (d.run q.client (q.offer value) s) := by
  by_cases hRetired : q.retired = true
  · rw [offer_of_retired hRetired]
    exact .shut hRetired
  · have hRunning : q.retired = false := Bool.not_eq_true _ ▸ hRetired
    have hAnswered := answered_offerEntered (d := d) (.inl (hHeld hRunning)) value s
    rw [offer_of_running hRunning, hRunning, ← hStopped hRunning]
    exact hAnswered

end PersistentQueue

/-! ## What an offer leaves -/

namespace Works

variable {w : Works β σ ε} {n : Nat} {q : PersistentQueue} {storage : ComponentId}
  {rules : SendRules β ε ς} {d : Nat → Depot σ} {codec : Nat → Codec β} {b : β}

theorem setQueue_self {queue : SendingQueue β} (hQueue : (w.line n).queue = some queue) :
    w.setQueue n queue = w := by
  have hLine : { w.line n with queue := some queue } = w.line n := by rw [← hQueue]
  have hLines : w.lines.set n (w.line n) = w.lines := by
    apply List.ext_getElem?
    intro i
    rw [List.getElem?_set]
    split
    · next hSame =>
      subst hSame
      split
      · next hLow => simp [line, List.getD_eq_getElem?_getD, List.getElem?_eq_getElem hLow]
      · next hHigh => rw [List.getElem?_eq_none (by omega)]
    · rfl
  rw [setQueue, setLine, hLine, hLines]

/-- What becomes of an offer to a persistent queue that has answered: a batch that is refused is
dropped. -/
def settle (rules : SendRules β ε ς) (n : Nat) (b : β) (storage : ComponentId) (w : Works β σ ε) :
    Except QueueError PersistentQueue × σ → Except QueueError Unit × Works β σ ε
  | (.ok q, s) => (.ok (), { w with storage := s }.setQueue n (.persistent storage q))
  | (.error e, s) => (.error e, { w with storage := s, outside := rules.dropped n b w.outside })

theorem offer_eq_settle (hQueue : (w.line n).queue = some (.persistent storage q)) (b : β) :
    w.offer rules d codec n b = w.settle rules n b storage
      ((d n).run q.client (q.offer ((codec n).marshal b)) w.storage) := by
  rw [offer, hQueue]
  simp only [SendingQueue.offer]
  rcases (d n).run q.client (q.offer ((codec n).marshal b)) w.storage with ⟨e | q', s⟩
  · simp only [settle]
    rw [setQueue_self (by exact hQueue)]
  · rfl

/-- An offer that was refused has changed nothing, and its batch was dropped once. One that succeeded has
stored its batch under the write index, and nothing was dropped. -/
def Settled (rules : SendRules β ε ς) (values : σ → String → Option Bytes) (codec : Codec β) (n : Nat)
    (b : β) (storage : ComponentId) (q : PersistentQueue) (w : Works β σ ε) :
    Except QueueError Unit × Works β σ ε → Prop
  | (.error _, w') => w'.lines = w.lines ∧ values w'.storage = values w.storage ∧
      w'.outside = rules.dropped n b w.outside
  | (.ok (), w') => w'.lines = (w.setQueue n (.persistent storage q.accepting)).lines ∧
      (∀ key, values w'.storage key =
        if key = writeKey then some (encodeIndex (q.writeIndex + 1))
        else if key = itemKey q.writeIndex then some (codec.marshal b)
        else values w.storage key) ∧
      w'.outside = w.outside

variable {client : Client σ} {values : σ → String → Option Bytes} {shut : Bool}
  {answer : Except QueueError PersistentQueue × σ}

theorem settled_of_answered (hAtomic : client.Atomic values)
    (h : q.Answered client ((codec n).marshal b) w.storage shut answer) :
    Settled rules values (codec n) n b storage q w (w.settle rules n b storage answer) := by
  cases h with
  | gone hShut hNone => exact ⟨rfl, rfl, rfl⟩
  | shut hShut => exact ⟨rfl, rfl, rfl⟩
  | full hFull => exact ⟨rfl, rfl, rfl⟩
  | failed hFailed => exact ⟨rfl, hAtomic.refused hFailed, rfl⟩
  | stored hOpen hRoom hStored =>
      refine ⟨rfl, fun key => ?_, rfl⟩
      have hValues := congrFun (hAtomic.carried hStored) key
      refine hValues.trans ?_
      simp only [PersistentQueue.putting, List.foldl_cons, List.foldl_nil, Operation.apply,
        Function.update_apply]
      by_cases hWrite : key = writeKey
      · simp [hWrite]
      · simp [hWrite]

theorem settle_eq_ok_iff (h : q.Answered client ((codec n).marshal b) w.storage shut answer) :
    (w.settle rules n b storage answer).1 = .ok () ↔ shut = false ∧ q.backlog < q.capacity ∧
      (client.batch (q.putting ((codec n).marshal b)) w.storage).1.outcome = .ok () := by
  cases h with
  | gone hShut hNone => simp [settle, hShut]
  | shut hShut => simp [settle, hShut]
  | full hFull => simp [settle, Nat.not_lt.mpr hFull]
  | failed hFailed => simp [settle, hFailed]
  | stored hOpen hRoom hStored => simp [settle, setQueue, setLine, hOpen, hRoom, hStored]

end Works

/-! ## Started queues -/

namespace Tenure

variable {d : Depot σ} {codec : Codec β} {storage : ComponentId} {x : Tenure β σ} {number : Nat}

/-- A queue that was given a client has it until a shutdown is over. -/
theorem Sound.held (h : Sound x) (hStarted : x.launch.attached? = some number) :
    x.queue.client = some number ∨ x.queue.client = none ∧ x.queue.stopped = true := by
  by_cases hReturned : x.closing = .returned
  · refine .inr ⟨?_, ?_⟩
    · rw [h.client, if_pos hReturned]
    · rw [h.stopped, hReturned]
      rfl
  · refine .inl ?_
    rw [h.client, if_neg hReturned, hStarted]

/-- A queue that is not retired has not been shut down at all. -/
theorem Sound.closing_of_running (h : Sound x) (hRunning : x.queue.retired = false) :
    x.closing = .none := by
  simpa [h.retired] using hRunning

theorem Sound.stopped_of_running (h : Sound x) (hRunning : x.queue.retired = false) :
    x.queue.stopped = false := by
  rw [h.stopped, h.closing_of_running hRunning]
  rfl

theorem Sound.client_of_running (h : Sound x) (hStarted : x.launch.attached? = some number)
    (hRunning : x.queue.retired = false) : x.queue.client = some number := by
  rw [h.client, h.closing_of_running hRunning, hStarted]
  rfl

end Tenure

namespace Works

variable {w : Works β σ ε} {n : Nat} {storage : ComponentId} {d : Nat → Depot σ} {codec : Nat → Codec β}
  {x : Tenure β σ} {trace : List Tenure.Event} {capacity number : Nat} {s₀ : σ}
  {values : σ → String → Option Bytes}

/-- Whatever has become of a queue that was started, an offer to it changes nothing and drops its batch
once, or stores it and drops nothing. It is taken in just if the queue is not stopped and has room, and
storage carries the batch out. So it is too for an offer that has seen that the queue is not retired when
others have come in between. -/
theorem offer_stores_or_drops (rules : SendRules β ε ς)
    (hRuns : Tenure.Runs (d n) (codec n) storage (Tenure.fresh capacity s₀) trace x)
    (hStarted : x.launch.attached? = some number) (hAtomic : ((d n).client number).Atomic values)
    (hQueue : (w.line n).queue = some (.persistent storage x.queue)) (b : β) :
    let bytes := (codec n).marshal b
    let stored := (((d n).client number).batch (x.queue.putting bytes) w.storage).1.outcome
    let whole := w.offer rules d codec n b
    let rest := w.settle rules n b storage
      ((d n).run x.queue.client (x.queue.offerEntered bytes) w.storage)
    (Settled rules values (codec n) n b storage x.queue w whole ∧
      (whole.1 = .ok () ↔
        x.queue.retired = false ∧ x.queue.backlog < x.queue.capacity ∧ stored = .ok ())) ∧
    (x.queue.retired = false → whole = rest) ∧
    Settled rules values (codec n) n b storage x.queue w rest ∧
      (rest.1 = .ok () ↔
        x.queue.stopped = false ∧ x.queue.backlog < x.queue.capacity ∧ stored = .ok ()) := by
  intro bytes stored whole rest
  have hSound := hRuns.sound (Tenure.sound_fresh capacity s₀)
  have hWhole : whole = _ := offer_eq_settle hQueue b
  have hAnswered := PersistentQueue.answered_offer (d := d n) (hSound.client_of_running hStarted)
    hSound.stopped_of_running bytes w.storage
  have hEntered := PersistentQueue.answered_offerEntered (d := d n) (hSound.held hStarted) bytes w.storage
  refine ⟨⟨?settled, ?ok⟩, ?same, settled_of_answered hAtomic hEntered, settle_eq_ok_iff hEntered⟩
  case settled =>
    rw [hWhole]
    exact settled_of_answered hAtomic hAnswered
  case ok =>
    rw [hWhole]
    exact settle_eq_ok_iff hAnswered
  case same =>
    intro hRunning
    rw [hWhole, PersistentQueue.offer_of_running hRunning]

/-! ## A batch that storage does not take -/

/-- Surroundings that keep the batches that are dropped. -/
def keeping : SendRules Bytes (List Bytes) Unit where
  begin := fun _ _ _ drops => ((), drops)
  canGo := fun _ _ _ => true
  due := fun _ => []
  turn := fun _ _ drops => (.inr (.ok ()), drops)
  answered := fun _ _ _ drops => drops
  dropped := fun _ b drops => drops ++ [b]
  stopped := fun _ _ _ drops => drops

def cellar : ComponentId := ⟨⟨"cellar", by decide⟩, none⟩

/-- The third batch of operations is refused. -/
def thirdRefused (k : Nat) : Storage.Fate := if k = 2 then .refused (.io "no space left") else .carried

/-- Clients of one namespace. -/
def refusingThird : Depot Storage.FatedSpace :=
  ⟨fun _ => Storage.FatedSpace.client thirdRefused, fun _ s => (.ok 0, s)⟩

/-- A queue that has started on an empty namespace. -/
def opening : Tenure Bytes Storage.FatedSpace :=
  ⟨⟨[], 2, false⟩, { PersistentQueue.empty 5 with client := some 0, references := 1 }, .loaded 0, [], 0, [],
    .none⟩

/-- The line of this queue. -/
def openingLine : Works Bytes Storage.FatedSpace (List Bytes) :=
  ⟨[⟨some (.persistent cellar opening.queue), [], [], 0⟩], opening.store, []⟩

theorem runs_opening : ∃ trace, Tenure.Runs refusingThird Codec.plain cellar
    (Tenure.fresh 5 ⟨[], 0, false⟩) trace opening :=
  ⟨_, (Tenure.Runs.single (.openClient rfl rfl rfl)).step (.load rfl rfl)⟩

theorem offer_stores_or_drops_refused :
    (∃ trace, Tenure.Runs refusingThird Codec.plain cellar (Tenure.fresh 5 ⟨[], 0, false⟩) trace opening) ∧
    opening.launch.attached? = some 0 ∧ (openingLine.line 0).queue = some (.persistent cellar opening.queue) ∧
    ∃ w', openingLine.offer keeping (fun _ => refusingThird) (fun _ => Codec.plain) 0 [7] =
        (.error (.storage (.io "no space left")), w') ∧
      w'.lines = openingLine.lines ∧ w'.storage.space.values = openingLine.storage.space.values ∧
      w'.outside = [[7]] := by
  obtain ⟨trace, hRuns⟩ := runs_opening
  have hAtomic := Storage.FatedSpace.atomic_client thirdRefused
  have hOffer := @offer_stores_or_drops _ _ _ _ openingLine 0 cellar (fun _ => refusingThird)
    (fun _ => Codec.plain) _ _ _ _ _ _ keeping hRuns rfl hAtomic rfl [7]
  exact ⟨⟨trace, hRuns⟩, rfl, rfl, _, rfl, hOffer.1.1⟩

end Works

end Telemetry.Queue

import Telemetry.Proofs.Queue.Recovery

/-!
# What a queue does under its lock

Each thing that a persistent queue does under its lock is a program of few batches of operations. On a
namespace that refuses nothing, what a program gives and leaves is said here, and so is what is left
when the process dies on the way.
-/

namespace Telemetry.Storage.Access

variable {α σ : Type} {client : Client σ}

@[simp] theorem cut_done (a : α) (k : Nat) (s : σ) : (done a).cut client k s = s := rfl

@[simp] theorem cut_check (holds : Bool) (next : Access α) (k : Nat) (s : σ) :
    (check holds next).cut client k s = next.cut client k s := rfl

theorem cut_batch_of_le {ops : List Operation} {next : Except StorageError Reads → Access α}
    {k : Nat} (h : k ≤ ops.length) (s : σ) :
    (batch ops next).cut client k s = (client.batch (ops.take k) s).2 := if_pos h

theorem cut_batch_of_lt {ops : List Operation} {next : Except StorageError Reads → Access α}
    {k : Nat} (h : ops.length < k) (s : σ) :
    (batch ops next).cut client k s =
      (next ((client.batch ops s).1.outcome.map fun _ => (client.batch ops s).1.reads)).cut client
        (k - ops.length) (client.batch ops s).2 := if_neg (by omega)

/-- What a program makes of its result in the end does not show. -/
theorem cut_bind_done {β : Type} (p : Access α) (f : α → β) (k : Nat) (s : σ) :
    (p >>= fun a => done (f a)).cut client k s = p.cut client k s := by
  change (p.bind fun a => done (f a)).cut client k s = _
  induction p generalizing k s with
  | done a => rfl
  | batch ops next ih =>
      rcases Nat.lt_or_ge ops.length k with hLt | hLe
      · rw [bind, cut_batch_of_lt hLt, cut_batch_of_lt hLt]
        exact ih _ _ _
      · rw [bind, cut_batch_of_le hLe, cut_batch_of_le hLe]
  | close next ih => exact ih k (client.close s)
  | check holds next ih => exact ih k s

end Telemetry.Storage.Access

/-- Whether a batch was held up by a shutdown only, so that it stays where it is stored. -/
def Telemetry.Outcome.isShutdown : Outcome → Bool
  | .error e => e.isShutdown
  | .ok () => false

namespace Telemetry.Queue.PersistentQueue

open Storage (Access Operation Space)
open Text (Bytes)

variable {β : Type} {codec : Codec β} {q : PersistentQueue} {s : Space}

/-! ## Offers -/

theorem offerLocked_of_refusal {e : QueueError} (h : q.refusal? = some e) (value : Bytes) :
    q.offerLocked value = .check q.subtracts (.done (.error e)) := by
  rw [offerLocked, h]
  rfl

theorem offerLocked_of_room (h : q.refusal? = none) (value : Bytes) :
    q.offerLocked value = .check q.subtracts (.check (hasNext q.writeIndex) (.batch
      [.set writeKey (encodeIndex (q.writeIndex + 1)), .set (itemKey q.writeIndex) value] fun answer =>
        .done ((answer.map fun _ => q.grown (q.writeIndex + 1) 1).mapError .storage))) := by
  rw [offerLocked, h]
  rfl

theorem run_offerLocked_of_room (h : q.refusal? = none) (value : Bytes) (s : Space) :
    (q.offerLocked value).run Space.client s =
      (.ok (q.grown (q.writeIndex + 1) 1), afterPut s q.writeIndex value) := by
  rw [offerLocked_of_room h]
  rfl

/-- A process that dies while it stores a batch has done nothing, or has moved the write index, or is
through with it. -/
theorem cut_offerLocked_of_room (h : q.refusal? = none) (value : Bytes) (s : Space) (k : Nat) :
    (q.offerLocked value).cut Space.client k s =
      match k with
      | 0 => s
      | 1 => s.insert writeKey (encodeIndex (q.writeIndex + 1))
      | _ + 2 => afterPut s q.writeIndex value := by
  rw [offerLocked_of_room h]
  match k with
  | 0 | 1 | 2 => rfl
  | k + 3 => rw [Access.cut_check, Access.cut_check, Access.cut_batch_of_lt (by simp)]; rfl

/-! ## Removals -/

/-- A queue that has struck a batch off its list. -/
def struck (q : PersistentQueue) (i : UInt64) : PersistentQueue :=
  { q with dispatched := q.dispatched.filter (· != i) }

theorem run_remove (q : PersistentQueue) (i : UInt64) (s : Space) :
    (q.remove i).run Space.client s = (q.struck i, afterRemoval s q.dispatched i) := rfl

theorem cut_remove (q : PersistentQueue) (i : UInt64) (s : Space) (k : Nat) :
    (q.remove i).cut Space.client k s =
      match k with
      | 0 => s
      | 1 => s.insert dispatchedKey (encodeIndices (q.dispatched.filter (· != i)))
      | _ + 2 => afterRemoval s q.dispatched i := by
  match k with
  | 0 | 1 | 2 => rfl
  | k + 3 =>
    rw [remove, Access.perform]
    refine (Access.cut_batch_of_lt (by simp) s).trans ?_
    rfl

/-! ## Claims -/

/-- A queue that has handed out the next batch. -/
def advanced (q : PersistentQueue) : PersistentQueue :=
  { q with
    readIndex := q.readIndex + 1
    dispatched := q.dispatched ++ [q.readIndex]
    size := q.size - 1 }

/-- What becomes of a claim, given the value under the index. -/
def claimAnswer (codec : Codec β) (q : PersistentQueue) (value : Option Bytes) :
    Access (Found β × PersistentQueue) :=
  match value.bind codec.unmarshal? with
  | some b => .done (.item (some q.readIndex) b,
      { q.advanced with references := q.references + 1 })
  | none => q.advanced.remove q.readIndex >>= fun q => .done (.nothing, q)

theorem claim_of_waiting (hOpen : (q.stopped || q.client.isNone) = false)
    (hWaiting : q.readIndex ≠ q.writeIndex) :
    q.claim codec = .check (hasNext q.readIndex) (.batch [.set readKey (encodeIndex (q.readIndex + 1)),
      .set dispatchedKey (encodeIndices (q.dispatched ++ [q.readIndex])),
      .get (itemKey q.readIndex)] fun answer =>
        q.claimAnswer codec (answer.toOption.bind fun reads => reads.head?.join)) := by
  rw [claim, hOpen, if_neg Bool.false_ne_true, if_neg hWaiting]
  refine congrArg (fun next => Access.check _ (Access.batch _ next)) (funext fun answer => ?_)
  rw [claimAnswer]
  cases hFound : (answer.toOption.bind fun reads => reads.head?.join).bind codec.unmarshal? with
  | some b => simp only [Access.bind, hFound]; rfl
  | none => simp only [Access.bind, hFound]; rfl

theorem claim_of_shut (h : (q.stopped || q.client.isNone) = true) :
    q.claim codec = .done (.over, q) := by
  rw [claim, if_pos h]
  rfl

theorem claim_of_caught_up (hOpen : (q.stopped || q.client.isNone) = false)
    (h : q.readIndex = q.writeIndex) : q.claim codec = .done (.nothing, q) := by
  rw [claim, hOpen, if_neg Bool.false_ne_true, if_pos h]
  rfl

theorem claimAnswer_of_item {value : Option Bytes} {b : β}
    (h : value.bind codec.unmarshal? = some b) :
    q.claimAnswer codec value =
      .done (.item (some q.readIndex) b, { q.advanced with references := q.references + 1 }) := by
  rw [claimAnswer, h]

theorem claimAnswer_of_hole {value : Option Bytes} (h : value.bind codec.unmarshal? = none) :
    q.claimAnswer codec value =
      q.advanced.remove q.readIndex >>= fun q => .done (.nothing, q) := by
  rw [claimAnswer, h]

section Waiting

variable (hOpen : (q.stopped || q.client.isNone) = false) (hWaiting : q.readIndex ≠ q.writeIndex)
include hOpen hWaiting

theorem run_claim_of_waiting (s : Space) :
    (q.claim codec).run Space.client s =
      (q.claimAnswer codec (s.get? (itemKey q.readIndex))).run Space.client
        (afterClaim s q.readIndex q.dispatched) := by
  have hValue := get?_afterClaim s q.readIndex q.dispatched q.readIndex
  rw [claim_of_waiting hOpen hWaiting, ← hValue]
  rfl

theorem run_claim_of_item {b : β} (h : batchAt codec s q.readIndex = some b) :
    (q.claim codec).run Space.client s =
      ((.item (some q.readIndex) b, { q.advanced with references := q.references + 1 }),
        afterClaim s q.readIndex q.dispatched) := by
  rw [run_claim_of_waiting hOpen hWaiting, claimAnswer_of_item h, Access.run_done]

/-- An index without a batch is listed and struck off again. -/
theorem run_claim_of_hole (h : batchAt codec s q.readIndex = none) :
    (q.claim codec).run Space.client s =
      ((.nothing, q.advanced.struck q.readIndex),
        afterRemoval (afterClaim s q.readIndex q.dispatched) (q.dispatched ++ [q.readIndex])
          q.readIndex) := by
  rw [run_claim_of_waiting hOpen hWaiting, claimAnswer_of_hole h, Access.run_bind, run_remove]
  rfl

/-- A process that dies while it hands a batch out has done nothing, or has moved the read index, or
has the batch listed, or is on its way to remove what turned out to be no batch. -/
theorem cut_claim_of_waiting (s : Space) (k : Nat) :
    (q.claim codec).cut Space.client k s =
      match k with
      | 0 => s
      | 1 => s.insert readKey (encodeIndex (q.readIndex + 1))
      | 2 | 3 => afterClaim s q.readIndex q.dispatched
      | k + 4 =>
        match batchAt codec s q.readIndex with
        | some _ => afterClaim s q.readIndex q.dispatched
        | none => (q.advanced.remove q.readIndex).cut Space.client (k + 1)
            (afterClaim s q.readIndex q.dispatched) := by
  have hValue := get?_afterClaim s q.readIndex q.dispatched q.readIndex
  rw [claim_of_waiting hOpen hWaiting]
  match k with
  | 0 | 1 | 2 | 3 => rfl
  | k + 4 =>
    rw [Access.cut_check, Access.cut_batch_of_lt (by simp)]
    change (q.claimAnswer codec ((afterClaim s q.readIndex q.dispatched).get?
      (itemKey q.readIndex))).cut Space.client (k + 1) _ = _
    rw [hValue]
    cases hFound : batchAt codec s q.readIndex with
    | some b =>
      rw [claimAnswer_of_item hFound, Access.cut_done]
      rfl
    | none =>
      rw [claimAnswer_of_hole hFound, Access.cut_bind_done]
      rfl

end Waiting

/-- What a claim comes to: there is nothing to hand out, or the batch at the read index is handed out,
or there is none and the index is passed over. -/
inductive ClaimCase (codec : Codec β) (q : PersistentQueue) (s : Space) : Prop
  | idle (found : Found β) (hFound : ∀ i b, found ≠ .item i b)
      (hIdle : (q.stopped || q.client.isNone) = true ∨ q.readIndex = q.writeIndex)
      (hClaim : q.claim codec = .done (found, q))
  | item (b : β) (hOpen : (q.stopped || q.client.isNone) = false)
      (hWaiting : q.readIndex ≠ q.writeIndex) (hBatch : batchAt codec s q.readIndex = some b)
  | hole (hOpen : (q.stopped || q.client.isNone) = false)
      (hWaiting : q.readIndex ≠ q.writeIndex) (hBatch : batchAt codec s q.readIndex = none)

theorem claim_cases (codec : Codec β) (q : PersistentQueue) (s : Space) : ClaimCase codec q s := by
  cases hOpen : q.stopped || q.client.isNone with
  | true => exact .idle .over (fun _ _ hEq => nomatch hEq) (.inl hOpen) (claim_of_shut hOpen)
  | false =>
      by_cases hWaiting : q.readIndex = q.writeIndex
      · exact .idle .nothing (fun _ _ hEq => nomatch hEq) (.inr hWaiting)
          (claim_of_caught_up hOpen hWaiting)
      · cases hBatch : batchAt codec s q.readIndex with
        | some b => exact .item b hOpen hWaiting hBatch
        | none => exact .hole hOpen hWaiting hBatch

/-! ## Ends of sendings -/

def released (q : PersistentQueue) : PersistentQueue := { q with references := q.references - 1 }

theorem unref_of_more (h : 2 ≤ q.references) : q.unref = .done q.released := by
  have hLeft : (q.references - 1 = 0) = False := by
    rw [eq_iff_iff, iff_false]
    omega
  rw [unref]
  simp only [hLeft, decide_false, Bool.false_and, Bool.false_eq_true, if_false]
  rfl

/-- The last reference takes the client along. -/
theorem unref_of_last (h : q.references = 1) (hClient : q.client.isSome = true) :
    q.unref = .close (.done { q.released with client := none }) := by
  rw [unref]
  simp only [h, hClient, Nat.sub_self, decide_true, Bool.and_true, if_true]
  rw [released, h]
  rfl

theorem acknowledge_of_kept {outcome : Outcome} (h : outcome.isShutdown = true) (i : UInt64) :
    q.acknowledge i outcome = q.unref := by
  cases outcome with
  | ok u => exact absurd h Bool.noConfusion
  | error e =>
      have hKeep : e.isShutdown = true := h
      rw [acknowledge]
      simp only [hKeep, Bool.true_or, if_true]
      rfl

theorem acknowledge_of_over {outcome : Outcome} (h : outcome.isShutdown = false)
    (hClient : q.client.isSome = true) (i : UInt64) :
    q.acknowledge i outcome = q.remove i >>= fun q => q.unref := by
  have hNone : q.client.isNone = false := by rw [← Option.not_isSome, hClient]; rfl
  cases outcome with
  | ok u =>
      rw [acknowledge]
      simp only [hNone, Bool.or_self, Bool.false_eq_true, if_false]
  | error e =>
      have hKeep : e.isShutdown = false := h
      rw [acknowledge]
      simp only [hKeep, hNone, Bool.or_self, Bool.false_eq_true, if_false]

theorem run_acknowledge_of_kept {outcome : Outcome} (h : outcome.isShutdown = true)
    (hMore : 2 ≤ q.references) (i : UInt64) (s : Space) :
    (q.acknowledge i outcome).run Space.client s = (q.released, s) := by
  rw [acknowledge_of_kept h, unref_of_more hMore, Access.run_done]

theorem run_acknowledge_of_over {outcome : Outcome} (h : outcome.isShutdown = false)
    (hClient : q.client.isSome = true) (hMore : 2 ≤ q.references) (i : UInt64) (s : Space) :
    (q.acknowledge i outcome).run Space.client s =
      ((q.struck i).released, afterRemoval s q.dispatched i) := by
  have hStruck : 2 ≤ (q.struck i).references := hMore
  rw [acknowledge_of_over h hClient, Access.run_bind, run_remove, unref_of_more hStruck,
    Access.run_done]

theorem cut_acknowledge_of_kept {outcome : Outcome} (h : outcome.isShutdown = true)
    (hMore : 2 ≤ q.references) (i : UInt64) (s : Space) (k : Nat) :
    (q.acknowledge i outcome).cut Space.client k s = s := by
  rw [acknowledge_of_kept h, unref_of_more hMore, Access.cut_done]

theorem cut_acknowledge_of_over {outcome : Outcome} (h : outcome.isShutdown = false)
    (hClient : q.client.isSome = true) (hMore : 2 ≤ q.references) (i : UInt64) (s : Space)
    (k : Nat) :
    (q.acknowledge i outcome).cut Space.client k s = (q.remove i).cut Space.client k s := by
  have hStruck : (q.struck i).unref = .done (q.struck i).released := unref_of_more hMore
  rw [acknowledge_of_over h hClient, remove, Access.perform]
  change (Access.batch _ _).cut Space.client k s = (Access.batch _ _).cut Space.client k s
  rcases Nat.lt_or_ge 2 k with hLt | hLe
  · rw [Access.cut_batch_of_lt hLt, Access.cut_batch_of_lt hLt]
    change (q.struck i).unref.cut Space.client _ _ = _
    rw [hStruck]
    rfl
  · rw [Access.cut_batch_of_le hLe, Access.cut_batch_of_le hLe]

theorem run_detach (hClient : q.client.isSome = true) (hLast : q.references = 1) (s : Space) :
    q.detach.run Space.client s = ({ q.released with client := none }, s) := by
  rw [detach, if_pos hClient, unref_of_last hLast hClient]
  rfl

theorem detach_of_none (hClient : q.client.isSome = false) : q.detach = .done q := by
  rw [detach, hClient, if_neg Bool.false_ne_true]
  rfl

end Telemetry.Queue.PersistentQueue

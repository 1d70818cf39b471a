import Mathlib.Data.List.Induction
import Telemetry.Proofs.Queue.Clients
import Telemetry.Queue.Sending

/-!
# The order of the indices

A persistent queue tells what waits in it by the difference of its indices, and stores a batch under the
write index before it adds one to it. It checks that the difference is a word, and so is the sum: where one
is not, whoever called for it panics. A start takes the stored indices over before it compares them, and
whatever fails, its client stays; so the order of the indices is lost to what is stored, and the next offer
panics.
-/

namespace Telemetry.Storage.Access

variable {α β σ : Type} {client : Client σ}

/-- Every check that a program comes to holds. -/
def Passes (client : Client σ) : Access α → σ → Prop
  | done _, _ => True
  | batch ops next, s =>
    let (reply, s) := client.batch ops s
    (next (reply.outcome.map fun _ => reply.reads)).Passes client s
  | close next, s => next.Passes client (client.close s)
  | check holds next, s => holds = true ∧ next.Passes client s

theorem passes_bind (p : Access α) (f : α → Access β) (s : σ) :
    (p >>= f).Passes client s ↔
      p.Passes client s ∧ (f (p.run client s).1).Passes client (p.run client s).2 := by
  change (p.bind f).Passes client s ↔ _
  induction p generalizing s with
  | done a => exact (and_iff_right trivial).symm
  | batch ops next ih => exact ih _ _
  | close next ih => exact ih _
  | check holds next ih => exact (and_congr_right fun _ => ih s).trans and_assoc.symm

/-- A program has a result with its checks just if they hold, and then it is the one that it has without
them. -/
theorem attempt_eq_some_iff {p : Access α} {s : σ} {a : α} :
    (p.attempt client s).1 = some a ↔ p.Passes client s ∧ (p.run client s).1 = a := by
  induction p generalizing s with
  | done b => exact Option.some_inj.trans (and_iff_right trivial).symm
  | batch ops next ih => exact ih _
  | close next ih => exact ih
  | check holds next ih =>
      cases holds with
      | true => exact ih.trans (and_congr_left fun _ => (and_iff_right rfl).symm)
      | false => exact iff_of_false (fun hSome => nomatch hSome) fun hPasses => nomatch hPasses.1.1

theorem passes_bind_pure (p : Access α) (f : α → β) (s : σ) :
    (p >>= fun a => pure (f a)).Passes client s ↔ p.Passes client s :=
  (passes_bind p _ s).trans (and_iff_left trivial)

theorem uses_bind_pure (p : Access α) (f : α → β) (s : σ) :
    (p >>= fun a => pure (f a)).uses client s = p.uses client s :=
  (uses_bind p _ s).trans (List.append_nil _)

theorem attempt_of_passes {p : Access α} {s : σ} (h : p.Passes client s) :
    p.attempt client s = (some (p.run client s).1, (p.run client s).2) := by
  induction p generalizing s with
  | done a => rfl
  | batch ops next ih => exact ih _ h
  | close next ih => exact ih h
  | check holds next ih =>
      rw [attempt, if_pos h.1]
      exact ih h.2

end Telemetry.Storage.Access

namespace Telemetry.Queue

open Storage (Access Client Operation Reads Use)
open Text (Bytes)

/-! ## What is stored, and where -/

/-- A batch of operations that stores something under an index and sets the write index to another. -/
def Stores (ops : List Operation) (i next : UInt64) : Prop :=
  ∃ value, ops = [.set writeKey (encodeIndex next), .set (itemKey i) value]

/-- Nothing is stored under the last index that there is. -/
def SparesLast (uses : List Use) : Prop :=
  ∀ ops, .batch ops ∈ uses → ∀ i next, Stores ops i next → i.toNat + 1 < 2 ^ 64

theorem sparesLast_nil : SparesLast [] := fun _ hMem => absurd hMem List.not_mem_nil

theorem sparesLast_batch_cons {ops : List Operation} {uses : List Use} :
    SparesLast (.batch ops :: uses) ↔
      (∀ i next, Stores ops i next → i.toNat + 1 < 2 ^ 64) ∧ SparesLast uses := by
  simp only [SparesLast, List.mem_cons, Use.batch.injEq]
  exact ⟨fun h => ⟨h ops (.inl rfl), fun ops' hMem => h ops' (.inr hMem)⟩,
    fun h ops' hMem => hMem.elim (fun hSame => hSame ▸ h.1) (h.2 ops')⟩

theorem sparesLast_close_cons {uses : List Use} : SparesLast (.close :: uses) ↔ SparesLast uses := by
  simp [SparesLast]

theorem sparesLast_append {uses uses' : List Use} :
    SparesLast (uses ++ uses') ↔ SparesLast uses ∧ SparesLast uses' := by
  simp only [SparesLast, List.mem_append]
  exact ⟨fun h => ⟨fun ops hMem => h ops (.inl hMem), fun ops hMem => h ops (.inr hMem)⟩,
    fun h ops hMem => hMem.elim (h.1 ops) (h.2 ops)⟩

theorem not_stores_of_ne {ops : List Operation}
    (h : ∀ next, ops.head? ≠ some (.set writeKey (encodeIndex next))) (i next : UInt64) :
    ¬ Stores ops i next := by
  rintro ⟨value, rfl⟩
  exact absurd rfl (h next)

theorem stores_put_iff {i j next : UInt64} {value : Bytes} :
    Stores [.set writeKey (encodeIndex (i + 1)), .set (itemKey i) value] j next ↔ i = j ∧ i + 1 = next := by
  constructor
  · rintro ⟨value', hSame⟩
    simp only [List.cons.injEq, Operation.set.injEq, true_and, and_true] at hSame
    exact ⟨itemKey_injective hSame.2.1, encodeIndex_injective hSame.1⟩
  · rintro ⟨rfl, rfl⟩
    exact ⟨value, rfl⟩

theorem hasNext_iff {i : UInt64} : PersistentQueue.hasNext i = true ↔ i.toNat + 1 < 2 ^ 64 :=
  decide_eq_true_iff

theorem hasNext_of_lt {i j : UInt64} (h : i < j) : PersistentQueue.hasNext i = true := by
  have hLow := UInt64.lt_iff_toNat_lt.mp h
  have hHigh := j.toNat_lt
  exact hasNext_iff.mpr (by omega)

/-- A program that stores batches under an index only once it has checked that another index follows, and
checks nothing else. -/
inductive Guarded {α : Type} : Access α → Prop
  | done (a : α) : Guarded (.done a)
  | batch {ops : List Operation} {next : Except StorageError Reads → Access α}
      (hOps : ∀ i j, ¬ Stores ops i j) (hNext : ∀ answer, Guarded (next answer)) :
      Guarded (.batch ops next)
  | store {i : UInt64} {value : Bytes} {next : Except StorageError Reads → Access α}
      (hNext : ∀ answer, Guarded (next answer)) :
      Guarded (.check (PersistentQueue.hasNext i)
        (.batch [.set writeKey (encodeIndex (i + 1)), .set (itemKey i) value] next))
  | close {next : Access α} (hNext : Guarded next) : Guarded (.close next)

variable {α β σ : Type} {codec : Codec β} {client : Client σ} {d : Depot σ}

namespace Guarded

theorem bind {p : Access α} {f : α → Access β} (h : Guarded p) (hNext : ∀ a, Guarded (f a)) :
    Guarded (p >>= f) := by
  change Guarded (p.bind f)
  induction h with
  | done a => exact hNext a
  | batch hOps _ ih => exact .batch hOps ih
  | store _ ih => exact .store ih
  | close _ ih => exact .close ih

theorem perform {ops : List Operation} (h : ∀ next, ops.head? ≠ some (.set writeKey (encodeIndex next))) :
    Guarded (Access.perform ops) := .batch (not_stores_of_ne h) fun r => .done r

/-- The checks of such a program hold just if it stores nothing under the last index. -/
theorem passes_iff {p : Access α} (h : Guarded p) (s : σ) :
    p.Passes client s ↔ SparesLast (p.uses client s) := by
  induction h generalizing s with
  | done a => exact iff_of_true trivial sparesLast_nil
  | batch hOps _ ih =>
      refine (ih _ _).trans (sparesLast_batch_cons.trans ?_).symm
      exact and_iff_right fun i next hStores => absurd hStores (hOps i next)
  | @store i value next _ ih =>
      refine (and_congr ?_ (ih _ _)).trans sparesLast_batch_cons.symm
      simp only [stores_put_iff, hasNext_iff]
      exact ⟨fun hNext j k hSame => hSame.1 ▸ hNext, fun hAll => hAll i (i + 1) ⟨rfl, rfl⟩⟩
  | close _ ih => exact (ih _).trans sparesLast_close_cons.symm

end Guarded

namespace PersistentQueue

variable {q q' : PersistentQueue}

/-! ## Programs -/

theorem guarded_put (q : PersistentQueue) (value : Bytes) : Guarded (q.put value) :=
  .store fun _ => .done _

theorem guarded_putAll (q : PersistentQueue) (values : List (Option Bytes)) :
    Guarded (putAll codec q values) := by
  induction values generalizing q with
  | nil => exact .done _
  | cons v rest ih =>
      cases hv : v.bind codec.unmarshal? with
      | none =>
          rw [putAll_cons_none hv]
          exact ih q
      | some b =>
          rw [putAll_cons_some hv]
          exact (q.guarded_put _).bind fun _ => ih _

theorem guarded_load (q : PersistentQueue) : Guarded q.load :=
  (Guarded.perform (by simp)).bind fun answer => by
    rcases answer with e | reads
    · exact .done _
    · exact .done _

theorem guarded_recover (codec : Codec β) (q : PersistentQueue) : Guarded (q.recover codec) := by
  refine Guarded.bind (.batch (not_stores_of_ne (by simp)) fun _ => .done _) fun answer => ?_
  rcases answer with e | _ | bytes
  · exact .done _
  · exact .done _
  · cases hDecoded : decodeIndices bytes with
    | error e =>
        simp only [hDecoded]
        exact .done _
    | ok indices =>
        rcases indices with _ | ⟨i, rest⟩
        · simp only [hDecoded]
          exact .done _
        · simp only [hDecoded]
          refine (Guarded.perform (by simp)).bind fun answer => ?_
          rcases answer with e | values
          · exact .done _
          · refine (guarded_putAll _ _).bind fun _ => ?_
            exact (Guarded.perform (by simp)).bind fun _ => .done _

theorem guarded_remove (q : PersistentQueue) (i : UInt64) : Guarded (q.remove i) := by
  refine (Guarded.perform (by simp)).bind fun answer => ?_
  rcases answer with e | reads
  · exact .batch (not_stores_of_ne (by simp)) fun _ =>
      .batch (not_stores_of_ne (by simp)) fun _ => .done _
  · exact .done _

theorem guarded_unref (q : PersistentQueue) : Guarded q.unref := by
  rw [unref]
  dsimp only
  split
  · exact .close (.done _)
  · exact .done _

/-- The end of a sending removes the batch first, or does not. -/
theorem acknowledge_cases (q : PersistentQueue) (i : UInt64) (outcome : Outcome) :
    q.acknowledge i outcome = q.unref ∨ q.acknowledge i outcome = q.remove i >>= unref := by
  cases outcome <;> unfold acknowledge <;> dsimp only <;> split
  · exact .inl rfl
  · exact .inr rfl
  · exact .inl rfl
  · exact .inr rfl

theorem guarded_acknowledge (q : PersistentQueue) (i : UInt64) (outcome : Outcome) :
    Guarded (q.acknowledge i outcome) := by
  rcases q.acknowledge_cases i outcome with hEq | hEq <;> rw [hEq]
  · exact q.guarded_unref
  · exact (q.guarded_remove i).bind guarded_unref

theorem guarded_detach (q : PersistentQueue) : Guarded q.detach := by
  rw [detach]
  split
  · exact q.guarded_unref
  · exact .done _

/-! ## The indices -/

/-- The indices are in order just if their difference does not wrap. -/
theorem isOrdered_iff : q.IsOrdered ↔ q.readIndex.toNat + q.backlog = q.writeIndex.toNat := by
  have hRead := q.readIndex.toNat_lt
  have hWrite := q.writeIndex.toNat_lt
  rw [IsOrdered, UInt64.le_iff_toNat_le, backlog, UInt64.toNat_sub]
  omega

/-- A read index that can be read is not past the write index that will go with it: the one that was
found, or the one that the queue has if what was found cannot be read. -/
def FindsOrder (q : PersistentQueue) (read write : Option Bytes) : Prop :=
  ∀ r, storedIndex read = .ok r → r ≤ (storedIndex write).toOption.getD q.writeIndex

theorem isOrdered_takeOver_iff (h : q.IsOrdered) (read write : Option Bytes) :
    (q.takeOver read write).2.IsOrdered ↔ q.FindsOrder read write := by
  rw [takeOver, FindsOrder]
  cases hRead : storedIndex read with
  | error e =>
      refine iff_of_true h fun r hFound => ?_
      cases hFound
  | ok r =>
      have hSingle : ∀ w, (∀ r', (.ok r : Except QueueError UInt64) = .ok r' → r' ≤ w) ↔ r ≤ w :=
        fun w => ⟨fun hAll => hAll r rfl, fun hLe r' hSame => Except.ok.inj hSame ▸ hLe⟩
      rw [hSingle]
      cases hWrite : storedIndex write with
      | error e => exact Iff.rfl
      | ok w =>
          dsimp only
          split <;> exact Iff.rfl

/-- Indices that were taken over without fault are in order. -/
theorem isOrdered_of_takeOver {read write : Option Bytes} (h : q.takeOver read write = (.ok (), q')) :
    q'.IsOrdered := by
  rw [takeOver] at h
  cases hRead : storedIndex read with
  | error e => simp [hRead] at h
  | ok r =>
      cases hWrite : storedIndex write with
      | error e => simp [hRead, hWrite] at h
      | ok w =>
          simp only [hRead, hWrite] at h
          split at h
          · cases h
          · rename_i hOrdered
            cases h
            exact UInt64.not_lt.mp hOrdered

/-- What a queue becomes by a program that stores batches: the read index and the permits stay, and the
write index goes up if the checks hold. -/
structure Follows (q q' : PersistentQueue) (passes : Prop) : Prop where
  read : q'.readIndex = q.readIndex
  permits : q'.permits = q.permits
  write : passes → q.writeIndex ≤ q'.writeIndex

theorem Follows.refl (q : PersistentQueue) (passes : Prop) : Follows q q passes :=
  ⟨rfl, rfl, fun _ => UInt64.le_refl _⟩

theorem Follows.isOrdered {passes : Prop} (h : Follows q q' passes) (hOrdered : q.IsOrdered)
    (hPasses : passes) : q'.IsOrdered := by
  rw [IsOrdered, h.read]
  exact UInt64.le_trans hOrdered (h.write hPasses)

theorem Follows.imp {passes passes' : Prop} (h : Follows q q' passes) (hImp : passes' → passes) :
    Follows q q' passes' := ⟨h.read, h.permits, fun hPasses => h.write (hImp hPasses)⟩

theorem Follows.trans {q'' : PersistentQueue} {passes passes' : Prop} (h : Follows q q' passes)
    (h' : Follows q' q'' passes') : Follows q q'' (passes ∧ passes') where
  read := h'.read.trans h.read
  permits := h'.permits.trans h.permits
  write hPasses := UInt64.le_trans (h.write hPasses.1) (h'.write hPasses.2)

/-- One batch is stored under the write index, and where no index follows, the check fails. -/
theorem follows_put (client : Client σ) (q : PersistentQueue) (value : Bytes) (s : σ) :
    Follows q (((q.put value).run client s).1.toOption.getD q) ((q.put value).Passes client s) := by
  rw [put_eq, Access.run_check, Access.run_batch]
  cases (client.batch _ s).1.outcome with
  | error e => exact .refl q _
  | ok u =>
      refine ⟨rfl, rfl, fun hPasses => ?_⟩
      have hNext := toNat_succ (hasNext_iff.mp hPasses.1)
      change q.writeIndex ≤ q.writeIndex + 1
      rw [UInt64.le_iff_toNat_le, hNext]
      exact Nat.le_succ _

theorem follows_putAll (client : Client σ) (values : List (Option Bytes)) (q : PersistentQueue) (s : σ) :
    Follows q ((putAll codec q values).run client s).1 ((putAll codec q values).Passes client s) := by
  induction values generalizing q s with
  | nil => exact .refl q _
  | cons v rest ih =>
      cases hv : v.bind codec.unmarshal? with
      | none =>
          rw [putAll_cons_none hv]
          exact ih q s
      | some b =>
          rw [putAll_cons_some hv, Access.run_bind, Access.passes_bind]
          exact (follows_put client q _ s).trans (ih _ _)

theorem follows_recover (client : Client σ) (codec : Codec β) (q : PersistentQueue) (s : σ) :
    Follows q ((q.recover codec).run client s).1.2 ((q.recover codec).Passes client s) := by
  rw [recover, Access.run_bind, Access.passes_bind]
  refine Follows.imp ?_ And.right
  generalize (Access.get dispatchedKey).run client s = listed
  obtain ⟨e | _ | bytes, t⟩ := listed
  · exact .refl q _
  · exact .refl q _
  · cases hDecoded : decodeIndices bytes with
    | error e =>
        simp only [hDecoded]
        exact .refl q _
    | ok indices =>
        rcases indices with _ | ⟨i, rest⟩
        · simp only [hDecoded]
          exact .refl q _
        · simp only [hDecoded, Access.run_bind, Access.passes_bind]
          refine Follows.imp ?_ And.right
          generalize (Access.perform _).run client t = reads
          obtain ⟨e | values, t⟩ := reads
          · exact .refl q _
          · simp only [Access.run_bind, Access.passes_bind, Access.run_pure]
            exact (follows_putAll client values q t).imp And.left

/-! ## Offers -/

theorem subtracts_of_isOrdered (h : q.IsOrdered) : q.subtracts = true := by
  rw [subtracts, decide_eq_true h, Bool.or_true]

/-- An offer for which there is room stores its batch. -/
theorem offerLocked_eq_put (hRoom : q.refusal? = none) (value : Bytes) :
    q.offerLocked value =
      .check q.subtracts (q.put value >>= fun answer => .done (answer.mapError .storage)) :=
  offerLocked_of_room hRoom value

theorem passes_offerLocked_iff (h : q.IsOrdered) (value : Bytes) (client : Client σ) (s : σ) :
    (q.offerLocked value).Passes client s ↔ SparesLast ((q.offerLocked value).uses client s) := by
  have hSubtracts := subtracts_of_isOrdered h
  cases hRoom : q.refusal? with
  | some e =>
      rw [offerLocked_of_refusal hRoom]
      exact iff_of_true ⟨hSubtracts, trivial⟩ sparesLast_nil
  | none =>
      rw [offerLocked_eq_put hRoom]
      exact (and_iff_right hSubtracts).trans
        (((q.guarded_put value).bind fun answer => .done (answer.mapError QueueError.storage)).passes_iff s)

theorem follows_offerLocked (client : Client σ) (q : PersistentQueue) (value : Bytes) (s : σ) :
    Follows q (((q.offerLocked value).run client s).1.toOption.getD q)
      ((q.offerLocked value).Passes client s) := by
  cases hRoom : q.refusal? with
  | some e =>
      rw [offerLocked_of_refusal hRoom]
      exact .refl q _
  | none =>
      have hSame : ∀ answer : Except StorageError PersistentQueue,
          (answer.mapError QueueError.storage).toOption = answer.toOption := by
        rintro (_ | _) <;> rfl
      rw [offerLocked_eq_put hRoom, Access.run_check, Access.run_bind, Access.run_done, hSame]
      exact (follows_put client q value s).imp fun hPasses =>
        (Access.passes_bind_pure _ _ s).mp hPasses.2

/-- An offer panics just if the queue has a client and is not shut down, and its indices have crossed, or
there is room and no index follows the write index. -/
theorem offerLocked_panics_iff (q : PersistentQueue) (value : Bytes) (client : Client σ) (s : σ) :
    ((q.offerLocked value).attempt client s).1 = none ↔ q.client.isSome = true ∧ q.stopped = false ∧
      (¬ q.IsOrdered ∨ q.backlog < q.capacity ∧ q.writeIndex.toNat + 1 = 2 ^ 64) := by
  have hBound := q.writeIndex.toNat_lt
  have hLast : q.writeIndex.toNat + 1 = 2 ^ 64 ↔ hasNext q.writeIndex = false := by
    rw [← Bool.not_eq_true, hasNext_iff]
    omega
  rw [hLast]
  cases hClient : q.client with
  | none =>
      have hRefused : q.refusal? = some .notStarted := by simp [refusal?, hClient]
      rw [offerLocked_of_refusal hRefused]
      simp [subtracts, hClient, Access.attempt]
  | some number =>
      cases hStopped : q.stopped with
      | true =>
          have hRefused : q.refusal? = some .queueFull := by simp [refusal?, hClient, hStopped]
          rw [offerLocked_of_refusal hRefused]
          simp [subtracts, hStopped, Access.attempt]
      | false =>
          have hSubtracts : q.subtracts = decide q.IsOrdered := by simp [subtracts, hClient, hStopped]
          by_cases hFull : q.capacity ≤ q.backlog
          · have hRefused : q.refusal? = some .queueFull := by simp [refusal?, hClient, hFull]
            rw [offerLocked_of_refusal hRefused, hSubtracts]
            by_cases hOrdered : q.IsOrdered <;> simp [Access.attempt, hOrdered, hFull]
          · have hRoom : q.refusal? = none := by simp [refusal?, hClient, hStopped, hFull]
            rw [offerLocked_of_room hRoom, hSubtracts]
            by_cases hOrdered : q.IsOrdered
            · cases hNext : hasNext q.writeIndex with
              | true => simp [Access.attempt, hOrdered]
              | false => simp [Access.attempt, hOrdered, Nat.lt_of_not_le hFull]
            · simp [Access.attempt, hOrdered]

/-! ## Starts -/

/-- What storage answers to a start is in order. -/
def FindsOrderIn (client : Client σ) (s : σ) (q : PersistentQueue) : Prop :=
  ∀ reads, (client.batch [.get readKey, .get writeKey] s).1 = ⟨.ok (), reads⟩ →
    q.FindsOrder (reads.getD 0 none) (reads.getD 1 none)

theorem isOrdered_load_iff (h : q.IsOrdered) (client : Client σ) (s : σ) :
    (q.load.run client s).1.2.IsOrdered ↔ q.FindsOrderIn client s := by
  rw [load, Access.run_bind, Access.run_perform, FindsOrderIn]
  obtain ⟨e | ⟨⟩, reads⟩ := (client.batch [.get readKey, .get writeKey] s).1
  · refine iff_of_true h fun reads' hReply => ?_
    cases hReply
  · refine (isOrdered_takeOver_iff h _ _).trans ⟨fun hFinds reads' hSame => ?_, fun hAll => hAll _ rfl⟩
    cases hSame
    exact hFinds

theorem isOrdered_of_load {s t : σ} (h : q.load.run client s = ((.ok (), q'), t)) : q'.IsOrdered := by
  rw [load, Access.run_bind, Access.run_perform] at h
  cases hReply : (client.batch [.get readKey, .get writeKey] s).1.outcome with
  | error e =>
      rw [hReply] at h
      cases h
  | ok u =>
      rw [hReply] at h
      exact isOrdered_of_takeOver (congrArg Prod.fst h)

theorem passes_load (client : Client σ) (q : PersistentQueue) (s : σ) : q.load.Passes client s := by
  rw [load, Access.passes_bind]
  refine ⟨trivial, ?_⟩
  rcases ((Access.perform _).run client s).1 with e | reads
  · exact trivial
  · exact trivial

theorem permits_load (client : Client σ) (q : PersistentQueue) (s : σ) :
    (q.load.run client s).1.2.permits = q.permits := by
  rw [load, Access.run_bind, Access.run_perform]
  rcases (client.batch [.get readKey, .get writeKey] s).1.outcome with e | u
  · rfl
  · change (q.takeOver _ _).2.permits = q.permits
    rw [takeOver]
    split
    · rfl
    · dsimp only
      split
      · rfl
      · split <;> rfl

/-- The end of a start, once the indices are taken over and the batches that were being sent are appended
again. -/
def conclude : Except QueueError Unit × PersistentQueue →
    Access (Except QueueError Unit × PersistentQueue)
  | (.error e, q) => return (.error e, q)
  | (.ok (), q) => do
    Access.require (q.IsOrdered && q.permits + q.backlog ≤ maxPermits)
    return (.ok (), { q with permits := q.permits + q.backlog })

theorem start_eq (codec : Codec β) (number : Nat) (q : PersistentQueue) :
    q.start codec number = (q.opened number).load >>= fun loaded =>
      match loaded with
      | (.error e, q) => .done (.error e, q)
      | (.ok (), q) => q.recover codec >>= conclude :=
  rfl

/-- From where the indices are taken over in order, a start goes through and leaves them in order just if
it stores nothing under the last index and calls for workers within the limit. -/
theorem conclude_iff (h : q.IsOrdered) (hFew : q.permits ≤ maxPermits) (codec : Codec β)
    (client : Client σ) (s : σ) :
    (q.recover codec >>= conclude).Passes client s ∧
        ((q.recover codec >>= conclude).run client s).1.2.IsOrdered ↔
      SparesLast ((q.recover codec >>= conclude).uses client s) ∧
        ((q.recover codec >>= conclude).run client s).1.2.permits ≤ maxPermits := by
  have hRecover := follows_recover client codec q s
  rw [(guarded_recover codec q).passes_iff s] at hRecover
  rw [Access.passes_bind, Access.run_bind, Access.uses_bind, sparesLast_append,
    (guarded_recover codec q).passes_iff s]
  generalize (q.recover codec).run client s = recovering at hRecover ⊢
  obtain ⟨⟨e | ⟨⟩, q₂⟩, t⟩ := recovering
  · have hSame : q₂.permits ≤ maxPermits := hRecover.permits ▸ hFew
    exact ⟨fun hGoes => ⟨⟨hGoes.1.1, sparesLast_nil⟩, hSame⟩,
      fun hAll => ⟨⟨hAll.1.1, trivial⟩, hRecover.isOrdered h hAll.1.1⟩⟩
  · constructor
    · rintro ⟨⟨hSpares, hChecks, -⟩, -⟩
      exact ⟨⟨hSpares, sparesLast_nil⟩, of_decide_eq_true (Bool.and_eq_true_iff.mp hChecks).2⟩
    · rintro ⟨⟨hSpares, -⟩, hLimit⟩
      have hOrdered := hRecover.isOrdered h hSpares
      have hChecks : (decide q₂.IsOrdered && decide (q₂.permits + q₂.backlog ≤ maxPermits)) = true :=
        Bool.and_eq_true_iff.mpr ⟨decide_eq_true hOrdered, decide_eq_true hLimit⟩
      exact ⟨⟨hSpares, hChecks, trivial⟩, hOrdered⟩

/-- A start goes through and leaves the indices in order just if it finds them in order, stores nothing
under the last index, and calls for workers within the limit. -/
theorem start_iff (h : q.IsOrdered) (hFew : q.permits ≤ maxPermits) (codec : Codec β) (number : Nat)
    (client : Client σ) (s : σ) :
    (q.start codec number).Passes client s ∧ ((q.start codec number).run client s).1.2.IsOrdered ↔
      q.FindsOrderIn client s ∧ SparesLast ((q.start codec number).uses client s) ∧
        ((q.start codec number).run client s).1.2.permits ≤ maxPermits := by
  have hPasses := passes_load client (q.opened number) s
  have hSpares := ((guarded_load (q.opened number)).passes_iff s).mp hPasses
  have hLoad : _ ↔ q.FindsOrderIn client s := isOrdered_load_iff (q := q.opened number) h client s
  have hPermits : _ = q.permits := permits_load client (q.opened number) s
  have hDone : ∀ {q' t}, (q.opened number).load.run client s = ((.ok (), q'), t) → q'.IsOrdered :=
    isOrdered_of_load
  rw [start_eq, Access.passes_bind, Access.run_bind, Access.uses_bind, sparesLast_append, ← hLoad]
  generalize (q.opened number).load.run client s = loading at hPermits hDone ⊢
  obtain ⟨⟨e | ⟨⟩, q₁⟩, t⟩ := loading
  · have hSame : q₁.permits ≤ maxPermits := (congrArg (· ≤ maxPermits) hPermits).mpr hFew
    exact ⟨fun hGoes => ⟨hGoes.2, ⟨hSpares, sparesLast_nil⟩, hSame⟩,
      fun hAll => ⟨⟨hPasses, trivial⟩, hAll.1⟩⟩
  · have hSame : q₁.permits ≤ maxPermits := (congrArg (· ≤ maxPermits) hPermits).mpr hFew
    have hOrdered := hDone rfl
    have hRest := conclude_iff hOrdered hSame codec client t
    exact ⟨fun hGoes => ⟨hOrdered, ⟨hSpares, (hRest.mp ⟨hGoes.1.2, hGoes.2⟩).1⟩,
        (hRest.mp ⟨hGoes.1.2, hGoes.2⟩).2⟩,
      fun hAll => ⟨⟨hPasses, (hRest.mpr ⟨hAll.2.1.2, hAll.2.2⟩).1⟩, (hRest.mpr ⟨hAll.2.1.2, hAll.2.2⟩).2⟩⟩

/-! ## Claims and ends of sendings -/

/-- The indices are in order, and the permits are within their limit. -/
structure Fit (q : PersistentQueue) : Prop where
  ordered : q.IsOrdered
  few : q.permits ≤ maxPermits

theorem guarded_claimAnswer (codec : Codec β) (q : PersistentQueue) (value : Option Bytes) :
    Guarded (q.claimAnswer codec value) := by
  rw [claimAnswer]
  split
  · exact .done _
  · exact (q.advanced.guarded_remove _).bind fun _ => .done _

theorem lt_of_waiting (h : q.IsOrdered) (hWaiting : q.readIndex ≠ q.writeIndex) :
    q.readIndex < q.writeIndex := UInt64.lt_of_le_of_ne h hWaiting

theorem passes_claim_iff (h : q.IsOrdered) (codec : Codec β) (client : Client σ) (s : σ) :
    (q.claim codec).Passes client s ↔ SparesLast ((q.claim codec).uses client s) := by
  cases hOpen : q.stopped || q.client.isNone with
  | true =>
      rw [claim_of_shut hOpen]
      exact iff_of_true trivial sparesLast_nil
  | false =>
      by_cases hWaiting : q.readIndex = q.writeIndex
      · rw [claim_of_caught_up hOpen hWaiting]
        exact iff_of_true trivial sparesLast_nil
      · rw [claim_of_waiting hOpen hWaiting]
        refine (and_iff_right (hasNext_of_lt (lt_of_waiting h hWaiting))).trans ?_
        exact (Guarded.batch (not_stores_of_ne (by simp)) fun answer =>
          q.guarded_claimAnswer codec (answer.toOption.bind fun reads => reads.head?.join)).passes_iff s

theorem fit_claim (h : q.Fit) (codec : Codec β) (client : Client σ) (s : σ) :
    ((q.claim codec).run client s).1.2.Fit := by
  have hAdvanced : q.readIndex ≠ q.writeIndex → q.readIndex + 1 ≤ q.writeIndex := fun hNe => by
    have hLt := lt_of_waiting h.ordered hNe
    rw [UInt64.le_iff_toNat_le, toNat_succ_of_lt hLt]
    exact UInt64.lt_iff_toNat_lt.mp hLt
  rcases hRun : (q.claim codec).run client s with ⟨⟨found, q'⟩, t⟩
  cases claimed_of_run hRun with
  | shut => exact h
  | caughtUp => exact h
  | item hOpen hWaiting b => exact ⟨hAdvanced hWaiting, h.few⟩
  | dropped hWaiting => exact ⟨hAdvanced hWaiting, h.few⟩

theorem fit_unref (h : q.Fit) (client : Client σ) (s : σ) : (q.unref.run client s).1.Fit := by
  rw [unref]
  dsimp only
  split
  · exact ⟨h.ordered, h.few⟩
  · exact ⟨h.ordered, h.few⟩

theorem fit_acknowledge (h : q.Fit) (i : UInt64) (outcome : Outcome) (client : Client σ) (s : σ) :
    ((q.acknowledge i outcome).run client s).1.Fit := by
  rcases q.acknowledge_cases i outcome with hEq | hEq <;> rw [hEq]
  · exact fit_unref h client s
  · rw [Access.run_bind, run_remove_fst]
    have hStruck : (q.struck i).Fit := ⟨h.ordered, h.few⟩
    exact fit_unref hStruck client _

theorem fit_detach (h : q.Fit) (client : Client σ) (s : σ) : (q.detach.run client s).1.Fit := by
  rw [detach]
  split
  · exact fit_unref h client s
  · exact h

theorem fit_call (h : q.Fit) : (q.takePermit.getD q).Fit := by
  rw [takePermit]
  split
  · exact ⟨h.ordered, (Nat.sub_le _ _).trans h.few⟩
  · exact h

end PersistentQueue

/-! ## Deeds -/

/-- A queue and the state of storage. -/
structure Moment (σ : Type) where
  queue : PersistentQueue
  store : σ

/-- What is done with a queue, one thing at a time. -/
inductive Deed (σ : Type)
  /-- Storage becomes something else. -/
  | drift (s : σ)
  /-- The queue is started with a client that was just opened. -/
  | start (number : Nat)
  /-- A batch is offered by someone who has seen that the queue is not retired. -/
  | offer (value : Bytes)
  /-- A worker is woken for a batch that was stored. -/
  | wake
  /-- A worker uses up a permit, if there is one. -/
  | call
  | claim
  | acknowledge (index : UInt64) (outcome : Outcome)
  | retire
  | stop
  | dismiss
  | detach

namespace Deed

/-- What a deed makes of a queue. -/
def program (codec : Codec β) (q : PersistentQueue) : Deed σ → Access PersistentQueue
  | drift _ => pure q
  | start number => do return (← q.start codec number).2
  | offer value => do return (← q.offerLocked value).toOption.getD q
  | wake => q.wake
  | call => pure (q.takePermit.getD q)
  | claim => do return (← q.claim codec).2
  | acknowledge index outcome => q.acknowledge index outcome
  | retire => pure q.retire
  | stop => pure q.stop
  | dismiss => pure q.dismiss
  | detach => q.detach

/-- The client that a deed is done with. -/
def clientOf (d : Depot σ) (q : PersistentQueue) : Deed σ → Client σ
  | start number => d.client number
  | _ => q.client.elim .absent d.client

/-- The state of storage that a deed finds. -/
def found (s : σ) : Deed σ → σ
  | drift s' => s'
  | _ => s

/-- What comes of a deed. Nothing does if it panics. -/
def attempt (d : Depot σ) (codec : Codec β) (m : Moment σ) (deed : Deed σ) : Option (Moment σ) :=
  let (q, s) := (deed.program codec m.queue).attempt (deed.clientOf d m.queue) (deed.found m.store)
  q.map fun q => ⟨q, s⟩

/-- What would come of a deed without checks. -/
def run (d : Depot σ) (codec : Codec β) (m : Moment σ) (deed : Deed σ) : Moment σ :=
  let (q, s) := (deed.program codec m.queue).run (deed.clientOf d m.queue) (deed.found m.store)
  ⟨q, s⟩

/-- What a deed does to the client. -/
def uses (d : Depot σ) (codec : Codec β) (m : Moment σ) (deed : Deed σ) : List Use :=
  (deed.program codec m.queue).uses (deed.clientOf d m.queue) (deed.found m.store)

/-- The checks of a deed hold. -/
def Passes (d : Depot σ) (codec : Codec β) (m : Moment σ) (deed : Deed σ) : Prop :=
  (deed.program codec m.queue).Passes (deed.clientOf d m.queue) (deed.found m.store)

theorem attempt_eq_some_iff {m m' : Moment σ} {deed : Deed σ} :
    deed.attempt d codec m = some m' ↔ deed.Passes d codec m ∧ deed.run d codec m = m' := by
  by_cases hPasses : deed.Passes d codec m
  · rw [attempt, Access.attempt_of_passes hPasses]
    exact Option.some_inj.trans (and_iff_right hPasses).symm
  · have hNone : ((deed.program codec m.queue).attempt (deed.clientOf d m.queue)
        (deed.found m.store)).1 = none :=
      Option.eq_none_iff_forall_ne_some.mpr fun q hSome =>
        hPasses (Access.attempt_eq_some_iff.mp hSome).1
    rw [attempt]
    simp [hNone, hPasses]

/-- What storage answers, if the deed is a start, is in order. -/
def FindsOrder (d : Depot σ) (m : Moment σ) : Deed σ → Prop
  | start number => m.queue.FindsOrderIn (d.client number) m.store
  | _ => True

/-- A deed whose checks are about what it stores, and that leaves the queue fit, is done just if it stores
nothing under the last index. -/
theorem goes_iff_of_fit {m : Moment σ} {deed : Deed σ}
    (hPasses : deed.Passes d codec m ↔ SparesLast (deed.uses d codec m))
    (hFit : deed.Passes d codec m → (deed.run d codec m).queue.Fit) (hFinds : deed.FindsOrder d m) :
    deed.Passes d codec m ∧ (deed.run d codec m).queue.IsOrdered ↔
      deed.FindsOrder d m ∧ SparesLast (deed.uses d codec m) ∧
        (deed.run d codec m).queue.permits ≤ PersistentQueue.maxPermits := by
  constructor
  · exact fun hGoes => ⟨hFinds, hPasses.mp hGoes.1, (hFit hGoes.1).few⟩
  · exact fun hAll => ⟨hPasses.mpr hAll.2.1, (hFit (hPasses.mpr hAll.2.1)).ordered⟩

/-- A deed does not panic and leaves the indices in order just if a start finds them in order, nothing is
stored under the last index, and the permits stay within their limit. -/
theorem goes_iff {m : Moment σ} (h : m.queue.Fit) (d : Depot σ) (codec : Codec β) (deed : Deed σ) :
    deed.Passes d codec m ∧ (deed.run d codec m).queue.IsOrdered ↔
      deed.FindsOrder d m ∧ SparesLast (deed.uses d codec m) ∧
        (deed.run d codec m).queue.permits ≤ PersistentQueue.maxPermits := by
  cases deed with
  | start number =>
      have hStart := PersistentQueue.start_iff h.ordered h.few codec number (d.client number) m.store
      rw [Passes, uses, run, program, Access.passes_bind_pure, Access.uses_bind_pure, Access.run_bind]
      exact hStart
  | offer value =>
      refine goes_iff_of_fit ?_ ?_ trivial
      · rw [Passes, uses, program, Access.passes_bind_pure, Access.uses_bind_pure]
        exact PersistentQueue.passes_offerLocked_iff h.ordered value _ _
      · rw [Passes, run, program, Access.passes_bind_pure, Access.run_bind]
        intro hPasses
        have hFollows := PersistentQueue.follows_offerLocked (clientOf d m.queue (offer value)) m.queue value m.store
        exact ⟨hFollows.isOrdered h.ordered hPasses, hFollows.permits.trans_le h.few⟩
  | wake =>
      have hLimit : (m.queue.permits + 1 ≤ PersistentQueue.maxPermits) ↔ Deed.wake.Passes d codec m :=
        decide_eq_true_iff.symm.trans (and_iff_left trivial).symm
      exact ⟨fun hGoes => ⟨trivial, sparesLast_nil, hLimit.mpr hGoes.1⟩,
        fun hAll => ⟨hLimit.mp hAll.2.2, h.ordered⟩⟩
  | claim =>
      refine goes_iff_of_fit ?_ ?_ trivial
      · rw [Passes, uses, program, Access.passes_bind_pure, Access.uses_bind_pure]
        exact PersistentQueue.passes_claim_iff h.ordered codec _ _
      · rw [run, program, Access.run_bind]
        exact fun _ => PersistentQueue.fit_claim h codec _ _
  | acknowledge index outcome =>
      exact goes_iff_of_fit ((m.queue.guarded_acknowledge index outcome).passes_iff _)
        (fun _ => PersistentQueue.fit_acknowledge h index outcome _ _) trivial
  | detach =>
      exact goes_iff_of_fit (m.queue.guarded_detach.passes_iff _)
        (fun _ => PersistentQueue.fit_detach h _ _) trivial
  | call =>
      exact goes_iff_of_fit (iff_of_true trivial sparesLast_nil)
        (fun _ => PersistentQueue.fit_call h) trivial
  | drift | retire | stop | dismiss =>
      exact goes_iff_of_fit (iff_of_true trivial sparesLast_nil) (fun _ => ⟨h.ordered, h.few⟩) trivial

end Deed

/-! ## Runs -/

/-- What comes of deeds, one after the other. Nothing does if one of them panics. -/
def Moment.attempt (d : Depot σ) (codec : Codec β) (m : Moment σ) (deeds : List (Deed σ)) :
    Option (Moment σ) :=
  deeds.foldlM (Deed.attempt d codec) m

/-- In the course of deeds nothing panics, and the read index is never past the write index. -/
def StaysInOrder (d : Depot σ) (codec : Codec β) (m : Moment σ) (deeds : List (Deed σ)) : Prop :=
  ∀ before, before <+: deeds → ∃ m', m.attempt d codec before = some m' ∧ m'.queue.IsOrdered

namespace Deed

variable {m m' : Moment σ} {deed : Deed σ}

theorem exists_attempt_iff (h : m.queue.Fit) :
    (∃ m', deed.attempt d codec m = some m' ∧ m'.queue.IsOrdered) ↔
      deed.FindsOrder d m ∧ SparesLast (deed.uses d codec m) ∧
        (deed.run d codec m).queue.permits ≤ PersistentQueue.maxPermits := by
  rw [← goes_iff h d codec deed]
  constructor
  · rintro ⟨m', hAttempt, hOrdered⟩
    obtain ⟨hPasses, rfl⟩ := attempt_eq_some_iff.mp hAttempt
    exact ⟨hPasses, hOrdered⟩
  · exact fun hGoes => ⟨_, attempt_eq_some_iff.mpr ⟨hGoes.1, rfl⟩, hGoes.2⟩

theorem fit_of_attempt (h : m.queue.Fit) (hAttempt : deed.attempt d codec m = some m')
    (hOrdered : m'.queue.IsOrdered) : m'.queue.Fit := by
  have hAll := (exists_attempt_iff h).mp ⟨m', hAttempt, hOrdered⟩
  obtain ⟨-, rfl⟩ := attempt_eq_some_iff.mp hAttempt
  exact ⟨hOrdered, hAll.2.2⟩

end Deed

namespace Moment

variable {m m' : Moment σ} {before deeds : List (Deed σ)} {deed : Deed σ}

theorem attempt_append_eq_some_iff :
    m.attempt d codec (before ++ [deed]) = some m' ↔
      ∃ m₁, m.attempt d codec before = some m₁ ∧ deed.attempt d codec m₁ = some m' := by
  rw [attempt, List.foldlM_append]
  simp [attempt, Option.bind_eq_some_iff]

/-- A course of deeds stays in order just if every start on the way finds the indices in order, nothing is
stored under the last index, and the permits stay within their limit. -/
theorem staysInOrder_iff (h : m.queue.Fit) (d : Depot σ) (codec : Codec β) (deeds : List (Deed σ)) :
    StaysInOrder d codec m deeds ↔ ∀ before deed m', before ++ [deed] <+: deeds →
      m.attempt d codec before = some m' → deed.FindsOrder d m' ∧
        SparesLast (deed.uses d codec m') ∧
          (deed.run d codec m').queue.permits ≤ PersistentQueue.maxPermits := by
  have hShorter : ∀ {before deed}, before ++ [deed] <+: deeds → before <+: deeds := fun hPrefix =>
    (List.prefix_append _ _).trans hPrefix
  constructor
  · intro hStays
    have hFit : ∀ before, before <+: deeds → ∀ m', m.attempt d codec before = some m' → m'.queue.Fit := by
      intro before
      induction before using List.reverseRecOn with
      | nil =>
          rintro - m' hNone
          cases hNone
          exact h
      | append_singleton before deed ih =>
          intro hPrefix m' hAttempt
          obtain ⟨m'', hSame, hOrdered⟩ := hStays _ hPrefix
          obtain rfl := Option.some.inj (hAttempt.symm.trans hSame)
          obtain ⟨m₁, hBefore, hDeed⟩ := attempt_append_eq_some_iff.mp hAttempt
          exact Deed.fit_of_attempt (ih (hShorter hPrefix) m₁ hBefore) hDeed hOrdered
    intro before deed m' hPrefix hBefore
    obtain ⟨m'', hAttempt, hOrdered⟩ := hStays _ hPrefix
    obtain ⟨m₁, hSame, hDeed⟩ := attempt_append_eq_some_iff.mp hAttempt
    obtain rfl := Option.some.inj (hBefore.symm.trans hSame)
    exact (Deed.exists_attempt_iff (hFit before (hShorter hPrefix) m' hBefore)).mp ⟨m'', hDeed, hOrdered⟩
  · intro hAll
    suffices hFit : ∀ before, before <+: deeds → ∃ m', m.attempt d codec before = some m' ∧ m'.queue.Fit from
      fun before hPrefix => (hFit before hPrefix).imp fun m' hGoes => ⟨hGoes.1, hGoes.2.ordered⟩
    intro before
    induction before using List.reverseRecOn with
    | nil => exact fun _ => ⟨m, rfl, h⟩
    | append_singleton before deed ih =>
        intro hPrefix
        obtain ⟨m', hBefore, hFit⟩ := ih (hShorter hPrefix)
        obtain ⟨m'', hDeed, hOrdered⟩ :=
          (Deed.exists_attempt_iff hFit).mpr (hAll before deed m' hPrefix hBefore)
        exact ⟨m'', attempt_append_eq_some_iff.mpr ⟨m', hBefore, hDeed⟩,
          Deed.fit_of_attempt hFit hDeed hOrdered⟩

end Moment

/-- The difference of the indices is right just if they are in order, and it is whenever a start has taken
over both. An offer panics just if the queue is open and its indices have crossed, or there is room and the
write index is the last one. From when a queue is made nothing panics and the indices stay in order just if
every start finds them in order, nothing is stored under the last index, and no more workers are called for
than there can be permits. -/
theorem indices_stay_in_order_iff (d : Depot σ) (codec : Codec β) (capacity : Nat) (s : σ)
    (deeds : List (Deed σ)) :
    (∀ q : PersistentQueue, q.IsOrdered ↔ q.readIndex.toNat + q.backlog = q.writeIndex.toNat) ∧
    (∀ (q q' : PersistentQueue) (read write : Option Bytes),
      q.takeOver read write = (.ok (), q') → q'.IsOrdered) ∧
    (∀ (q : PersistentQueue) (value : Bytes) (client : Client σ) (s : σ),
      ((q.offerLocked value).attempt client s).1 = none ↔ q.client.isSome = true ∧ q.stopped = false ∧
        (¬ q.IsOrdered ∨ q.backlog < q.capacity ∧ q.writeIndex.toNat + 1 = 2 ^ 64)) ∧
    (StaysInOrder d codec ⟨.empty capacity, s⟩ deeds ↔ ∀ before deed m, before ++ [deed] <+: deeds →
      Moment.attempt d codec ⟨.empty capacity, s⟩ before = some m → deed.FindsOrder d m ∧
        SparesLast (deed.uses d codec m) ∧
          (deed.run d codec m).queue.permits ≤ PersistentQueue.maxPermits) := by
  refine ⟨?difference, ?taken, ?offered, ?run⟩
  case difference => exact fun q => PersistentQueue.isOrdered_iff
  case taken => exact fun _ _ _ _ => PersistentQueue.isOrdered_of_takeOver
  case offered => exact PersistentQueue.offerLocked_panics_iff
  case run =>
    have hOrigin : (PersistentQueue.empty capacity).Fit := ⟨UInt64.le_refl 0, Nat.zero_le _⟩
    exact Moment.staysInOrder_iff hOrigin d codec deeds

/-! ## Indices that cross -/

/-- One namespace, whoever asks. -/
def sole : Depot Storage.Space := ⟨fun _ => Storage.Space.client, fun _ s => (.ok 0, s)⟩

/-- A new queue, and storage with these indices. -/
def storing (r w : UInt64) : Moment Storage.Space :=
  ⟨.empty 5, [(readKey, encodeIndex r), (writeKey, encodeIndex w)]⟩

/-- A start that finds the read index past the write index fails and leaves both to the queue, and the next
offer panics. A start that finds the last index for both succeeds, and the next offer panics as well. -/
theorem indices_cross :
    (¬ StaysInOrder sole Codec.plain (storing 3 2) [.start 0] ∧
      ((storing 3 2).attempt sole Codec.plain [.start 0]).isSome = true ∧
      ((storing 3 2).attempt sole Codec.plain [.start 0, .offer []]).isNone = true) ∧
    StaysInOrder sole Codec.plain (storing (-1) (-1)) [.start 0] ∧
      ((storing (-1) (-1)).attempt sole Codec.plain [.start 0, .offer []]).isNone = true := by
  have hFirst : ∀ before : List (Deed Storage.Space), before <+: [.start 0] →
      before = [] ∨ before = [.start 0] := fun before hPrefix => by
    simpa [List.prefix_cons_iff] using hPrefix
  refine ⟨⟨?crossed, by decide +kernel, by decide +kernel⟩, ?last, by decide +kernel⟩
  case crossed =>
    intro hStays
    obtain ⟨m, hAttempt, hOrdered⟩ := hStays _ List.prefix_rfl
    have hCrossed : ((storing 3 2).attempt sole Codec.plain [.start 0]).all
        (fun m => decide ¬ m.queue.IsOrdered) = true := by decide +kernel
    rw [hAttempt] at hCrossed
    exact of_decide_eq_true hCrossed hOrdered
  case last =>
    intro before hPrefix
    rcases hFirst before hPrefix with rfl | rfl
    · exact ⟨_, rfl, by decide⟩
    · exact ⟨_, rfl, by decide +kernel⟩

end Telemetry.Queue

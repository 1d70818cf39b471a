import Telemetry.Proofs.Queue.Invariant

/-!
# Nothing is stored but what is in use

As long as no process dies between two operations of one batch, a namespace has values for the items
in use and for no others, and every claim finds a batch.
-/

namespace Telemetry.Queue

open Storage (Access Space)
open Text (Bytes)

variable {β : Type} {codec : Codec β} {admits : β → Prop} {s t : Space} {r wi wi' : UInt64}
  {ds : List UInt64} {q : PersistentQueue} {trace : List (Event β)} {w w' : World β Space}
  {e : Event β}

/-- The items stored are those listed as being sent and those that wait; there is nothing else but the
records. -/
structure Tidy (s : Space) (r wi : UInt64) (ds : List UInt64) : Prop where
  items : ∀ i, (s.get? (itemKey i)).isSome = true ↔ i ∈ ds ∨ i ∈ window r wi
  others : ∀ key, key ≠ readKey → key ≠ writeKey → key ≠ dispatchedKey → (∀ i, key ≠ itemKey i) →
    s.get? key = none

namespace Tidy

theorem empty : Tidy [] 0 0 [] where
  items := by
    intro i
    rw [window_self]
    simp
  others := fun _ _ _ _ _ => rfl

theorem afterPut (h : Tidy s r wi ds) (hOrdered : r ≤ wi) (hRoom : wi.toNat + 1 < 2 ^ 64)
    (value : Bytes) : Tidy (afterPut s wi value) r (wi + 1) ds where
  items := by
    intro i
    rw [get?_afterPut, window_append_last hOrdered hRoom, List.mem_append, List.mem_singleton]
    split
    · next hEq => simp [hEq]
    · next hNe => rw [h.items i, or_iff_left hNe]
  others := by
    intro key hRead hWrite hDispatched hItem
    rw [Queue.afterPut, Table.get?_insert_of_ne (hItem wi), Table.get?_insert_of_ne hWrite]
    exact h.others key hRead hWrite hDispatched hItem

theorem afterClaim (h : Tidy s r wi ds) (hSome : r < wi) :
    Tidy (afterClaim s r ds) (r + 1) wi (ds ++ [r]) where
  items := by
    intro i
    rw [get?_afterClaim, h.items i, window_eq_cons hSome, List.mem_append, List.mem_singleton,
      List.mem_cons, or_assoc]
  others := by
    intro key hRead hWrite hDispatched hItem
    rw [Queue.afterClaim, Table.get?_insert_of_ne hDispatched, Table.get?_insert_of_ne hRead]
    exact h.others key hRead hWrite hDispatched hItem

theorem afterRemoval (h : Tidy s r wi ds) {i : UInt64} (hBelow : i < r) :
    Tidy (afterRemoval s ds i) r wi (ds.filter (· != i)) where
  items := by
    intro j
    rw [get?_afterRemoval, List.mem_filter, bne_iff_ne]
    split
    · next hEq =>
      have hNot : i ∉ window r wi := fun hIn =>
        absurd (mem_window.mp hIn).1 (UInt64.not_le.mpr hBelow)
      simp [hEq, hNot]
    · next hNe => rw [h.items j, and_iff_left hNe]
  others := by
    intro key hRead hWrite hDispatched hItem
    rw [Queue.afterRemoval, Table.get?_erase_of_ne (hItem i), Table.get?_insert_of_ne hDispatched]
    exact h.others key hRead hWrite hDispatched hItem

theorem recover (h : Tidy s r wi ds) (hLayout : Layout s r wi ds)
    (hRecovered : Recovered codec s r wi ds t wi') : Tidy t r wi' [] where
  items := by
    intro i
    rw [← window_append hLayout.ordered hRecovered.le, List.mem_append]
    by_cases hListed : i ∈ ds
    · have hLow : i ∉ window r wi := fun hIn =>
        absurd (mem_window.mp hIn).1 (UInt64.not_le.mpr (hLayout.below i hListed))
      have hHigh : i ∉ window wi wi' := fun hIn =>
        absurd (UInt64.le_trans hLayout.ordered (mem_window.mp hIn).1)
          (UInt64.not_le.mpr (hLayout.below i hListed))
      simp [hRecovered.freed i hListed, hLow, hHigh]
    by_cases hNew : i ∈ window wi wi'
    · obtain ⟨j, -, b, -, hValue⟩ := hRecovered.exists_of_new hNew
      simp [hValue, hNew]
    · rw [hRecovered.get?_of_not_mem hListed hNew, h.items i]
      simp [hListed, hNew]
  others := by
    intro key hRead hWrite hDispatched hItem
    rw [hRecovered.others key hWrite hDispatched (fun i _ => hItem i) fun i _ => hItem i]
    exact h.others key hRead hWrite hDispatched hItem

end Tidy

/-- A namespace that is tidy, whatever its records are read as. -/
def IsTidy (s : Space) : Prop := ∀ r wi ds, Records s r wi ds → Tidy s r wi ds

theorem Tidy.isTidy (h : Tidy s r wi ds) (hRecords : Records s r wi ds) : IsTidy s := by
  intro r' wi' ds' hSame
  obtain ⟨rfl, rfl, rfl⟩ := hRecords.unique hSame
  exact h

/-- Where every claim finds a batch no index is passed over. -/
theorem Books.batchAt_isSome {ins outs gone : Multiset β}
    (hCodec : ∀ b, admits b → codec.unmarshal? (codec.marshal b) = some b)
    (h : Books codec admits s r wi ds ins outs gone) (hTidy : Tidy s r wi ds) (hWaiting : r ≠ wi) :
    (batchAt codec s r).isSome = true := by
  have hMem : r ∈ window r wi := mem_window.mpr ⟨UInt64.le_refl r, h.lt_of_ne hWaiting⟩
  obtain ⟨v, hValue⟩ := Option.isSome_iff_exists.mp ((hTidy.items r).mpr (.inr hMem))
  obtain ⟨b, hAdmitted, rfl⟩ := h.genuine r v hValue
  rw [batchAt, hValue, Option.bind_some, hCodec b hAdmitted]
  rfl

section Books

variable {ins outs gone : Multiset β} (h : Books codec admits s r wi ds ins outs gone)
  (hTidy : Tidy s r wi ds)
include h hTidy

theorem Books.isTidy_put (hWords : wi.toNat + ds.length + 1 < 2 ^ 64) (value : Bytes) :
    IsTidy (afterPut s wi value) :=
  (hTidy.afterPut h.ordered (by omega) value).isTidy (h.toRecords.afterPut value)

theorem Books.isTidy_claim (hWaiting : r ≠ wi) (hCount : ds.length + 1 < 2 ^ 32) :
    IsTidy (afterClaim s r ds) :=
  (hTidy.afterClaim (h.lt_of_ne hWaiting)).isTidy
    (h.toLayout.afterClaim (h.lt_of_ne hWaiting) hCount).toRecords

theorem Books.isTidy_removal {i : UInt64} (hMem : i ∈ ds) : IsTidy (afterRemoval s ds i) :=
  (hTidy.afterRemoval (h.below i hMem)).isTidy (h.toLayout.afterRemoval h.count i).toRecords

end Books

/-! ## Seams -/

namespace PersistentQueue

theorem cut_offerLocked_of_seam (h : q.refusal? = none) (value : Bytes) {count : Nat}
    (hSeam : count ∈ (q.offerLocked value).seams Space.client s) :
    (q.offerLocked value).cut Space.client count s = s ∨
      (q.offerLocked value).cut Space.client count s = Queue.afterPut s q.writeIndex value := by
  have hSeams : (q.offerLocked value).seams Space.client s = [0, 2] := by
    rw [offerLocked_of_room h]
    rfl
  rw [hSeams] at hSeam
  rw [cut_offerLocked_of_room h]
  rcases List.mem_pair.mp hSeam with rfl | rfl
  · exact .inl rfl
  · exact .inr rfl

theorem seams_claim_of_item (hOpen : (q.stopped || q.client.isNone) = false)
    (hWaiting : q.readIndex ≠ q.writeIndex) {b : β}
    (hBatch : batchAt codec s q.readIndex = some b) :
    (q.claim codec).seams Space.client s = [0, 3] := by
  have hValue := get?_afterClaim s q.readIndex q.dispatched q.readIndex
  rw [claim_of_waiting hOpen hWaiting]
  change 0 :: ((q.claimAnswer codec ((Queue.afterClaim s q.readIndex q.dispatched).get?
    (itemKey q.readIndex))).seams Space.client _).map (3 + ·) = _
  rw [hValue, claimAnswer_of_item hBatch]
  rfl

theorem cut_claim_of_seam (hOpen : (q.stopped || q.client.isNone) = false)
    (hWaiting : q.readIndex ≠ q.writeIndex) {b : β} (hBatch : batchAt codec s q.readIndex = some b)
    {count : Nat} (hSeam : count ∈ (q.claim codec).seams Space.client s) :
    (q.claim codec).cut Space.client count s = s ∨
      (q.claim codec).cut Space.client count s = Queue.afterClaim s q.readIndex q.dispatched := by
  rw [seams_claim_of_item hOpen hWaiting hBatch] at hSeam
  rw [cut_claim_of_waiting hOpen hWaiting]
  rcases List.mem_pair.mp hSeam with rfl | rfl
  · exact .inl rfl
  · exact .inr rfl

theorem cut_acknowledge_of_seam {outcome : Outcome} (h : outcome.isShutdown = false)
    (hClient : q.client.isSome = true) (hMore : 2 ≤ q.references) (i : UInt64) {count : Nat}
    (hSeam : count ∈ (q.acknowledge i outcome).seams Space.client s) :
    (q.acknowledge i outcome).cut Space.client count s = s ∨
      (q.acknowledge i outcome).cut Space.client count s = Queue.afterRemoval s q.dispatched i := by
  have hSeams : (q.acknowledge i outcome).seams Space.client s = [0, 2] := by
    have hStruck : (q.struck i).unref = .done (q.struck i).released := unref_of_more hMore
    rw [acknowledge_of_over h hClient]
    change 0 :: ((q.struck i).unref.seams Space.client _).map (2 + ·) = _
    rw [hStruck]
    rfl
  rw [hSeams] at hSeam
  rw [cut_acknowledge_of_over h hClient hMore, cut_remove]
  rcases List.mem_pair.mp hSeam with rfl | rfl
  · exact .inl rfl
  · exact .inr rfl

end PersistentQueue

/-! ## Steps -/

/-- What is left by a process that dies between two batches of operations, where nothing is stored but
what is in use. -/
inductive Remains (codec : Codec β) (w : World β Space) : Event β → World β Space → Prop
  | same {e : Event β} (hDeath : e.isDeath = true) : Remains codec w e (.idle w.storage)
  | put {q : PersistentQueue} {b : β} {count : Nat} (hRunning : w.running = some q) :
      Remains codec w (.diedOffering b count)
        (.idle (afterPut w.storage q.writeIndex (codec.marshal b)))
  | claim {q : PersistentQueue} {found : Found β} {count : Nat} (hRunning : w.running = some q)
      (hWaiting : q.readIndex ≠ q.writeIndex) :
      Remains codec w (.diedClaiming found count)
        (.idle (afterClaim w.storage q.readIndex q.dispatched))
  | removal {q : PersistentQueue} {i : UInt64} {b : β} {outcome : Outcome} {count : Nat}
      (hRunning : w.running = some q) (hMem : (i, b) ∈ w.carried)
      (hOver : outcome.isShutdown = false) :
      Remains codec w (.diedEnding i b outcome count)
        (.idle (afterRemoval w.storage q.dispatched i))

/-- Where claims find their batches, a process dies before or after what it was on its way through. -/
theorem Balanced.remains (h : Balanced codec admits trace w)
    (hFound : ∀ q, w.running = some q → q.readIndex ≠ q.writeIndex →
      batchAt codec w.storage q.readIndex ≠ none)
    (hDeath : e.isDeath = true) (hStep : Step (Setup.ofSpace codec admits false) w e w') :
    Remains codec w e w' := by
  cases hStep with
  | die => exact .same rfl
  | @dieOffering q b hRunning hAdmitted hRoom count hCut =>
      rcases PersistentQueue.cut_offerLocked_of_seam hRoom _ (hCut.resolve_left Bool.noConfusion) with
        hSame | hPut
      · rw [hSame]
        exact .same rfl
      · rw [hPut]
        exact .put hRunning
  | @dieClaiming q hRunning count hCut =>
      cases PersistentQueue.claim_cases codec q w.storage with
      | idle found hNone hIdle hClaim =>
          rw [hClaim, Access.cut_done]
          exact .same rfl
      | item b hOpen hWaiting hBatch =>
          rcases PersistentQueue.cut_claim_of_seam hOpen hWaiting hBatch
            (hCut.resolve_left Bool.noConfusion) with hSame | hClaimed
          · rw [hSame]
            exact .same rfl
          · rw [hClaimed]
            exact .claim hRunning hWaiting
      | hole hOpen hWaiting hBatch =>
          exact absurd hBatch (hFound q hRunning hWaiting)
  | @dieEnding q i b hRunning hMem outcome count hCut =>
      have hServed := h.served q hRunning
      have hSome : w.carried ≠ [] := List.ne_nil_of_mem hMem
      have hClient := hServed.team.client_isSome hSome
      have hMore := hServed.team.references_ge hSome
      cases hKept : outcome.isShutdown with
      | true =>
          rw [PersistentQueue.cut_acknowledge_of_kept hKept hMore]
          exact .same rfl
      | false =>
          rcases PersistentQueue.cut_acknowledge_of_seam hKept hClient hMore i
            (hCut.resolve_left Bool.noConfusion) with hSame | hRemoved
          · rw [hSame]
            exact .same rfl
          · rw [hRemoved]
            exact .removal hRunning hMem hKept
  | _ => exact absurd hDeath Bool.noConfusion

section Tidy

variable (hCodec : ∀ b, admits b → codec.unmarshal? (codec.marshal b) = some b)
  (h : Balanced codec admits trace w) (hTidy : IsTidy w.storage)
include hCodec h hTidy

/-- No index that waits is passed over. -/
theorem Balanced.batchAt_ne_none (hRunning : w.running = some q)
    (hWaiting : q.readIndex ≠ q.writeIndex) : batchAt codec w.storage q.readIndex ≠ none := by
  have hBooks := (h.served q hRunning).books
  intro hNone
  have hSome := hBooks.batchAt_isSome hCodec (hTidy _ _ _ hBooks.toRecords) hWaiting
  rw [hNone] at hSome
  exact absurd hSome Bool.noConfusion

theorem Balanced.step_isTidy (hWords : w.FitsWords)
    (hStep : Step (Setup.ofSpace codec admits false) w e w') : IsTidy w'.storage := by
  have hNow : ∀ q, w.running = some q →
      Tidy w.storage q.readIndex q.writeIndex q.dispatched := fun q hRunning =>
    hTidy _ _ _ (h.served q hRunning).books.toRecords
  cases h.effect hStep with
  | start hNew number hLayout hRecovered =>
      exact ((hTidy _ _ _ hLayout.toRecords).recover hLayout hRecovered).isTidy hRecovered.records
  | @put q _ hRunning =>
      exact (h.served q hRunning).books.isTidy_put (hNow q hRunning) (hWords q hRunning).1 _
  | @claim q _ hRunning _ _ hWaiting =>
      exact (h.served q hRunning).books.isTidy_claim (hNow q hRunning) hWaiting
        (hWords q hRunning).2
  | pass hRunning hCalled hWaiting hBatch =>
      exact absurd hBatch (h.batchAt_ne_none hCodec hTidy hRunning hWaiting)
  | @settle q before after i b outcome hRunning hCarried hMem =>
      have hServed := h.served q hRunning
      have hIn := List.mem_append_left (interrupted trace) hMem
      exact hServed.books.isTidy_removal (hNow q hRunning) (hServed.team.mem_dispatched hIn)
  | death hDeath hStep =>
      cases h.remains (fun _ => h.batchAt_ne_none hCodec hTidy) hDeath hStep with
      | same => exact hTidy
      | @put q _ _ hRunning =>
          exact (h.served q hRunning).books.isTidy_put (hNow q hRunning) (hWords q hRunning).1 _
      | @claim q _ _ hRunning hWaiting =>
          exact (h.served q hRunning).books.isTidy_claim (hNow q hRunning) hWaiting
            (hWords q hRunning).2
      | @removal q i b _ _ hRunning hMem =>
          have hServed := h.served q hRunning
          have hIn := List.mem_append_left (interrupted trace) hMem
          exact hServed.books.isTidy_removal (hNow q hRunning) (hServed.team.mem_dispatched hIn)
  | refuse | wake | call | miss | keep | retire | stop | dismiss | detach | rest => exact hTidy

end Tidy

theorem Balanced.run_isTidy {origin : World β Space} {earlier : List (Event β)}
    (hCodec : ∀ b, admits b → codec.unmarshal? (codec.marshal b) = some b)
    (h : Balanced codec admits earlier origin) (hTidy : IsTidy origin.storage)
    (hRuns : Runs (Setup.ofSpace codec admits false) World.FitsWords origin trace w) :
    IsTidy w.storage := by
  induction hRuns with
  | refl => exact hTidy
  | step prior hWords last ih => exact (h.run hCodec prior).step_isTidy hCodec ih hWords last

theorem Runs.isTidy (hCodec : ∀ b, admits b → codec.unmarshal? (codec.marshal b) = some b)
    (hRuns : Runs (Setup.ofSpace codec admits false) World.FitsWords (.idle []) trace w) :
    IsTidy w.storage :=
  (balanced_empty codec admits).run_isTidy hCodec
    (Tidy.empty.isTidy (Books.empty codec admits).toRecords) hRuns

end Telemetry.Queue

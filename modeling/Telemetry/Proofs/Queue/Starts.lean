import Telemetry.Proofs.Queue.Sections

/-!
# Starts that nothing disturbs

Where storage refuses nothing, a queue that starts finds the stored indices, and what was listed as
being sent waits behind everything else afterwards.
-/

namespace Telemetry.Queue

open Storage (Access Fate FatedSpace Operation Space)
open Text (Bytes)

variable {β : Type} {codec : Codec β} {s t : Space} {r w w' : UInt64} {ds : List UInt64}

/-- The second namespace is what a start makes of the first: nothing is listed as being sent any more,
and what was listed waits at the end, in the same order, up to the second write index. -/
structure Recovered (codec : Codec β) (s : Space) (r w : UInt64) (ds : List UInt64) (t : Space)
    (w' : UInt64) : Prop where
  records : Records t r w' []
  count : w'.toNat = w.toNat + (ds.filterMap (batchAt codec s)).length
  items : (window w w').map (fun i => t.get? (itemKey i)) =
    (ds.filterMap (batchAt codec s)).map fun b => some (codec.marshal b)
  freed : ∀ i ∈ ds, t.get? (itemKey i) = none
  others : ∀ key, key ≠ writeKey → key ≠ dispatchedKey → (∀ i ∈ ds, key ≠ itemKey i) →
    (∀ i ∈ window w w', key ≠ itemKey i) → t.get? key = s.get? key

namespace Recovered

theorem le (h : Recovered codec s r w ds t w') : w ≤ w' := by
  rw [UInt64.le_iff_toNat_le, h.count]
  omega

/-- What was not listed stays where it is. -/
theorem get?_of_not_mem (h : Recovered codec s r w ds t w') {i : UInt64} (hListed : i ∉ ds)
    (hNew : i ∉ window w w') : t.get? (itemKey i) = s.get? (itemKey i) := by
  refine h.others _ (itemKey_ne_writeKey i) (itemKey_ne_dispatchedKey i) ?_ ?_
  · exact fun j hj hEq => hListed (itemKey_injective hEq ▸ hj)
  · exact fun j hj hEq => hNew (itemKey_injective hEq ▸ hj)

theorem get?_of_waiting (h : Recovered codec s r w ds t w') (hBelow : ∀ i ∈ ds, i < r)
    {i : UInt64} (hMem : i ∈ window r w) : t.get? (itemKey i) = s.get? (itemKey i) := by
  obtain ⟨hLow, hHigh⟩ := mem_window.mp hMem
  apply h.get?_of_not_mem
  · exact fun hIn => absurd hLow (UInt64.not_le.mpr (hBelow i hIn))
  · exact fun hIn => absurd hHigh (UInt64.not_lt.mpr (mem_window.mp hIn).1)

/-- What was listed waits behind the rest. -/
theorem exists_of_listed (h : Recovered codec s r w ds t w') {i : UInt64} {b : β} (hMem : i ∈ ds)
    (hBatch : batchAt codec s i = some b) :
    ∃ j ∈ window w w', t.get? (itemKey j) = some (codec.marshal b) := by
  have hIn : some (codec.marshal b) ∈
      (ds.filterMap (batchAt codec s)).map fun b => some (codec.marshal b) :=
    List.mem_map.mpr ⟨b, List.mem_filterMap.mpr ⟨i, hMem, hBatch⟩, rfl⟩
  rw [← h.items] at hIn
  exact List.mem_map.mp hIn

/-- What waits behind the rest was listed. -/
theorem exists_of_new (h : Recovered codec s r w ds t w') {j : UInt64} (hMem : j ∈ window w w') :
    ∃ i ∈ ds, ∃ b, batchAt codec s i = some b ∧ t.get? (itemKey j) = some (codec.marshal b) := by
  have hIn : t.get? (itemKey j) ∈ (window w w').map fun i => t.get? (itemKey i) :=
    List.mem_map_of_mem hMem
  rw [h.items] at hIn
  obtain ⟨b, hb, hValue⟩ := List.mem_map.mp hIn
  obtain ⟨i, hi, hBatch⟩ := List.mem_filterMap.mp hb
  exact ⟨i, hi, b, hBatch, hValue.symm⟩

theorem layout (h : Recovered codec s r w ds t w') (hLayout : Layout s r w ds) :
    Layout t r w' [] where
  toRecords := h.records
  ordered := UInt64.le_trans hLayout.ordered h.le
  below := fun _ hMem => absurd hMem List.not_mem_nil
  nodup := List.nodup_nil
  fresh := by
    intro i hi
    by_cases hListed : i ∈ ds
    · exact h.freed i hListed
    · have hNew : i ∉ window w w' := fun hMem =>
        absurd (mem_window.mp hMem).2 (UInt64.not_lt.mpr hi)
      rw [h.get?_of_not_mem hListed hNew]
      exact hLayout.fresh i (UInt64.le_trans h.le hi)

/-- A start keeps what was kept. -/
theorem kept_eq (h : Recovered codec s r w ds t w') (hLayout : Layout s r w ds)
    (hCodec : ∀ b ∈ ds.filterMap (batchAt codec s), codec.unmarshal? (codec.marshal b) = some b) :
    kept codec t r w' [] = kept codec s r w ds := by
  have hOld : batches codec t (window r w) = batches codec s (window r w) :=
    batches_congr fun i hMem => h.get?_of_waiting hLayout.below hMem
  have hNew : (window w w').filterMap (batchAt codec t) = ds.filterMap (batchAt codec s) :=
    filterMap_batchAt_of_items h.items hCodec
  rw [kept_eq_add, kept_eq_add, batches_nil, zero_add, ← window_append hLayout.ordered h.le,
    batches_append, hOld, add_comm]
  congr 1
  exact congrArg _ hNew

end Recovered

namespace PersistentQueue

/-- Among the batches stored again none is left out. -/
theorem run_putAll (codec : Codec β) (values : List (Option Bytes)) (q : PersistentQueue)
    (s : Space) (hRoom : q.writeIndex.toNat + (found codec values).length < 2 ^ 64) :
    ∃ w' t, (putAll codec q values).run Space.client s =
        (q.grown w' (found codec values).length, t) ∧
      Appended codec s q.writeIndex (found codec values) t w' := by
  obtain ⟨w', q', t, hRun, hAppended, hQueue⟩ :=
    putAll_run codec (fun _ => .carried) values q s 0 hRoom
  obtain ⟨n, hSame⟩ := FatedSpace.run_carried (putAll codec q values) s 0
  obtain ⟨rfl, rfl⟩ := Prod.mk.inj (hSame.symm.trans hRun)
  rw [landed_carried] at hAppended hQueue
  exact ⟨w', _, Prod.ext (hQueue rfl) rfl, hAppended⟩

theorem run_load (q : PersistentQueue) (h : Records s r w ds) (hOrdered : r ≤ w) :
    q.load.run Space.client s = ((.ok (), q.loaded r w), s) := by
  rw [load, Access.run_bind, Access.run_perform]
  exact congrArg (fun taken => (taken, s)) (q.takeOver_of_records h hOrdered)

/-- What is stored again stands behind everything else before the old places are freed. -/
theorem run_resend (codec : Codec β) (q : PersistentQueue) (h : Records s r q.writeIndex ds)
    (hBelow : ∀ i ∈ ds, i < q.writeIndex) (hRoom : q.writeIndex.toNat + ds.length < 2 ^ 64) :
    ∃ w' t, (q.resend codec ds).run Space.client s =
        ((.ok (), q.grown w' (ds.filterMap (batchAt codec s)).length), t) ∧
      Recovered codec s r q.writeIndex ds t w' := by
  have hFew : (ds.filterMap (batchAt codec s)).length ≤ ds.length := List.length_filterMap_le _ _
  obtain ⟨w', t, hRun, hAppended⟩ := run_putAll codec (ds.map fun i => s.get? (itemKey i)) q
    (afterClearing s) (by rw [found_values]; omega)
  rw [found_values] at hRun hAppended
  have hCleared : Records (afterClearing s) r q.writeIndex [] := h.insert_dispatchedKey (by decide)
  refine ⟨w', afterFreeing t ds, ?_, ?_⟩
  · have hClearing : Space.client.batch
        (.set dispatchedKey (encodeIndices []) :: ds.map fun i => Operation.get (itemKey i)) s =
          (⟨.ok (), ds.map fun i => s.get? (itemKey i)⟩, afterClearing s) :=
      congrArg (fun run : Storage.Reads × Space => ((⟨.ok (), run.1⟩ : Storage.Reply), run.2))
        (run_clearing s ds)
    rw [resend, Access.run_bind, Access.run_perform, hClearing]
    simp only [Except.map, Access.run_bind, hRun]
    rfl
  · constructor
    case records => exact (hAppended.records hCleared).afterFreeing ds
    case count => exact hAppended.count
    case items =>
      rw [← hAppended.items]
      apply List.map_congr_left
      intro i hMem
      have hNot : i ∉ ds := fun hIn =>
        absurd (hBelow i hIn) (UInt64.not_lt.mpr (mem_window.mp hMem).1)
      rw [get?_afterFreeing, if_neg hNot]
    case freed =>
      intro i hIn
      rw [get?_afterFreeing, if_pos hIn]
    case others =>
      intro key hWrite hDispatched hNot hNew
      rw [get?_afterFreeing_of_ne t hNot, hAppended.others key hWrite hNew]
      exact Table.get?_insert_of_ne hDispatched _ _

theorem run_recover (codec : Codec β) (q : PersistentQueue) (h : Records s r q.writeIndex ds)
    (hBelow : ∀ i ∈ ds, i < q.writeIndex) (hRoom : q.writeIndex.toNat + ds.length < 2 ^ 64) :
    ∃ w' t, (q.recover codec).run Space.client s =
        ((.ok (), q.grown w' (ds.filterMap (batchAt codec s)).length), t) ∧
      Recovered codec s r q.writeIndex ds t w' := by
  obtain ⟨n, hSame⟩ := FatedSpace.run_carried (q.recover codec) s 0
  by_cases hSome : ds = []
  · subst hSome
    rw [run_recover_nil rfl q h] at hSame
    obtain ⟨hResult, hSpace⟩ := Prod.mk.inj hSame
    have hLeft := (FatedSpace.mk.inj hSpace).1
    refine ⟨q.writeIndex, s, Prod.ext hResult.symm hLeft.symm, h, rfl, ?_, ?_, ?_⟩
    · rw [window_self]
      rfl
    · exact fun i hIn => absurd hIn List.not_mem_nil
    · exact fun key _ _ _ _ => rfl
  · obtain ⟨w', t, hRun, hRecovered⟩ := q.run_resend codec h hBelow hRoom
    obtain ⟨m, hResent⟩ := FatedSpace.run_carried (q.resend codec ds) s 1
    rw [run_recover_cons rfl q h hSome, hResent, hRun] at hSame
    obtain ⟨hResult, hSpace⟩ := Prod.mk.inj hSame
    have hLeft := (FatedSpace.mk.inj hSpace).1
    exact ⟨w', t, Prod.ext hResult.symm hLeft.symm, hRecovered⟩

/-- A queue that was never started. It may have been told to shut down. -/
structure Unstarted (q : PersistentQueue) : Prop where
  client : q.client = none
  dispatched : q.dispatched = []
  permits : q.permits = 0
  shut : q.closed = true → q.stopped = true

theorem unstarted_empty (capacity : Nat) : (empty capacity).Unstarted :=
  ⟨rfl, rfl, rfl, fun hClosed => absurd hClosed Bool.noConfusion⟩

/-- A queue that has started on what was left by others. -/
def begun (q : PersistentQueue) (number : Nat) (r w w' : UInt64) (count : Nat) : PersistentQueue :=
  let q := ((q.opened number).loaded r w).grown w' count
  { q with permits := q.permits + q.backlog }

theorem run_start (codec : Codec β) (number : Nat) (q : PersistentQueue) (h : Records s r w ds)
    (hOrdered : r ≤ w) (hBelow : ∀ i ∈ ds, i < w) (hRoom : w.toNat + ds.length < 2 ^ 64) :
    ∃ w' t, (q.start codec number).run Space.client s =
        ((.ok (), q.begun number r w w' (ds.filterMap (batchAt codec s)).length), t) ∧
      Recovered codec s r w ds t w' := by
  obtain ⟨w', t, hRun, hRecovered⟩ :=
    ((q.opened number).loaded r w).run_recover codec h hBelow hRoom
  refine ⟨w', t, ?_, hRecovered⟩
  rw [opened] at hRun
  rw [start, Access.run_bind, run_load _ h hOrdered]
  dsimp only
  rw [Access.run_bind, hRun]
  rfl

end PersistentQueue

end Telemetry.Queue

import Telemetry.Proofs.Queue.Records

/-!
# Appending batches

Recovery stores one batch after the other. What several of them leave follows from what one leaves.
-/

namespace Telemetry.Queue

open Storage (Space)
open Text (Bytes)

variable {β : Type} {codec : Codec β} {s t u : Space} {r w w' w'' : UInt64} {ds : List UInt64}
  {bs cs : List β}

/-- The second namespace is the first with some batches stored from the write index on, in order. -/
structure Appended (codec : Codec β) (s : Space) (w : UInt64) (bs : List β) (t : Space)
    (w' : UInt64) : Prop where
  count : w'.toNat = w.toNat + bs.length
  records : ∀ {r ds}, Records s r w ds → Records t r w' ds
  items : (window w w').map (fun i => t.get? (itemKey i)) = bs.map fun b => some (codec.marshal b)
  others : ∀ key, key ≠ writeKey → (∀ i ∈ window w w', key ≠ itemKey i) → t.get? key = s.get? key

/-- Where the bytes of some batches are stored in order these batches are found. -/
theorem filterMap_batchAt_of_items {indices : List UInt64}
    (hItems : indices.map (fun i => t.get? (itemKey i)) = bs.map fun b => some (codec.marshal b))
    (hCodec : ∀ b ∈ bs, codec.unmarshal? (codec.marshal b) = some b) :
    indices.filterMap (batchAt codec t) = bs := by
  have hAt : batchAt codec t = (fun v => v.bind codec.unmarshal?) ∘ fun i => t.get? (itemKey i) := rfl
  rw [hAt, ← List.filterMap_map, hItems, List.filterMap_map]
  calc bs.filterMap ((fun v => v.bind codec.unmarshal?) ∘ fun b => some (codec.marshal b))
      = bs.filterMap some := List.filterMap_congr hCodec
    _ = bs := List.filterMap_some

namespace Appended

theorem refl (codec : Codec β) (s : Space) (w : UInt64) : Appended codec s w [] s w where
  count := rfl
  records := id
  items := by rw [window_self]; rfl
  others := fun _ _ _ => rfl

theorem le (h : Appended codec s w bs t w') : w ≤ w' := by
  rw [UInt64.le_iff_toNat_le, h.count]
  omega

/-- What is stored elsewhere stays. -/
theorem get?_of_not_mem (h : Appended codec s w bs t w') {i : UInt64} (hNot : i ∉ window w w') :
    t.get? (itemKey i) = s.get? (itemKey i) := by
  refine h.others _ (itemKey_ne_writeKey i) ?_
  intro j hMem hEq
  exact hNot (itemKey_injective hEq ▸ hMem)

theorem put (hRoom : w.toNat + 1 < 2 ^ 64) (b : β) :
    Appended codec s w [b] (afterPut s w (codec.marshal b)) (w + 1) where
  count := toNat_succ hRoom
  records := fun h => h.afterPut _
  items := by
    rw [window_append_last (UInt64.le_refl w) hRoom, window_self, List.nil_append, List.map_singleton,
      List.map_singleton, get?_afterPut, if_pos rfl]
  others := by
    intro key hWrite hItem
    have hMem : w ∈ window w (w + 1) :=
      mem_window.mpr ⟨UInt64.le_refl w, lt_succ_of_le (UInt64.le_refl w) hRoom⟩
    rw [afterPut, Table.get?_insert_of_ne (hItem w hMem), Table.get?_insert_of_ne hWrite]

theorem trans (h : Appended codec s w bs t w') (h' : Appended codec t w' cs u w'') :
    Appended codec s w (bs ++ cs) u w'' where
  count := by rw [h'.count, h.count, List.length_append, Nat.add_assoc]
  records := fun hRecords => h'.records (h.records hRecords)
  items := by
    have hFirst : (window w w').map (fun i => u.get? (itemKey i)) =
        (window w w').map fun i => t.get? (itemKey i) := by
      apply List.map_congr_left
      intro i hMem
      apply h'.get?_of_not_mem
      intro hLater
      exact absurd (mem_window.mp hMem).2 (UInt64.not_lt.mpr (mem_window.mp hLater).1)
    rw [← window_append h.le h'.le, List.map_append, hFirst, h.items, h'.items, List.map_append]
  others := by
    intro key hWrite hItem
    rw [← window_append h.le h'.le] at hItem
    rw [h'.others key hWrite fun i hMem => hItem i (List.mem_append_right _ hMem),
      h.others key hWrite fun i hMem => hItem i (List.mem_append_left _ hMem)]

/-- The batches appended are found in their places. -/
theorem filterMap_batchAt (h : Appended codec s w bs t w')
    (hCodec : ∀ b ∈ bs, codec.unmarshal? (codec.marshal b) = some b) :
    (window w w').filterMap (batchAt codec t) = bs := filterMap_batchAt_of_items h.items hCodec

theorem kept_eq (h : Appended codec s w bs t w') (hOrdered : r ≤ w) (hBelow : ∀ i ∈ ds, i < r)
    (hCodec : ∀ b ∈ bs, codec.unmarshal? (codec.marshal b) = some b) :
    kept codec t r w' ds = kept codec s r w ds + bs := by
  have hOld : batches codec t (ds ++ window r w) = batches codec s (ds ++ window r w) := by
    apply batches_congr
    intro i hMem
    apply h.get?_of_not_mem
    intro hNew
    rcases List.mem_append.mp hMem with hListed | hWaiting
    · exact absurd (UInt64.lt_of_lt_of_le (hBelow i hListed) hOrdered)
        (UInt64.not_lt.mpr (mem_window.mp hNew).1)
    · exact absurd (mem_window.mp hWaiting).2 (UInt64.not_lt.mpr (mem_window.mp hNew).1)
  rw [kept, kept, ← window_append hOrdered h.le, ← List.append_assoc, batches_append, hOld, batches,
    batches, h.filterMap_batchAt hCodec]

theorem layout (h : Appended codec s w bs t w') (hLayout : Layout s r w ds) : Layout t r w' ds where
  toRecords := h.records hLayout.toRecords
  ordered := UInt64.le_trans hLayout.ordered h.le
  below := hLayout.below
  nodup := hLayout.nodup
  fresh := by
    intro i hi
    have hNot : i ∉ window w w' := fun hMem =>
      absurd (mem_window.mp hMem).2 (UInt64.not_lt.mpr hi)
    rw [h.get?_of_not_mem hNot]
    exact hLayout.fresh i (UInt64.le_trans h.le hi)

end Appended

end Telemetry.Queue

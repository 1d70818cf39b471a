import Telemetry.Proofs.Queue.Layout

/-!
# Records and what changes them

Every batch of operations that a queue hands to its client is made of a few writes and removals. Each
of them is looked at by itself here, because a process may die between any two.
-/

namespace Telemetry.Queue

open Storage (Space Operation)
open Text (Bytes)

variable {β : Type} {codec : Codec β} {s : Space} {r w : UInt64} {ds : List UInt64}

/-- Reads a stored list of indices; one that is missing is empty. -/
def storedIndices (value : Option Bytes) : Except QueueError (List UInt64) :=
  value.elim (.ok []) decodeIndices

/-- The stored read index, write index, and list of the indices being sent. -/
structure Records (s : Space) (r w : UInt64) (ds : List UInt64) : Prop where
  read : PersistentQueue.storedIndex (s.get? readKey) = .ok r
  write : PersistentQueue.storedIndex (s.get? writeKey) = .ok w
  listed : storedIndices (s.get? dispatchedKey) = .ok ds

theorem storedIndex_encodeIndex (i : UInt64) :
    PersistentQueue.storedIndex (some (encodeIndex i)) = .ok i := decodeIndex_encodeIndex i

theorem storedIndices_encodeIndices {indices : List UInt64} (hLength : indices.length < 2 ^ 32) :
    storedIndices (some (encodeIndices indices)) = .ok indices := decodeIndices_encodeIndices hLength

namespace Records

theorem insert_readKey (h : Records s r w ds) (i : UInt64) :
    Records (s.insert readKey (encodeIndex i)) i w ds where
  read := by rw [Table.get?_insert_self, storedIndex_encodeIndex]
  write := by rw [Table.get?_insert_of_ne writeKey_ne_readKey]; exact h.write
  listed := by rw [Table.get?_insert_of_ne dispatchedKey_ne_readKey]; exact h.listed

theorem insert_writeKey (h : Records s r w ds) (i : UInt64) :
    Records (s.insert writeKey (encodeIndex i)) r i ds where
  read := by rw [Table.get?_insert_of_ne readKey_ne_writeKey]; exact h.read
  write := by rw [Table.get?_insert_self, storedIndex_encodeIndex]
  listed := by rw [Table.get?_insert_of_ne dispatchedKey_ne_writeKey]; exact h.listed

theorem insert_dispatchedKey (h : Records s r w ds) {indices : List UInt64}
    (hLength : indices.length < 2 ^ 32) :
    Records (s.insert dispatchedKey (encodeIndices indices)) r w indices where
  read := by rw [Table.get?_insert_of_ne readKey_ne_dispatchedKey]; exact h.read
  write := by rw [Table.get?_insert_of_ne writeKey_ne_dispatchedKey]; exact h.write
  listed := by rw [Table.get?_insert_self, storedIndices_encodeIndices hLength]

/-- Items are no records. -/
theorem of_get?_eq {t : Space} (h : Records s r w ds)
    (hSame : ∀ key, (∀ i, key ≠ itemKey i) → t.get? key = s.get? key) : Records t r w ds where
  read := by rw [hSame _ readKey_ne_itemKey]; exact h.read
  write := by rw [hSame _ writeKey_ne_itemKey]; exact h.write
  listed := by rw [hSame _ dispatchedKey_ne_itemKey]; exact h.listed

theorem insert_itemKey (h : Records s r w ds) (i : UInt64) (value : Bytes) :
    Records (s.insert (itemKey i) value) r w ds :=
  h.of_get?_eq fun _ hKey => Table.get?_insert_of_ne (hKey i) _ _

theorem erase_itemKey (h : Records s r w ds) (i : UInt64) : Records (s.erase (itemKey i)) r w ds :=
  h.of_get?_eq fun _ hKey => Table.get?_erase_of_ne (hKey i) _

end Records

/-- Records that fit together: the indices being sent lie below the read index, and nothing is stored
from the write index on. An index in use may have lost its value, or never have had one. -/
structure Layout (s : Space) (r w : UInt64) (ds : List UInt64) : Prop extends Records s r w ds where
  ordered : r ≤ w
  below : ∀ i ∈ ds, i < r
  nodup : ds.Nodup
  fresh : ∀ i, w ≤ i → s.get? (itemKey i) = none

/-- The batches that a later start finds. -/
def kept (codec : Codec β) (s : Space) (r w : UInt64) (ds : List UInt64) : Multiset β :=
  batches codec s (ds ++ window r w)

theorem kept_eq_add (s : Space) (r w : UInt64) (ds : List UInt64) :
    kept codec s r w ds = batches codec s ds + batches codec s (window r w) :=
  batches_append s ds (window r w)

theorem kept_congr {t : Space} (h : ∀ i, t.get? (itemKey i) = s.get? (itemKey i)) :
    kept codec t r w ds = kept codec s r w ds := batches_congr fun i _ => h i

section Records

theorem get?_insert_readKey (s : Space) (value : Bytes) (i : UInt64) :
    (s.insert readKey value).get? (itemKey i) = s.get? (itemKey i) :=
  Table.get?_insert_of_ne (itemKey_ne_readKey i) _ _

theorem get?_insert_writeKey (s : Space) (value : Bytes) (i : UInt64) :
    (s.insert writeKey value).get? (itemKey i) = s.get? (itemKey i) :=
  Table.get?_insert_of_ne (itemKey_ne_writeKey i) _ _

theorem get?_insert_dispatchedKey (s : Space) (value : Bytes) (i : UInt64) :
    (s.insert dispatchedKey value).get? (itemKey i) = s.get? (itemKey i) :=
  Table.get?_insert_of_ne (itemKey_ne_dispatchedKey i) _ _

theorem get?_insert_itemKey (s : Space) (value : Bytes) (i j : UInt64) :
    (s.insert (itemKey i) value).get? (itemKey j) = if j = i then some value else s.get? (itemKey j) := by
  rw [Space.get?_insert]
  simp only [itemKey_inj]

theorem get?_erase_itemKey (s : Space) (i j : UInt64) :
    (s.erase (itemKey i)).get? (itemKey j) = if j = i then none else s.get? (itemKey j) := by
  rw [Space.get?_erase]
  simp only [itemKey_inj]

end Records

/-! ## Storing a batch -/

/-- What storing the bytes of a batch leaves. -/
def afterPut (s : Space) (w : UInt64) (value : Bytes) : Space :=
  Table.insert (itemKey w) value (s.insert writeKey (encodeIndex (w + 1)))

theorem get?_afterPut (s : Space) (w : UInt64) (value : Bytes) (i : UInt64) :
    (afterPut s w value).get? (itemKey i) = if i = w then some value else s.get? (itemKey i) := by
  rw [afterPut, get?_insert_itemKey, get?_insert_writeKey]

theorem Records.afterPut (h : Records s r w ds) (value : Bytes) :
    Records (afterPut s w value) r (w + 1) ds := (h.insert_writeKey (w + 1)).insert_itemKey w value

/-- One more batch is kept, whatever was stored there before. -/
theorem kept_afterPut (hOrdered : r ≤ w) (hBelow : ∀ i ∈ ds, i < r) (hRoom : w.toNat + 1 < 2 ^ 64)
    (value : Bytes) :
    kept codec (afterPut s w value) r (w + 1) ds =
      kept codec s r w ds + single (codec.unmarshal? value) := by
  have hOld : batches codec (afterPut s w value) (ds ++ window r w) =
      batches codec s (ds ++ window r w) := by
    apply batches_congr
    intro i hMem
    have hNe : i ≠ w := by
      rintro rfl
      rcases List.mem_append.mp hMem with hListed | hWaiting
      · exact absurd (hBelow i hListed) (UInt64.not_lt.mpr hOrdered)
      · exact absurd (mem_window.mp hWaiting).2 (UInt64.lt_irrefl i)
    rw [get?_afterPut, if_neg hNe]
  have hNew : batchAt codec (afterPut s w value) w = codec.unmarshal? value := by
    rw [batchAt, get?_afterPut, if_pos rfl, Option.bind_some]
  rw [kept, kept, window_append_last hOrdered hRoom, ← List.append_assoc, batches_append, hOld,
    batches_singleton, hNew]

theorem Layout.afterPut (h : Layout s r w ds) (hRoom : w.toNat + 1 < 2 ^ 64) (value : Bytes) :
    Layout (afterPut s w value) r (w + 1) ds where
  toRecords := h.toRecords.afterPut value
  ordered := UInt64.le_trans h.ordered (UInt64.le_of_lt (lt_succ_of_le (UInt64.le_refl w) hRoom))
  below := h.below
  nodup := h.nodup
  fresh := by
    intro i hi
    have hLt : w < i := UInt64.lt_of_lt_of_le (lt_succ_of_le (UInt64.le_refl w) hRoom) hi
    have hNe : i ≠ w := fun hEq => UInt64.lt_irrefl w (hEq ▸ hLt)
    rw [get?_afterPut, if_neg hNe]
    exact h.fresh i (UInt64.le_of_lt hLt)

/-- The write index alone takes in an index without a value. -/
theorem Layout.insert_writeKey (h : Layout s r w ds) (hRoom : w.toNat + 1 < 2 ^ 64) :
    Layout (s.insert writeKey (encodeIndex (w + 1))) r (w + 1) ds where
  toRecords := h.toRecords.insert_writeKey (w + 1)
  ordered := UInt64.le_trans h.ordered (UInt64.le_of_lt (lt_succ_of_le (UInt64.le_refl w) hRoom))
  below := h.below
  nodup := h.nodup
  fresh := by
    intro i hi
    rw [get?_insert_writeKey]
    exact h.fresh i (UInt64.le_of_lt
      (UInt64.lt_of_lt_of_le (lt_succ_of_le (UInt64.le_refl w) hRoom) hi))

theorem Layout.kept_insert_writeKey (h : Layout s r w ds) (hRoom : w.toNat + 1 < 2 ^ 64) :
    kept codec (s.insert writeKey (encodeIndex (w + 1))) r (w + 1) ds = kept codec s r w ds := by
  have hHole : batchAt codec s w = none := by
    rw [batchAt, h.fresh w (UInt64.le_refl w), Option.bind_none]
  rw [kept_congr fun i => get?_insert_writeKey s _ i, kept, kept,
    window_append_last h.ordered hRoom, ← List.append_assoc, batches_append, batches_singleton,
    hHole]
  exact add_zero _

/-! ## Handing a batch out -/

/-- What handing the next batch out leaves. -/
def afterClaim (s : Space) (r : UInt64) (ds : List UInt64) : Space :=
  Table.insert dispatchedKey (encodeIndices (ds ++ [r])) (s.insert readKey (encodeIndex (r + 1)))

theorem get?_afterClaim (s : Space) (r : UInt64) (ds : List UInt64) (i : UInt64) :
    (afterClaim s r ds).get? (itemKey i) = s.get? (itemKey i) := by
  rw [afterClaim, get?_insert_dispatchedKey, get?_insert_readKey]

/-- The read index alone leaves a batch out. -/
theorem Layout.insert_readKey (h : Layout s r w ds) (hSome : r < w) :
    Layout (s.insert readKey (encodeIndex (r + 1))) (r + 1) w ds where
  toRecords := h.toRecords.insert_readKey (r + 1)
  ordered := succ_le_of_lt hSome
  below := fun i hi => UInt64.lt_trans (h.below i hi) (lt_succ_of_lt hSome)
  nodup := h.nodup
  fresh := by
    intro i hi
    rw [get?_insert_readKey]
    exact h.fresh i hi

theorem kept_insert_readKey (s : Space) (ds : List UInt64) (hSome : r < w) :
    kept codec s r w ds =
      single (batchAt codec s r) +
        kept codec (s.insert readKey (encodeIndex (r + 1))) (r + 1) w ds := by
  rw [kept_congr fun i => get?_insert_readKey s _ i, kept_eq_add, kept_eq_add, window_eq_cons hSome,
    batches_cons]
  abel

theorem Layout.afterClaim (h : Layout s r w ds) (hSome : r < w) (hLength : ds.length + 1 < 2 ^ 32) :
    Layout (afterClaim s r ds) (r + 1) w (ds ++ [r]) where
  toRecords := (h.toRecords.insert_readKey (r + 1)).insert_dispatchedKey (by simpa using hLength)
  ordered := succ_le_of_lt hSome
  below := by
    intro i hi
    rcases List.mem_append.mp hi with hListed | hLast
    · exact UInt64.lt_trans (h.below i hListed) (lt_succ_of_lt hSome)
    · rw [List.mem_singleton.mp hLast]
      exact lt_succ_of_lt hSome
  nodup := by
    rw [List.nodup_append]
    refine ⟨h.nodup, List.nodup_singleton r, ?_⟩
    intro i hListed j hLast hEq
    have hBelow := h.below i hListed
    rw [hEq, List.mem_singleton.mp hLast] at hBelow
    exact UInt64.lt_irrefl r hBelow
  fresh := by
    intro i hi
    rw [get?_afterClaim]
    exact h.fresh i hi

/-- The batch handed out is listed instead of waiting. -/
theorem kept_afterClaim (s : Space) (ds : List UInt64) (hSome : r < w) :
    kept codec (afterClaim s r ds) (r + 1) w (ds ++ [r]) = kept codec s r w ds := by
  rw [kept_congr fun i => get?_afterClaim s r ds i, kept_eq_add, kept_eq_add, window_eq_cons hSome,
    batches_append, batches_singleton, batches_cons]
  abel

/-! ## Removing a batch -/

/-- What removing a batch that was being sent leaves. -/
def afterRemoval (s : Space) (ds : List UInt64) (i : UInt64) : Space :=
  Table.erase (itemKey i) (s.insert dispatchedKey (encodeIndices (ds.filter (· != i))))

theorem get?_afterRemoval (s : Space) (ds : List UInt64) (i j : UInt64) :
    (afterRemoval s ds i).get? (itemKey j) = if j = i then none else s.get? (itemKey j) := by
  rw [afterRemoval, get?_erase_itemKey, get?_insert_dispatchedKey]

theorem length_strike_le (ds : List UInt64) (i : UInt64) :
    (ds.filter (· != i)).length ≤ ds.length := List.length_filter_le _ _

theorem strike_append_self {i : UInt64} (hNot : i ∉ ds) :
    (ds ++ [i]).filter (· != i) = ds := by
  have hSame : ds.filter (· != i) = ds :=
    List.filter_eq_self.mpr fun j hj => bne_iff_ne.mpr fun hEq => hNot (hEq ▸ hj)
  rw [List.filter_append, hSame, List.filter_cons_of_neg (by simp), List.filter_nil, List.append_nil]

/-- The list of the batches being sent alone gives a batch up. -/
theorem Layout.strike (h : Layout s r w ds) (hLength : ds.length < 2 ^ 32) (i : UInt64) :
    Layout (s.insert dispatchedKey (encodeIndices (ds.filter (· != i)))) r w
      (ds.filter (· != i)) where
  toRecords := h.toRecords.insert_dispatchedKey (lt_of_le_of_lt (length_strike_le ds i) hLength)
  ordered := h.ordered
  below := fun j hj => h.below j (List.mem_of_mem_filter hj)
  nodup := h.nodup.filter _
  fresh := by
    intro j hj
    rw [get?_insert_dispatchedKey]
    exact h.fresh j hj

theorem Layout.kept_strike (h : Layout s r w ds) {i : UInt64} (hMem : i ∈ ds) :
    kept codec s r w ds =
      single (batchAt codec s i) +
        kept codec (s.insert dispatchedKey (encodeIndices (ds.filter (· != i)))) r w
          (ds.filter (· != i)) := by
  rw [kept_congr fun j => get?_insert_dispatchedKey s _ j, kept_eq_add, kept_eq_add,
    batches_strike s h.nodup hMem, add_assoc]

/-- Where no batch counts as kept, a value may go. -/
theorem Layout.erase_itemKey (h : Layout s r w ds) (i : UInt64) : Layout (s.erase (itemKey i)) r w ds where
  toRecords := h.toRecords.erase_itemKey i
  ordered := h.ordered
  below := h.below
  nodup := h.nodup
  fresh := by
    intro j hj
    rw [get?_erase_itemKey, h.fresh j hj, ite_self]

theorem kept_erase_itemKey (s : Space) {i : UInt64} (hListed : i ∉ ds) (hBelow : i < r) :
    kept codec (s.erase (itemKey i)) r w ds = kept codec s r w ds := by
  apply batches_congr
  intro j hMem
  have hNe : j ≠ i := by
    rintro rfl
    rcases List.mem_append.mp hMem with hIn | hIn
    · exact hListed hIn
    · exact absurd (mem_window.mp hIn).1 (UInt64.not_le.mpr hBelow)
  rw [get?_erase_itemKey, if_neg hNe]

theorem Layout.afterRemoval (h : Layout s r w ds) (hLength : ds.length < 2 ^ 32) (i : UInt64) :
    Layout (afterRemoval s ds i) r w (ds.filter (· != i)) := (h.strike hLength i).erase_itemKey i

theorem Layout.kept_afterRemoval (h : Layout s r w ds) {i : UInt64} (hMem : i ∈ ds) :
    kept codec s r w ds =
      single (batchAt codec s i) +
        kept codec (Queue.afterRemoval s ds i) r w (ds.filter (· != i)) := by
  have hStruck : i ∉ ds.filter (· != i) := by simp
  rw [Queue.afterRemoval, kept_erase_itemKey _ hStruck (h.below i hMem), ← h.kept_strike hMem]

end Telemetry.Queue

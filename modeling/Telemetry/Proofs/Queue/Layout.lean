import Mathlib.Algebra.Order.Group.Multiset
import Mathlib.Tactic.Abel
import Telemetry.Proofs.Queue.Index
import Telemetry.Proofs.Storage.Space

/-!
# What a namespace keeps for a queue

The records of a namespace are the stored indices. A batch counts as kept if its index is listed as
being sent or lies between the read index and the write index: a later start finds it there. Single
writes and removals change the kept batches by at most one.
-/

namespace Telemetry.Queue

open Storage (Space Operation)
open Text (Bytes)

section Window

theorem toNat_succ {i : UInt64} (h : i.toNat + 1 < 2 ^ 64) : (i + 1).toNat = i.toNat + 1 := by
  rw [UInt64.toNat_add, UInt64.toNat_one, Nat.mod_eq_of_lt h]

theorem toNat_succ_of_lt {i j : UInt64} (h : i < j) : (i + 1).toNat = i.toNat + 1 := by
  have hNat := UInt64.lt_iff_toNat_lt.mp h
  have hBound := j.toNat_lt
  exact toNat_succ (by omega)

/-- The indices from one up to another, without the latter. -/
def window (r w : UInt64) : List UInt64 :=
  (List.range' r.toNat (w.toNat - r.toNat)).map UInt64.ofNat

theorem mem_window {r w i : UInt64} : i ∈ window r w ↔ r ≤ i ∧ i < w := by
  rw [window, List.mem_map, UInt64.le_iff_toNat_le, UInt64.lt_iff_toNat_lt]
  constructor
  · rintro ⟨n, hMem, rfl⟩
    rw [List.mem_range'_1] at hMem
    have hBound := w.toNat_lt
    rw [UInt64.toNat_ofNat', Nat.mod_eq_of_lt (by omega)]
    omega
  · rintro ⟨hLow, hHigh⟩
    exact ⟨i.toNat, List.mem_range'_1.mpr (by omega), UInt64.ofNat_toNat⟩

theorem window_self (r : UInt64) : window r r = [] := by
  rw [window, Nat.sub_self]
  rfl

theorem window_append_last {r w : UInt64} (hOrdered : r ≤ w) (hRoom : w.toNat + 1 < 2 ^ 64) :
    window r (w + 1) = window r w ++ [w] := by
  have hLe := UInt64.le_iff_toNat_le.mp hOrdered
  have hCount : w.toNat + 1 - r.toNat = (w.toNat - r.toNat) + 1 := by omega
  have hLast : r.toNat + 1 * (w.toNat - r.toNat) = w.toNat := by omega
  rw [window, window, toNat_succ hRoom, hCount, List.range'_concat, hLast, List.map_append,
    List.map_singleton, UInt64.ofNat_toNat]

theorem window_eq_cons {r w : UInt64} (h : r < w) : window r w = r :: window (r + 1) w := by
  have hLt := UInt64.lt_iff_toNat_lt.mp h
  have hCount : w.toNat - r.toNat = (w.toNat - (r.toNat + 1)) + 1 := by omega
  rw [window, window, toNat_succ_of_lt h, hCount, List.range'_succ, List.map_cons,
    UInt64.ofNat_toNat]

/-- A window may be left at any index on the way. -/
theorem window_append {r m w : UInt64} (hFirst : r ≤ m) (hSecond : m ≤ w) :
    window r m ++ window m w = window r w := by
  have hLow := UInt64.le_iff_toNat_le.mp hFirst
  have hHigh := UInt64.le_iff_toNat_le.mp hSecond
  have hMiddle : m.toNat = r.toNat + (m.toNat - r.toNat) := by omega
  have hCount : w.toNat - r.toNat = (m.toNat - r.toNat) + (w.toNat - m.toNat) := by omega
  rw [window, window, window, ← List.map_append, hCount, ← List.range'_append_1, ← hMiddle]

theorem succ_le_of_lt {r w : UInt64} (h : r < w) : r + 1 ≤ w := by
  have hLt := UInt64.lt_iff_toNat_lt.mp h
  rw [UInt64.le_iff_toNat_le, toNat_succ_of_lt h]
  omega

theorem lt_succ_of_lt {i j : UInt64} (h : i < j) : i < i + 1 := by
  rw [UInt64.lt_iff_toNat_lt, toNat_succ_of_lt h]
  omega

theorem lt_succ_of_le {i j : UInt64} (h : i ≤ j) (hRoom : j.toNat + 1 < 2 ^ 64) : i < j + 1 := by
  have hLe := UInt64.le_iff_toNat_le.mp h
  rw [UInt64.lt_iff_toNat_lt, toNat_succ hRoom]
  omega

end Window

section Kept

variable {β : Type} (codec : Codec β)

/-- The batch stored under an index. -/
def batchAt (s : Space) (i : UInt64) : Option β := (s.get? (itemKey i)).bind codec.unmarshal?

/-- A batch that may be there, as a multiset. -/
def single : Option β → Multiset β
  | some b => {b}
  | none => 0

/-- The batches stored under some indices. -/
def batches (s : Space) (indices : List UInt64) : Multiset β := indices.filterMap (batchAt codec s)

variable {codec}

theorem batchAt_congr {s t : Space} {i : UInt64} (h : s.get? (itemKey i) = t.get? (itemKey i)) :
    batchAt codec s i = batchAt codec t i := by
  rw [batchAt, batchAt, h]

@[simp] theorem batches_nil (s : Space) : batches codec s [] = 0 := rfl

theorem batches_append (s : Space) (first second : List UInt64) :
    batches codec s (first ++ second) = batches codec s first + batches codec s second := by
  rw [batches, List.filterMap_append, ← Multiset.coe_add]
  rfl

theorem batches_singleton (s : Space) (i : UInt64) :
    batches codec s [i] = single (batchAt codec s i) := by
  rw [batches, List.filterMap_cons, List.filterMap_nil]
  cases batchAt codec s i <;> rfl

theorem batches_cons (s : Space) (i : UInt64) (rest : List UInt64) :
    batches codec s (i :: rest) = single (batchAt codec s i) + batches codec s rest := by
  rw [← batches_singleton, ← batches_append]
  rfl

theorem batches_congr {s t : Space} {indices : List UInt64}
    (h : ∀ i ∈ indices, s.get? (itemKey i) = t.get? (itemKey i)) :
    batches codec s indices = batches codec t indices := by
  rw [batches, batches, List.filterMap_congr fun i hMem => batchAt_congr (h i hMem)]

/-- Striking one index off a list takes its batch out. -/
theorem batches_strike (s : Space) {indices : List UInt64} (hNodup : indices.Nodup) {i : UInt64}
    (hMem : i ∈ indices) :
    batches codec s indices =
      single (batchAt codec s i) + batches codec s (indices.filter (· != i)) := by
  induction indices with
  | nil => exact absurd hMem List.not_mem_nil
  | cons j rest ih =>
      obtain ⟨hNotMem, hRest⟩ := List.nodup_cons.mp hNodup
      rcases List.mem_cons.mp hMem with rfl | hLater
      · have hSame : (i :: rest).filter (· != i) = rest := by
          rw [List.filter_cons_of_neg (by simp), List.filter_eq_self]
          intro k hk
          exact bne_iff_ne.mpr fun hEq => hNotMem (hEq ▸ hk)
        rw [hSame, batches_cons]
      · have hNe : j ≠ i := fun hEq => hNotMem (hEq ▸ hLater)
        rw [List.filter_cons_of_pos (by simpa using hNe), batches_cons, batches_cons,
          ih hRest hLater]
        exact add_left_comm _ _ _

end Kept

end Telemetry.Queue

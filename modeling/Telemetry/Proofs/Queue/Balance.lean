import Telemetry.Proofs.Queue.Runs

/-!
# The balance of a namespace

Whatever a queue does under its lock, and wherever a process dies on the way, the batches that are kept,
those whose sending is over, and those left out by a claim that was torn are those that were stored.
-/

namespace Telemetry.Queue

open Storage (Access Space)
open Text (Bytes)

variable {β : Type} {codec : Codec β} {admits : β → Prop} {s t : Space} {r w w' : UInt64}
  {ds : List UInt64} {ins outs gone : Multiset β}

/-- Every value stored for an item is the bytes of a batch that may be offered. -/
def Genuine (codec : Codec β) (admits : β → Prop) (s : Space) : Prop :=
  ∀ i v, s.get? (itemKey i) = some v → ∃ b, admits b ∧ v = codec.marshal b

theorem Genuine.mono (h : Genuine codec admits s)
    (hLess : ∀ i, t.get? (itemKey i) = none ∨ t.get? (itemKey i) = s.get? (itemKey i)) :
    Genuine codec admits t := by
  intro i v hValue
  rcases hLess i with hNone | hSame
  · rw [hNone] at hValue
    exact absurd hValue.symm (Option.some_ne_none _)
  · exact h i v (hSame ▸ hValue)

theorem Genuine.afterPut (h : Genuine codec admits s) {b : β} (hAdmitted : admits b) (w : UInt64) :
    Genuine codec admits (afterPut s w (codec.marshal b)) := by
  intro i v hValue
  rw [get?_afterPut] at hValue
  split at hValue
  · exact ⟨b, hAdmitted, (Option.some.inj hValue).symm⟩
  · exact h i v hValue

/-- A namespace whose records fit together and into their words, with the batches that came in, those
that went out, and those that are gone without having been sent. -/
structure Books (codec : Codec β) (admits : β → Prop) (s : Space) (r w : UInt64) (ds : List UInt64)
    (ins outs gone : Multiset β) : Prop extends Layout s r w ds where
  genuine : Genuine codec admits s
  balance : kept codec s r w ds + outs + gone = ins
  words : w.toNat + ds.length < 2 ^ 64
  count : ds.length < 2 ^ 32

namespace Books

theorem empty (codec : Codec β) (admits : β → Prop) : Books codec admits [] 0 0 [] 0 0 0 where
  read := rfl
  write := rfl
  listed := rfl
  ordered := UInt64.le_refl 0
  below := fun _ hMem => absurd hMem List.not_mem_nil
  nodup := List.nodup_nil
  fresh := fun _ _ => rfl
  genuine := fun _ _ hValue => absurd hValue.symm (Option.some_ne_none _)
  balance := by
    rw [kept, List.nil_append, window_self]
    rfl
  words := by decide
  count := by decide

variable (hCodec : ∀ b, admits b → codec.unmarshal? (codec.marshal b) = some b)

include hCodec in
/-- What is read under an index can be stored again. -/
theorem round_trip (h : Books codec admits s r w ds ins outs gone) {i : UInt64} {b : β}
    (hBatch : batchAt codec s i = some b) : admits b ∧ s.get? (itemKey i) = some (codec.marshal b) := by
  obtain ⟨v, hValue, hRead⟩ := Option.bind_eq_some_iff.mp hBatch
  obtain ⟨c, hAdmitted, rfl⟩ := h.genuine i v hValue
  have hSame : c = b := Option.some.inj ((hCodec c hAdmitted).symm.trans hRead)
  exact ⟨hSame ▸ hAdmitted, hSame ▸ hValue⟩

theorem lt_of_ne (h : Books codec admits s r w ds ins outs gone) (hSome : r ≠ w) : r < w :=
  UInt64.lt_of_le_of_ne h.ordered hSome

include hCodec in
theorem put (h : Books codec admits s r w ds ins outs gone) {b : β} (hAdmitted : admits b)
    (hWords : w.toNat + ds.length + 1 < 2 ^ 64) :
    Books codec admits (afterPut s w (codec.marshal b)) r (w + 1) ds ({b} + ins) outs gone where
  toLayout := h.toLayout.afterPut (by omega) _
  genuine := h.genuine.afterPut hAdmitted w
  balance := by
    rw [kept_afterPut h.ordered h.below (by omega), hCodec b hAdmitted, ← h.balance, single]
    abel
  words := by
    rw [toNat_succ (by omega)]
    omega
  count := h.count

theorem putTorn (h : Books codec admits s r w ds ins outs gone)
    (hWords : w.toNat + ds.length + 1 < 2 ^ 64) :
    Books codec admits (s.insert writeKey (encodeIndex (w + 1))) r (w + 1) ds ins outs gone where
  toLayout := h.toLayout.insert_writeKey (by omega)
  genuine := h.genuine.mono fun i => .inr (get?_insert_writeKey s _ i)
  balance := by rw [h.toLayout.kept_insert_writeKey (by omega), h.balance]
  words := by
    rw [toNat_succ (by omega)]
    omega
  count := h.count

theorem claim (h : Books codec admits s r w ds ins outs gone) (hSome : r ≠ w)
    (hWords : w.toNat + ds.length + 1 < 2 ^ 64) (hCount : ds.length + 1 < 2 ^ 32) :
    Books codec admits (afterClaim s r ds) (r + 1) w (ds ++ [r]) ins outs gone where
  toLayout := h.toLayout.afterClaim (h.lt_of_ne hSome) hCount
  genuine := h.genuine.mono fun i => .inr (get?_afterClaim s r ds i)
  balance := by rw [kept_afterClaim s ds (h.lt_of_ne hSome), h.balance]
  words := by rwa [List.length_append]
  count := by rwa [List.length_append]

/-- The read index alone leaves the next batch out. -/
theorem claimTorn (h : Books codec admits s r w ds ins outs gone) (hSome : r ≠ w) :
    Books codec admits (s.insert readKey (encodeIndex (r + 1))) (r + 1) w ds ins outs
      (single (batchAt codec s r) + gone) where
  toLayout := h.toLayout.insert_readKey (h.lt_of_ne hSome)
  genuine := h.genuine.mono fun i => .inr (get?_insert_readKey s _ i)
  balance := by
    rw [← h.balance, kept_insert_readKey s ds (h.lt_of_ne hSome)]
    abel
  words := h.words
  count := h.count

/-- A batch struck off the list has gone out, even if its value stays. -/
theorem strike (h : Books codec admits s r w ds ins outs gone) {i : UInt64} (hMem : i ∈ ds) :
    Books codec admits (s.insert dispatchedKey (encodeIndices (ds.filter (· != i)))) r w
      (ds.filter (· != i)) ins (single (batchAt codec s i) + outs) gone where
  toLayout := h.toLayout.strike h.count i
  genuine := h.genuine.mono fun j => .inr (get?_insert_dispatchedKey s _ j)
  balance := by
    rw [← h.balance, h.toLayout.kept_strike hMem]
    abel
  words := by
    have hFewer := length_strike_le ds i
    have hWords := h.words
    omega
  count := lt_of_le_of_lt (length_strike_le ds i) h.count

theorem remove (h : Books codec admits s r w ds ins outs gone) {i : UInt64} (hMem : i ∈ ds) :
    Books codec admits (afterRemoval s ds i) r w (ds.filter (· != i)) ins
      (single (batchAt codec s i) + outs) gone where
  toLayout := h.toLayout.afterRemoval h.count i
  genuine := by
    refine h.genuine.mono fun j => ?_
    rw [get?_afterRemoval]
    split
    · exact .inl rfl
    · exact .inr rfl
  balance := by
    rw [← h.balance, h.toLayout.kept_afterRemoval hMem]
    abel
  words := (h.strike hMem).words
  count := (h.strike hMem).count

include hCodec in
theorem recover (h : Books codec admits s r w ds ins outs gone)
    (hRecovered : Recovered codec s r w ds t w') :
    Books codec admits t r w' [] ins outs gone where
  toLayout := hRecovered.layout h.toLayout
  genuine := by
    intro i v hValue
    by_cases hListed : i ∈ ds
    · rw [hRecovered.freed i hListed] at hValue
      exact absurd hValue.symm (Option.some_ne_none _)
    by_cases hNew : i ∈ window w w'
    · obtain ⟨j, -, b, hBatch, hStored⟩ := hRecovered.exists_of_new hNew
      exact ⟨b, (h.round_trip hCodec hBatch).1, Option.some.inj (hValue.symm.trans hStored)⟩
    · rw [hRecovered.get?_of_not_mem hListed hNew] at hValue
      exact h.genuine i v hValue
  balance := by
    have hAgain : ∀ b ∈ ds.filterMap (batchAt codec s),
        codec.unmarshal? (codec.marshal b) = some b := by
      intro b hMem
      obtain ⟨i, -, hBatch⟩ := List.mem_filterMap.mp hMem
      exact hCodec b (h.round_trip hCodec hBatch).1
    rw [hRecovered.kept_eq h.toLayout hAgain, h.balance]
  words := by
    have hFew : (ds.filterMap (batchAt codec s)).length ≤ ds.length := List.length_filterMap_le _ _
    have hCount := hRecovered.count
    have hWords := h.words
    rw [List.length_nil]
    omega
  count := by decide

end Books

end Telemetry.Queue

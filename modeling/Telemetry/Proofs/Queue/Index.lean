import Mathlib.Algebra.Group.Nat.Defs
import Telemetry.Queue.Persistent

/-!
# Index records are read as they were written

An index that was written is read back, and so is a list of indices whose length fits into its four
bytes. No two indices share a key, and no item has the key of an index record.
-/

namespace Telemetry.Queue

open Text (Bytes littleEndian ofLittleEndian ofLittleEndian_littleEndian length_littleEndian)

theorem length_encodeIndex (i : UInt64) : (encodeIndex i).length = 8 := length_littleEndian 8 i.toNat

theorem ofLittleEndian_encodeIndex (i : UInt64) :
    UInt64.ofNat (ofLittleEndian (encodeIndex i)) = i := by
  rw [encodeIndex, ofLittleEndian_littleEndian i.toNat_lt, UInt64.ofNat_toNat]

theorem decodeIndex_encodeIndex (i : UInt64) : decodeIndex (encodeIndex i) = .ok i := by
  rw [decodeIndex, if_pos (length_encodeIndex i), ofLittleEndian_encodeIndex]

theorem encodeIndex_injective {i j : UInt64} (h : encodeIndex i = encodeIndex j) : i = j := by
  have hSame := decodeIndex_encodeIndex i
  rw [h, decodeIndex_encodeIndex] at hSame
  exact (Except.ok.inj hSame).symm

theorem length_flatMap_encodeIndex (indices : List UInt64) :
    (indices.flatMap encodeIndex).length = 8 * indices.length := by
  induction indices with
  | nil => rfl
  | cons i rest ih =>
      rw [List.flatMap_cons, List.length_append, length_encodeIndex, ih, List.length_cons]
      omega

theorem decodeWords_flatMap_encodeIndex (indices : List UInt64) :
    decodeWords indices.length (indices.flatMap encodeIndex) = indices := by
  induction indices with
  | nil => rfl
  | cons i rest ih =>
      have hHead : (encodeIndex i ++ rest.flatMap encodeIndex).take 8 = encodeIndex i :=
        List.take_left' (length_encodeIndex i)
      have hTail : (encodeIndex i ++ rest.flatMap encodeIndex).drop 8 = rest.flatMap encodeIndex :=
        List.drop_left' (length_encodeIndex i)
      rw [List.flatMap_cons, List.length_cons, decodeWords, hHead, hTail,
        ofLittleEndian_encodeIndex, ih]

/-- Four bytes count up to `2 ^ 32` indices. -/
theorem decodeIndices_encodeIndices {indices : List UInt64} (hLength : indices.length < 2 ^ 32) :
    decodeIndices (encodeIndices indices) = .ok indices := by
  have hCount : ofLittleEndian (littleEndian 4 indices.length) = indices.length :=
    ofLittleEndian_littleEndian hLength
  have hHead : (encodeIndices indices).take 4 = littleEndian 4 indices.length :=
    List.take_left' (length_littleEndian 4 _)
  have hTail : (encodeIndices indices).drop 4 = indices.flatMap encodeIndex :=
    List.drop_left' (length_littleEndian 4 _)
  have hSize : (encodeIndices indices).length = 4 + 8 * indices.length := by
    rw [encodeIndices, List.length_append, length_littleEndian, length_flatMap_encodeIndex]
  have hNonempty : (encodeIndices indices).isEmpty = false := by
    rw [List.isEmpty_eq_false_iff, ← List.length_pos_iff, hSize]
    omega
  rw [decodeIndices, hNonempty, if_neg Bool.false_ne_true, if_neg (by omega)]
  simp only [hHead, hTail, hCount]
  rw [if_pos (length_flatMap_encodeIndex indices), decodeWords_flatMap_encodeIndex]

theorem itemKey_injective {i j : UInt64} (h : itemKey i = itemKey j) : i = j := by
  have hDigits : Nat.toDigits 10 i.toNat = Nat.toDigits 10 j.toNat := String.ofList_injective h
  have hNat := congrArg (fun digits => Nat.ofDigitChars 10 digits 0) hDigits
  simp only [Nat.ofDigitChars_ten_toDigits] at hNat
  exact UInt64.toNat_inj.mp hNat

@[simp] theorem itemKey_inj {i j : UInt64} : itemKey i = itemKey j ↔ i = j :=
  ⟨itemKey_injective, congrArg itemKey⟩

/-- The keys of index records contain a letter, those of items do not. -/
theorem itemKey_ne {key : String} {c : Char} (hMem : c ∈ key.toList) (hDigit : c.isDigit = false)
    (i : UInt64) : itemKey i ≠ key := by
  rintro rfl
  rw [itemKey, String.toList_ofList] at hMem
  have hIsDigit := Nat.isDigit_of_mem_toDigits (by decide) (by decide) hMem
  exact absurd (hIsDigit.symm.trans hDigit) (by decide)

@[simp] theorem itemKey_ne_readKey (i : UInt64) : itemKey i ≠ readKey :=
  itemKey_ne (c := 'r') (by decide) (by decide) i

@[simp] theorem itemKey_ne_writeKey (i : UInt64) : itemKey i ≠ writeKey :=
  itemKey_ne (c := 'w') (by decide) (by decide) i

@[simp] theorem itemKey_ne_dispatchedKey (i : UInt64) : itemKey i ≠ dispatchedKey :=
  itemKey_ne (c := 'd') (by decide) (by decide) i

@[simp] theorem readKey_ne_itemKey (i : UInt64) : readKey ≠ itemKey i := (itemKey_ne_readKey i).symm

@[simp] theorem writeKey_ne_itemKey (i : UInt64) : writeKey ≠ itemKey i := (itemKey_ne_writeKey i).symm

@[simp] theorem dispatchedKey_ne_itemKey (i : UInt64) : dispatchedKey ≠ itemKey i :=
  (itemKey_ne_dispatchedKey i).symm

@[simp] theorem readKey_ne_writeKey : readKey ≠ writeKey := by decide

@[simp] theorem readKey_ne_dispatchedKey : readKey ≠ dispatchedKey := by decide

@[simp] theorem writeKey_ne_readKey : writeKey ≠ readKey := by decide

@[simp] theorem writeKey_ne_dispatchedKey : writeKey ≠ dispatchedKey := by decide

@[simp] theorem dispatchedKey_ne_readKey : dispatchedKey ≠ readKey := by decide

@[simp] theorem dispatchedKey_ne_writeKey : dispatchedKey ≠ writeKey := by decide

end Telemetry.Queue

import Telemetry.Proofs.Queue.Index
import Telemetry.Proofs.Text.Bytes

/-!
# Which bytes are index records

Any eight bytes are an index, and no others. A list of indices is no bytes at all, or its length in four
bytes and so many words of eight. Where bytes are there, they are the only ones that are read as what they
are read as. A reader that takes word after word off the front, and fails for want of bytes, gives the same
answers, so no answer comes from beyond the end.
-/

namespace Telemetry.Queue

open Text (Bytes littleEndian ofLittleEndian length_littleEndian littleEndian_ofLittleEndian
  ofLittleEndian_littleEndian ofLittleEndian_lt)

variable {bytes : Bytes} {i : UInt64} {indices : List UInt64} {count : Nat}

/-! ## Indices -/

theorem encodeIndex_ofLittleEndian (h : bytes.length = 8) :
    encodeIndex (UInt64.ofNat (ofLittleEndian bytes)) = bytes := by
  have hLt : ofLittleEndian bytes < UInt64.size := by
    have hBytes := ofLittleEndian_lt bytes
    rwa [h] at hBytes
  rw [encodeIndex, UInt64.toNat_ofNat_of_lt' hLt, ← h]
  exact littleEndian_ofLittleEndian bytes

theorem decodeIndex_eq_ok_iff : decodeIndex bytes = .ok i ↔ bytes = encodeIndex i := by
  constructor
  · intro h
    rw [decodeIndex] at h
    split at h
    · rename_i hLength
      cases h
      exact (encodeIndex_ofLittleEndian hLength).symm
    · cases h
  · rintro rfl
    exact decodeIndex_encodeIndex i

theorem exists_decodeIndex_iff : (∃ i, decodeIndex bytes = .ok i) ↔ bytes.length = 8 := by
  simp only [decodeIndex_eq_ok_iff]
  constructor
  · rintro ⟨i, rfl⟩
    exact length_encodeIndex i
  · exact fun h => ⟨_, (encodeIndex_ofLittleEndian h).symm⟩

/-! ## Lists of indices -/

theorem length_decodeWords (count : Nat) (bytes : Bytes) : (decodeWords count bytes).length = count := by
  induction count generalizing bytes with
  | zero => rfl
  | succ count ih => rw [decodeWords, List.length_cons, ih]

theorem flatMap_encodeIndex_decodeWords (h : bytes.length = 8 * count) :
    (decodeWords count bytes).flatMap encodeIndex = bytes := by
  induction count generalizing bytes with
  | zero => exact (List.length_eq_zero_iff.mp h).symm
  | succ count ih =>
      have hHead : (bytes.take 8).length = 8 := by
        rw [List.length_take]
        omega
      have hTail : (bytes.drop 8).length = 8 * count := by
        rw [List.length_drop]
        omega
      rw [decodeWords, List.flatMap_cons, encodeIndex_ofLittleEndian hHead, ih hTail,
        List.take_append_drop]

/-- The bytes of a list have its length in front. -/
def HasLength (count : Nat) (bytes : Bytes) : Prop :=
  bytes.length = 4 + 8 * count ∧ bytes.take 4 = littleEndian 4 count

theorem encodeIndices_decodeWords (h : HasLength count bytes) :
    encodeIndices (decodeWords count (bytes.drop 4)) = bytes := by
  obtain ⟨hLength, hHead⟩ := h
  have hPayload : (bytes.drop 4).length = 8 * count := by
    rw [List.length_drop]
    omega
  rw [encodeIndices, length_decodeWords, flatMap_encodeIndex_decodeWords hPayload, ← hHead,
    List.take_append_drop]

theorem hasLength_encodeIndices (indices : List UInt64) :
    HasLength indices.length (encodeIndices indices) := by
  constructor
  · rw [encodeIndices, List.length_append, length_littleEndian, length_flatMap_encodeIndex]
  · exact List.take_left' (length_littleEndian 4 _)

/-- What is read from some bytes has a length that fits into four, and is written as these bytes. -/
theorem eq_encodeIndices_of_decodeIndices (hBytes : bytes ≠ [])
    (h : decodeIndices bytes = .ok indices) :
    indices.length < 2 ^ 32 ∧ encodeIndices indices = bytes := by
  rw [decodeIndices, List.isEmpty_eq_false_iff.mpr hBytes, if_neg Bool.false_ne_true] at h
  split at h
  · cases h
  rename_i hLong
  have hTake : (bytes.take 4).length = 4 := by
    rw [List.length_take]
    omega
  simp only at h
  split at h
  · rename_i hPayload
    cases h
    have hCount : ofLittleEndian (bytes.take 4) < 2 ^ 32 := by
      have hLt := ofLittleEndian_lt (bytes.take 4)
      rwa [hTake] at hLt
    refine ⟨by rwa [length_decodeWords], encodeIndices_decodeWords ⟨?_, ?_⟩⟩
    · rw [List.length_drop] at hPayload
      omega
    · have hBack := littleEndian_ofLittleEndian (bytes.take 4)
      rw [hTake] at hBack
      exact hBack.symm
  · cases h

theorem exists_decodeIndices_iff : (∃ indices, decodeIndices bytes = .ok indices) ↔
    bytes = [] ∨ ∃ count < 2 ^ 32, HasLength count bytes := by
  constructor
  · rintro ⟨indices, h⟩
    by_cases hBytes : bytes = []
    · exact .inl hBytes
    · obtain ⟨hLt, rfl⟩ := eq_encodeIndices_of_decodeIndices hBytes h
      exact .inr ⟨_, hLt, hasLength_encodeIndices indices⟩
  · rintro (rfl | ⟨count, hLt, hLength⟩)
    · exact ⟨[], rfl⟩
    · have hWords : (decodeWords count (bytes.drop 4)).length < 2 ^ 32 := by rwa [length_decodeWords]
      have hBack := decodeIndices_encodeIndices hWords
      rw [encodeIndices_decodeWords hLength] at hBack
      exact ⟨_, hBack⟩

/-! ## Errors -/

/-- Whether an answer is a value, or says that bytes are no index record. -/
def IsIndexAnswer {α : Type} (answer : Except QueueError α) : Prop :=
  (∃ a, answer = .ok a) ∨ ∃ text, answer = .error (.invalidIndex text)

theorem isIndexAnswer_decodeIndex (bytes : Bytes) : IsIndexAnswer (decodeIndex bytes) := by
  rw [decodeIndex]
  split
  · exact .inl ⟨_, rfl⟩
  · exact .inr ⟨_, rfl⟩

theorem isIndexAnswer_decodeIndices (bytes : Bytes) : IsIndexAnswer (decodeIndices bytes) := by
  rw [decodeIndices]
  split
  · exact .inl ⟨_, rfl⟩
  split
  · exact .inr ⟨_, rfl⟩
  simp only
  split
  · exact .inl ⟨_, rfl⟩
  · exact .inr ⟨_, rfl⟩

/-! ## Reading within the bytes

A reader takes what it reads off the front, and fails where too few bytes are left. -/

/-- Takes a number of so many bytes. -/
def takeNumber? (size : Nat) (bytes : Bytes) : Option (Nat × Bytes) :=
  if size ≤ bytes.length then some (ofLittleEndian (bytes.take size), bytes.drop size) else none

/-- Takes so many indices. -/
def takeIndices? : Nat → Bytes → Option (List UInt64 × Bytes)
  | 0, bytes => some ([], bytes)
  | count + 1, bytes => do
    let (n, rest) ← takeNumber? 8 bytes
    let (indices, rest) ← takeIndices? count rest
    return (UInt64.ofNat n :: indices, rest)

/-- Reads an index. -/
def readIndex? (bytes : Bytes) : Option (Except QueueError UInt64) :=
  if bytes.length ≠ 8 then return .error (.invalidIndex "index must be 8 bytes")
  else do
    let (n, _) ← takeNumber? 8 bytes
    return .ok (UInt64.ofNat n)

/-- Reads a list of indices. -/
def readIndices? (bytes : Bytes) : Option (Except QueueError (List UInt64)) :=
  if bytes.isEmpty then return .ok []
  else if bytes.length < 4 then return .error (.invalidIndex "index set is missing its length")
  else do
    let (count, payload) ← takeNumber? 4 bytes
    if payload.length ≠ 8 * count then
      return .error (.invalidIndex "index set length does not match its payload")
    else
      let (indices, _) ← takeIndices? count payload
      return .ok indices

theorem takeNumber?_of_le {size : Nat} (h : size ≤ bytes.length) :
    takeNumber? size bytes = some (ofLittleEndian (bytes.take size), bytes.drop size) := if_pos h

/-- Where the words fill the bytes, no reading of a word fails. -/
theorem takeIndices?_eq (h : bytes.length = 8 * count) :
    takeIndices? count bytes = some (decodeWords count bytes, []) := by
  induction count generalizing bytes with
  | zero =>
      rw [List.length_eq_zero_iff.mp h]
      rfl
  | succ count ih =>
      have hTail : (bytes.drop 8).length = 8 * count := by
        rw [List.length_drop]
        omega
      have hHead : 8 ≤ bytes.length := by omega
      rw [takeIndices?, takeNumber?_of_le hHead]
      simp only [Option.bind_eq_bind, Option.bind_some, ih hTail]
      rfl

theorem readIndex?_eq (bytes : Bytes) : readIndex? bytes = some (decodeIndex bytes) := by
  by_cases h : bytes.length = 8
  · have hAll : bytes.take 8 = bytes := List.take_of_length_le (Nat.le_of_eq h)
    rw [readIndex?, if_neg (not_not_intro h), decodeIndex, if_pos h,
      takeNumber?_of_le (Nat.le_of_eq h.symm), hAll]
    rfl
  · rw [readIndex?, if_pos h, decodeIndex, if_neg h]
    rfl

theorem readIndices?_eq (bytes : Bytes) : readIndices? bytes = some (decodeIndices bytes) := by
  rw [readIndices?, decodeIndices]
  split
  · rfl
  split
  · rfl
  rename_i hLong
  rw [takeNumber?_of_le (Nat.le_of_not_lt hLong), Option.bind_eq_bind, Option.bind_some]
  by_cases hPayload : (bytes.drop 4).length = 8 * ofLittleEndian (bytes.take 4)
  · simp only [if_neg (not_not_intro hPayload), if_pos hPayload, takeIndices?_eq hPayload]
    rfl
  · simp only [if_pos hPayload, if_neg hPayload]
    rfl

/-! ## Both ways -/

/-- Each index and each list that fits is read back as it was written, and apart from the list that is
written as nothing each record has one form: any eight bytes for an index, a length and as many words for a
list. All other bytes are refused, and none is read that is not there. The key of an item tells its index,
and is none of the keys of records. -/
theorem index_records_have_one_form :
    (∀ i, decodeIndex (encodeIndex i) = .ok i) ∧
    (∀ bytes, (∃ i, decodeIndex bytes = .ok i) ↔ bytes.length = 8) ∧
    (∀ bytes i, decodeIndex bytes = .ok i → encodeIndex i = bytes) ∧
    (∀ indices, indices.length < 2 ^ 32 → decodeIndices (encodeIndices indices) = .ok indices) ∧
    (∀ bytes, (∃ indices, decodeIndices bytes = .ok indices) ↔
      bytes = [] ∨ ∃ count < 2 ^ 32, HasLength count bytes) ∧
    (∀ bytes indices, bytes ≠ [] → decodeIndices bytes = .ok indices → encodeIndices indices = bytes) ∧
    (∀ bytes, IsIndexAnswer (decodeIndex bytes) ∧ readIndex? bytes = some (decodeIndex bytes)) ∧
    (∀ bytes, IsIndexAnswer (decodeIndices bytes) ∧ readIndices? bytes = some (decodeIndices bytes)) ∧
    (∀ i j, itemKey i = itemKey j → i = j) ∧
    ∀ i, itemKey i ≠ readKey ∧ itemKey i ≠ writeKey ∧ itemKey i ≠ dispatchedKey := by
  refine ⟨decodeIndex_encodeIndex, fun _ => exists_decodeIndex_iff, ?inverted, ?back,
    fun _ => exists_decodeIndices_iff, ?form, ?index, ?list, fun _ _ => itemKey_injective, ?keys⟩
  case inverted => exact fun _ _ h => (decodeIndex_eq_ok_iff.mp h).symm
  case back => exact fun _ hLength => decodeIndices_encodeIndices hLength
  case form => exact fun _ _ hBytes h => (eq_encodeIndices_of_decodeIndices hBytes h).2
  case index => exact fun bytes => ⟨isIndexAnswer_decodeIndex bytes, readIndex?_eq bytes⟩
  case list => exact fun bytes => ⟨isIndexAnswer_decodeIndices bytes, readIndices?_eq bytes⟩
  case keys => exact fun i => ⟨itemKey_ne_readKey i, itemKey_ne_writeKey i, itemKey_ne_dispatchedKey i⟩

/-- A list is read back from the bytes of two words and their number. With one word torn off, or with a
length beyond all bytes, they are no list. -/
theorem index_records_have_one_form_torn :
    [3, UInt64.ofNat (UInt64.size - 1)].length < 2 ^ 32 ∧
    decodeIndices (encodeIndices [3, UInt64.ofNat (UInt64.size - 1)]) =
      .ok [3, UInt64.ofNat (UInt64.size - 1)] ∧
    ¬ (∃ indices, decodeIndices [255, 255, 255, 255, 0, 0, 0, 0, 0, 0, 0, 0] = .ok indices) := by
  obtain ⟨-, -, -, hBack, hAccepted, -⟩ := index_records_have_one_form
  have hLength : [3, UInt64.ofNat (UInt64.size - 1)].length < 2 ^ 32 := by decide
  refine ⟨hLength, hBack _ hLength, fun hSome => ?_⟩
  rcases (hAccepted _).mp hSome with hNone | ⟨count, -, hSize, hHead⟩
  · cases hNone
  · have hOne : count = 1 := by
      simp only [List.length_cons, List.length_nil] at hSize
      omega
    subst hOne
    exact absurd hHead (by decide)

end Telemetry.Queue

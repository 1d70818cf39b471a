import Mathlib.Algebra.Order.Group.Nat
import Telemetry.Proofs.Text.Bytes
import Telemetry.Wire.Decode

/-!
# Keys, chunks and single values

For each reader of the binary form there are two lemmas: it reads what was written, and what it reads was
written in no fewer bytes than it would be written again, or in half of them where a short number is
written with its sign.
-/

namespace Telemetry.Wire

open Text (Bytes littleEndian ofLittleEndian)

variable {bytes front body rest : Bytes} {fuel n k : Nat} {w : UInt64}

/-! ## Varints -/

theorem length_varintBytes_pos (fuel n : Nat) : 0 < (varintBytes fuel n).length := by
  cases fuel with
  | zero => simp [varintBytes]
  | succ fuel =>
      rw [varintBytes]
      split <;> simp

theorem length_varintBytes_le (hPos : 0 < k) (hLt : n < 128 ^ k) : (varintBytes fuel n).length ≤ k := by
  induction fuel generalizing n k with
  | zero => exact hPos
  | succ fuel ih =>
      rw [varintBytes]
      split
      · exact hPos
      · next hLarge =>
        obtain ⟨k, rfl⟩ : ∃ j, k = j + 1 := ⟨k - 1, by omega⟩
        have hHigh : n / 128 < 128 ^ k := Nat.div_lt_of_lt_mul (by rwa [Nat.mul_comm, ← Nat.pow_succ])
        have hMore : 0 < k := by
          rcases Nat.eq_zero_or_pos k with rfl | hMore
          · omega
          · exact hMore
        simpa using ih hMore hHigh

theorem lt_pow_length_varintBytes (hLt : n < 128 ^ (fuel + 1)) :
    n < 128 ^ (varintBytes fuel n).length := by
  induction fuel generalizing n with
  | zero => simpa [varintBytes] using hLt
  | succ fuel ih =>
      rw [varintBytes]
      split
      · next hSmall => simpa using hSmall
      · have hHigh := ih (n := n / 128) (Nat.div_lt_of_lt_mul (by rwa [Nat.mul_comm, ← Nat.pow_succ]))
        rw [List.length_cons, Nat.pow_succ]
        omega

theorem length_varintBytes_mono {m : Nat} (hLe : m ≤ n) (hLt : n < 2 ^ 64) :
    (varintBytes 9 m).length ≤ (varintBytes 9 n).length := by
  have hBound : n < 128 ^ (9 + 1) := Nat.lt_trans hLt (by decide)
  exact length_varintBytes_le (length_varintBytes_pos 9 n)
    (Nat.lt_of_le_of_lt hLe (lt_pow_length_varintBytes hBound))

theorem two_le_pow (hPos : 0 < k) : 2 ≤ 128 ^ k :=
  Nat.le_trans (by decide) (Nat.pow_le_pow_right (by decide) hPos)

theorem length_varintBytes_add_le {m : Nat} (hLt : m + n < 2 ^ 64) :
    (varintBytes 9 (m + n)).length ≤ (varintBytes 9 m).length + (varintBytes 9 n).length := by
  have hFirst : m < 128 ^ (varintBytes 9 m).length :=
    lt_pow_length_varintBytes (Nat.lt_of_le_of_lt (by omega) (by decide : 2 ^ 64 < 128 ^ (9 + 1)))
  have hSecond : n < 128 ^ (varintBytes 9 n).length :=
    lt_pow_length_varintBytes (Nat.lt_of_le_of_lt (by omega) (by decide : 2 ^ 64 < 128 ^ (9 + 1)))
  have hPos := length_varintBytes_pos 9 m
  have hPos' := length_varintBytes_pos 9 n
  refine length_varintBytes_le (by omega) ?_
  rw [Nat.pow_add]
  calc m + n < 128 ^ (varintBytes 9 m).length + 128 ^ (varintBytes 9 n).length := Nat.add_lt_add hFirst hSecond
    _ ≤ _ := Nat.add_le_mul (two_le_pow hPos) (two_le_pow hPos')

theorem readGroups_eq_some {place shift : Nat} (h : readGroups place shift bytes = some (n, rest)) :
    ∃ front k, bytes = front ++ rest ∧ front ≠ [] ∧ n = k <<< shift ∧ k < 128 ^ front.length := by
  induction place generalizing shift bytes n with
  | zero =>
      cases bytes with
      | nil => cases h
      | cons b tail =>
          rw [readGroups] at h
          split at h
          · next hSmall =>
            cases h
            exact ⟨[b], b.toNat, rfl, by simp, rfl, by simp; omega⟩
          · cases h
  | succ place ih =>
      cases bytes with
      | nil => cases h
      | cons b tail =>
          rw [readGroups] at h
          split at h
          · next hSmall =>
            cases h
            exact ⟨[b], b.toNat, rfl, by simp, rfl, by simpa using hSmall⟩
          · next hLarge =>
            rw [Option.map_eq_some_iff] at h
            obtain ⟨⟨high, after⟩, hRead, hSum⟩ := h
            cases hSum
            obtain ⟨front, k, rfl, -, rfl, hLt⟩ := ih hRead
            have hByte := b.toNat_lt
            refine ⟨b :: front, b.toNat - 128 + 128 * k, rfl, by simp, ?_, ?_⟩
            · rw [Nat.shiftLeft_eq, Nat.shiftLeft_eq, Nat.shiftLeft_eq, Nat.pow_add, Nat.add_mul,
                Nat.mul_comm (2 ^ shift), ← Nat.mul_assoc, Nat.mul_comm k]
            · rw [List.length_cons, Nat.pow_succ]
              omega

theorem decodeVarint_eq_some (h : decodeVarint bytes = some (w, rest)) :
    ∃ front, bytes = front ++ rest ∧ front ≠ [] ∧ w.toNat < 128 ^ front.length := by
  rw [decodeVarint, Option.map_eq_some_iff] at h
  obtain ⟨⟨n, after⟩, hRead, hWord⟩ := h
  cases hWord
  obtain ⟨front, k, hBytes, hSome, rfl, hLt⟩ := readGroups_eq_some hRead
  refine ⟨front, hBytes, hSome, Nat.lt_of_le_of_lt ?_ hLt⟩
  rw [UInt64.toNat_ofNat']
  exact Nat.mod_le _ _

theorem length_encodeVarint_le (hLt : w.toNat < 128 ^ k) (hPos : 0 < k) : (encodeVarint w).length ≤ k :=
  length_varintBytes_le hPos hLt

/-! ## Numbers of fixed size, chunks and keys -/

theorem decodeFixed_append {size : Nat} (hLength : front.length = size) :
    decodeFixed size (front ++ rest) = some (UInt64.ofNat (ofLittleEndian front), rest) := by
  subst hLength
  simp [decodeFixed]

theorem decodeFixed_eq_some {size : Nat} (h : decodeFixed size bytes = some (w, rest)) :
    ∃ front, bytes = front ++ rest ∧ front.length = size ∧ w = UInt64.ofNat (ofLittleEndian front) := by
  rw [decodeFixed] at h
  split at h
  · next hLength =>
    cases h
    exact ⟨bytes.take size, (List.take_append_drop _ _).symm, hLength, rfl⟩
  · cases h

theorem decodeFixed_littleEndian {size : Nat} (hLt : w.toNat < 256 ^ size) :
    decodeFixed size (littleEndian size w.toNat ++ rest) = some (w, rest) := by
  rw [decodeFixed_append (Text.length_littleEndian size _), Text.ofLittleEndian_littleEndian hLt,
    UInt64.ofNat_toNat]

theorem decodeVarint_varintBytes (hLt : n < 2 ^ 64) :
    decodeVarint (varintBytes 9 n ++ rest) = some (UInt64.ofNat n, rest) := by
  have hWord : (UInt64.ofNat n).toNat = n := UInt64.toNat_ofNat_of_lt' hLt
  have hRead := decodeVarint_encodeVarint (UInt64.ofNat n) rest
  rwa [encodeVarint, hWord] at hRead

theorem decodeChunk_encodeChunk (hLt : body.length < 2 ^ 64) :
    decodeChunk (encodeChunk body ++ rest) = some (body, rest) := by
  have hSize : (UInt64.ofNat body.length).toNat = body.length := UInt64.toNat_ofNat_of_lt' hLt
  rw [decodeChunk, encodeChunk, List.append_assoc, decodeVarint_varintBytes hLt]
  simp [hSize]

theorem decodeChunk_eq_some (h : decodeChunk bytes = some (body, rest)) :
    ∃ front, bytes = front ++ body ++ rest ∧ body.length < 2 ^ 64 ∧
      (varintBytes 9 body.length).length ≤ front.length := by
  rw [decodeChunk, Option.bind_eq_bind, Option.bind_eq_some_iff] at h
  obtain ⟨⟨size, after⟩, hSize, hBody⟩ := h
  obtain ⟨front, rfl, hSome, hLt⟩ := decodeVarint_eq_some hSize
  simp only at hBody
  split at hBody
  · next hLength =>
    cases hBody
    refine ⟨front, by simp, by rw [hLength]; exact size.toNat_lt, ?_⟩
    rw [hLength]
    exact length_varintBytes_le (List.length_pos_iff.mpr hSome) hLt
  · cases hBody

theorem length_encodeChunk (body : Bytes) :
    (encodeChunk body).length = (varintBytes 9 body.length).length + body.length := by
  rw [encodeChunk, List.length_append]

theorem decodeKey_encodeKey {number : Nat} (hPos : 0 < number) (hLt : number < 2 ^ 28) (layout : Layout) :
    decodeKey (encodeKey number layout ++ rest) = some (⟨number, layout.code⟩, rest) := by
  have hCode : layout.code ≤ 5 := by cases layout <;> decide
  have hKey : (UInt64.ofNat (8 * number + layout.code)).toNat = 8 * number + layout.code :=
    UInt64.toNat_ofNat_of_lt' (show _ < 2 ^ 64 by omega)
  have hNumber : (8 * number + layout.code) / 8 = number := by omega
  have hRest : (8 * number + layout.code) % 8 = layout.code := by omega
  rw [decodeKey, encodeKey, decodeVarint_varintBytes (by omega)]
  simp only [Option.bind_eq_bind, Option.bind_some, hKey, hNumber, hRest]
  rw [if_pos ⟨by rw [UInt32.size]; omega, hCode, hPos⟩]
  rfl

theorem decodeKey_eq_some {key : Key} (h : decodeKey bytes = some (key, rest)) :
    ∃ front, bytes = front ++ rest ∧ front ≠ [] ∧ key.code < 8 ∧
      (varintBytes 9 (8 * key.number + key.code)).length ≤ front.length := by
  rw [decodeKey, Option.bind_eq_bind, Option.bind_eq_some_iff] at h
  obtain ⟨⟨w, after⟩, hWord, hKey⟩ := h
  obtain ⟨front, rfl, hSome, hLt⟩ := decodeVarint_eq_some hWord
  simp only at hKey
  split at hKey
  · cases hKey
    refine ⟨front, rfl, hSome, Nat.mod_lt _ (by decide), ?_⟩
    rw [Nat.div_add_mod]
    exact length_varintBytes_le (List.length_pos_iff.mpr hSome) hLt
  · cases hKey

end Telemetry.Wire

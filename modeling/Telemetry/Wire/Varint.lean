import Telemetry.Text.LittleEndian

/-!
# Numbers of the binary form

Words are written in groups of seven bits, the lowest first, each but the last with its high bit
set, or in a fixed number of little-endian bytes.
-/

namespace Telemetry.Wire

open Text (Bytes ofLittleEndian)

/-- A number in groups of seven bits, at most `fuel + 1` of them. -/
def varintBytes : Nat → Nat → Bytes
  | 0, n => [UInt8.ofNat (n % 128)]
  | fuel + 1, n =>
    if n < 128 then [UInt8.ofNat n]
    else UInt8.ofNat (n % 128 + 128) :: varintBytes fuel (n / 128)

/-- A word in at most ten groups. -/
def encodeVarint (w : UInt64) : Bytes := varintBytes 9 w.toNat

/-- Reads groups while `place` more may follow the first; the last possible one holds one bit. -/
def readGroups : Nat → Nat → Bytes → Option (Nat × Bytes)
  | _, _, [] => none
  | 0, shift, b :: rest => if b.toNat ≤ 1 then some (b.toNat <<< shift, rest) else none
  | place + 1, shift, b :: rest =>
    if b.toNat < 128 then some (b.toNat <<< shift, rest)
    else (readGroups place (shift + 7) rest).map fun (n, rest) =>
      ((b.toNat - 128) <<< shift + n, rest)

/-- Reads a word of at most ten groups, and the rest. -/
def decodeVarint (bytes : Bytes) : Option (UInt64 × Bytes) :=
  (readGroups 9 0 bytes).map fun (n, rest) => (UInt64.ofNat n, rest)

theorem readGroups_varintBytes {fuel n : Nat} (h : n < 2 * Nat.pow 128 fuel) (shift : Nat)
    (rest : Bytes) :
    readGroups fuel shift (varintBytes fuel n ++ rest) = some (n <<< shift, rest) := by
  induction fuel generalizing n shift with
  | zero =>
    have hn : n < 2 := h
    have hbyte : (UInt8.ofNat (n % 128)).toNat = n := by
      rw [UInt8.toNat_ofNat']
      omega
    simp [varintBytes, readGroups, hbyte, Nat.le_of_lt_succ hn]
  | succ fuel ih =>
    by_cases hsmall : n < 128
    · have hbyte : (UInt8.ofNat n).toNat = n := by
        rw [UInt8.toNat_ofNat']
        omega
      simp [varintBytes, readGroups, hsmall, hbyte]
    · have hbyte : (UInt8.ofNat (n % 128 + 128)).toNat = n % 128 + 128 := by
        rw [UInt8.toNat_ofNat']
        omega
      have hhigh : n / 128 < 2 * Nat.pow 128 fuel := Nat.div_lt_of_lt_mul (by
        have hpow : Nat.pow 128 (fuel + 1) = Nat.pow 128 fuel * 128 := rfl
        rw [hpow] at h
        omega)
      have hsum : (n % 128) <<< shift + (n / 128) <<< (shift + 7) = n <<< shift := by
        rw [Nat.add_comm shift 7, Nat.shiftLeft_add, Nat.shiftLeft_eq _ shift,
          Nat.shiftLeft_eq _ shift, Nat.shiftLeft_eq _ shift, ← Nat.add_mul]
        congr 1
        omega
      have hmore : ¬n % 128 + 128 < 128 := by omega
      simp only [varintBytes, if_neg hsmall, List.cons_append, readGroups, hbyte, if_neg hmore,
        ih hhigh (shift + 7)]
      simp [hsum]

theorem decodeVarint_encodeVarint (w : UInt64) (rest : Bytes) :
    decodeVarint (encodeVarint w ++ rest) = some (w, rest) := by
  have h : w.toNat < 2 * Nat.pow 128 9 := w.toNat_lt
  rw [decodeVarint, encodeVarint, readGroups_varintBytes h]
  simp

/-- Reads a word of so many little-endian bytes, and the rest. -/
def decodeFixed (size : Nat) (bytes : Bytes) : Option (UInt64 × Bytes) :=
  let front := bytes.take size
  if front.length = size then some (UInt64.ofNat (ofLittleEndian front), bytes.drop size) else none

/-- The bytes of a chunk after its length, and the rest. -/
def decodeChunk (bytes : Bytes) : Option (Bytes × Bytes) := do
  let (size, rest) ← decodeVarint bytes
  let front := rest.take size.toNat
  if front.length = size.toNat then return (front, rest.drop size.toNat) else none

end Telemetry.Wire

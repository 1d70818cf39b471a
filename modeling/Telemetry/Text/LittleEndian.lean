import Telemetry.Text.Hex

/-!
# Little-endian numbers

A number as a fixed count of bytes, the lowest first. A number that is too large loses its highest
part; any other is read back as it was, and every sequence of bytes is the form of the number it
stands for.
-/

namespace Telemetry.Text

/-- A number in so many bytes. -/
def littleEndian : Nat → Nat → Bytes
  | 0, _ => []
  | size + 1, n => UInt8.ofNat (n % 256) :: littleEndian size (n / 256)

/-- The number some bytes stand for. -/
def ofLittleEndian : Bytes → Nat
  | [] => 0
  | b :: rest => b.toNat + 256 * ofLittleEndian rest

@[simp] theorem length_littleEndian (size n : Nat) : (littleEndian size n).length = size := by
  induction size generalizing n with
  | zero => rfl
  | succ size ih => simp [littleEndian, ih]

theorem littleEndian_ofLittleEndian (bytes : Bytes) :
    littleEndian bytes.length (ofLittleEndian bytes) = bytes := by
  induction bytes with
  | nil => rfl
  | cons b rest ih =>
    have hlow : (b.toNat + 256 * ofLittleEndian rest) % 256 = b.toNat := by
      have := b.toNat_lt
      omega
    have hhigh : (b.toNat + 256 * ofLittleEndian rest) / 256 = ofLittleEndian rest := by
      have := b.toNat_lt
      omega
    simp [littleEndian, ofLittleEndian, hlow, hhigh, ih]

theorem ofLittleEndian_littleEndian {size n : Nat} (h : n < Nat.pow 256 size) :
    ofLittleEndian (littleEndian size n) = n := by
  induction size generalizing n with
  | zero => exact (Nat.lt_one_iff.mp h).symm
  | succ size ih =>
    have hhigh : n / 256 < Nat.pow 256 size := Nat.div_lt_of_lt_mul (by
      rw [Nat.mul_comm]
      exact h)
    have hbyte : (UInt8.ofNat (n % 256)).toNat = n % 256 := by simp
    simp only [littleEndian, ofLittleEndian, ih hhigh, hbyte]
    omega

end Telemetry.Text

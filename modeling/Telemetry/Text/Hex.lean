import Telemetry.Text.Quoted

/-!
# Hexadecimal bytes

Bytes written as two hexadecimal digits each, and read back from digits of either case. What was
written is read back as it was.
-/

namespace Telemetry.Text

/-- A sequence of bytes. -/
abbrev Bytes := List UInt8

/-- The value of a hexadecimal digit of either case. -/
def hexValue? (c : Char) : Option Nat :=
  if '0' ≤ c && c ≤ '9' then some (c.toNat - 48)
  else if 'a' ≤ c && c ≤ 'f' then some (c.toNat - 87)
  else if 'A' ≤ c && c ≤ 'F' then some (c.toNat - 55)
  else none

/-- Two lower case digits for each byte. -/
def hexEncodeChars (bytes : Bytes) : List Char :=
  bytes.flatMap fun b => [digitChar (b.toNat / 16), digitChar (b.toNat % 16)]

/-- Two lower case digits for each byte, as a text. -/
def hexEncode (bytes : Bytes) : String := String.ofList (hexEncodeChars bytes)

/-- Reads pairs of digits; an odd digit or another character is refused. -/
def hexDecodeChars : List Char → Option Bytes
  | [] => some []
  | [_] => none
  | hi :: lo :: rest => do
    let h ← hexValue? hi
    let l ← hexValue? lo
    let bytes ← hexDecodeChars rest
    return UInt8.ofNat (16 * h + l) :: bytes

/-- Reads a text of pairs of digits. -/
def hexDecode (s : String) : Option Bytes := hexDecodeChars s.toList

theorem hexValue?_digitChar {n : Nat} (h : n < 16) : hexValue? (digitChar n) = some n := by
  have hall : ∀ i : Fin 16, hexValue? (digitChar i) = some i.val := by decide
  exact hall ⟨n, h⟩

theorem hexDecodeChars_hexEncodeChars (bytes : Bytes) :
    hexDecodeChars (hexEncodeChars bytes) = some bytes := by
  induction bytes with
  | nil => rfl
  | cons b rest ih =>
    have hb := b.toNat_lt
    have hhigh : hexValue? (digitChar (b.toNat / 16)) = some (b.toNat / 16) :=
      hexValue?_digitChar (by omega)
    have hlow : hexValue? (digitChar (b.toNat % 16)) = some (b.toNat % 16) :=
      hexValue?_digitChar (by omega)
    have hsum : 16 * (b.toNat / 16) + b.toNat % 16 = b.toNat := Nat.div_add_mod _ _
    have hstep : hexEncodeChars (b :: rest) =
        digitChar (b.toNat / 16) :: digitChar (b.toNat % 16) :: hexEncodeChars rest := rfl
    have hbyte : UInt8.ofNat (16 * (b.toNat / 16) + b.toNat % 16) = b := by
      rw [hsum, UInt8.ofNat_toNat]
    rw [hstep, hexDecodeChars, hhigh, hlow, ih]
    exact congrArg (fun c => some (c :: rest)) hbyte

theorem hexDecode_hexEncode (bytes : Bytes) : hexDecode (hexEncode bytes) = some bytes := by
  rw [hexDecode, hexEncode, String.toList_ofList, hexDecodeChars_hexEncodeChars]

end Telemetry.Text

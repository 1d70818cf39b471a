import Telemetry.Text.Hex

/-!
# Bytes in base 64

Three bytes are written as four digits; at the end, one byte as two digits and two pads, and two bytes
as three digits and a pad. What a pad cuts off must be zero, so every sequence of bytes has one text.
-/

namespace Telemetry.Text

/-- The digits in base 64, in the order of their values. -/
def base64Digits : List Char :=
  "ABCDEFGHIJKLMNOPQRSTUVWXYZabcdefghijklmnopqrstuvwxyz0123456789+/".toList

/-- The value of a digit in base 64. -/
def base64Value? (c : Char) : Option Nat := base64Digits.idxOf? c

/-- The bytes of a number below `256 ^ 3`, the highest first. -/
def threeBytes (n : Nat) : Bytes :=
  [UInt8.ofNat (n / 65536), UInt8.ofNat (n / 256), UInt8.ofNat n]

/-- Reads a text in base 64. -/
def base64Decode? : List Char → Option Bytes
  | [] => some []
  | [a, b, '=', '='] => do
    let n := (← base64Value? a) * 64 + (← base64Value? b)
    if n % 16 = 0 then return [UInt8.ofNat (n / 16)] else none
  | [a, b, c, '='] => do
    let n := ((← base64Value? a) * 64 + (← base64Value? b)) * 64 + (← base64Value? c)
    if n % 4 = 0 then return (threeBytes (n * 64)).take 2 else none
  | a :: b :: c :: d :: rest => do
    let n := (((← base64Value? a) * 64 + (← base64Value? b)) * 64 + (← base64Value? c)) * 64 +
      (← base64Value? d)
    return threeBytes n ++ (← base64Decode? rest)
  | _ => none

end Telemetry.Text

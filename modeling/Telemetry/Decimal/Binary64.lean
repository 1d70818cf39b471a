/-!
# Double precision numbers

A double is its 64 bits. A finite one stands for a natural number times a power of two, with a
sign; everything here works on that exact value, and a result that is no double is rounded to the
nearest one, a tie going to the even fraction.
-/

namespace Telemetry

/-- A double precision number in the interchange format of 64 bits. -/
structure Binary64 where
  /-- Sign, eleven bits of exponent, fifty-two bits of fraction. -/
  bits : UInt64
deriving DecidableEq, Repr

/-- A quotient rounded to the nearest natural number, a tie going to the even one. -/
def roundHalfEven (num den : Nat) : Nat :=
  let q := num / den
  let r := num % den
  if 2 * r < den then q else if den < 2 * r then q + 1 else q + q % 2

namespace Binary64

/-- What the sign bit counts. -/
def signBit : Nat := 1 <<< 63

/-- The number of fractions that go with one exponent. -/
def fractions : Nat := 1 <<< 52

/-- Whether the sign bit is set. -/
def isNegative (x : Binary64) : Bool := signBit ≤ x.bits.toNat

/-- The eleven bits of the exponent. -/
def exponentField (x : Binary64) : Nat := x.bits.toNat / fractions % 2048

/-- The fifty-two bits of the fraction. -/
def fraction (x : Binary64) : Nat := x.bits.toNat % fractions

/-- Neither an infinity nor a NaN. -/
def isFinite (x : Binary64) : Bool := x.exponentField < 2047

/-- Not a number. -/
def isNaN (x : Binary64) : Bool := x.exponentField = 2047 && x.fraction != 0

/-- Zero of either sign. -/
def isZero (x : Binary64) : Bool := x.exponentField = 0 && x.fraction = 0

/-- The significand: a finite value is this number times `2 ^ exponent`. -/
def significand (x : Binary64) : Nat :=
  if x.exponentField = 0 then x.fraction else x.fraction + fractions

/-- The power of two that goes with the significand. -/
def exponent (x : Binary64) : Int :=
  if x.exponentField = 0 then -1074 else (x.exponentField : Int) - 1075

/-- Two doubles are equal as numbers: zeros of both signs are, and a NaN equals nothing. -/
def equals (x y : Binary64) : Bool :=
  !x.isNaN && !y.isNaN && (x.bits = y.bits || (x.isZero && y.isZero))

/-- Zero. -/
def zero : Binary64 := ⟨0⟩

/-- Puts a sign on the bits of a magnitude. -/
def signed (negative : Bool) (magnitude : Nat) : Binary64 :=
  ⟨UInt64.ofNat (magnitude + if negative then signBit else 0)⟩

/-- The bits of infinity. -/
def infinityBits : Nat := 2047 * fractions

/-- The double nearest to a quotient of natural numbers, with a sign. -/
def ofRatio (negative : Bool) (num den : Nat) : Binary64 :=
  if num = 0 then signed negative 0
  else
    -- an exponent for which the quotient has fifty-three bits, give or take one
    let guess : Int := (Nat.log2 num : Int) - (Nat.log2 den : Int) - 53
    let scaled (e : Int) : Nat × Nat :=
      if e ≥ 0 then (num, den <<< e.toNat) else (num <<< (-e).toNat, den)
    let fits (e : Int) : Bool := let (n, d) := scaled e; n / d < 2 * fractions
    let e := max (-1074) (if fits guess then guess else if fits (guess + 1) then guess + 1
      else guess + 2)
    let (n, d) := scaled e
    let magnitude := (e + 1074).toNat * fractions + roundHalfEven n d
    signed negative (min magnitude infinityBits)

/-- The double nearest to `digits` times a power of ten, with a sign. -/
def ofDecimal (negative : Bool) (digits : Nat) (power : Int) : Binary64 :=
  if digits = 0 then signed negative 0
  else
    let size := (Nat.toDigits 10 digits).length + power
    if size > 310 then signed negative infinityBits
    else if size < -330 then signed negative 0
    else if power ≥ 0 then ofRatio negative (digits * Nat.pow 10 power.toNat) 1
    else ofRatio negative digits (Nat.pow 10 (-power).toNat)

/-- The double nearest to a natural number. -/
def ofNat (n : Nat) : Binary64 := ofRatio false n 1

/-- The double nearest to an integer. -/
def ofInt (i : Int) : Binary64 := ofRatio (i < 0) i.natAbs 1

/-- The magnitude of a finite double as a quotient of natural numbers. -/
def ratio (x : Binary64) : Nat × Nat :=
  if x.exponent ≥ 0 then (x.significand <<< x.exponent.toNat, 1)
  else (x.significand, 1 <<< (-x.exponent).toNat)

/-- The rounded sum of two finite doubles that are not negative. -/
def addMagnitudes (x y : Binary64) : Binary64 :=
  let (a, b) := x.ratio
  let (c, d) := y.ratio
  ofRatio false (a * d + c * b) (b * d)

/-- The rounded product of the magnitudes of two finite doubles. -/
def mulMagnitudes (x y : Binary64) : Binary64 :=
  let (a, b) := x.ratio
  let (c, d) := y.ratio
  ofRatio false (a * c) (b * d)

/-- Whether a finite double is at most a natural number. -/
def leNat (x : Binary64) (n : Nat) : Bool :=
  x.isNegative || (let (a, b) := x.ratio; a ≤ n * b)

/-- Whether a finite double is less than a natural number. -/
def ltNat (x : Binary64) (n : Nat) : Bool :=
  if x.isNegative then 0 < n || !x.isZero else (let (a, b) := x.ratio; a < n * b)

end Binary64

end Telemetry

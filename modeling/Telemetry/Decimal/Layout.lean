import Telemetry.Decimal.Binary64

/-!
# Texts of numbers

A finite double other than zero is written with the fewest digits that read back as the same double,
and with those nearest to its value among them. The search is exact: for one digit, then two, and so
on, it tests the two neighbours of the value on the grid of decimals with so many digits against the
interval of reals that round to the double.

The layouts of these digits differ in where positional notation ends, in whether a whole number
shows a zero after the point, and in the sign of exponents.
-/

namespace Telemetry.Decimal

/-- A positive decimal: `digits` times ten to the `power`. -/
structure Digits where
  /-- The digits, read as one number, without trailing zeros. -/
  digits : Nat
  /-- The power of ten of the last digit. -/
  power : Int
deriving DecidableEq, Repr

/-- Moves trailing zeros of the digits into the power; at most `fuel` of them. -/
def stripZeros : Nat → Digits → Digits
  | 0, d => d
  | fuel + 1, d =>
    if d.digits ≠ 0 ∧ d.digits % 10 = 0 then stripZeros fuel ⟨d.digits / 10, d.power + 1⟩ else d

/-- How many times a fraction below one must be multiplied by ten to reach one, less than `fuel`. -/
def leadingZeros : Nat → Nat → Nat → Nat
  | 0, _, _ => 0
  | fuel + 1, num, den => if den ≤ num then 0 else leadingZeros fuel (num * 10) den + 1

/-- The power of ten of the first digit of a positive quotient. -/
def leadingPower (num den : Nat) : Int :=
  if den ≤ num then ((Nat.toDigits 10 (num / den)).length : Int) - 1
  else -(leadingZeros 400 num den : Int)

/-- The interval of reals that round to a double, and the double, over one denominator. -/
structure Interval where
  /-- The lower end. -/
  low : Nat
  /-- The value of the double. -/
  value : Nat
  /-- The upper end. -/
  high : Nat
  /-- The common denominator. -/
  den : Nat
  /-- Whether the ends round to the double too. -/
  closed : Bool

/-- The rounding interval of a finite double other than zero, its sign left out. -/
def Interval.ofBinary64 (x : Binary64) : Interval :=
  let m := x.significand
  -- below a power of two the doubles lie twice as close
  let below := if x.fraction = 0 ∧ x.exponentField > 1 then 1 else 2
  let shift := x.exponent - 2
  let up := if shift ≥ 0 then 1 <<< shift.toNat else 1
  let den := if shift ≥ 0 then 1 else 1 <<< (-shift).toNat
  { low := (4 * m - below) * up, value := 4 * m * up, high := (4 * m + 2) * up, den := den,
    closed := m % 2 = 0 }

/-- The neighbour of the value on the grid of multiples of `10 ^ power` that lies in the interval
and is nearest to the value, if one does. -/
def Interval.onGrid? (i : Interval) (power : Int) : Option Nat :=
  let scale := if power ≥ 0 then 1 else Nat.pow 10 (-power).toNat
  let step := if power ≥ 0 then i.den * Nat.pow 10 power.toNat else i.den
  let value := i.value * scale
  let below := value / step
  let inside (n : Nat) : Bool :=
    let at_ := n * step
    if i.closed then i.low * scale ≤ at_ && at_ ≤ i.high * scale
    else i.low * scale < at_ && at_ < i.high * scale
  match inside below && below != 0, inside (below + 1) with
  | true, true => some (if 2 * (value - below * step) ≤ step then below else below + 1)
  | true, false => some below
  | false, true => some (below + 1)
  | false, false => none

/-- Searches the grids of `n` digits and more, at most `fuel` of them. -/
def Interval.search (i : Interval) (leading : Int) : Nat → Nat → Digits
  | 0, n => ⟨i.value / i.den, (n : Int) - n⟩
  | fuel + 1, n =>
    let power := leading - (n : Int) + 1
    match i.onGrid? power with
    | some d => stripZeros 20 ⟨d, power⟩
    | none => i.search leading fuel (n + 1)

/-- The shortest digits of a finite double other than zero, its sign left out. Seventeen digits
always suffice. -/
def shortest (x : Binary64) : Digits :=
  let i := Interval.ofBinary64 x
  i.search (leadingPower i.value i.den) 17 1

/-- The decisions of a layout. With `n` places before the point (or minus `n` zeros after it),
positional notation is used when `lowest < n ≤ highest`, and always when there are no bounds. -/
structure Layout where
  /-- The bounds of positional notation. -/
  positional : Option (Int × Int)
  /-- Whether a whole number ends in a point and a zero. -/
  pointZero : Bool
  /-- Whether an exponent above zero has a plus sign. -/
  plusSign : Bool

/-- Values in diagnostic output: an exponent below 0.0001 and from 10^16 on. -/
def Layout.diagnostic : Layout := ⟨some (-4, 16), true, false⟩

/-- Numbers of JSON texts: an exponent below 0.00001 and, with a plus sign, from 10^16 on. -/
def Layout.json : Layout := ⟨some (-5, 16), true, true⟩

/-- Positional throughout, with a place after the point. -/
def Layout.positionalPoint : Layout := ⟨none, true, false⟩

/-- Positional throughout, whole numbers without a point. -/
def Layout.plain : Layout := ⟨none, false, false⟩

/-- The digits of a number. -/
def digitsOf (n : Nat) : List Char := Nat.toDigits 10 n

/-- An integer with a minus sign if it is negative. -/
def signedDigits (i : Int) : List Char :=
  if i < 0 then '-' :: digitsOf i.natAbs else digitsOf i.natAbs

/-- Positive digits laid out. -/
def Layout.magnitude (l : Layout) (d : Digits) : List Char :=
  let ds := digitsOf d.digits
  let before : Int := ds.length + d.power
  let usesPoint := match l.positional with
    | none => true
    | some (lowest, highest) => lowest < before && before ≤ highest
  if usesPoint then
    if d.power ≥ 0 then
      ds ++ List.replicate d.power.toNat '0' ++ (if l.pointZero then ['.', '0'] else [])
    else if before > 0 then ds.take before.toNat ++ '.' :: ds.drop before.toNat
    else ['0', '.'] ++ List.replicate (-before).toNat '0' ++ ds
  else
    let mark := if l.plusSign && before > 1 then ['e', '+'] else ['e']
    let exponent := mark ++ signedDigits (before - 1)
    match ds with
    | [] => exponent
    | [c] => c :: exponent
    | c :: rest => c :: '.' :: rest ++ exponent

/-- The text of a double in a layout. -/
def Layout.text (l : Layout) (x : Binary64) : String :=
  if x.isNaN then "NaN"
  else
    let sign := if x.isNegative then ['-'] else []
    let body :=
      if !x.isFinite then ['i', 'n', 'f']
      else if x.isZero then (if l.pointZero then ['0', '.', '0'] else ['0'])
      else l.magnitude (shortest x)
    String.ofList (sign ++ body)

end Telemetry.Decimal

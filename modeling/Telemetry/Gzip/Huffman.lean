import Telemetry.Text.Hex

/-!
# Bits and prefix codes

Compressed data is a sequence of bits, the lowest bit of every byte first. A number that is not part
of a code has its lowest bit first.

A prefix code is given by the length of the code of every symbol. Codes of one length follow each
other in the order of the symbols, and longer codes follow shorter ones, so that the lengths
determine them. A symbol of length zero has no code.
-/

namespace Telemetry.Gzip

open Text (Bytes)

/-- A sequence of bits. -/
abbrev Bits := List Bool

/-- The bits of a byte, the lowest first. -/
def bitsOfByte (b : UInt8) : Bits := (List.range 8).map b.toNat.testBit

/-- The bits of some bytes. -/
def bitsOf (bytes : Bytes) : Bits := bytes.flatMap bitsOfByte

/-- The number some bits stand for, the lowest first. -/
def numberOf (bits : Bits) : Nat := bits.foldr (fun b n => 2 * n + b.toNat) 0

/-- A number of so many bits, and the rest. -/
def takeNumber (width : Nat) (bits : Bits) : Option (Nat × Bits) :=
  if bits.length < width then none else some (numberOf (bits.take width), bits.drop width)

/-- The bytes that whole groups of eight bits stand for; bits that are left over do not count. -/
def bytesOf : Bits → Bytes
  | a :: b :: c :: d :: e :: f :: g :: h :: rest =>
    UInt8.ofNat (numberOf [a, b, c, d, e, f, g, h]) :: bytesOf rest
  | _ => []

/-- Drops the bits up to the next byte, given that the data ends with one. -/
def alignToByte (bits : Bits) : Bits := bits.drop (bits.length % 8)

/-- A prefix code. -/
structure PrefixCode where
  /-- The number of codes of each length, from length one on. -/
  counts : List Nat
  /-- The symbols in the order of their codes. -/
  symbols : List Nat
deriving DecidableEq, Repr

namespace PrefixCode

/-- The longest code, in bits. -/
def maxLength : Nat := 15

/-- The symbols whose code has a length. -/
def ofLength (lengths : List Nat) (length : Nat) : List Nat :=
  lengths.zipIdx.filterMap fun (l, symbol) => if l = length then some symbol else none

/-- The share of all texts of bits that begin with some code, in parts of `2 ^ maxLength`. -/
def share (lengths : List Nat) : Nat :=
  ((lengths.filter (0 < ·)).map fun l => 1 <<< (maxLength - l)).foldr (· + ·) 0

/-- The code with given lengths. It must leave no text of bits without a meaning and give none two,
unless it has one symbol at most. -/
def ofLengths? (lengths : List Nat) : Option PrefixCode :=
  let groups := (List.range maxLength).map fun i => ofLength lengths (i + 1)
  let symbols := groups.flatten
  if share lengths = 1 <<< maxLength ∨ symbols.length ≤ 1 then
    some ⟨groups.map List.length, symbols⟩
  else none

/-- Reads on in a code: `code` is what was read, `first` the first code of its length, and `index` the
number of shorter codes. -/
def readFrom (symbols : List Nat) :
    List Nat → Nat → Nat → Nat → Bits → Option (Nat × Bits)
  | [], _, _, _, _ => none
  | _, _, _, _, [] => none
  | count :: counts, code, first, index, bit :: bits =>
    let code := 2 * code + bit.toNat
    let first := 2 * first
    if code < first + count then (symbols[index + (code - first)]?).map fun s => (s, bits)
    else readFrom symbols counts code (first + count) (index + count) bits

/-- The symbol at the front of some bits, and the rest. -/
def read (c : PrefixCode) (bits : Bits) : Option (Nat × Bits) :=
  readFrom c.symbols c.counts 0 0 0 bits

end PrefixCode

end Telemetry.Gzip

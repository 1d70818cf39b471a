import Telemetry.Gzip.Huffman

/-!
# Inflating

Compressed data is a sequence of blocks. A block holds bytes as they are, or symbols of two prefix
codes: bytes, and references that repeat bytes from further back. What was inflated is kept as an
array, so that a reference finds its bytes. Inflating stops once there are as many bytes as were asked
for; what follows is not looked at.
-/

namespace Telemetry.Gzip

/-- How far inflating has come. -/
structure Inflating where
  /-- What was inflated. -/
  out : Array UInt8
  /-- What is to be read. -/
  bits : Bits
  /-- Whether there are as many bytes as were asked for. -/
  full : Bool

namespace Inflating

/-- The number of further bits and the smallest length for each symbol of a length. -/
def lengthTable : List (Nat × Nat) :=
  [(0, 3), (0, 4), (0, 5), (0, 6), (0, 7), (0, 8), (0, 9), (0, 10), (1, 11), (1, 13), (1, 15),
   (1, 17), (2, 19), (2, 23), (2, 27), (2, 31), (3, 35), (3, 43), (3, 51), (3, 59), (4, 67),
   (4, 83), (4, 99), (4, 115), (5, 131), (5, 163), (5, 195), (5, 227), (0, 258)]

/-- The number of further bits and the smallest distance for each symbol of a distance. -/
def distanceTable : List (Nat × Nat) :=
  [(0, 1), (0, 2), (0, 3), (0, 4), (1, 5), (1, 7), (2, 9), (2, 13), (3, 17), (3, 25), (4, 33),
   (4, 49), (5, 65), (5, 97), (6, 129), (6, 193), (7, 257), (7, 385), (8, 513), (8, 769),
   (9, 1025), (9, 1537), (10, 2049), (10, 3073), (11, 4097), (11, 6145), (12, 8193), (12, 12289),
   (13, 16385), (13, 24577)]

/-- The order in which the lengths of the codes for code lengths are given. -/
def lengthOrder : List Nat := [16, 17, 18, 0, 8, 7, 9, 6, 10, 5, 11, 4, 12, 3, 13, 2, 14, 1, 15]

/-- The usual lengths of the codes of bytes and lengths. -/
def usualLengths : List Nat :=
  List.replicate 144 8 ++ List.replicate 112 9 ++ List.replicate 24 7 ++ List.replicate 8 8

/-- The usual lengths of the codes of distances. -/
def usualDistances : List Nat := List.replicate 32 5

/-- Adds a byte. -/
def push (limit : Nat) (b : UInt8) (s : Inflating) : Inflating :=
  let out := s.out.push b
  { s with out := out, full := limit ≤ out.size }

/-- Repeats so many bytes from a distance back. -/
def repeatBytes (limit distance : Nat) : Nat → Inflating → Inflating
  | 0, s => s
  | n + 1, s =>
    if s.full then s
    else repeatBytes limit distance n (s.push limit (s.out.getD (s.out.size - distance) 0))

/-- A value of a table by its symbol and the further bits that follow. -/
def tableValue (table : List (Nat × Nat)) (symbol : Nat) (bits : Bits) : Option (Nat × Bits) := do
  let (width, base) ← table[symbol]?
  let (extra, bits) ← takeNumber width bits
  return (base + extra, bits)

/-- The bytes of a block that are given as they are. -/
def stored (limit : Nat) (s : Inflating) : Option Inflating := do
  let (size, bits) ← takeNumber 16 (alignToByte s.bits)
  let (check, bits) ← takeNumber 16 bits
  if size + check ≠ 65535 then none
  let wanted := min size (limit - s.out.size)
  if bits.length < 8 * wanted then none
  let out := s.out ++ (bytesOf (bits.take (8 * wanted))).toArray
  return ⟨out, bits.drop (8 * wanted), limit ≤ out.size⟩

/-- The symbols of a block, in at most so many steps. -/
def symbols (limit : Nat) (literals distances : PrefixCode) : Nat → Inflating → Option Inflating
  | 0, _ => none
  | fuel + 1, s =>
    if s.full then some s
    else do
      let (symbol, bits) ← literals.read s.bits
      if symbol < 256 then
        symbols limit literals distances fuel
          ({ s with bits := bits }.push limit (UInt8.ofNat symbol))
      else if symbol = 256 then return { s with bits := bits }
      else
        let (length, bits) ← tableValue lengthTable (symbol - 257) bits
        let (code, bits) ← distances.read bits
        let (distance, bits) ← tableValue distanceTable code bits
        if s.out.size < distance then none
        else
          symbols limit literals distances fuel
            (repeatBytes limit distance length { s with bits := bits })

/-- Reads the lengths of codes until there are so many, in at most so many steps. -/
def codeLengths (code : PrefixCode) (total : Nat) :
    Nat → List Nat → Bits → Option (List Nat × Bits)
  | 0, _, _ => none
  | fuel + 1, done, bits =>
    if total < done.length then none
    else if done.length = total then some (done, bits)
    else do
      let (symbol, bits) ← code.read bits
      if symbol < 16 then codeLengths code total fuel (done ++ [symbol]) bits
      else if symbol = 16 then
        let (extra, bits) ← takeNumber 2 bits
        let last ← done.getLast?
        codeLengths code total fuel (done ++ List.replicate (3 + extra) last) bits
      else if symbol = 17 then
        let (extra, bits) ← takeNumber 3 bits
        codeLengths code total fuel (done ++ List.replicate (3 + extra) 0) bits
      else
        let (extra, bits) ← takeNumber 7 bits
        codeLengths code total fuel (done ++ List.replicate (11 + extra) 0) bits

/-- So many numbers of three bits, and the rest. -/
def triples : Nat → Bits → Option (List Nat × Bits)
  | 0, bits => some ([], bits)
  | n + 1, bits => do
    let (a, bits) ← takeNumber 3 bits
    let (rest, bits) ← triples n bits
    return (a :: rest, bits)

/-- The two codes a block begins with, and the rest. -/
def ownCodes (bits : Bits) : Option (PrefixCode × PrefixCode × Bits) := do
  let (literals, bits) ← takeNumber 5 bits
  let (distances, bits) ← takeNumber 5 bits
  let (lengths, bits) ← takeNumber 4 bits
  let literals := literals + 257
  let distances := distances + 1
  if 286 < literals ∨ 30 < distances then none
  let (given, bits) ← triples (lengths + 4) bits
  let table := lengthOrder.zip given
  let code ← PrefixCode.ofLengths? ((List.range 19).map fun s => (table.lookup s).getD 0)
  let total := literals + distances
  let (all, bits) ← codeLengths code total (total + 1) [] bits
  return (← PrefixCode.ofLengths? (all.take literals),
    ← PrefixCode.ofLengths? (all.drop literals), bits)

/-- One block; the second result says whether it is the last. -/
def block (limit : Nat) (s : Inflating) : Option (Inflating × Bool) := do
  let (last, bits) ← takeNumber 1 s.bits
  let (kind, bits) ← takeNumber 2 bits
  let s := { s with bits := bits }
  let s ← match kind with
    | 0 => s.stored limit
    | 1 => do
      symbols limit (← PrefixCode.ofLengths? usualLengths)
        (← PrefixCode.ofLengths? usualDistances) (bits.length + 1) s
    | 2 => do
      let (literals, distances, bits) ← ownCodes bits
      symbols limit literals distances (bits.length + 1) { s with bits := bits }
    | _ => none
  return (s, last = 1)

/-- Blocks up to the last, or until there are enough bytes, in at most so many steps. -/
def blocks (limit : Nat) : Nat → Inflating → Option Inflating
  | 0, _ => none
  | fuel + 1, s =>
    if s.full then some s
    else do
      let (s, last) ← s.block limit
      if last then return s else blocks limit fuel s

end Inflating

/-- Inflates data up to so many bytes. -/
def inflate? (limit : Nat) (bits : Bits) : Option Inflating :=
  Inflating.blocks limit (bits.length + 1) ⟨#[], bits, limit = 0⟩

end Telemetry.Gzip

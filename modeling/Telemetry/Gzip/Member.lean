import Telemetry.Gzip.Inflate
import Telemetry.Text.LittleEndian

/-!
# Members

A member of a compressed file has a head, compressed data, and at its end the checksum and the size
of the content. A head may name the file and hold a comment, further data and a checksum of its own.
Only the first member of a file counts.

The checksum is the cyclic redundancy check of 32 bits: the remainder of a division of polynomials,
taken bit by bit from the lowest.
-/

namespace Telemetry.Gzip

open Text (Bytes littleEndian ofLittleEndian)

/-- The polynomial, its lowest power in the highest bit. -/
def polynomial : UInt32 := 0xEDB88320

/-- The remainder after one more bit, which is the lowest bit of the remainder so far. -/
def crcBit (r : UInt32) : UInt32 :=
  if r &&& 1 = 1 then (r >>> 1) ^^^ polynomial else r >>> 1

/-- The remainder after one more byte. -/
def crcByte (r : UInt32) (b : UInt8) : UInt32 :=
  (List.range 8).foldl (fun r _ => crcBit r) (r ^^^ b.toUInt32)

/-- The checksum of some bytes. -/
def checksum (bytes : Bytes) : UInt32 := (bytes.foldl crcByte 0xFFFFFFFF) ^^^ 0xFFFFFFFF

/-- What stands at the beginning of a head: two bytes to know it by, and the kind of compression. -/
def magic : Bytes := [0x1F, 0x8B, 8]

/-- Drops a text that ends with a zero, together with the zero. -/
def dropText (bytes : Bytes) : Option Bytes :=
  match bytes.dropWhile (· ≠ 0) with
  | [] => none
  | _ :: rest => some rest

/-- Drops so many bytes, which must be there. -/
def dropBytes (n : Nat) (bytes : Bytes) : Option Bytes :=
  if bytes.length < n then none else some (bytes.drop n)

/-- Drops data that begins with its size. -/
def dropSized (bytes : Bytes) : Option Bytes := do
  let rest ← dropBytes 2 bytes
  dropBytes (ofLittleEndian (bytes.take 2)) rest

/-- Drops the head of a member. -/
def dropHead (bytes : Bytes) : Option Bytes := do
  if bytes.take 3 ≠ magic then none
  let flags := (← bytes[3]?).toNat
  if 32 ≤ flags then none
  let rest ← dropBytes 10 bytes
  let rest ← if flags.testBit 2 then dropSized rest else some rest
  let rest ← if flags.testBit 3 then dropText rest else some rest
  let rest ← if flags.testBit 4 then dropText rest else some rest
  if flags.testBit 1 then
    let head := bytes.take (bytes.length - rest.length)
    let after ← dropBytes 2 rest
    if ofLittleEndian (rest.take 2) = (checksum head).toNat % 65536 then some after else none
  else return rest

/-- The first bytes of the content of a file, at most so many. There is no result if the file is
damaged before them, or anywhere if the content has fewer. -/
def unpack? (limit : Nat) (bytes : Bytes) : Option Bytes := do
  let s ← inflate? limit (bitsOf (← dropHead bytes))
  if s.full then return s.out.toList
  let content := s.out.toList
  let tail := (bytesOf (alignToByte s.bits)).take 8
  if tail = littleEndian 4 (checksum content).toNat ++ littleEndian 4 content.length then
    return content
  else none

/-- The most bytes one block can give as they are. -/
def maxStored : Nat := 65535

/-- A block that gives bytes as they are. -/
def storedBlock (last : Bool) (content : Bytes) : Bytes :=
  (if last then 1 else 0) :: (littleEndian 2 content.length ++
    littleEndian 2 (maxStored - content.length) ++ content)

/-- Blocks that give bytes as they are, the last one marked. -/
def storedBlocks (content : Bytes) : Bytes :=
  if content.length ≤ maxStored then storedBlock true content
  else storedBlock false (content.take maxStored) ++ storedBlocks (content.drop maxStored)
termination_by content.length
decreasing_by
  rw [List.length_drop]
  simp only [maxStored] at *
  omega

/-- A file with one member whose content is given as it is. -/
def pack (content : Bytes) : Bytes :=
  magic ++ [0, 0, 0, 0, 0, 0, 255] ++ storedBlocks content ++
    littleEndian 4 (checksum content).toNat ++ littleEndian 4 content.length

end Telemetry.Gzip

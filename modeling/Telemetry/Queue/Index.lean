import Telemetry.Failure.Consume
import Telemetry.Text.LittleEndian

/-!
# Index records of a persistent queue

A persistent queue keeps its read index, its write index and the indices of the items in flight in
storage, as little-endian words of eight bytes; a list of indices is preceded by its length in four
bytes. Items are stored under their index in decimal.
-/

namespace Telemetry.Queue

open Text (Bytes littleEndian ofLittleEndian)

/-- The key of the read index. -/
def readKey : String := "ri"

/-- The key of the write index. -/
def writeKey : String := "wi"

/-- The key of the indices of the items in flight. -/
def dispatchedKey : String := "di"

/-- The key of an item: its index in decimal. -/
def itemKey (index : UInt64) : String := String.ofList (Nat.toDigits 10 index.toNat)

/-- An index as eight bytes. -/
def encodeIndex (index : UInt64) : Bytes := littleEndian 8 index.toNat

/-- Reads an index; there must be eight bytes. -/
def decodeIndex (bytes : Bytes) : Except QueueError UInt64 :=
  if bytes.length = 8 then .ok (UInt64.ofNat (ofLittleEndian bytes))
  else .error (.invalidIndex "index must be 8 bytes")

/-- A list of indices: its length as four bytes, then each index as eight. -/
def encodeIndices (indices : List UInt64) : Bytes :=
  littleEndian 4 indices.length ++ indices.flatMap encodeIndex

/-- Reads so many words of eight bytes. -/
def decodeWords : Nat → Bytes → List UInt64
  | 0, _ => []
  | count + 1, bytes =>
    UInt64.ofNat (ofLittleEndian (bytes.take 8)) :: decodeWords count (bytes.drop 8)

/-- Reads a list of indices. No bytes at all are an empty list; else the length must be that of the
rest. -/
def decodeIndices (bytes : Bytes) : Except QueueError (List UInt64) :=
  if bytes.isEmpty then .ok []
  else if bytes.length < 4 then .error (.invalidIndex "index set is missing its length")
  else
    let count := ofLittleEndian (bytes.take 4)
    let payload := bytes.drop 4
    if payload.length = 8 * count then .ok (decodeWords count payload)
    else .error (.invalidIndex "index set length does not match its payload")

end Telemetry.Queue

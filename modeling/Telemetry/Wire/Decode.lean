import Telemetry.Wire.Encode

/-!
# Reading messages

A message is read field by field into the message to which nothing was given. A single value takes
the place of an earlier one; messages of one field are merged, unless the field occurs any number of
times; a member of a choice takes the place of another. What the schema does not know is skipped.
Messages and skipped groups may be nested a hundred levels deep.
-/

namespace Telemetry.Wire

open Text (Bytes)

/-- A field as it stands in the binary form: its number and the code of its layout. -/
structure Key where
  /-- The number of the field. -/
  number : Nat
  /-- The code of the layout of its value. -/
  code : Nat
deriving DecidableEq, Repr

/-- The code that opens a group. -/
def groupStart : Nat := 3

/-- The code that closes a group. -/
def groupEnd : Nat := 4

/-- Reads a key: a number from one up and one of the six codes, in 32 bits. -/
def decodeKey (bytes : Bytes) : Option (Key × Bytes) := do
  let (w, rest) ← decodeVarint bytes
  let n := w.toNat
  if n < UInt32.size ∧ n % 8 ≤ 5 ∧ 0 < n / 8 then return (⟨n / 8, n % 8⟩, rest) else none

/-- Skips the fields of a group up to its end, with a way to skip one field. -/
def skipGroup (skip : Key → Bytes → Option Bytes) (number : Nat) : Nat → Bytes → Option Bytes
  | 0, _ => none
  | fuel + 1, bytes => do
    let (key, rest) ← decodeKey bytes
    if key.code = groupEnd then
      if key.number = number then return rest else none
    else skipGroup skip number fuel (← skip key rest)

/-- Skips the value of a field; `room` is the number of levels that are left. -/
def skipValue : Nat → Key → Bytes → Option Bytes
  | 0, _, _ => none
  | room + 1, key, bytes =>
    match key.code with
    | 0 => (decodeVarint bytes).map Prod.snd
    | 1 => (decodeFixed 8 bytes).map Prod.snd
    | 2 => (decodeChunk bytes).map Prod.snd
    | 3 => skipGroup (skipValue room) key.number (bytes.length + 1) bytes
    | 5 => (decodeFixed 4 bytes).map Prod.snd
    | _ => none

/-- Keeps the lowest 32 bits of a word. -/
def low32 (w : UInt64) : UInt64 := w &&& 0xFFFFFFFF

/-- Keeps the lowest 32 bits of a word and repeats the highest of them. -/
def signExtend32 (w : UInt64) : UInt64 :=
  let l := low32 w
  if l < 0x80000000 then l else l ||| 0xFFFFFFFF00000000

/-- A value of a type from a varint. -/
def ScalarType.ofVarint (t : ScalarType) (w : UInt64) : Value :=
  match t with
  | bool => .word (if w = 0 then 0 else 1)
  | uint32 | sint32 => .word (low32 w)
  | enum => .word (signExtend32 w)
  | _ => .word w

/-- The text some bytes are the UTF-8 form of, if they are. -/
def ofUtf8? (bytes : Bytes) : Option String := String.fromUTF8? ⟨bytes.toArray⟩

/-- Reads a single value in its layout, and the rest. -/
def decodeScalar (t : ScalarType) (bytes : Bytes) : Option (Value × Bytes) :=
  match t.layout with
  | .varint => (decodeVarint bytes).map fun (w, rest) => (t.ofVarint w, rest)
  | .eight => (decodeFixed 8 bytes).map fun (w, rest) =>
    (if t = .double then .double ⟨w⟩ else .word w, rest)
  | .four => (decodeFixed 4 bytes).map fun (w, rest) => (.word w, rest)
  | .chunk => do
    let (body, rest) ← decodeChunk bytes
    if t = .string then return (.text (← ofUtf8? body), rest) else return (.bytes body, rest)

/-- Reads the values of a chunk of numbers. -/
def decodePacked (t : ScalarType) : Nat → Bytes → Option (List Value)
  | _, [] => some []
  | 0, _ => none
  | fuel + 1, bytes => do
    let (v, rest) ← decodeScalar t bytes
    return v :: (← decodePacked t fuel rest)

/-- Empties the slots of a choice. -/
def clearChoice (fields : List Field) (m : Message) : Message :=
  List.zipWith (fun f vs => if f.presence = .choice then [] else vs) fields m

/-- Puts a single value into the slot of its field. -/
def storeScalar (t : MessageType) (m : Message) (i : Nat) (presence : Presence) (v : Value) :
    Message :=
  match presence with
  | .repeated => Message.withSlot m i (Message.slot m i ++ [v])
  | .choice => Message.withSlot (clearChoice t.fields m) i [v]
  | _ => Message.withSlot m i [v]

/-- Reads one occurrence of a known field into a message, with a way to read messages inside. -/
def decodeKnown (nested : MessageType → Message → Bytes → Option Message) (t : MessageType)
    (m : Message) (i : Nat) (f : Field) (code : Nat) (bytes : Bytes) :
    Option (Message × Bytes) := do
  match f.type with
  | .scalar s =>
    if code = s.layout.code then
      let (v, rest) ← decodeScalar s bytes
      return (storeScalar t m i f.presence v, rest)
    else if code = Layout.chunk.code ∧ f.presence = .repeated ∧ s.packs then
      let (body, rest) ← decodeChunk bytes
      let vs ← decodePacked s body.length body
      return (Message.withSlot m i (Message.slot m i ++ vs), rest)
    else none
  | .message s =>
    if code ≠ Layout.chunk.code then none
    else
      let (body, rest) ← decodeChunk bytes
      match f.presence with
      | .repeated =>
        let part ← nested s s.blank body
        return (Message.withSlot m i (Message.slot m i ++ [.message part]), rest)
      | presence =>
        let part ← nested s ((Message.messageAt? m i).getD s.blank) body
        return (storeScalar t m i presence (.message part), rest)

/-- Reads the fields of a message up to the end of the bytes. -/
def decodeFields (nested : MessageType → Message → Bytes → Option Message)
    (skip : Key → Bytes → Option Bytes) (t : MessageType) : Nat → Message → Bytes → Option Message
  | _, m, [] => some m
  | 0, _, _ => none
  | fuel + 1, m, bytes => do
    let (key, rest) ← decodeKey bytes
    let i := t.fields.findIdx fun f => f.number == key.number
    match t.fields[i]? with
    | some f =>
      let (m, rest) ← decodeKnown nested t m i f key.code rest
      decodeFields nested skip t fuel m rest
    | none => decodeFields nested skip t fuel m (← skip key rest)

/-- Reads a message, merging it into one that is there; `room` is the number of levels that are
left below it. -/
def decodeInto : Nat → MessageType → Message → Bytes → Option Message
  | 0, t, m, bytes => decodeFields (fun _ _ _ => none) (fun _ _ => none) t bytes.length m bytes
  | room + 1, t, m, bytes =>
    decodeFields (decodeInto room) (skipValue (room + 1)) t bytes.length m bytes

/-- The levels of nesting a message may have. -/
def maxNesting : Nat := 100

/-- Reads a message. -/
def decode? (t : MessageType) (bytes : Bytes) : Option Message :=
  decodeInto maxNesting t t.blank bytes

end Telemetry.Wire

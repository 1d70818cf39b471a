import Telemetry.Wire.Message
import Telemetry.Wire.Varint

/-!
# Writing messages

The binary form of a message: its fields in the order of the schema, each as a key, which is the
field's number and the way the value is laid out, and the value. A plain field with its default value
is left out; numbers that occur any number of times are written together as one chunk.
-/

namespace Telemetry.Wire

open Text (Bytes littleEndian)

/-- How the values of a type are laid out: as a varint, as eight bytes, as a chunk with its length,
or as four bytes. -/
inductive Layout
  | varint
  | eight
  | chunk
  | four
deriving DecidableEq, Repr

/-- The code of a layout. -/
def Layout.code : Layout → Nat
  | varint => 0
  | eight => 1
  | chunk => 2
  | four => 5

/-- The layout of a single value. -/
def ScalarType.layout : ScalarType → Layout
  | string | bytes => .chunk
  | bool | uint32 | enum | sint32 | uint64 | int64 => .varint
  | fixed64 | sfixed64 | double => .eight
  | fixed32 => .four

/-- Whether values of a type are written together when there are any number of them. -/
def ScalarType.packs (t : ScalarType) : Bool := t.layout != .chunk

/-- The key of a field: its number and the layout of its value. -/
def encodeKey (number : Nat) (layout : Layout) : Bytes :=
  varintBytes 9 (8 * number + layout.code)

/-- Bytes after their length. -/
def encodeChunk (body : Bytes) : Bytes := varintBytes 9 body.length ++ body

/-- The UTF-8 form of a text. -/
def utf8 (s : String) : Bytes := s.toUTF8.toList

/-- A single value in its layout, without its key. -/
def encodeScalar (layout : Layout) : Value → Bytes
  | .word w =>
    match layout with
    | .varint => encodeVarint w
    | .eight => littleEndian 8 w.toNat
    | .four => littleEndian 4 w.toNat
    | .chunk => []
  | .double x => littleEndian 8 x.bits.toNat
  | .text s => encodeChunk (utf8 s)
  | .bytes b => encodeChunk b
  | .message _ => []

/-- The values of one field of single values. -/
def encodeValues (f : Field) (t : ScalarType) (vs : List Value) : Bytes :=
  if f.presence = .repeated ∧ t.packs then
    if vs.isEmpty then []
    else encodeKey f.number .chunk ++ encodeChunk (vs.flatMap (encodeScalar t.layout))
  else
    (vs.filter fun v => !(f.presence = .plain && v.isDefault)).flatMap fun v =>
      encodeKey f.number t.layout ++ encodeScalar t.layout v

mutual

/-- The fields of a message, given their slots. -/
def encodeSlots : List Field → List (List Value) → Bytes
  | f :: fields, vs :: slots =>
    let front := match f.type with
      | .scalar t => encodeValues f t vs
      | .message t => encodeParts f.number t vs
    front ++ encodeSlots fields slots
  | _, _ => []

/-- Messages, each with the key of its field. -/
def encodeParts (number : Nat) (t : MessageType) : List Value → Bytes
  | [] => []
  | v :: vs => encodePart number t v ++ encodeParts number t vs

/-- One message with the key of its field. -/
def encodePart (number : Nat) (t : MessageType) : Value → Bytes
  | .message slots => encodeKey number .chunk ++ encodeChunk (encodeSlots t.fields slots)
  | _ => []

end

/-- The binary form of a message. -/
def encode (t : MessageType) (m : Message) : Bytes := encodeSlots t.fields m

end Telemetry.Wire

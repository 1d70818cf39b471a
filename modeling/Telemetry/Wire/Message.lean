import Telemetry.Decimal.Binary64
import Telemetry.Text.Hex
import Telemetry.Wire.Schema

/-!
# Telemetry messages

A message is a list of slots, one for each field of its type in the order of the schema, and a slot
is the list of the field's values: exactly one for a plain field, at most one for an optional field,
and a value in at most one of the slots of a choice.
-/

namespace Telemetry.Wire

open Text (Bytes)

/-- A value of a field. Numbers other than doubles are 64-bit words: signed ones in two's complement,
except that a `sint32` is held in its zigzag form. -/
inductive Value
  | word (w : UInt64)
  | double (x : Binary64)
  | text (s : String)
  | bytes (b : Bytes)
  | message (slots : List (List Value))
deriving Inhabited, Repr

/-- The slots of a message. -/
abbrev Message := List (List Value)

/-- The value of a field that is not written. -/
def ScalarType.default : ScalarType → Value
  | string => .text ""
  | bytes => .bytes []
  | double => .double .zero
  | _ => .word 0

/-- The slot of a field in a message to which nothing was given. -/
def Field.initial (f : Field) : List Value :=
  match f.presence, f.type with
  | .plain, .scalar t => [t.default]
  | _, _ => []

/-- The message of a type to which nothing was given. -/
def MessageType.blank (t : MessageType) : Message := t.fields.map Field.initial

/-- Whether a value is the one that a plain field has when it is not written; zeros of both signs
are. -/
def Value.isDefault : Value → Bool
  | .word w => w == 0
  | .double x => x.isZero
  | .text s => s.isEmpty
  | .bytes b => b.isEmpty
  | .message _ => false

mutual

/-- Whether two values are equal, doubles being compared as numbers. -/
def Value.equals : Value → Value → Bool
  | .word a, .word b => a == b
  | .double a, .double b => a.equals b
  | .text a, .text b => a == b
  | .bytes a, .bytes b => a == b
  | .message a, .message b => slotsEqual a b
  | _, _ => false

/-- Whether the slots of two messages are equal. -/
def slotsEqual : List (List Value) → List (List Value) → Bool
  | [], [] => true
  | a :: as, b :: bs => valuesEqual a b && slotsEqual as bs
  | _, _ => false

/-- Whether two lists of values are equal. -/
def valuesEqual : List Value → List Value → Bool
  | [], [] => true
  | a :: as, b :: bs => a.equals b && valuesEqual as bs
  | _, _ => false

end

namespace Message

/-- The values in a slot. -/
def slot (m : Message) (i : Nat) : List Value := m.getD i []

/-- Puts values into a slot. -/
def withSlot (m : Message) (i : Nat) (vs : List Value) : Message := m.set i vs

/-- The text in a slot. -/
def textAt (m : Message) (i : Nat) : String :=
  match m.slot i with
  | .text s :: _ => s
  | _ => ""

/-- The word in a slot. -/
def wordAt (m : Message) (i : Nat) : UInt64 :=
  match m.slot i with
  | .word w :: _ => w
  | _ => 0

/-- The messages in a slot. -/
def messagesAt (m : Message) (i : Nat) : List Message :=
  (m.slot i).filterMap fun v => match v with
    | .message slots => some slots
    | _ => none

/-- The first message in a slot, if there is one. -/
def messageAt? (m : Message) (i : Nat) : Option Message := (m.messagesAt i).head?

end Message

/-- The place of a field among the slots of its message, by the field's JSON name. -/
def MessageType.indexOf (t : MessageType) (name : String) : Nat :=
  t.fields.findIdx fun f => f.name == name

/-- A message of a type with some slots filled, given by the names of their fields. -/
def MessageType.filled (type : MessageType) (slots : List (String × List Value)) : Message :=
  slots.foldl (fun m (name, vs) => m.withSlot (type.indexOf name) vs) type.blank

end Telemetry.Wire

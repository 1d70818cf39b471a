import Telemetry.Json.Reader
import Telemetry.Text.Base64
import Telemetry.Wire.Decode

/-!
# The JSON form of messages

A message is an object whose members are named after the fields. Members that are no fields do not
count; a field may be given once. Null stands for a value that may be absent and for nothing else.
Which fields must be given depends on the message, and so does how a choice is written.
-/

namespace Telemetry.Wire

/-- Whether a message must have every field that always has a value, or any number of values. -/
def MessageType.isComplete : MessageType → Bool
  | traceRequest | metricRequest | logRequest | keyValue | arrayValue | keyValueList | entityRef
  | exponentialPoint | buckets | summaryPoint | quantile | exemplar => true
  | _ => false

/-- How the choice of a message is written. -/
inductive ChoiceForm
  /-- Members of the message; the last one counts, every one must be right, and one must be there. -/
  | last
  /-- Members of the message; the first one counts, and as absent if it is not right. -/
  | first
  /-- An object with one member, under a name of its own. -/
  | wrapped
deriving DecidableEq, Repr

/-- How the choice of a message is written, if it has one. -/
def MessageType.choiceForm : MessageType → ChoiceForm
  | anyValue => .last
  | exemplar => .wrapped
  | _ => .first

/-- The name under which a wrapped choice stands. -/
def wrappedName : String := "value"

/-- The number some decimal digits stand for, if there are any. -/
def decimalDigits? (cs : List Char) : Option Nat :=
  if cs.isEmpty || !cs.all Json.isDigit then none else some (Json.digitsValue cs)

/-- An integer written with decimal digits, perhaps with a sign. -/
def decimalInt? (s : String) : Option Int :=
  match s.toList with
  | '-' :: cs => (decimalDigits? cs).map fun n => -(n : Int)
  | '+' :: cs => (decimalDigits? cs).map fun n => (n : Int)
  | cs => (decimalDigits? cs).map fun n => (n : Int)

/-- A number of 64 bits without a sign as a text. -/
def decimalWord? (s : String) : Option UInt64 :=
  match s.toList with
  | '-' :: _ => none
  | _ => (decimalInt? s).bind fun i => if i < UInt64.size then some (UInt64.ofInt i) else none

/-- The integer a JSON number is. -/
def integer? : Json → Option Int
  | .number (.natural n) => some n
  | .number (.negative n) => some (-n)
  | _ => none

/-- A word from an integer without a sign, one of so many. -/
def unsigned? (size : Nat) (i : Int) : Option Value :=
  if 0 ≤ i ∧ i < size then some (.word (UInt64.ofInt i)) else none

/-- Whether an integer is one of so many with a sign. -/
def inSigned (size : Nat) (i : Int) : Bool := -(size : Int) ≤ 2 * i ∧ 2 * i < size

/-- A word from an integer with a sign, one of so many. -/
def signed? (size : Nat) (i : Int) : Option Value :=
  if inSigned size i then some (.word (UInt64.ofInt i)) else none

/-- An integer of 32 bits in its zigzag form: the sign in the lowest bit. -/
def zigzag (i : Int) : UInt64 := UInt64.ofInt (if i < 0 then -2 * i - 1 else 2 * i)

/-- A double from a JSON number. -/
def double? : Json → Option Value
  | .number (.natural n) => some (.double (.ofNat n))
  | .number (.negative n) => some (.double (.ofInt (-n)))
  | .number (.double x) => some (.double x)
  | _ => none

/-- A single value as the JSON value of its type. -/
def ScalarType.ofJson? (t : ScalarType) (v : Json) : Option Value :=
  match t, v with
  | string, .string s => some (.text s)
  | bytes, .string s => (Text.base64Decode? s.toList).map .bytes
  | bool, .bool b => some (.word (if b then 1 else 0))
  | uint32, v | fixed32, v => (integer? v).bind (unsigned? UInt32.size)
  | enum, v => (integer? v).bind (signed? UInt32.size)
  | sint32, v => (integer? v).bind fun i =>
    if inSigned UInt32.size i then some (.word (zigzag i)) else none
  | uint64, v | fixed64, v => (integer? v).bind (unsigned? UInt64.size)
  | int64, .string s => (decimalInt? s).bind (signed? UInt64.size)
  | int64, v | sfixed64, v => (integer? v).bind (signed? UInt64.size)
  | double, v => double? v
  | _, _ => none

/-- A single value of a field. -/
def Field.scalarOfJson? (f : Field) (t : ScalarType) (v : Json) : Option Value :=
  match f.form, v with
  | .direct, v => t.ofJson? v
  | .hex, .string s => (Text.hexDecode s).map .bytes
  | .decimal, .string s => (decimalWord? s).map .word
  | _, _ => none

/-- What was read of a message. -/
structure JsonReading where
  /-- The names of the members that counted. -/
  seen : List String
  /-- The message. -/
  message : Message

namespace JsonReading

/-- Puts the values of a field into its slot. -/
def put (type : MessageType) (f : Field) (values : List Value) (r : JsonReading) : JsonReading :=
  ⟨f.name :: r.seen, r.message.withSlot (type.indexOf f.name) values⟩

/-- Puts the value of a choice into its slot and empties the other slots of the choice. -/
def choose (type : MessageType) (f : Field) (values : List Value) (r : JsonReading) :
    JsonReading :=
  let others := type.fields.filter fun g => g.presence = .choice
  let cleared := others.foldl (fun m g => Message.withSlot m (type.indexOf g.name) []) r.message
  ({ r with message := cleared }).put type f values

/-- Whether some member of the choice was read. -/
def hasChoice (type : MessageType) (r : JsonReading) : Bool :=
  type.fields.any fun f => f.presence = .choice && r.seen.contains f.name

/-- The message, if nothing is missing. -/
def finish (type : MessageType) (r : JsonReading) : Option Message :=
  let needed := type.fields.filter fun f => f.presence = .plain || f.presence = .repeated
  if type.isComplete && !needed.all (fun f => r.seen.contains f.name) then none
  else if type = .anyValue && !r.hasChoice type then none
  else some r.message

end JsonReading

/-- A member of the choice of a message by its name. -/
def MessageType.choiceField? (type : MessageType) (name : String) : Option Field :=
  type.fields.find? fun f => f.presence = .choice && f.name == name

/-- A field that is no member of a choice by its name. -/
def MessageType.ownField? (type : MessageType) (name : String) : Option Field :=
  type.fields.find? fun f => f.presence ≠ .choice && f.name == name

mutual

/-- A message of a type from its JSON form. -/
def messageOfJson? (type : MessageType) : Json → Option Message
  | .object members => (readMembers? type ⟨[], type.blank⟩ members).bind (·.finish type)
  | _ => none
termination_by v => (sizeOf v, 0)

/-- Reads the members of a message in turn. -/
def readMembers? (type : MessageType) (r : JsonReading) :
    List (String × Json) → Option JsonReading
  | [] => some r
  | (name, v) :: rest =>
    match type.ownField? name with
    | some f =>
      if r.seen.contains name then none
      else
        match slotOfJson? f v with
        | none => none
        | some values => readMembers? type (r.put type f values) rest
    | none =>
      match type.choiceField? name, type.choiceForm with
      | some f, .last =>
        match slotOfJson? f v with
        | none => none
        | some values => readMembers? type (r.choose type f values) rest
      | some f, .first =>
        if r.hasChoice type then readMembers? type r rest
        else readMembers? type (r.choose type f ((slotOfJson? f v).getD [])) rest
      | _, .wrapped =>
        if name == wrappedName then
          if r.seen.contains name then none
          else
            match wrappedOfJson? type v with
            | none => none
            | some (some (f, values)) =>
              let r := r.choose type f values
              readMembers? type { r with seen := name :: r.seen } rest
            | some none => readMembers? type { r with seen := name :: r.seen } rest
        else readMembers? type r rest
      | none, _ => readMembers? type r rest
termination_by members => (sizeOf members, 0)

/-- The choice of a message from an object of its own; null stands for none. -/
def wrappedOfJson? (type : MessageType) : Json → Option (Option (Field × List Value))
  | .null => some none
  | .object [(name, v)] =>
    match type.choiceField? name with
    | none => none
    | some f => (slotOfJson? f v).map fun values => some (f, values)
  | _ => none
termination_by v => (sizeOf v, 0)

/-- The values of a field from a JSON value. -/
def slotOfJson? (f : Field) : Json → Option (List Value)
  | .null => if f.presence = .optional then some [] else none
  | .array items => if f.presence = .repeated then valuesOfJson? f items else none
  | v => if f.presence = .repeated then none else (valueOfJson? f v).map ([·])
termination_by v => (sizeOf v, 2)

/-- The values of a field that may have any number of them. -/
def valuesOfJson? (f : Field) : List Json → Option (List Value)
  | [] => some []
  | v :: rest =>
    match valueOfJson? f v, valuesOfJson? f rest with
    | some a, some as => some (a :: as)
    | _, _ => none
termination_by items => (sizeOf items, 0)

/-- One value of a field. -/
def valueOfJson? (f : Field) (v : Json) : Option Value :=
  match f.type with
  | .scalar t => f.scalarOfJson? t v
  | .message type => (messageOfJson? type v).map .message
termination_by (sizeOf v, 1)

end

/-- A whole request from its JSON form: an object, or an array that holds its one field. -/
def requestOfJson? (type : MessageType) : Json → Option Message
  | .array [v] =>
    match type.fields with
    | [f] => (slotOfJson? f v).map ([·])
    | _ => none
  | v => messageOfJson? type v

/-- A whole request from the text of its JSON form. -/
def decodeJson? (type : MessageType) (bytes : Text.Bytes) : Option Message := do
  requestOfJson? type (← Json.readRaw? (← ofUtf8? bytes).toList)

end Telemetry.Wire

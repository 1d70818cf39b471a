import Telemetry.Batch.Request
import Telemetry.Component.Settings

/-!
# Edits of resource attributes

An edit sets or removes the attribute with a key. It acts on the first attribute with that key; one
that is added goes to the end.
-/

namespace Telemetry

open Wire (Message MessageType Value)

/-- An attribute value of a kind, given by the name of the kind's field. -/
def attributeValue (field : String) (v : Value) : Message :=
  MessageType.anyValue.blank.withSlot (MessageType.anyValue.indexOf field) [v]

/-- The attribute value of a JSON value: texts, truth values and numbers have one. -/
def attributeValue? : Json → Option Message
  | .string s => some (attributeValue "stringValue" (.text s))
  | .bool b => some (attributeValue "boolValue" (.word (if b then 1 else 0)))
  | .number (.natural n) =>
    if n < UInt64.size / 2 then some (attributeValue "intValue" (.word (UInt64.ofNat n)))
    else some (attributeValue "doubleValue" (.double (.ofNat n)))
  | .number (.negative n) => some (attributeValue "intValue" (.word (UInt64.ofInt (-n))))
  | .number (.double x) => some (attributeValue "doubleValue" (.double x))
  | _ => none

/-- An edit of the attribute with a key. -/
structure AttributeEdit where
  /-- The key. -/
  key : String
  /-- The value that is set. -/
  value : Option Message
  /-- What is done. -/
  action : EditAction

namespace AttributeEdit

/-- Sets the value of the first attribute with a key. -/
def setFirst (key : String) (value : Option Message) : List Attribute → List Attribute
  | [] => []
  | a :: rest => if a.key = key then ⟨key, value⟩ :: rest else a :: setFirst key value rest

/-- Applies an edit to a list of attributes. -/
def apply (e : AttributeEdit) (attributes : List Attribute) : List Attribute :=
  let present := attributes.any fun a => a.key = e.key
  match e.action with
  | .delete => attributes.eraseP fun a => a.key = e.key
  | .upsert =>
    if present then setFirst e.key e.value attributes else attributes ++ [⟨e.key, e.value⟩]
  | .insert => if present then attributes else attributes ++ [⟨e.key, e.value⟩]
  | .update => if present then setFirst e.key e.value attributes else attributes

/-- Applies edits in turn. -/
def applyAll (edits : List AttributeEdit) (attributes : List Attribute) : List Attribute :=
  edits.foldl (fun as e => e.apply as) attributes

/-- The edit of its settings; every action but a removal needs a value. -/
def ofSettings (s : EditSettings) : Except SettingsError AttributeEdit :=
  match s.action, s.value with
  | .delete, _ => .ok ⟨s.key, none, .delete⟩
  | _, none => .error (.rule ("attribute " ++ Text.quoted s.key ++ " needs a value"))
  | action, some v =>
    match attributeValue? v with
    | none => .error (.rule ("unsupported attribute value " ++ v.write))
    | some value => .ok ⟨s.key, some value, action⟩

end AttributeEdit

/-- Applies edits to the resource of every group of a batch. -/
def Request.editResources (edits : List AttributeEdit) : Request → Request :=
  Request.mapResources fun r => { r with attributes := AttributeEdit.applyAll edits r.attributes }

end Telemetry

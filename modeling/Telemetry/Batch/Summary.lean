import Telemetry.Batch.Request
import Telemetry.Decimal.Layout
import Telemetry.Text.Quoted

/-!
# Summaries of batches

What the debug exporter writes about a batch: one line with the numbers of its groups and items, and
a line about every resource with the attributes in diagnostic notation.
-/

namespace Telemetry

open Wire (Message Value)

/-- A list of texts in diagnostic notation. -/
def bracketed (texts : List String) : String := "[" ++ ", ".intercalate texts ++ "]"

/-- A record with its fields in diagnostic notation. -/
def braced (name : String) (fields : List (String × String)) : String :=
  name ++ " \x7b " ++ ", ".intercalate (fields.map fun (k, v) => k ++ ": " ++ v) ++ " \x7d"

/-- An integer held in two's complement. -/
def signedText (w : UInt64) : String := toString w.toInt64.toInt

/-- The value of a plain kind of attribute value, with the name of the kind. -/
def plainText : Value → String
  | .text s => "StringValue(" ++ Text.quoted s ++ ")"
  | .double x => "DoubleValue(" ++ Decimal.Layout.diagnostic.text x ++ ")"
  | .bytes b => "BytesValue(" ++ bracketed (b.map fun c => toString c.toNat) ++ ")"
  | .word w => "IntValue(" ++ signedText w ++ ")"
  | .message _ => ""

/-- A truth value with the name of its kind. -/
def truthText : Value → String
  | .word w => "BoolValue(" ++ (if w = 0 then "false" else "true") ++ ")"
  | _ => ""

mutual

/-- The slots of an attribute value from a place on: the text of the kind that is present. -/
def choiceText (place : Nat) : List (List Value) → String
  | [] => "None"
  | [] :: rest => choiceText (place + 1) rest
  | (v :: _) :: _ => "Some(" ++ kindText place v ++ ")"

/-- The text of the kind of value at a place. -/
def kindText (place : Nat) : Value → String
  | .message slots =>
    if place = 4 then
      "ArrayValue(" ++ braced "ArrayValue" [("values", bracketed (elementTexts slots))] ++ ")"
    else
      "KvlistValue(" ++ braced "KeyValueList" [("values", bracketed (memberTexts slots))] ++ ")"
  | v => if place = 1 then truthText v else plainText v

/-- The elements of a list of values. -/
def elementTexts : List (List Value) → List String
  | [] => []
  | vs :: _ => valueTexts vs

/-- Values one after the other. -/
def valueTexts : List Value → List String
  | .message slots :: rest => braced "AnyValue" [("value", choiceText 0 slots)] :: valueTexts rest
  | _ :: rest => valueTexts rest
  | [] => []

/-- The members of a list of keys with values. -/
def memberTexts : List (List Value) → List String
  | [] => []
  | vs :: _ => pairTexts vs

/-- Keys with values one after the other. -/
def pairTexts : List Value → List String
  | .message slots :: rest => pairText slots :: pairTexts rest
  | _ :: rest => pairTexts rest
  | [] => []

/-- A key with its value. -/
def pairText : List (List Value) → String
  | [.text key] :: value :: _ =>
    braced "KeyValue" [("key", Text.quoted key), ("value", optionalText value)]
  | _ => ""

/-- A value that may be absent. -/
def optionalText : List Value → String
  | .message slots :: _ => "Some(" ++ braced "AnyValue" [("value", choiceText 0 slots)] ++ ")"
  | _ => "None"

end

/-- An attribute with its value, if it has one. -/
def Attribute.describe (a : Attribute) : String :=
  a.key ++ "=" ++ a.value.elim "None" (choiceText 0)

/-- The attributes of a resource. -/
def describeResource (r : Option Resource) : String :=
  let attributes := r.elim [] fun r => r.attributes.map Attribute.describe
  "\x7b" ++ ", ".intercalate attributes ++ "\x7d"

namespace Request

/-- The numbers of groups and items of a batch. -/
def summary (r : Request) : String :=
  let groups := toString r.groups.length
  let items := toString r.itemCount
  match r.type with
  | .traces => "resource_spans=" ++ groups ++ " spans=" ++ items
  | .metrics =>
    "resource_metrics=" ++ groups ++ " metrics=" ++ toString r.metricCount ++
      " data_points=" ++ items
  | .logs => "resource_logs=" ++ groups ++ " log_records=" ++ items

/-- A description of the resource of every group. -/
def describeResources (r : Request) : List String :=
  r.groups.map fun g => describeResource g.resource

end Request

end Telemetry

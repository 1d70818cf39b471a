import Telemetry.Failure.Component
import Telemetry.Json.Writer

/-!
# Decoding settings

Settings are read from JSON values into typed records. A record is described by its fields, each
with the way it is stored; it is read from an object, whose members are taken in the order of their
keys, or from an array that gives the fields in the order of their declaration. The first thing that
is wrong is reported.
-/

namespace Telemetry

/-- What is wrong with a value that should be some setting. -/
inductive SettingsError
  /-- The value has another type. -/
  | wrongType (found : Json) (expected : String)
  /-- The integer `-n` stands where none below zero is allowed. -/
  | belowZero (n : Nat) (expected : String)
  /-- An object does not have exactly one member. -/
  | notOneMember
  /-- A member is none of a record's fields. -/
  | unknownField (name : String) (known : List String)
  /-- A name is none of an enumeration's. -/
  | unknownVariant (name : String) (known : List String)
  /-- A required field is absent. -/
  | missingField (name : String)
  /-- An array ends before a required field. -/
  | tooShort (count : Nat) (record : String) (size : Nat)
  /-- An array goes on after the last field. -/
  | tooLong (count : Nat) (expected : String)
  /-- A text is no id. -/
  | badId (source : IdError)
  /-- A text is no socket address. -/
  | badAddress
  /-- A rule about the settings is broken. -/
  | rule (reason : String)

namespace SettingsError

/-- How a value that does not fit is named. -/
def found : Json → String
  | .null => "null"
  | .bool true => "boolean `true`"
  | .bool false => "boolean `false`"
  | .number (.natural n) => "integer `" ++ toString n ++ "`"
  | .number (.negative n) => "integer `-" ++ toString n ++ "`"
  | .number (.double x) => "floating point `" ++ Decimal.Layout.json.text x ++ "`"
  | .string s => "string " ++ Text.quoted s
  | .array _ => "sequence"
  | .object _ => "map"

/-- A name between backquotes. -/
def backquoted (name : String) : String := "`" ++ name ++ "`"

/-- The names that would have been right. -/
def oneOf : List String → String
  | [] => "there are no fields"
  | [a] => "expected " ++ backquoted a
  | [a, b] => "expected " ++ backquoted a ++ " or " ++ backquoted b
  | names => "expected one of " ++ ", ".intercalate (names.map backquoted)

/-- The wording of a settings error. -/
def message : SettingsError → String
  | wrongType v expected => "invalid type: " ++ found v ++ ", expected " ++ expected
  | belowZero n expected =>
    "invalid value: integer `-" ++ toString n ++ "`, expected " ++ expected
  | notOneMember => "invalid value: map, expected map with a single key"
  | unknownField name known => "unknown field " ++ backquoted name ++ ", " ++ oneOf known
  | unknownVariant name known => "unknown variant " ++ backquoted name ++ ", " ++ oneOf known
  | missingField name => "missing field " ++ backquoted name
  | tooShort count record size =>
    "invalid length " ++ toString count ++ ", expected struct " ++ record ++ " with " ++
      toString size ++ (if size = 1 then " element" else " elements")
  | tooLong count expected => "invalid length " ++ toString count ++ ", expected " ++ expected
  | badId source => source.message
  | badAddress => "invalid socket address syntax"
  | rule reason => reason

end SettingsError

namespace Settings

/-- A reader of one value. -/
abbrev Reader (α : Type) := Json → Except SettingsError α

/-- Reads a truth value. -/
def bool : Reader Bool
  | .bool b => .ok b
  | v => .error (.wrongType v "a boolean")

/-- Reads a natural number below `2 ^ 64`, named as the given type of word. -/
def word (type : String) : Reader Nat
  | .number (.natural n) => .ok n
  | .number (.negative n) => .error (.belowZero n type)
  | v => .error (.wrongType v type)

/-- Reads a number of milliseconds. -/
def milliseconds : Reader Nat := word "u64"

/-- Reads a count. -/
def count : Reader Nat := word "usize"

/-- Reads a double; integers are rounded to one. -/
def double : Reader Binary64
  | .number (.natural n) => .ok (.ofNat n)
  | .number (.negative n) => .ok (.ofInt (-n))
  | .number (.double x) => .ok x
  | v => .error (.wrongType v "f64")

/-- Reads a text. -/
def text : Reader String
  | .string s => .ok s
  | v => .error (.wrongType v "a string")

/-- Reads a component id. -/
def componentId : Reader ComponentId
  | .string s => (ComponentId.parse s).mapError .badId
  | v => .error (.wrongType v "a string")

/-- Reads a path. -/
def path : Reader String
  | .string s => .ok s
  | v => .error (.wrongType v "path string")

/-- Reads a value that may be absent, which null says. -/
def optional {α : Type} (read : Reader α) : Reader (Option α)
  | .null => .ok none
  | v => (read v).map some

/-- Reads a list. -/
def list {α : Type} (read : Reader α) : Reader (List α)
  | .array items => items.mapM read
  | v => .error (.wrongType v "a sequence")

/-- Reads a table, keys and values in the order of the texts of the keys. -/
def table {κ α : Type} [Ord κ] (key : String → Except SettingsError κ) (read : Reader α) :
    Reader (Table κ α)
  | .object members => members.foldlM (fun t (k, v) => do
      let k ← key k
      return t.insert k (← read v)) []
  | v => .error (.wrongType v "a map")

/-- Reads a name of an enumeration: a text, or an object whose only key is the name and whose value
is null. -/
def enumeration {α : Type} (names : List (String × α)) : Reader α
  | .string s => choose s
  | .object [(s, v)] => do
    let a ← choose s
    match v with
    | .null => return a
    | v => throw (.wrongType v "unit")
  | .object _ => .error .notOneMember
  | v => .error (.wrongType v "string or map")
where
  /-- The element with a given name. -/
  choose (s : String) : Except SettingsError α :=
    match names.lookup s with
    | some a => .ok a
    | none => .error (.unknownVariant s (names.map Prod.fst))

/-- A field of a record under construction. -/
structure Field (σ : Type) where
  /-- The field's name. -/
  name : String
  /-- Whether the field must be given. -/
  required : Bool
  /-- Reads a value and stores it. -/
  store : Json → σ → Except SettingsError σ

/-- A field that may be left out. -/
def field {σ α : Type} (name : String) (read : Reader α) (put : α → σ → σ) : Field σ :=
  ⟨name, false, fun v s => (read v).map fun a => put a s⟩

/-- A field that must be given. -/
def requiredField {σ α : Type} (name : String) (read : Reader α) (put : α → σ → σ) : Field σ :=
  ⟨name, true, fun v s => (read v).map fun a => put a s⟩

/-- What a reader of records does with members that are no fields, and how it counts the items of
an array that is too long. -/
structure Mode where
  /-- Whether a member that is no field is refused. -/
  strict : Bool
  /-- Whether the record is part of an outer one that gathered its members first. -/
  gathered : Bool

/-- The fields of an array, in the order of their declaration. -/
def storeItems {σ : Type} (name : String) (size : Nat) (long : SettingsError) :
    List (Field σ) → List Json → σ → Except SettingsError σ
  | [], [], s => .ok s
  | [], _ :: _, _ => .error long
  | f :: fields, [], s =>
    match (f :: fields).findIdx? Field.required with
    | some i => .error (.tooShort (size - (f :: fields).length + i) name size)
    | none => .ok s
  | f :: fields, v :: items, s => do storeItems name size long fields items (← f.store v s)

/-- The members of an object, in the order they stand in. -/
def storeMembers {σ : Type} (fields : List (Field σ)) (strict : Bool) :
    List (String × Json) → σ → Except SettingsError σ
  | [], s => .ok s
  | (k, v) :: rest, s => do
    match fields.find? fun f => f.name == k with
    | some f => storeMembers fields strict rest (← f.store v s)
    | none =>
      if strict then throw (.unknownField k (fields.map Field.name))
      else storeMembers fields strict rest s

/-- Reads a record from the values its fields have when they are left out. -/
def record {σ : Type} (name : String) (mode : Mode) (fields : List (Field σ)) (start : σ) :
    Reader σ
  | .object members => do
    let s ← storeMembers fields mode.strict members start
    match fields.find? fun f => f.required && !Table.contains f.name members with
    | some f => throw (.missingField f.name)
    | none => return s
  | .array items =>
    let expected :=
      if mode.gathered then
        toString fields.length ++
          (if fields.length = 1 then " element in sequence" else " elements in sequence")
      else "fewer elements in array"
    storeItems name fields.length (.tooLong items.length expected) fields items start
  | v => .error (.wrongType v ("struct " ++ name))

end Settings

end Telemetry

import Telemetry.Json.Value
import Telemetry.Text.Quoted

/-!
# Writing JSON

The compact text of a value: no blanks, members in the order they stand in, doubles with their
shortest digits and always with a point or an exponent.
-/

namespace Telemetry.Json

/-- Four lower case hexadecimal digits. -/
def fourHexDigits (n : Nat) : List Char :=
  [n / 4096 % 16, n / 256 % 16, n / 16 % 16, n % 16].map Text.digitChar

/-- How a character stands in a string. -/
def writeChar (c : Char) : List Char :=
  if c = '"' then ['\\', '"']
  else if c = '\\' then ['\\', '\\']
  else if c = '\n' then ['\\', 'n']
  else if c = '\r' then ['\\', 'r']
  else if c = '\t' then ['\\', 't']
  else if c.toNat = 8 then ['\\', 'b']
  else if c.toNat = 12 then ['\\', 'f']
  else if c.toNat < 0x20 then '\\' :: 'u' :: fourHexDigits c.toNat
  else [c]

/-- A text as a JSON string. -/
def writeString (s : String) : String :=
  String.ofList (('"' :: s.toList.flatMap writeChar) ++ ['"'])

/-- A number; there is no text for an infinity or a NaN, and null stands in for them. -/
def writeNumber : JsonNumber → String
  | .natural n => toString n
  | .negative n => "-" ++ toString n
  | .double x => if x.isFinite then Decimal.Layout.json.text x else "null"

mutual

/-- The text of a value. -/
def write : Json → String
  | null => "null"
  | bool true => "true"
  | bool false => "false"
  | number n => writeNumber n
  | string s => writeString s
  | array items => "[" ++ ",".intercalate (writeItems items) ++ "]"
  | object members => "\x7b" ++ ",".intercalate (writeMembers members) ++ "\x7d"

/-- The texts of the items of an array. -/
def writeItems : List Json → List String
  | [] => []
  | v :: rest => write v :: writeItems rest

/-- The texts of the members of an object. -/
def writeMembers : List (String × Json) → List String
  | [] => []
  | (k, v) :: rest => (writeString k ++ ":" ++ write v) :: writeMembers rest

end

end Telemetry.Json

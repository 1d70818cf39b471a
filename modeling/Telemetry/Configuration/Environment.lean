import Telemetry.Configuration.Overlay
import Telemetry.Text.Split
import Telemetry.Toml.Literal

/-!
# Settings from environment variables

Variables whose names begin with a mark give settings: the rest of the name is a path of keys, and
the value is read as a truth value, a number, a string, a list or a table where it has such a form,
and is a text otherwise. Three further variables give settings of one exporter as they are.
-/

namespace Telemetry.Environment

open Text (Scan mark)

/-- Whether a character is a space of ASCII. -/
def isAsciiSpace (c : Char) : Bool :=
  c = ' ' || c = '\t' || c = '\n' || c = '\r' || c.toNat = 12

/-- Whether a character belongs to a bare value. -/
def isBareChar (c : Char) : Bool := !(c = ',' || c = '\x7b' || c = '\x7d' || c = '[' || c = ']')

/-- Skips spaces. -/
def skipSpace (cs : List Char) : List Char := cs.dropWhile isAsciiSpace

/-- The longest beginning of a text that has at most so many bytes. -/
def takeBytes : Nat → List Char → List Char
  | _, [] => []
  | size, c :: cs => if c.utf8Size ≤ size then c :: takeBytes (size - c.utf8Size) cs else []

/-- The rest of a string after what was read of it. Of the text before the first escape only so many
bytes are kept as it has characters; a string without escapes is kept whole. -/
def quotedRest : Nat → Bool → List Char → Scan String
  | 0, _, _, _ => none
  | fuel + 1, escaped, done, cs =>
    match cs with
    | '"' :: rest => some (String.ofList done.reverse, rest)
    | '\\' :: rest => do
      let (c, rest) ← Toml.escape? rest
      let kept := if escaped then done else (takeBytes done.length done.reverse).reverse
      quotedRest fuel true (c :: kept) rest
    | c :: rest => if Toml.isCommentChar c then quotedRest fuel escaped (c :: done) rest else none
    | [] => none

/-- A string after its opening quote. -/
def quoted : Scan String := fun cs => quotedRest (cs.length + 1) false [] cs

/-- Reads a whole text as a float: a sign, digits with a point among them, and an exponent. -/
def float? (cs : List Char) : Option Binary64 := do
  let (negative, cs) := Toml.sign cs
  let (whole, cs) := Json.takeDigits cs
  let '.' :: cs := cs | none
  let (frac, cs) := Json.takeDigits cs
  let (exponent, cs) ← Json.readExponent cs
  if cs.isEmpty && !(whole.isEmpty && frac.isEmpty) then
    return Binary64.ofDecimal negative (Json.digitsValue (whole ++ frac))
      (exponent.getD 0 - frac.length)
  else none

/-- Reads a whole text as an integer of 64 bits, with or without a sign. -/
def integer? (cs : List Char) : Option Json :=
  let (negative, ds) := Toml.sign cs
  if ds.isEmpty ∨ !ds.all Json.isDigit then none
  else
    let n := Json.digitsValue ds
    if negative then if n ≤ UInt64.size / 2 then some (.ofInt (-(n : Int))) else none
    else if n < UInt64.size then some (.ofNat n) else none

/-- The value of a bare text. -/
def bare (cs : List Char) : Json :=
  let cs := Text.trim cs
  let float := if cs.contains '.' then float? cs else none
  match float with
  | some x => if x.isFinite then .ofBinary64 x else .null
  | none => (integer? cs).getD (.string (String.ofList cs))

mutual

/-- A value with the spaces around it. Each call uses one unit of fuel. -/
def value : Nat → Scan Json
  | 0, _ => none
  | fuel + 1, cs =>
    let found : Option (Json × List Char) := match skipSpace cs with
      | 't' :: 'r' :: 'u' :: 'e' :: rest => some (.bool true, rest)
      | 'f' :: 'a' :: 'l' :: 's' :: 'e' :: rest => some (.bool false, rest)
      | '\x7b' :: rest => (entries fuel rest).map fun (es, rest) => (.ofMembers es, rest)
      | '[' :: rest => (items fuel rest).map fun (vs, rest) => (.array vs, rest)
      | '"' :: rest =>
        (quoted rest).map fun (s, rest) => (.string s, rest)
      | '\'' :: c :: '\'' :: rest => some (.string (String.ofList [c]), rest)
      | '\'' :: _ => none
      | rest => let (text, rest) := rest.span isBareChar; some (bare text, rest)
    found.map fun (v, rest) => (v, skipSpace rest)

/-- The items of a list up to its closing bracket. -/
def items : Nat → Scan (List Json)
  | 0, _ => none
  | fuel + 1, cs =>
    match cs with
    | ']' :: rest => some ([], rest)
    | cs => do
      let (v, rest) ← value fuel cs
      match rest with
      | ',' :: rest =>
        let (vs, rest) ← items fuel rest
        return (v :: vs, rest)
      | ']' :: rest => return ([v], rest)
      | _ => none

/-- The entries of a table up to its closing brace. -/
def entries : Nat → Scan (List (String × Json))
  | 0, _ => none
  | fuel + 1, cs =>
    match cs with
    | '\x7d' :: rest => some ([], rest)
    | cs => do
      let (key, rest) ← match skipSpace cs with
        | '"' :: rest => quoted rest
        | cs => match cs.span Toml.isKeyChar with
          | ([], _) => none
          | (text, rest) => some (String.ofList text, rest)
      let rest ← mark '=' (skipSpace rest)
      let (v, rest) ← value fuel rest
      match rest with
      | ',' :: rest =>
        let (es, rest) ← entries fuel rest
        return ((key, v) :: es, rest)
      | '\x7d' :: rest => return ([(key, v)], rest)
      | _ => none

end

/-- The value of a variable; what has no other form is a text, as it stands. -/
def parseValue (text : String) : Json :=
  let cs := text.toList
  match value (2 * cs.length + 2) cs with
  | some (v, []) => v
  | _ => .string text

/-- The mark at the front of the names of variables that give settings. -/
def nameMark : String := "OTEL_AGENT_"

/-- Replaces every two underscores by a point. -/
def joinSegments : List Char → List Char
  | '_' :: '_' :: rest => '.' :: joinSegments rest
  | c :: rest => c :: joinSegments rest
  | [] => []

/-- The path of keys of a variable, if its name begins with the mark in letters of either case and
no key is empty. Space around the name and after the mark does not count. -/
def path? (name : String) : Option (List String) :=
  let cs := Text.trim name.toList
  let lead := nameMark.toList
  if (cs.take lead.length).map Char.toLower = lead.map Char.toLower then
    let rest := joinSegments (Text.trim (cs.drop lead.length))
    let segments := Text.splitAll '.' (rest.map Char.toLower)
    if segments.any List.isEmpty then none else some (segments.map String.ofList)
  else none

/-- An object that holds a value at a path. -/
def nest (v : Json) : List String → Json
  | [] => v
  | k :: rest => .object [(k, nest v rest)]

/-- The settings that variables give by their names. -/
def settings (vars : List (String × String)) : Json :=
  vars.foldl (fun tree (name, text) =>
    match path? name with
    | some path => tree.merge (nest (parseValue text) path)
    | none => tree) (.object [])

/-- The headers of a variable: pairs with a comma between them, each with an equals sign. -/
def headers (text : String) : List (String × Json) :=
  (Text.splitAll ',' text.toList).filterMap fun pair =>
    match Text.splitOnce '=' pair with
    | (_, none) => none
    | (key, some value) =>
      some (String.ofList (Text.trim key), .string (String.ofList (Text.trim value)))

/-- The settings of the exporter that has variables of its own. -/
def exporterSettings (vars : List (String × String)) : Json :=
  let endpoint := (vars.lookup "OTEL_EXPORTER_OTLP_ENDPOINT").toList.map fun v =>
    ("endpoint", Json.string v)
  let compression := (vars.lookup "OTEL_EXPORTER_OTLP_COMPRESSION").toList.filterMap fun v =>
    let name := String.ofList (v.toList.map Char.toLower)
    if name = "gzip" ∨ name = "none" then some ("compression", Json.string name) else none
  let headers := match (vars.lookup "OTEL_EXPORTER_OTLP_HEADERS").elim [] headers with
    | [] => []
    | hs => [("headers", Json.ofMembers hs)]
  match endpoint ++ compression ++ headers with
  | [] => .object []
  | members => nest (.ofMembers members) ["exporters", "otlphttp"]

end Telemetry.Environment

import Telemetry.Json.Value
import Telemetry.Text.Hex

/-!
# Reading JSON

A reader for JSON texts that keeps the members of objects as they are written, repeated keys
included. Arrays and objects may be nested 127 levels deep. An integer literal beyond 64 bits, and
`-0`, are doubles; a literal beyond the range of doubles is refused, as is an escape that is half of
a surrogate pair.
-/

namespace Telemetry.Json

/-- The characters JSON allows between its tokens. -/
def isSpace (c : Char) : Bool := c = ' ' || c = '\n' || c = '\r' || c = '\t'

/-- Whether a character is a decimal digit. -/
def isDigit (c : Char) : Bool := '0' ≤ c && c ≤ '9'

/-- The number some decimal digits stand for. -/
def digitsValue (cs : List Char) : Nat := cs.foldl (fun n c => 10 * n + (c.toNat - 48)) 0

/-- The digits at the front of a text, and the rest. -/
def takeDigits (cs : List Char) : List Char × List Char := cs.span isDigit

/-- The value of four hexadecimal digits. -/
def hexUnit? (a b c d : Char) : Option Nat := do
  return (((← Text.hexValue? a) * 16 + (← Text.hexValue? b)) * 16 + (← Text.hexValue? c)) * 16 +
    (← Text.hexValue? d)

/-- The number a literal stands for, given its parts; exponents beyond any use are cut. -/
def numberOf? (negative : Bool) (whole frac : List Char) (exponent : Option Int) :
    Option JsonNumber :=
  let digits := digitsValue (whole ++ frac)
  let double (power : Int) : Option JsonNumber :=
    let x := Binary64.ofDecimal negative digits power
    if x.isFinite then some (.double x) else none
  match frac, exponent with
  | [], none =>
    if negative then
      if digits ≠ 0 ∧ digits ≤ UInt64.size / 2 then some (.negative digits) else double 0
    else if digits < UInt64.size then some (.natural digits)
    else double 0
  | _, e => double (e.getD 0 - frac.length)

/-- The exponent part of a literal, if there is one, and the rest. -/
def readExponent (cs : List Char) : Option (Option Int × List Char) :=
  match cs with
  | c :: rest =>
    if c = 'e' || c = 'E' then
      let (negative, digits) := match rest with
        | '+' :: r => (false, r)
        | '-' :: r => (true, r)
        | r => (false, r)
      match takeDigits digits with
      | ([], _) => none
      | (ds, r) =>
        let n : Int := digitsValue ds
        some (some (if negative then -n else n), r)
    else some (none, cs)
  | [] => some (none, cs)

/-- A number literal at the front of a text, and the rest. -/
def readNumber (cs : List Char) : Option (JsonNumber × List Char) := do
  let (negative, cs) := match cs with
    | '-' :: r => (true, r)
    | r => (false, r)
  let (whole, cs) ← match cs with
    | '0' :: r => some (['0'], r)
    | _ => match takeDigits cs with
      | ([], _) => none
      | found => some found
  let (frac, cs) ← match cs with
    | '.' :: r => match takeDigits r with
      | ([], _) => none
      | found => some found
    | _ => some ([], cs)
  let (exponent, cs) ← readExponent cs
  return (← numberOf? negative whole frac exponent, cs)

/-- The rest of a string after its opening quote: the text, and what follows the closing quote. -/
def readString (cs : List Char) (done : List Char) : Option (String × List Char) :=
  match cs with
  | [] => none
  | '"' :: rest => some (String.ofList done.reverse, rest)
  | '\\' :: '"' :: rest => readString rest ('"' :: done)
  | '\\' :: '\\' :: rest => readString rest ('\\' :: done)
  | '\\' :: '/' :: rest => readString rest ('/' :: done)
  | '\\' :: 'b' :: rest => readString rest (Char.ofNat 8 :: done)
  | '\\' :: 'f' :: rest => readString rest (Char.ofNat 12 :: done)
  | '\\' :: 'n' :: rest => readString rest ('\n' :: done)
  | '\\' :: 'r' :: rest => readString rest ('\r' :: done)
  | '\\' :: 't' :: rest => readString rest ('\t' :: done)
  | '\\' :: 'u' :: a :: b :: c :: d :: rest =>
    match hexUnit? a b c d with
    | none => none
    | some unit =>
      if 0xD800 ≤ unit ∧ unit ≤ 0xDBFF then
        match rest with
        | '\\' :: 'u' :: e :: f :: g :: h :: rest =>
          match hexUnit? e f g h with
          | none => none
          | some low =>
            if 0xDC00 ≤ low ∧ low ≤ 0xDFFF then
              readString rest
                (Char.ofNat (0x10000 + (unit - 0xD800) * 1024 + (low - 0xDC00)) :: done)
            else none
        | _ => none
      else if 0xDC00 ≤ unit ∧ unit ≤ 0xDFFF then none
      else readString rest (Char.ofNat unit :: done)
  | c :: rest => if c = '\\' || c.toNat < 0x20 then none else readString rest (c :: done)

mutual

/-- A value at the front of a text, and the rest. Each call uses one unit of fuel; `depth` counts
the levels of nesting that are left. -/
def readValue : Nat → Nat → List Char → Option (Json × List Char)
  | 0, _, _ => none
  | fuel + 1, depth, cs =>
    match cs.dropWhile isSpace with
    | 'n' :: 'u' :: 'l' :: 'l' :: rest => some (.null, rest)
    | 't' :: 'r' :: 'u' :: 'e' :: rest => some (.bool true, rest)
    | 'f' :: 'a' :: 'l' :: 's' :: 'e' :: rest => some (.bool false, rest)
    | '"' :: rest => (readString rest []).map fun (s, rest) => (.string s, rest)
    | '[' :: rest =>
      match depth with
      | 0 => none
      | depth + 1 =>
        match rest.dropWhile isSpace with
        | ']' :: rest => some (.array [], rest)
        | rest => (readItems fuel depth rest).map fun (items, rest) => (.array items, rest)
    | '\x7b' :: rest =>
      match depth with
      | 0 => none
      | depth + 1 =>
        match rest.dropWhile isSpace with
        | '\x7d' :: rest => some (.object [], rest)
        | rest => (readMembers fuel depth rest).map fun (members, rest) => (.object members, rest)
    | rest => (readNumber rest).map fun (n, rest) => (.number n, rest)

/-- The items of an array up to its closing bracket, and the rest. -/
def readItems : Nat → Nat → List Char → Option (List Json × List Char)
  | 0, _, _ => none
  | fuel + 1, depth, cs => do
    let (v, cs) ← readValue fuel depth cs
    match cs.dropWhile isSpace with
    | ',' :: rest =>
      let (items, rest) ← readItems fuel depth rest
      return (v :: items, rest)
    | ']' :: rest => return ([v], rest)
    | _ => none

/-- The members of an object up to its closing brace, and the rest. -/
def readMembers : Nat → Nat → List Char → Option (List (String × Json) × List Char)
  | 0, _, _ => none
  | fuel + 1, depth, cs => do
    let '"' :: rest := cs.dropWhile isSpace | none
    let (key, rest) ← readString rest []
    let ':' :: rest := rest.dropWhile isSpace | none
    let (v, rest) ← readValue fuel depth rest
    match rest.dropWhile isSpace with
    | ',' :: rest =>
      let (members, rest) ← readMembers fuel depth rest
      return ((key, v) :: members, rest)
    | '\x7d' :: rest => return ([(key, v)], rest)
    | _ => none

end

/-- The levels of nesting a text may have. -/
def maxDepth : Nat := 127

/-- Reads a whole text, members as they are written. -/
def readRaw? (cs : List Char) : Option Json := do
  let (v, rest) ← readValue (2 * cs.length + 2) maxDepth cs
  if rest.all isSpace then return v else none

/-- Reads a whole text into a normalized value. -/
def read? (s : String) : Option Json := (readRaw? s.toList).map normalize

end Telemetry.Json

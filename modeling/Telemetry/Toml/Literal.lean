import Telemetry.Json.Reader
import Telemetry.Text.Scan

/-!
# Literals of configuration files

The values of TOML that hold no other values: strings of four kinds, integers, floats, and dates and
times. A number is given as a JSON number; a date or time is an object with one reserved key and its
normalized text.
-/

namespace Telemetry.Toml

open Text (Scan mark)

/-- Whether a character is a space or a tab. -/
def isGap (c : Char) : Bool := c = ' ' || c = '\t'

/-- Skips spaces and tabs. -/
def skipGap (cs : List Char) : List Char := cs.dropWhile isGap

/-- Skips an end of line. -/
def newline? : List Char → Option (List Char)
  | '\n' :: rest => some rest
  | '\r' :: '\n' :: rest => some rest
  | _ => none

/-- Whether a character may stand in a comment. -/
def isCommentChar (c : Char) : Bool :=
  c = '\t' || (0x20 ≤ c.toNat && c.toNat ≠ 0x7F)

/-- Skips a comment, if there is one, up to the end of the line. -/
def skipComment : List Char → List Char
  | '#' :: rest => rest.dropWhile isCommentChar
  | cs => cs

/-- Whether a character may stand in a literal string. -/
def isLiteralChar (c : Char) : Bool := isCommentChar c && c ≠ '\''

/-- The number some hexadecimal digits stand for, if there are so many. -/
def hexNumber? (size : Nat) (cs : List Char) : Option (Nat × List Char) :=
  let digits := cs.take size
  if digits.length = size ∧ digits.all fun c => (Text.hexValue? c).isSome then
    some (digits.foldl (fun n c => n * 16 + (Text.hexValue? c).getD 0) 0, cs.drop size)
  else none

/-- A character with a given code point, if there is one. -/
def charOf? (n : Nat) : Option Char := if n.isValidChar then some (Char.ofNat n) else none

/-- An escape after its backslash. -/
def escape? : Scan Char
  | 'b' :: rest => some (Char.ofNat 8, rest)
  | 't' :: rest => some ('\t', rest)
  | 'n' :: rest => some ('\n', rest)
  | 'f' :: rest => some (Char.ofNat 12, rest)
  | 'r' :: rest => some ('\r', rest)
  | '"' :: rest => some ('"', rest)
  | '\\' :: rest => some ('\\', rest)
  | 'u' :: rest => do
    let (n, rest) ← hexNumber? 4 rest
    return (← charOf? n, rest)
  | 'U' :: rest => do
    let (n, rest) ← hexNumber? 8 rest
    return (← charOf? n, rest)
  | _ => none

/-- The rest of a string after its opening double quote. -/
def basicString : Nat → List Char → Scan String
  | 0, _, _ => none
  | fuel + 1, done, cs =>
    match cs with
    | '"' :: rest => some (String.ofList done.reverse, rest)
    | '\\' :: rest => do
      let (c, rest) ← escape? rest
      basicString fuel (c :: done) rest
    | c :: rest => if isCommentChar c then basicString fuel (c :: done) rest else none
    | [] => none

/-- The rest of a string after its opening single quote. -/
def literalString (cs : List Char) : Option (String × List Char) :=
  match cs.span isLiteralChar with
  | (text, '\'' :: rest) => some (String.ofList text, rest)
  | _ => none

/-- Skips the white space and the ends of lines after a backslash at the end of a line. -/
def skipLines : Nat → List Char → List Char
  | 0, cs => cs
  | fuel + 1, cs =>
    match newline? (skipGap cs) with
    | some rest => skipLines fuel rest
    | none => skipGap cs

/-- The quotes at the end of a string of several lines: up to two belong to the string. -/
def closingQuotes (quote : Char) (cs : List Char) : Option (Nat × List Char) :=
  let count := (cs.takeWhile (· = quote)).length
  if count < 3 then none
  else
    let used := min count 5
    some (used - 3, cs.drop used)

/-- The rest of a string of several lines after its opening double quotes. -/
def basicLines : Nat → List Char → Scan String
  | 0, _, _ => none
  | fuel + 1, done, cs =>
    match closingQuotes '"' cs with
    | some (extra, rest) =>
      some (String.ofList (done.reverse ++ List.replicate extra '"'), rest)
    | none =>
      match newline? cs with
      | some rest => basicLines fuel ('\n' :: done) rest
      | none =>
        match cs with
        | '\\' :: rest =>
          match newline? (skipGap rest) with
          | some below => basicLines fuel done (skipLines below.length below)
          | none => do
            let (c, rest) ← escape? rest
            basicLines fuel (c :: done) rest
        | c :: rest => if isCommentChar c then basicLines fuel (c :: done) rest else none
        | [] => none

/-- The rest of a string of several lines after its opening single quotes. -/
def literalLines : Nat → List Char → Scan String
  | 0, _, _ => none
  | fuel + 1, done, cs =>
    match closingQuotes '\'' cs with
    | some (extra, rest) =>
      some (String.ofList (done.reverse ++ List.replicate extra '\''), rest)
    | none =>
      match newline? cs with
      | some rest => literalLines fuel ('\n' :: done) rest
      | none =>
        match cs with
        | c :: rest => if isCommentChar c then literalLines fuel (c :: done) rest else none
        | [] => none

/-- Skips the end of line that may follow the opening quotes of a string of several lines. -/
def skipFirstNewline (cs : List Char) : List Char := (newline? cs).getD cs

/-- A string of any kind. -/
def string : Scan String
  | '"' :: '"' :: '"' :: rest => basicLines (rest.length + 1) [] (skipFirstNewline rest)
  | '\'' :: '\'' :: '\'' :: rest => literalLines (rest.length + 1) [] (skipFirstNewline rest)
  | '"' :: rest => basicString (rest.length + 1) [] rest
  | '\'' :: rest => literalString rest
  | _ => none

/-- Digits with single underscores between them: the digits alone, and the rest. -/
def digitGroups (isDigit : Char → Bool) : List Char → List Char × List Char
  | [] => ([], [])
  | c :: rest =>
    if isDigit c then
      let (ds, after) := digitGroups isDigit rest
      (c :: ds, after)
    else match c, rest with
      | '_', d :: _ =>
        if isDigit d then digitGroups isDigit rest else ([], c :: rest)
      | _, _ => ([], c :: rest)

/-- Digits with single underscores between them, beginning with a digit. -/
def digits? (isDigit : Char → Bool) : Scan (List Char)
  | [] => none
  | c :: rest => if isDigit c then some (digitGroups isDigit (c :: rest)) else none

/-- An integer in a base other than ten, after its mark. -/
def basedInteger (base : Nat) : Scan JsonNumber := fun cs => do
  let (ds, rest) ← digits? (fun c => (Text.hexValue? c).any (· < base)) cs
  let n := ds.foldl (fun n c => n * base + (Text.hexValue? c).getD 0) 0
  if n < UInt64.size / 2 then return (.natural n, rest) else none

/-- The sign of a number, and the rest. -/
def sign (cs : List Char) : Bool × List Char :=
  match cs with
  | '+' :: rest => (false, rest)
  | '-' :: rest => (true, rest)
  | _ => (false, cs)

/-- The digits of a decimal integer without leading zeros. -/
def wholePart : Scan (List Char)
  | '0' :: rest => some (['0'], rest)
  | cs => digits? Json.isDigit cs

/-- The digits after a point, if there is one. -/
def fractionPart : List Char → Option (List Char × List Char)
  | '.' :: rest => digits? Json.isDigit rest
  | cs => some ([], cs)

/-- The exponent, if there is one. -/
def exponentPart (cs : List Char) : Option (Option Int × List Char) :=
  match cs with
  | c :: rest =>
    if c = 'e' || c = 'E' then do
      let (negative, rest) := sign rest
      let (ds, rest) ← digits? Json.isDigit rest
      let n : Int := Json.digitsValue ds
      return (some (if negative then -n else n), rest)
    else some (none, cs)
  | [] => some (none, [])

/-- A decimal integer or a float. An integer must fit into 64 bits with a sign. -/
def decimal : Scan Json := fun cs => do
  let (negative, cs) := sign cs
  match cs with
  | 'i' :: 'n' :: 'f' :: rest => return (.null, rest)
  | 'n' :: 'a' :: 'n' :: rest => return (.null, rest)
  | _ =>
    let (whole, cs) ← wholePart cs
    let (frac, cs) ← fractionPart cs
    let (exponent, cs) ← exponentPart cs
    match frac, exponent with
    | [], none =>
      let n := Json.digitsValue whole
      if negative then
        if n ≤ UInt64.size / 2 then return (.ofInt (-(n : Int)), cs) else none
      else if n < UInt64.size / 2 then return (.ofNat n, cs) else none
    | _, _ =>
      let x := Binary64.ofDecimal negative (Json.digitsValue (whole ++ frac))
        (exponent.getD 0 - frac.length)
      if x.isFinite then return (.ofBinary64 x, cs)
      else if negative then return (.null, cs) else none

/-- An integer or a float. -/
def numberLiteral : Scan Json
  | '0' :: 'x' :: rest => (basedInteger 16 rest).map fun (n, rest) => (.number n, rest)
  | '0' :: 'o' :: rest => (basedInteger 8 rest).map fun (n, rest) => (.number n, rest)
  | '0' :: 'b' :: rest => (basedInteger 2 rest).map fun (n, rest) => (.number n, rest)
  | cs => decimal cs

/-- So many decimal digits. -/
def fixedDigits (size : Nat) : Scan Nat := fun cs =>
  let ds := cs.take size
  if ds.length = size ∧ ds.all Json.isDigit then some (Json.digitsValue ds, cs.drop size) else none

/-- The number of days of a month. -/
def daysIn (year month : Nat) : Nat :=
  if month = 2 then
    if year % 4 = 0 ∧ (year % 100 ≠ 0 ∨ year % 400 = 0) then 29 else 28
  else if month = 4 ∨ month = 6 ∨ month = 9 ∨ month = 11 then 30 else 31

/-- A number with leading zeros up to so many digits. -/
def padded (size n : Nat) : String :=
  let ds := Nat.toDigits 10 n
  String.ofList (List.replicate (size - ds.length) '0' ++ ds)

/-- A date. -/
def date : Scan String := fun cs => do
  let (year, cs) ← fixedDigits 4 cs
  let cs ← mark '-' cs
  let (month, cs) ← fixedDigits 2 cs
  let cs ← mark '-' cs
  let (day, cs) ← fixedDigits 2 cs
  if 1 ≤ month ∧ month ≤ 12 ∧ 1 ≤ day ∧ day ≤ daysIn year month then
    return (padded 4 year ++ "-" ++ padded 2 month ++ "-" ++ padded 2 day, cs)
  else none

/-- The fraction of a second to nine places, trailing zeros left out. -/
def secondFraction : List Char → Option (String × List Char)
  | '.' :: rest =>
    match rest.span Json.isDigit with
    | ([], _) => none
    | (ds, rest) =>
      let kept := ((ds.take 9).reverse.dropWhile (· = '0')).reverse
      some (if kept.isEmpty then "" else "." ++ String.ofList kept, rest)
  | cs => some ("", cs)

/-- A time of day. -/
def time : Scan String := fun cs => do
  let (hour, cs) ← fixedDigits 2 cs
  let cs ← mark ':' cs
  let (minute, cs) ← fixedDigits 2 cs
  let cs ← mark ':' cs
  let (second, cs) ← fixedDigits 2 cs
  let (frac, cs) ← secondFraction cs
  if hour ≤ 23 ∧ minute ≤ 59 ∧ second ≤ 60 then
    return (padded 2 hour ++ ":" ++ padded 2 minute ++ ":" ++ padded 2 second ++ frac, cs)
  else none

/-- The distance from universal time, if there is one. No distance at all is written with a plus. -/
def offset (cs : List Char) : Option (String × List Char) :=
  match cs with
  | 'Z' :: rest => some ("Z", rest)
  | 'z' :: rest => some ("Z", rest)
  | c :: rest =>
    if c = '+' || c = '-' then do
      let (hour, cs) ← fixedDigits 2 rest
      let cs ← mark ':' cs
      let (minute, cs) ← fixedDigits 2 cs
      if hour ≤ 23 ∧ minute ≤ 59 then
        let c := if hour = 0 ∧ minute = 0 then '+' else c
        return (String.ofList [c] ++ padded 2 hour ++ ":" ++ padded 2 minute, cs)
      else none
    else some ("", cs)
  | [] => some ("", [])

/-- The time of day after a date, with its offset, if there is one. -/
def timeAfterDate (cs : List Char) : Option (String × List Char) :=
  match cs with
  | c :: rest =>
    if c = 'T' || c = 't' || c = ' ' then
      match time rest with
      | some (t, rest) => (offset rest).map fun (o, rest) => ("T" ++ t ++ o, rest)
      | none => some ("", cs)
    else some ("", cs)
  | [] => some ("", [])

/-- The reserved key under which a date or time stands. -/
def dateTimeKey : String := "$__toml_private_datetime"

/-- A date, a time, or both. -/
def dateTime : Scan Json := fun cs => do
  let (text, rest) ← match date cs with
    | some (d, rest) => (timeAfterDate rest).map fun (t, rest) => (d ++ t, rest)
    | none => time cs
  return (.ofMembers [(dateTimeKey, .string text)], rest)

/-- Whether a character may stand in a key without quotes. -/
def isKeyChar (c : Char) : Bool := (c.isAlphanum || c = '_' || c = '-')

/-- One part of a key. -/
def keyPart : Scan String
  | '"' :: rest => basicString (rest.length + 1) [] rest
  | '\'' :: rest => literalString rest
  | cs => match cs.span isKeyChar with
    | ([], _) => none
    | (text, rest) => some (String.ofList text, rest)

/-- A key: parts with points between them, and gaps around the points. -/
def key : Nat → Scan (List String)
  | 0, _ => none
  | fuel + 1, cs => do
    let (part, rest) ← keyPart (skipGap cs)
    match skipGap rest with
    | '.' :: rest =>
      let (parts, rest) ← key fuel rest
      return (part :: parts, rest)
    | rest => return ([part], rest)

end Telemetry.Toml

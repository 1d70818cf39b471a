import Telemetry.Toml.Literal

/-!
# Configuration files

A TOML document as a JSON object. While it is read, each table remembers how it came to be: a table
may be opened by one header only, a table that keys with points have made may only be extended by
such keys in the same place, and what is written as a value is closed.
-/

namespace Telemetry.Toml

open Text (Scan mark)

/-- A table or a value while a document is read. -/
inductive Node
  /-- A value. -/
  | value (v : Json)
  /-- A table; `open_` if no header has named it yet, `dotted` if keys with points made it. -/
  | table (open_ dotted : Bool) (entries : List (String × Node))
  /-- An array of tables, the last one first. -/
  | tables (items : List (List (String × Node)))
deriving Inhabited

/-- The entries of a table, in the order they were written. -/
abbrev Entries := List (String × Node)

/-- Replaces the node at a key that is there, or adds one at the end. -/
def Entries.put (key : String) (n : Node) : Entries → Entries
  | [] => [(key, n)]
  | (k, m) :: rest => if k == key then (key, n) :: rest else (k, m) :: Entries.put key n rest

mutual

/-- The JSON form of a node. -/
def Node.toJson : Node → Json
  | .value v => v
  | .table _ _ entries => .ofMembers (entriesToJson entries)
  | .tables items => .array (itemsToJson items).reverse

/-- The JSON forms of entries. -/
def entriesToJson : Entries → List (String × Json)
  | [] => []
  | (k, n) :: rest => (k, n.toJson) :: entriesToJson rest

/-- The JSON forms of tables of an array. -/
def itemsToJson : List Entries → List Json
  | [] => []
  | es :: rest => .ofMembers (entriesToJson es) :: itemsToJson rest

end

/-- Adds a value under a key with points to a table. The way may lead into the last table of an array,
but no header may have named the tables on it, and the last of them must have been made by such keys
too. -/
def addKey (v : Node) : List String → Entries → Option Entries
  | [], _ => none
  | [k], es => if (es.lookup k).isSome then none else some (es ++ [(k, v)])
  | k :: rest, es => do
    match es.lookup k with
    | none => return es ++ [(k, .table true true (← addKey v rest []))]
    | some (.table true dotted inner) =>
      if dotted || rest.length > 1 then
        return Entries.put k (.table true dotted (← addKey v rest inner)) es
      else none
    | some (.tables (last :: before)) =>
      if rest.length > 1 then
        return Entries.put k (.tables ((← addKey v rest last) :: before)) es
      else none
    | some _ => none

/-- The levels of nesting that values may have, and the parts that a key may have. -/
def maxNesting : Nat := 79

/-- A key that is not too long. -/
def shortKey : Scan (List String) := fun cs =>
  (key (cs.length + 1) cs).filter fun (path, _) => path.length ≤ maxNesting

mutual

/-- A value. Each call uses one unit of fuel; `depth` counts the levels that are left. -/
def value : Nat → Nat → Scan Json
  | 0, _, _ => none
  | fuel + 1, depth, cs =>
    match cs with
    | '"' :: _ | '\'' :: _ => (string cs).map fun (s, rest) => (.string s, rest)
    | 't' :: 'r' :: 'u' :: 'e' :: rest => some (.bool true, rest)
    | 'f' :: 'a' :: 'l' :: 's' :: 'e' :: rest => some (.bool false, rest)
    | '[' :: rest =>
      match depth with
      | 0 => none
      | depth + 1 => (items fuel depth rest).map fun (vs, rest) => (.array vs, rest)
    | '\x7b' :: rest =>
      match depth with
      | 0 => none
      | depth + 1 =>
        match skipGap rest with
        | '\x7d' :: rest => some (.object [], rest)
        | rest => (inlineEntries fuel depth [] rest).map fun (es, rest) =>
            (.ofMembers (entriesToJson es), rest)
    | _ => (dateTime cs).or (numberLiteral cs)

/-- The items of an array up to its closing bracket. -/
def items : Nat → Nat → Scan (List Json)
  | 0, _, _ => none
  | fuel + 1, depth, cs =>
    match skipBlankLines (cs.length + 1) cs with
    | ']' :: rest => some ([], rest)
    | cs => do
      let (v, rest) ← value fuel depth cs
      match skipBlankLines (rest.length + 1) rest with
      | ',' :: rest =>
        let (vs, rest) ← items fuel depth rest
        return (v :: vs, rest)
      | ']' :: rest => return ([v], rest)
      | _ => none

/-- The entries of a table written as a value, up to its closing brace, after those given. -/
def inlineEntries : Nat → Nat → Entries → Scan Entries
  | 0, _, _, _ => none
  | fuel + 1, depth, done, cs => do
    let (path, rest) ← shortKey cs
    let rest ← mark '=' (skipGap rest)
    let (v, rest) ← value fuel depth (skipGap rest)
    let done ← addKey (.value v) path done
    match skipGap rest with
    | ',' :: rest => inlineEntries fuel depth done rest
    | '\x7d' :: rest => return (done, rest)
    | _ => none

/-- Skips gaps, comments and ends of lines. -/
def skipBlankLines : Nat → List Char → List Char
  | 0, cs => cs
  | fuel + 1, cs =>
    let rest := skipComment (skipGap cs)
    match newline? rest with
    | some below => skipBlankLines fuel below
    | none => rest

end

/-- Changes the entries of the table at a path, making tables that are not there and going into the
last table of an array. -/
def atPath (f : Entries → Option Entries) : List String → Entries → Option Entries
  | [], es => f es
  | k :: rest, es => do
    match es.lookup k with
    | none => return es ++ [(k, .table true false (← atPath f rest []))]
    | some (.table open_ dotted inner) =>
      return Entries.put k (.table open_ dotted (← atPath f rest inner)) es
    | some (.tables (last :: before)) =>
      return Entries.put k (.tables ((← atPath f rest last) :: before)) es
    | some _ => none

/-- Opens the table that a header names; it may have been made by headers of tables inside it. -/
def openTable (k : String) (es : Entries) : Option Entries :=
  match es.lookup k with
  | none => some (es ++ [(k, .table false false [])])
  | some (.table true false inner) => some (Entries.put k (.table false false inner) es)
  | some _ => none

/-- Adds a table to the array that a header names. -/
def openItem (k : String) (es : Entries) : Option Entries :=
  match es.lookup k with
  | none => some (es ++ [(k, .tables [[]])])
  | some (.tables its) => some (Entries.put k (.tables ([] :: its)) es)
  | some _ => none

/-- A document while it is read: its entries, and the path of the table that is open. -/
structure Document where
  /-- The entries of the outermost table. -/
  entries : Entries
  /-- The path of the table that keys are added to. -/
  current : List String

/-- Opens what a header names. -/
def Document.header (d : Document) (array : Bool) (path : List String) : Option Document := do
  let last ← path.getLast?
  let entries ← atPath (if array then openItem last else openTable last) path.dropLast d.entries
  return ⟨entries, path⟩

/-- Adds a value to the table that is open. -/
def Document.add (d : Document) (path : List String) (v : Json) : Option Document := do
  return { d with entries := ← atPath (addKey (.value v) path) d.current d.entries }

/-- The rest after the end of a line, or nothing at the end of the text. -/
def lineEnd (cs : List Char) : Option (List Char) :=
  match skipComment (skipGap cs) with
  | [] => some []
  | rest => newline? rest

/-- Reads one line, or a value that goes on over several. -/
def Document.line (d : Document) (cs : List Char) : Option (Document × List Char) :=
  match skipGap cs with
  | [] => some (d, [])
  | '#' :: rest => (lineEnd ('#' :: rest)).map (d, ·)
  | '[' :: '[' :: rest => do
    let (path, rest) ← shortKey rest
    let rest ← (mark ']' (skipGap rest)).bind (mark ']')
    return (← d.header true path, ← lineEnd rest)
  | '[' :: rest => do
    let (path, rest) ← shortKey rest
    let rest ← mark ']' (skipGap rest)
    return (← d.header false path, ← lineEnd rest)
  | cs =>
    match newline? cs with
    | some rest => some (d, rest)
    | none => do
      let (path, rest) ← shortKey cs
      let rest ← mark '=' (skipGap rest)
      let rest := skipGap rest
      let (v, rest) ← value (2 * rest.length + 2) maxNesting rest
      return (← d.add path v, ← lineEnd rest)

/-- Reads lines up to the end. -/
def Document.lines : Nat → Document → List Char → Option Document
  | _, d, [] => some d
  | 0, _, _ => none
  | fuel + 1, d, cs => do
    let (d, rest) ← d.line cs
    Document.lines fuel d rest

/-- Reads a document into a JSON object; a byte order mark at its front does not count. -/
def read? (text : String) : Option Json :=
  let cs := match text.toList with
    | '\uFEFF' :: rest => rest
    | cs => cs
  (Document.lines (cs.length + 1) ⟨[], []⟩ cs).map fun d => .ofMembers (entriesToJson d.entries)

end Telemetry.Toml

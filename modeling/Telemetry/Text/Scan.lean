/-!
# Reading from the front of a text

A scan reads what stands at the front of a text and hands on the rest, or fails. It never looks at
more than it needs, so that scans can follow one another.
-/

namespace Telemetry.Text

/-- A reader from the front of a text: what was read, and the rest. -/
abbrev Scan (α : Type) := List Char → Option (α × List Char)

/-- Skips one given character. -/
def mark (c : Char) : List Char → Option (List Char)
  | d :: rest => if c = d then some rest else none
  | [] => none

end Telemetry.Text

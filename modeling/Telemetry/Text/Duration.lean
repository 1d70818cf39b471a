import Telemetry.Text.Blank

/-!
# Spans of time

A span of whole milliseconds is written in seconds from one second on, with as many decimal places
as it needs, and in milliseconds below.
-/

namespace Telemetry.Text

/-- The three places after the point of a number of milliseconds below one second, trailing zeros
left out. -/
def thousandths (ms : Nat) : List Char :=
  let digits := [ms / 100 % 10, ms / 10 % 10, ms % 10].map fun d => Char.ofNat (48 + d)
  (digits.reverse.dropWhile (· = '0')).reverse

/-- The text of a span of whole milliseconds. -/
def durationText (ms : Nat) : String :=
  if ms < 1000 then if ms = 0 then "0ns" else toString ms ++ "ms"
  else match thousandths (ms % 1000) with
    | [] => toString (ms / 1000) ++ "s"
    | places => toString (ms / 1000) ++ "." ++ String.ofList places ++ "s"

end Telemetry.Text

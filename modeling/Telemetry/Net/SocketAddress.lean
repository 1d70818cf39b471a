import Telemetry.Text.Hex
import Telemetry.Text.Scan

/-!
# Socket addresses

An IP address of version 4 or 6 with a port, in the usual notation: four decimal numbers without
leading zeros, or up to eight hexadecimal groups in brackets, of which a run of zeros may be left
out and the last two may be written as a version 4 address.
-/

namespace Telemetry.Net

open Text (Scan mark)

/-- An address a service listens on. -/
inductive SocketAddress
  | v4 (a b c d : Nat) (port : Nat)
  | v6 (groups : List Nat) (scope : Nat) (port : Nat)
deriving DecidableEq, Repr

/-- The value of a digit in a base of at most sixteen. -/
def digitIn? (base : Nat) (c : Char) : Option Nat :=
  (Text.hexValue? c).filter (· < base)

/-- A number below a limit with at most so many digits; a leading zero may be ruled out. -/
def number (base limit : Nat) (maxDigits : Option Nat) (zeroFirst : Bool) : Scan Nat := fun cs =>
  let digits := cs.takeWhile fun c => (digitIn? base c).isSome
  let rest := cs.drop digits.length
  let value := digits.foldl (fun n c => n * base + (digitIn? base c).getD 0) 0
  if digits.isEmpty ∨ limit ≤ value ∨ maxDigits.any (· < digits.length) then none
  else if !zeroFirst ∧ digits.length > 1 ∧ digits.head? = some '0' then none
  else some (value, rest)

/-- Four decimal numbers below 256 with points between them. -/
def ipv4 : Scan (Nat × Nat × Nat × Nat) := fun cs => do
  let octet := number 10 256 (some 3) false
  let (a, cs) ← octet cs
  let cs ← mark '.' cs
  let (b, cs) ← octet cs
  let cs ← mark '.' cs
  let (c, cs) ← octet cs
  let cs ← mark '.' cs
  let (d, cs) ← octet cs
  return ((a, b, c, d), cs)

/-- Skips the colon before every group but the first. -/
def separated {α : Type} (first : Bool) (p : Scan α) : Scan α := fun cs =>
  if first then p cs else do
    let cs ← mark ':' cs
    p cs

/-- At most so many groups with colons between them, and whether the last two were written as a
version 4 address. -/
def groups : Nat → Bool → List Char → List Nat × Bool × List Char
  | 0, _, cs => ([], false, cs)
  | room + 1, first, cs =>
    let quad := if room = 0 then none else separated first ipv4 cs
    match quad with
    | some ((a, b, c, d), rest) => ([a * 256 + b, c * 256 + d], true, rest)
    | none =>
      match separated first (number 16 65536 (some 4) true) cs with
      | none => ([], false, cs)
      | some (g, rest) =>
        let (gs, quad, rest) := groups room false rest
        (g :: gs, quad, rest)

/-- The eight groups of a version 6 address. -/
def ipv6 : Scan (List Nat) := fun cs =>
  let (front, quad, cs) := groups 8 true cs
  if front.length = 8 then some (front, cs)
  else if quad then none
  else do
    let cs ← mark ':' cs
    let cs ← mark ':' cs
    let (back, _, cs) := groups (7 - front.length) true cs
    return (front ++ List.replicate (8 - front.length - back.length) 0 ++ back, cs)

/-- A colon and a port. -/
def portNumber : Scan Nat := fun cs => do
  let cs ← mark ':' cs
  number 10 65536 none true cs

namespace SocketAddress

/-- The port of an address. -/
def port : SocketAddress → Nat
  | v4 _ _ _ _ port | v6 _ _ port => port

/-- A version 4 address that is written as a version 6 address, as itself. -/
def unmapped : SocketAddress → SocketAddress
  | v6 [0, 0, 0, 0, 0, 0xFFFF, high, low] _ port =>
    v4 (high / 256) (high % 256) (low / 256) (low % 256) port
  | address => address

/-- Whether the first address stands for every host of one version, or of both, and the second is
one of these. -/
def covers : SocketAddress → SocketAddress → Bool
  | v4 0 0 0 0 _, v4 .. => true
  | v6 groups _ _, _ => groups.all (· = 0)
  | _, _ => false

/-- Whether two addresses cannot be listened on at the same time: they have the same port, and the
same host or one that covers the other. -/
def conflicts (x y : SocketAddress) : Bool :=
  let x := x.unmapped
  let y := y.unmapped
  x.port == y.port && (x == y || x.covers y || y.covers x)

/-- A version 4 address with its port. -/
def parseV4 : Scan SocketAddress := fun cs => do
  let ((a, b, c, d), cs) ← ipv4 cs
  let (port, cs) ← portNumber cs
  return (v4 a b c d port, cs)

/-- A version 6 address in brackets, perhaps with a scope, with its port. -/
def parseV6 : Scan SocketAddress := fun cs => do
  let cs ← mark '[' cs
  let (gs, cs) ← ipv6 cs
  let (scope, cs) := match mark '%' cs with
    | none => (0, cs)
    | some rest => (number 10 UInt32.size none true rest).getD (0, cs)
  let cs ← mark ']' cs
  let (port, cs) ← portNumber cs
  return (v6 gs scope port, cs)

/-- Reads a whole text as a socket address. -/
def parse? (s : String) : Option SocketAddress := do
  let (address, rest) ← (parseV4 s.toList).or (parseV6 s.toList)
  if rest.isEmpty then return address else none

/-- The length of the run of zeros at the front of a list of groups. -/
def zeroRun (gs : List Nat) : Nat := (gs.takeWhile (· = 0)).length

/-- The first of the longest runs of zeros: where it starts and how long it is. -/
def longestZeros (gs : List Nat) : Nat × Nat :=
  (List.range gs.length).foldl (fun best i =>
    let run := zeroRun (gs.drop i)
    if best.2 < run then (i, run) else best) (0, 0)

/-- Groups in hexadecimal with colons between them. -/
def groupsText (gs : List Nat) : String :=
  ":".intercalate (gs.map fun g => String.ofList (Text.hexDigits g))

/-- A version 4 address with points. -/
def quadText (a b c d : Nat) : String := ".".intercalate ([a, b, c, d].map toString)

/-- A version 6 address: the longest run of two zeros and more is left out. -/
def ipv6Text (gs : List Nat) : String :=
  match gs with
  | [0, 0, 0, 0, 0, 0xFFFF, high, low] =>
    "::ffff:" ++ quadText (high / 256) (high % 256) (low / 256) (low % 256)
  | _ =>
    let (start, size) := longestZeros gs
    if size > 1 then groupsText (gs.take start) ++ "::" ++ groupsText (gs.drop (start + size))
    else groupsText gs

/-- The written form of an address. -/
def text : SocketAddress → String
  | v4 a b c d port => quadText a b c d ++ ":" ++ toString port
  | v6 gs scope port =>
    let scopeText := if scope = 0 then "" else "%" ++ toString scope
    "[" ++ ipv6Text gs ++ scopeText ++ "]:" ++ toString port

end SocketAddress

end Telemetry.Net

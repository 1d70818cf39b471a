import Telemetry.Batch.Request
import Telemetry.Text.Hex

/-!
# Requests, replies and paths

What travels over HTTP, and a server at the other end of the line as it looks to a client: it answers
from a list of replies, one after the other, the last one over and over; or hangs up. Batches of each
signal have a path of their own; one more path tells how a receiver fares.
-/

namespace Telemetry.Http

open Text (Bytes)

/-- A request. -/
structure Request where
  /-- The method. -/
  method : String
  /-- Where it is sent to. -/
  url : String
  /-- The headers, in order. -/
  headers : List (String × String)
  /-- The body. -/
  body : Bytes
deriving DecidableEq, Repr

/-- A reply. -/
structure Reply where
  /-- The status. -/
  status : Nat
  /-- The body, as text. -/
  body : String
deriving DecidableEq, Repr

/-- A server with the requests that reached it. -/
structure Server where
  /-- The scheme, the host and the port it answers to. -/
  base : String
  /-- What it answers; nothing where it hangs up. -/
  replies : List (Option Reply)
  /-- The requests that reached it. -/
  received : List Request
deriving DecidableEq, Repr

namespace Server

/-- The answer to the request with a number, from zero on. -/
def reply (s : Server) (n : Nat) : Option Reply :=
  if s.replies.isEmpty then some ⟨200, ""⟩ else (s.replies[n]?.or s.replies.getLast?).join

/-- Whether a URL leads to the server. -/
def hosts (s : Server) (url : String) : Bool :=
  url == s.base || url.startsWith (s.base ++ "/") || url.startsWith (s.base ++ "?")

/-- Sends a request to the server. -/
def receive (s : Server) (r : Request) : Option Reply × Server :=
  (s.reply s.received.length, { s with received := s.received ++ [r] })

end Server

/-- What can be reached: a server, or nothing at all. -/
abbrev Network := Option Server

/-- Sends a request; there is no reply if the URL leads nowhere. -/
def Network.send (r : Request) : Network → Option Reply × Network
  | none => (none, none)
  | some s =>
    if s.hosts r.url then
      let (reply, s) := s.receive r
      (reply, some s)
    else (none, some s)

/-- The path for batches of a type. -/
def pathOf (type : BatchType) : String := "/v1/" ++ type.signal.text

/-- What a path leads to. -/
inductive Route
  /-- The count of the batches that were delivered. -/
  | health
  /-- The batches of a type. -/
  | batches (type : BatchType)
deriving DecidableEq, Repr

/-- What a path leads to. -/
def Route.ofPath? (path : String) : Option Route :=
  if path == "/health" then some .health
  else (BatchType.all.find? fun type => pathOf type == path).map .batches

/-- The path of a URL without its host: everything before a question mark. -/
def pathOfUrl (url : String) : String := String.ofList (url.toList.takeWhile (· ≠ '?'))

end Telemetry.Http

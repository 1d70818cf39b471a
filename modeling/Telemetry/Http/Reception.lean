import Telemetry.Failure.Consume
import Telemetry.Gzip.Member
import Telemetry.Http.Exchange
import Telemetry.Json.Writer
import Telemetry.Wire.JsonForm

/-!
# Receiving batches

A request to the path of a signal carries a batch, perhaps compressed, in protobuf or JSON. The status
of the answer tells a client whether the batch was delivered, should be sent again, or is refused for
good. One more path tells how many batches were delivered.
-/

namespace Telemetry.Http

open Text (Bytes)

/-- How bodies are read. -/
structure Decoders where
  /-- The first bytes of what a compressed body holds, at most so many. -/
  unpack : Nat → Bytes → Option Bytes
  /-- A batch from its binary form. -/
  binary : BatchType → Bytes → Option Telemetry.Request
  /-- A batch from its JSON form. -/
  json : BatchType → Bytes → Option Telemetry.Request

/-- The formats of the telemetry protocol. -/
def Decoders.standard : Decoders where
  unpack := Gzip.unpack?
  binary := Telemetry.Request.unmarshal?
  json type bytes := (Wire.decodeJson? type.requestType bytes).map (.ofMessage type)

/-- The statuses of answers. -/
inductive Status
  | ok
  | badRequest
  | notFound
  | methodNotAllowed
  | tooLarge
  | unavailable
deriving DecidableEq, Repr

/-- The number of a status. -/
def Status.code : Status → Nat
  | .ok => 200
  | .badRequest => 400
  | .notFound => 404
  | .methodNotAllowed => 405
  | .tooLarge => 413
  | .unavailable => 503

/-- A text in lower case, as far as its letters are ASCII. -/
def lowerCase (s : String) : List Char := s.toList.map Char.toLower

/-- The value of the first header with a name, unless it holds other characters than visible ASCII,
spaces and tabs. -/
def Request.header? (r : Request) (name : String) : Option String :=
  match r.headers.find? fun h => lowerCase h.1 = lowerCase name with
  | none => none
  | some (_, value) =>
    if value.toList.all fun c => c = '\t' || (' ' ≤ c && c ≤ '~') then some value else none

/-- Whether a text occurs in another. -/
def occursIn (part : List Char) : List Char → Bool
  | [] => part.isEmpty
  | c :: rest => part.isPrefixOf (c :: rest) || occursIn part rest

/-- Whether the value of a header contains a text. -/
def Request.headerContains (r : Request) (name part : String) : Bool :=
  (r.header? name).any fun value => occursIn part.toList value.toList

/-- Whether a body is compressed. -/
def Request.isCompressed (r : Request) : Bool := r.headerContains "Content-Encoding" "gzip"

/-- Whether a body is in JSON. -/
def Request.isJson (r : Request) : Bool := r.headerContains "Content-Type" "application/json"

/-- The body as it was before it was compressed; what it holds must not be longer than the limit. -/
def Request.content (d : Decoders) (limit : Nat) (r : Request) : Except Status Bytes :=
  if r.isCompressed then
    match d.unpack (limit + 1) r.body with
    | none => .error .badRequest
    | some content => if limit < content.length then .error .tooLarge else .ok content
  else .ok r.body

/-- The batch a request carries. -/
def Request.batch (d : Decoders) (limit : Nat) (type : BatchType) (r : Request) :
    Except Status Telemetry.Request :=
  match r.content d limit with
  | .error status => .error status
  | .ok content =>
    let decoded := if r.isJson then d.json type content else d.binary type content
    decoded.elim (.error .badRequest) .ok

/-- What becomes of a batch as a status: a permanent failure must not be tried again, any other
may. -/
def statusOf : Outcome → Status
  | .ok () => .ok
  | .error e => if e.isPermanent then .badRequest else .unavailable

/-- Receives a batch and hands it to a consumer, if there is one for its type. -/
def receive {σ : Type} (d : Decoders) (limit : Nat) (type : BatchType)
    (next : Option (Telemetry.Request → σ → Outcome × σ)) (r : Request) (s : σ) : Status × σ :=
  match next with
  | none => (.notFound, s)
  | some consume =>
    match r.batch d limit type with
    | .error status => (status, s)
    | .ok batch =>
      let (outcome, s) := consume batch s
      (statusOf outcome, s)

/-- The body that tells how many batches were delivered. -/
def healthBody (delivered : Nat) : String :=
  (Json.ofMembers [("requests_received", .ofNat delivered), ("status", .string "ready")]).write

/-- An answer without a body. -/
def Reply.ofStatus (s : Status) : Reply := ⟨s.code, ""⟩

/-- A receiver as it answers requests: the limit on bodies, where batches of each type go, and the
number of batches that were delivered. -/
structure Reception (σ : Type) where
  /-- The longest body, before and after it is unpacked. -/
  limit : Nat
  /-- Where the batches of each type go. -/
  next : BatchType → Option (Telemetry.Request → σ → Outcome × σ)
  /-- The number of batches that were delivered. It goes up by one with a request, and no run serves the
  `2 ^ 64` of them at which a word would wrap around. -/
  delivered : Nat

namespace Reception

variable {σ : Type}

/-- Counts a batch that was delivered. -/
def count (status : Status) (x : Reception σ) : Reception σ :=
  if status = .ok then { x with delivered := x.delivered + 1 } else x

/-- Answers a request. A body that is too long is refused before anything is made of it. -/
def answer (d : Decoders) (r : Request) (x : Reception σ) (s : σ) : Reply × Reception σ × σ :=
  match Route.ofPath? (pathOfUrl r.url) with
  | none => (.ofStatus .notFound, x, s)
  | some .health =>
    if r.method = "GET" then (⟨Status.ok.code, healthBody x.delivered⟩, x, s)
    else if r.method = "HEAD" then (.ofStatus .ok, x, s)
    else (.ofStatus .methodNotAllowed, x, s)
  | some (.batches type) =>
    if r.method ≠ "POST" then (.ofStatus .methodNotAllowed, x, s)
    else if x.limit < r.body.length then (.ofStatus .tooLarge, x, s)
    else
      let (status, s) := receive d x.limit type (x.next type) r s
      (.ofStatus status, x.count status, s)

end Reception

end Telemetry.Http

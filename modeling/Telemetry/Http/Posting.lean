import Telemetry.Component.Settings
import Telemetry.Exporter.Attempt
import Telemetry.Http.Exchange

/-!
# Posting batches

A batch is posted as one protobuf request to the path of its signal. A reply whose status reports
success means that it was delivered. A request that got no reply, or a reply that asks for a later
try, may be repeated; any other reply refuses the batch for good.
-/

namespace Telemetry.Http

/-- Whether a character may stand in the name of a header. -/
def isTokenChar (c : Char) : Bool :=
  c.isAlphanum || "!#$%&'*+-.^_|~".toList.contains c || c.toNat = 96

/-- Whether a text is the name of a header. -/
def isHeaderName (s : String) : Bool := !s.isEmpty && s.toList.all isTokenChar

/-- Whether a text may be the value of a header: it holds no control character but tabs. -/
def isHeaderValue (s : String) : Bool :=
  s.toList.all fun c => c = '\t' || (' ' ≤ c && c.toNat ≠ 127)

/-- The base of a URL without slashes at its end. -/
def trimBase (endpoint : String) : String :=
  String.ofList (endpoint.toList.reverse.dropWhile (· = '/')).reverse

/-- The headers of a posted batch. -/
def postHeaders (s : HttpSettings) : List (String × String) :=
  [("Content-Type", "application/x-protobuf")] ++ s.headers ++
    (match s.compression with
      | .none => []
      | .gzip => [("Content-Encoding", "gzip")])

/-- The request that posts a batch, if its headers are well formed; `pack` compresses bodies. -/
def postRequest? (pack : Text.Bytes → Text.Bytes) (s : HttpSettings) (endpoint : String)
    (r : Telemetry.Request) : Option Request :=
  let headers := postHeaders s
  if headers.all fun h => isHeaderName h.1 && isHeaderValue h.2 then
    let body := match s.compression with
      | .none => r.marshal
      | .gzip => pack r.marshal
    some ⟨"POST", trimBase endpoint ++ pathOf r.type, headers, body⟩
  else none

/-- Whether a status asks for a later try. -/
def isRetryable (status : Nat) : Bool :=
  status = 408 || status = 429 || (500 ≤ status && status < 600)

/-- Whether a status reports success. -/
def isSuccess (status : Nat) : Bool := 200 ≤ status && status < 300

/-- What a reply, or none, means for the batch. -/
def outcomeOf : Option Reply → Outcome
  | none => .error (.transient "HTTP request failed")
  | some reply =>
    let cause := "server returned " ++ toString reply.status ++ ": " ++ reply.body
    if isSuccess reply.status then .ok ()
    else if isRetryable reply.status then .error (.transient cause)
    else .error (.permanent cause)

/-- Posts a batch. -/
def post (pack : Text.Bytes → Text.Bytes) (s : HttpSettings) (endpoint : String)
    (r : Telemetry.Request) (net : Network) : Outcome × Network :=
  match postRequest? pack s endpoint r with
  | none => (outcomeOf none, net)
  | some request =>
    let (reply, net) := net.send request
    (outcomeOf reply, net)

end Telemetry.Http

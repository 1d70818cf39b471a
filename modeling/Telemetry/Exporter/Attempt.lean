import Telemetry.Batch.Request
import Telemetry.Cancellation
import Telemetry.Failure.Consume

/-!
# Attempts

One attempt hands a batch to a destination and waits for its answer, for so long at most. With a
limit the destination works under a token of its own, which is cancelled when the attempt is over;
the attempt then also ends with the cancellation of the caller's context. Without a limit the
destination works under the caller's token, and the attempt ends with the answer only.
-/

namespace Telemetry

/-- How a destination takes batches, and what it learns about their senders. -/
structure Destination (ε χ : Type) where
  /-- Begins to take a batch of the exporter with a number, under a token. -/
  begin : Nat → Nat → Request → ε → χ × ε
  /-- Whether the work on a batch can go on, at a time. -/
  canGo : Nat → ε → χ → Bool
  /-- The times the work on a batch waits for. -/
  due : χ → List Nat
  /-- One turn of the work on a batch. -/
  turn : Nat → χ → Tokens → ε → (χ ⊕ Outcome) × Tokens × ε
  /-- The outcome of a batch that was sent by its caller. -/
  answered : Nat → Nat → Outcome → ε → ε
  /-- A call to shut an exporter down is over. -/
  stopped : Nat → Nat → Nat → ε → ε

/-- The limit of an attempt: its length, its end, and the token it works under. -/
structure AttemptLimit where
  /-- The length, in milliseconds. -/
  length : Nat
  /-- The end. -/
  deadline : Nat
  /-- The token. -/
  token : Nat
deriving DecidableEq, Repr

/-- An attempt under way. -/
structure Attempt (χ : Type) where
  /-- The token of the caller's context. -/
  context : Nat
  /-- The limit, if there is one. -/
  limit : Option AttemptLimit
  /-- What the destination does. -/
  work : χ

namespace Attempt

variable {ε χ : Type}

/-- Begins an attempt. -/
def start (dest : Destination ε χ) (now exporter timeout context : Nat) (r : Request)
    (tokens : Tokens) (s : ε) : Attempt χ × Tokens × ε :=
  if timeout = 0 then
    let (work, s) := dest.begin exporter context r s
    (⟨context, none, work⟩, tokens, s)
  else
    let (token, tokens) := tokens.child context
    let (work, s) := dest.begin exporter token r s
    (⟨context, some ⟨timeout, now + timeout, token⟩, work⟩, tokens, s)

/-- The error an attempt ends with if the destination does not answer first. -/
def interruption? (now : Nat) (tokens : Tokens) (a : Attempt χ) : Option ConsumeError :=
  a.limit.bind fun l =>
    if l.deadline ≤ now then some (.timedOut l.length)
    else if tokens.isCancelled a.context then some .cancelled
    else none

/-- Whether an attempt can go on. -/
def canGo (dest : Destination ε χ) (now : Nat) (tokens : Tokens) (s : ε) (a : Attempt χ) : Bool :=
  dest.canGo now s a.work || (a.interruption? now tokens).isSome

/-- The times an attempt waits for. -/
def due (dest : Destination ε χ) (a : Attempt χ) : List Nat :=
  dest.due a.work ++ a.limit.toList.map AttemptLimit.deadline

/-- Cancels the token of an attempt that is over. -/
def release (a : Attempt χ) (tokens : Tokens) : Tokens :=
  a.limit.elim tokens fun l => tokens.cancel l.token

/-- One turn of an attempt. An answer that is there counts, whatever else has happened. -/
def turn (dest : Destination ε χ) (now : Nat) (a : Attempt χ) (tokens : Tokens) (s : ε) :
    (Attempt χ ⊕ Outcome) × Tokens × ε :=
  if dest.canGo now s a.work then
    match dest.turn now a.work tokens s with
    | (.inl work, tokens, s) => (.inl { a with work := work }, tokens, s)
    | (.inr outcome, tokens, s) => (.inr outcome, a.release tokens, s)
  else
    match a.interruption? now tokens with
    | some e => (.inr (.error e), a.release tokens, s)
    | none => (.inl a, tokens, s)

end Attempt

end Telemetry

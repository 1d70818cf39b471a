import Telemetry.Decimal.Binary64
import Telemetry.Exporter.Policy
import Telemetry.Failure.Consume

/-!
# Retries

A batch is sent by attempts, one after the other, until one succeeds or fails for good. Between two
attempts there is a wait, which ends with its time, with the cancellation of the caller's context or
with a shutdown; only the first leads to a further attempt.

The interval between two attempts grows by a factor from one wait to the next, up to a largest
interval. The wait itself is picked around the interval, by whoever runs the retries. Once a wait
would end too long after the first attempt began there is none.

Attempts are not numbered here. Their number is for the log alone, in a word of 32 bits. Under a policy
without a limit on the time the `2 ^ 32`nd attempt of a batch overflows that word, after some fifty days
of waits of one millisecond; what happens from then on is left out.

The time is in milliseconds, intervals and waits are in nanoseconds.
-/

namespace Telemetry

/-- What is known about the waits of one batch. -/
structure Backoff where
  /-- The interval of the next wait. -/
  interval : Nat
  /-- When the first attempt began. -/
  began : Nat
deriving DecidableEq, Repr

namespace Backoff

/-- The nanoseconds of a number of milliseconds. -/
def nanoseconds (ms : Nat) : Nat := ms * 1000000

/-- A number of nanoseconds in milliseconds, rounded up. -/
def milliseconds (ns : Nat) : Nat := (ns + 999999) / 1000000

/-- The nanoseconds of one second. -/
def nanosecondsPerSecond : Nat := 1000000000

/-- A number of nanoseconds in seconds, as a double: whole seconds and the fraction are rounded
before they are added. -/
def seconds (ns : Nat) : Binary64 :=
  Binary64.addMagnitudes (.ofNat (ns / nanosecondsPerSecond))
    (.ofRatio false (ns % nanosecondsPerSecond) nanosecondsPerSecond)

/-- An interval times a factor of at least one, rounded to the nearest nanosecond. -/
def grow (factor : Binary64) (ns : Nat) : Nat :=
  if factor.leNat 1 then ns
  else
    let (num, den) := (Binary64.mulMagnitudes (seconds ns) factor).ratio
    roundHalfEven (num * nanosecondsPerSecond) den

/-- The waits of a batch whose first attempt begins now. -/
def start (p : RetryPolicy) (now : Nat) : Backoff := ⟨nanoseconds p.initialInterval, now⟩

/-- What is known after the wait that is about to begin; nothing if the wait would end too late. -/
def next? (p : RetryPolicy) (now wait : Nat) (b : Backoff) : Option Backoff :=
  if p.maxElapsedTime ≠ 0 ∧ nanoseconds p.maxElapsedTime < nanoseconds (now - b.began) + wait then
    none
  else
    some { b with interval := min (grow p.multiplier b.interval) (nanoseconds p.maxInterval) }

end Backoff

/-- Where the retries of a batch stand. -/
inductive Retry
  /-- An attempt is under way. -/
  | attempting (backoff : Backoff)
  /-- The last attempt failed, and the next begins at a time. -/
  | waiting (last : ConsumeError) (wake : Nat) (backoff : Backoff)

/-- What ends a wait. -/
inductive WaitEnd
  | timer
  | cancellation
  | shutdown
deriving DecidableEq, Repr

namespace Retry

/-- What follows an attempt, given the wait that was picked in case there is one. -/
def afterAttempt (p : RetryPolicy) (now wait : Nat) (b : Backoff) : Outcome → Retry ⊕ Outcome
  | .ok () => .inr (.ok ())
  | .error e =>
    if !p.enabled || e.isPermanent then .inr (.error e)
    else
      match b.next? p now wait with
      | none => .inr (.error (.exhausted e))
      | some b => .inl (.waiting e (now + Backoff.milliseconds wait) b)

/-- What follows a wait. -/
def afterWait (last : ConsumeError) (b : Backoff) : WaitEnd → Retry ⊕ Outcome
  | .timer => .inl (.attempting b)
  | .cancellation => .inr (.error .cancelled)
  | .shutdown => .inr (.error (.interrupted last))

/-- What ends a wait at a time, if anything does. -/
def waitEnd? (now wake : Nat) (cancelled stopping : Bool) : Option WaitEnd :=
  if wake ≤ now then some .timer
  else if cancelled then some .cancellation
  else if stopping then some .shutdown
  else none

end Retry

end Telemetry

import Telemetry.Exporter.Attempt
import Telemetry.Exporter.Retry
import Telemetry.Queue.Line

/-!
# Sending

An exporter sends a batch by attempts and keeps accounts of the items: those sent, those whose last
attempt failed, and those that its queue refused or gave up. Items held up by a shutdown are in none
of the accounts, because a persistent queue keeps them.
-/

namespace Telemetry

/-- The accounts of an exporter, in items. They are only ever added to, as batches are sent or given up.
Each item that is counted was taken in on its own before, so that no run lasts long enough to bring an
account to the `2 ^ 64` at which a word would wrap around. -/
structure ExportAccounts where
  /-- Delivered. -/
  sent : Nat
  /-- Lost after the last attempt. -/
  failed : Nat
  /-- Refused or given up by the queue. -/
  rejected : Nat
deriving DecidableEq, Repr

namespace ExportAccounts

/-- Nothing happened yet. -/
def zero : ExportAccounts := ⟨0, 0, 0⟩

/-- Enters the outcome of sending so many items. -/
def enter (items : Nat) (a : ExportAccounts) : Outcome → ExportAccounts
  | .ok () => { a with sent := a.sent + items }
  | .error e => if e.isShutdown then a else { a with failed := a.failed + items }

/-- Enters items that the queue refused or gave up. -/
def reject (items : Nat) (a : ExportAccounts) : ExportAccounts :=
  { a with rejected := a.rejected + items }

end ExportAccounts

/-- An exporter as its senders see it. -/
structure Exporter where
  /-- Its settings. -/
  settings : ExportSettings
  /-- The token of the workers of its queue. -/
  context : Nat
  /-- Whether a shutdown was asked for. -/
  stopping : Bool
  /-- Its accounts. -/
  accounts : ExportAccounts

/-- Exporters, the tokens they work under, and their destination. -/
structure Exporters (ε : Type) where
  /-- The tokens. -/
  tokens : Tokens
  /-- The exporters, by number. -/
  exporters : List Exporter
  /-- The destination. -/
  outside : ε

namespace Exporters

variable {ε : Type}

/-- The exporter with a number. -/
def exporter (x : Exporters ε) (n : Nat) : Exporter :=
  x.exporters.getD n ⟨.default, 0, false, .zero⟩

/-- Adds an exporter. -/
def add (x : Exporters ε) (settings : ExportSettings) : Exporters ε :=
  let (context, tokens) := x.tokens.root
  ⟨tokens, x.exporters ++ [⟨settings, context, false, .zero⟩], x.outside⟩

/-- Changes the accounts of an exporter. -/
def account (x : Exporters ε) (n : Nat) (f : ExportAccounts → ExportAccounts) : Exporters ε :=
  { x with exporters := x.exporters.modify n fun e => { e with accounts := f e.accounts } }

/-- Asks for the shutdown of an exporter: no wait for a further attempt goes on. -/
def stop (x : Exporters ε) (n : Nat) : Exporters ε :=
  { x with exporters := x.exporters.modify n fun e => { e with stopping := true } }

end Exporters

/-- Where the sending of a batch stands. -/
inductive SendStage (χ : Type)
  /-- No attempt was made. -/
  | fresh
  /-- An attempt is under way. -/
  | attempting (backoff : Backoff) (attempt : Attempt χ)
  /-- The next attempt begins now. -/
  | again (backoff : Backoff)
  /-- The last attempt failed, and the next begins at a time. -/
  | waiting (last : ConsumeError) (wake : Nat) (backoff : Backoff)

/-- The sending of a batch by the exporter with a number. -/
structure Sending (χ : Type) where
  /-- The number of the exporter. -/
  exporter : Nat
  /-- The token of the caller's context. -/
  context : Nat
  /-- The batch. -/
  request : Request
  /-- Where it stands. -/
  stage : SendStage χ

namespace Sending

variable {ε χ : Type}

/-- A sending that is to begin. -/
def fresh (exporter context : Nat) (r : Request) : Sending χ := ⟨exporter, context, r, .fresh⟩

/-- What ends the wait of a sending, if anything does. -/
def waitEnd? (now : Nat) (x : Exporters ε) (s : Sending χ) (wake : Nat) : Option WaitEnd :=
  Retry.waitEnd? now wake (x.tokens.isCancelled s.context) (x.exporter s.exporter).stopping

/-- Whether a sending can go on. -/
def canGo (dest : Destination ε χ) (now : Nat) (x : Exporters ε) (s : Sending χ) : Bool :=
  match s.stage with
  | .fresh | .again _ => true
  | .attempting _ a => a.canGo dest now x.tokens x.outside
  | .waiting _ wake _ => (s.waitEnd? now x wake).isSome

/-- The times a sending waits for. -/
def due (dest : Destination ε χ) (s : Sending χ) : List Nat :=
  match s.stage with
  | .fresh | .again _ => []
  | .attempting _ a => a.due dest
  | .waiting _ wake _ => [wake]

/-- Begins an attempt. -/
def attempt (dest : Destination ε χ) (now : Nat) (b : Backoff) (s : Sending χ)
    (x : Exporters ε) : Sending χ × Exporters ε :=
  let timeout := (x.exporter s.exporter).settings.timeout
  let (a, tokens, o) :=
    Attempt.start dest now s.exporter timeout s.context s.request x.tokens x.outside
  ({ s with stage := .attempting b a }, { x with tokens := tokens, outside := o })

/-- Goes on after an attempt or a wait; the outcome of the last attempt is entered in the
accounts. -/
def proceed (s : Sending χ) (x : Exporters ε) :
    Retry ⊕ Outcome → (Sending χ ⊕ Outcome) × Exporters ε
  | .inl (.attempting b) => (.inl { s with stage := .again b }, x)
  | .inl (.waiting last wake b) => (.inl { s with stage := .waiting last wake b }, x)
  | .inr outcome =>
    (.inr outcome, x.account s.exporter fun a => a.enter s.request.itemCount outcome)

/-- One turn of a sending. Every wait is exactly its interval. -/
def turn (dest : Destination ε χ) (now : Nat) (s : Sending χ) (x : Exporters ε) :
    (Sending χ ⊕ Outcome) × Exporters ε :=
  let policy := (x.exporter s.exporter).settings.retry
  match s.stage with
  | .fresh =>
    let (s, x) := s.attempt dest now (.start policy now) x
    (.inl s, x)
  | .again b =>
    let (s, x) := s.attempt dest now b x
    (.inl s, x)
  | .attempting b a =>
    match a.turn dest now x.tokens x.outside with
    | (.inl a, tokens, o) =>
      (.inl { s with stage := .attempting b a }, { x with tokens := tokens, outside := o })
    | (.inr outcome, tokens, o) =>
      s.proceed { x with tokens := tokens, outside := o }
        (Retry.afterAttempt policy now b.interval b outcome)
  | .waiting last wake b =>
    match s.waitEnd? now x wake with
    | none => (.inl s, x)
    | some ending => s.proceed x (Retry.afterWait last b ending)

/-- The rules by which exporters send the batches of their queues and of their callers. -/
def rules (dest : Destination ε χ) : Queue.SendRules Request (Exporters ε) (Sending χ) where
  begin _ n r x := (fresh n (x.exporter n).context r, x)
  canGo now x s := s.canGo dest now x
  due s := s.due dest
  turn now s x := s.turn dest now x
  answered now number outcome x :=
    { x with outside := dest.answered now number outcome x.outside }
  dropped n r x := x.account n fun a => a.reject r.itemCount
  stopped now n call x := { x with outside := dest.stopped now n call x.outside }

end Sending

end Telemetry

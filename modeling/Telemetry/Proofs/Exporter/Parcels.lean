import Telemetry.Proofs.Exporter.Moves
import Telemetry.Proofs.Queue.Turnover

/-!
# Exporters whose batches nothing stores

An exporter has a queue in memory in front, or none, and then its callers send for themselves. Workers,
callers, offers and the shutdown take turns as they like. Every batch whose sending has begun is a parcel,
which stays after its sending is over, with the outcomes of its attempts.
-/

namespace Telemetry.Accounting

open Queue (Passage Ticket Traffic WorkerStage)
open Queue.Passage (discards drops during sends)
open Sending (Move)

variable {ε χ : Type}

/-- A batch that is being sent or was, with the outcomes of the attempts, the last first. -/
structure Parcel (χ : Type) where
  ticket : Ticket Request
  answers : List Outcome
  state : Sending χ ⊕ Outcome

/-- Exporters, the number of the one that is looked at, its queue if it has one, and its parcels. -/
structure World (ε χ : Type) where
  exporters : Exporters ε
  number : Nat
  queue : Option (Traffic Request)
  parcels : List (Parcel χ)

/-- A new exporter, with a queue of so many slots or without one. -/
def World.opened (x : Exporters ε) (settings : ExportSettings) (capacity : Option Nat) : World ε χ :=
  ⟨x.add settings, x.exporters.length, capacity.map Traffic.empty, []⟩

/-- The batches that workers are sending. -/
def underway (t : Traffic Request) : List (Ticket Request) :=
  t.workers.flatMap fun
    | .sending c => [c]
    | _ => []

/-- What shows of a step. -/
inductive Event
  /-- The queue goes on. -/
  | queue (e : Passage Request)
  /-- A caller begins to send for itself. -/
  | called (c : Ticket Request)
  | moved (c : Ticket Request) (p : Progress)
  | aside

/-- What shows of a step of the queue. -/
def Event.queue? : Event → Option (Passage Request)
  | queue e => some e
  | _ => none

/-- What shows of the queue. -/
def queueTrace (trace : List Event) : List (Passage Request) := trace.filterMap Event.queue?

/-- The batches that the queue has dropped. -/
def dropped (trace : List Event) : List (Ticket Request) := during drops (queueTrace trace)

/-- The steps of those who share an exporter. A worker begins to send by the rules of the exporter, and
frees itself once the sending is over; what the queue drops is entered by these rules, too. -/
inductive Step (dest : Destination ε χ) : World ε χ → Event → World ε χ → Prop
  | call {w : World ε χ} (hDirect : w.queue = none) (context : Nat) (r : Request) :
      Step dest w (.called (w.parcels.length, r))
        { w with
          parcels := w.parcels ++
            [⟨(w.parcels.length, r), [], .inl (.fresh w.number context r)⟩] }
  | tend {w : World ε χ} {t t' : Traffic Request} {e : Passage Request} (hQueue : w.queue = some t)
      (hStep : Traffic.Step t e t') (hSame : underway t' = underway t) :
      Step dest w (.queue e)
        { w with
          queue := some t'
          exporters := e.drops.foldl (fun x c => (Sending.rules dest).dropped w.number c.2 x)
            w.exporters }
  | send {w : World ε χ} {t t' : Traffic Request} {c : Ticket Request} {s : Sending χ}
      {x : Exporters ε} (now : Nat) (hQueue : w.queue = some t) (hStep : Traffic.Step t (.sent c) t')
      (hBegin : (Sending.rules dest).begin now w.number c.2 w.exporters = (s, x)) :
      Step dest w (.queue (.sent c))
        { w with exporters := x, queue := some t', parcels := w.parcels ++ [⟨c, [], .inl s⟩] }
  | finish {w : World ε χ} {t : Traffic Request} {before after : List (WorkerStage Request)}
      {p : Parcel χ} {outcome : Outcome} (hQueue : w.queue = some t)
      (hWorkers : t.workers = before ++ .sending p.ticket :: after) (hMem : p ∈ w.parcels)
      (hOver : p.state = .inr outcome) :
      Step dest w (.queue .quiet)
        { w with queue := some { t with workers := before ++ .sent p.ticket :: after } }
  | move {w : World ε χ} {before after : List (Parcel χ)} {p : Parcel χ} {s : Sending χ}
      {progress : Progress} {state : Sending χ ⊕ Outcome} {x : Exporters ε} (now : Nat)
      (hParcels : w.parcels = before ++ p :: after) (hState : p.state = .inl s)
      (hMove : Move dest now s w.exporters progress (state, x)) :
      Step dest w (.moved p.ticket progress)
        { w with
          exporters := x
          parcels := before ++ ⟨p.ticket, progress.enter p.answers, state⟩ :: after }
  | halt {w : World ε χ} : Step dest w .aside { w with exporters := w.exporters.stop w.number }
  | pass {w : World ε χ} {x : Exporters ε}
      (hSame : x.exporters[w.number]? = w.exporters.exporters[w.number]?) :
      Step dest w .aside { w with exporters := x }

/-- The runs from a world, with what showed of their steps, the last step first. -/
inductive Runs (dest : Destination ε χ) (origin : World ε χ) : List Event → World ε χ → Prop
  | refl : Runs dest origin [] origin
  | step {trace : List Event} {w w' : World ε χ} {e : Event} (prior : Runs dest origin trace w)
      (last : Step dest w e w') : Runs dest origin (e :: trace) w'

/-- The batches that callers have handed to the exporter, with the numbers of their calls. -/
def World.consumed (w : World ε χ) : List (Ticket Request) :=
  match w.queue with
  | none => w.parcels.map Parcel.ticket
  | some t => t.offers.mapIdx fun n o => (n, o.2)

/-- Every call is over, and so is the shutdown of the queue. -/
def World.IsOver (w : World ε χ) : Prop :=
  match w.queue with
  | none => ∀ p ∈ w.parcels, ∃ outcome, p.state = .inr outcome
  | some t => t.closing = .over ∧ ∀ o ∈ t.offers, o.1 = .accepted ∨ o.1 = .refused

/-! ## How a sending ends -/

namespace Parcel

/-- Whether a batch was delivered. -/
def isDelivered (p : Parcel χ) : Bool :=
  match p.state with
  | .inr (.ok ()) => true
  | _ => false

/-- Whether a batch was given up after an attempt. -/
def isFailed (p : Parcel χ) : Bool :=
  match p.state with
  | .inr (.error e) => !e.isShutdown
  | _ => false

/-- Whether the sending of a batch ended because of a shutdown. -/
def isHeldUp (p : Parcel χ) : Bool :=
  match p.state with
  | .inr (.error e) => e.isShutdown
  | _ => false

end Parcel

/-- What an outcome, or a sending that goes on, says about the attempts: it was delivered exactly if the
last answer says so. -/
def Tells (answers : List Outcome) : Sending χ ⊕ Outcome → Prop
  | .inl _ => answers.head? ≠ some (.ok ())
  | .inr outcome => outcome = .ok () ↔ answers.head? = some (.ok ())

/-! ## What a move does -/

section Moves

variable {dest : Destination ε χ} {now : Nat} {s s' : Sending χ} {x x' : Exporters ε} {p : Progress}
  {state : Sending χ ⊕ Outcome} {answers : List Outcome}

/-- The accounts after a move, given what the sending has come to. -/
def entered (s : Sending χ) (x : Exporters ε) : Sending χ ⊕ Outcome → List Exporter
  | .inl _ => x.exporters
  | .inr outcome => (x.account s.exporter fun a => a.enter s.request.itemCount outcome).exporters

theorem proceed_exporters (s : Sending χ) (x : Exporters ε) (next : Retry ⊕ Outcome) :
    (s.proceed x next).2.exporters = entered s x (s.proceed x next).1 := by
  rcases next with (b | ⟨last, wake, b⟩) | outcome <;> rfl

theorem proceed_same (s : Sending χ) (x : Exporters ε) (next : Retry ⊕ Outcome)
    (hNext : (s.proceed x next).1 = .inl s') : s'.exporter = s.exporter ∧ s'.request = s.request := by
  rcases next with (b | ⟨last, wake, b⟩) | outcome
  · cases hNext
    exact ⟨rfl, rfl⟩
  · cases hNext
    exact ⟨rfl, rfl⟩
  · cases hNext

/-- A move enters the outcome of a sending that it ends, and nothing else. -/
theorem exporters_of_move (hMove : Move dest now s x p (state, x')) : x'.exporters = entered s x state := by
  generalize hResult : (state, x') = y at hMove
  have hEntered : y.2.exporters = entered s x y.1 := by
    cases hMove with
    | begin | again | work => rfl
    | answer | interrupt => exact proceed_exporters s _ _
    | wake => exact proceed_exporters s x _
  rw [← hResult] at hEntered
  exact hEntered

theorem same_of_move (hMove : Move dest now s x p (.inl s', x')) :
    s'.exporter = s.exporter ∧ s'.request = s.request := by
  generalize hResult : (Sum.inl s', x') = y at hMove
  have hFirst : y.1 = .inl s' := (congrArg Prod.fst hResult).symm
  cases hMove with
  | begin | again | work =>
      cases hFirst
      exact ⟨rfl, rfl⟩
  | answer | interrupt | wake => exact proceed_same s _ _ hFirst

theorem tells_afterAttempt (s : Sending χ) (x : Exporters ε) (policy : RetryPolicy) (wait : Nat)
    (b : Backoff) (outcome : Outcome) (answers : List Outcome) :
    Tells (outcome :: answers) (s.proceed x (Retry.afterAttempt policy now wait b outcome)).1 := by
  cases outcome with
  | ok u => exact iff_of_true rfl rfl
  | error e =>
      have hLast : (Except.error e :: answers).head? ≠ some (.ok () : Outcome) := by simp
      have hFailed : ∀ e' : ConsumeError, (Except.error e' : Outcome) ≠ .ok () := by simp
      rw [Retry.afterAttempt]
      split
      · exact iff_of_false (hFailed _) hLast
      · split
        · exact iff_of_false (hFailed _) hLast
        · exact hLast

theorem tells_afterWait (s : Sending χ) (x : Exporters ε) (last : ConsumeError) (b : Backoff)
    (ending : WaitEnd) (hLast : answers.head? ≠ some (.ok ())) :
    Tells answers (s.proceed x (Retry.afterWait last b ending)).1 := by
  cases ending with
  | timer => exact hLast
  | cancellation | shutdown => exact iff_of_false nofun hLast

/-- A move tells how the sending has ended. -/
theorem tells_of_move (hMove : Move dest now s x p (state, x')) (hLast : answers.head? ≠ some (.ok ())) :
    Tells (p.enter answers) state := by
  generalize hResult : (state, x') = y at hMove
  have hTells : Tells (p.enter answers) y.1 := by
    cases hMove with
    | begin | again | work => exact hLast
    | answer | interrupt => exact tells_afterAttempt s _ _ _ _ _ answers
    | wake => exact tells_afterWait s x _ _ _ hLast
  rw [← hResult] at hTells
  exact hTells

end Moves

end Telemetry.Accounting

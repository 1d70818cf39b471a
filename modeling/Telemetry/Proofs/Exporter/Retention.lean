import Telemetry.Agent.Installation
import Telemetry.Proofs.Exporter.Shipments
import Telemetry.Proofs.Queue.Representation

/-!
# Nothing is given up that may still be delivered

An exporter with a persistent queue and without a limit to its retries gives an item up only after an
attempt has delivered it or was answered by an error that is permanent. Every other item stays in
storage, and the next exporter that starts there attempts to deliver it again.
-/

namespace Telemetry.Shipping

open Queue (Attended Awake Records Waits batchAt concluded handed kept settled stored window)
open Sending (Move)
open Storage (Space)

variable {ε χ : Type} {dest : Destination ε χ} {codec : Queue.Codec Request}
  {admits : Request → Prop} {w : World ε χ} {trace : List Event}

theorem mem_concluded_cons {qe : Queue.Event Request} {c : UInt64 × Request}
    (hMem : c ∈ concluded [qe]) (qTrace : List (Queue.Event Request)) :
    c ∈ concluded (qe :: qTrace) := by
  cases qe with
  | ended | diedEnding =>
      rw [concluded] at hMem ⊢
      split at hMem
      · exact absurd hMem List.not_mem_nil
      · next hOver =>
        rw [if_neg hOver]
        exact List.mem_cons.mpr ((List.mem_cons.mp hMem).imp_right fun hIn =>
          absurd hIn List.not_mem_nil)
  | _ => exact absurd hMem List.not_mem_nil

/-- The end of a sending is no attempt. -/
theorem answers_of_concluded {qe : Queue.Event Request} {c : UInt64 × Request}
    (hMem : c ∈ concluded [qe]) (i : UInt64) : answers i (.queue qe :: trace) = answers i trace := by
  cases qe with
  | started | claimed => exact absurd hMem List.not_mem_nil
  | _ => rfl

theorem mem_handed_append {first : List (Queue.Event Request)} {c : UInt64 × Request}
    (hMem : c ∈ handed first) (second : List (Queue.Event Request)) : c ∈ handed (first ++ second) := by
  induction first with
  | nil => exact absurd hMem List.not_mem_nil
  | cons qe first ih =>
      cases qe with
      | started => exact absurd hMem List.not_mem_nil
      | claimed i r => exact List.mem_cons.mpr ((List.mem_cons.mp hMem).imp_right ih)
      | _ => exact ih hMem

/-- What an exporter keeps on its storage after a run. -/
structure Retains (dest : Destination ε χ) (codec : Queue.Codec Request)
    (admits : Request → Prop) (trace : List Event) (w : World ε χ) : Prop where
  /-- The end of a sending gives the item up exactly if the last of its attempts has decided. -/
  acknowledged : ∀ after before qe i outcome, trace = after ++ .queue qe :: before →
    ending? qe = some (i, outcome) → outcome.isShutdown = !decides (answers i before)
  /-- What is stored and was not given up like that is all that was accepted. -/
  balance : ∃ r wi ds, Records w.queue.storage r wi ds ∧
    kept codec w.queue.storage r wi ds + settled (queueTrace trace) = stored (queueTrace trace)
  /-- What a worker was handed is listed with its value until an attempt decides. -/
  held : ∀ c ∈ handed (queueTrace trace), decides (answers c.1 trace) = false →
    ∃ r wi ds, Records w.queue.storage r wi ds ∧ c.1 ∈ ds ∧
      batchAt codec w.queue.storage c.1 = some c.2
  /-- A value leaves storage for no other reason, unless a start stores it again. -/
  removal : ∀ e w', w.queue.FitsWords → Step dest codec admits w e w' → ∀ i r,
    batchAt codec w.queue.storage i = some r → batchAt codec w'.queue.storage i = some r ∨
      (∃ qe, e = .queue qe ∧ (i, r) ∈ concluded [qe] ∧ decides (answers i trace) = true) ∨
      ∃ answer, e = .queue (.started answer)
  /-- The next exporter attempts to deliver all that is kept: an attempt was made, or a worker is about
  to make one, or the item waits and for all that wait workers are woken. -/
  resumed : ∀ answer w₁ after w₂, w.queue.FitsWords →
    Step dest codec admits w (.queue (.started answer)) w₁ → Runs dest codec admits w₁ after w₂ →
    (∀ e ∈ after, e.isLocal = true) → ∀ r wi ds, Records w.queue.storage r wi ds →
    ∀ i ∈ ds ++ window r wi, ∀ b, batchAt codec w.queue.storage i = some b →
    ∃ q j, w₂.queue.running = some q ∧ ((j, b) ∈ attempted after ∨
      (∃ s ∈ w₂.shipments, s.item = (j, b) ∧ s.IsFresh) ∨
      (Waits codec w₂.queue.storage q j b ∧ Awake w₂.queue q))

theorem attempted_append_started (after before : List Event) (answer : Except QueueError Unit) :
    attempted (after ++ .queue (.started answer) :: before) = attempted after := by
  induction after with
  | nil => rfl
  | cons e after ih =>
      cases e with
      | queue qe =>
          cases qe with
          | started => rfl
          | _ => exact ih
      | moved i r p =>
          cases p with
          | begins => exact congrArg ((i, r) :: ·) ih
          | answers | works => exact ih
      | aside => exact ih

theorem queueTrace_isLocal {trace : List Event} (hLocal : ∀ e ∈ trace, e.isLocal = true) :
    ∀ qe ∈ queueTrace trace, qe.isLocal = true := by
  intro qe hMem
  obtain ⟨e, hIn, hShown⟩ := List.mem_filterMap.mp hMem
  cases e with
  | queue qe' => exact Option.some.inj hShown ▸ hLocal _ hIn
  | moved | aside => exact absurd hShown.symm (Option.some_ne_none _)

section Runs

variable (hCodec : ∀ r, admits r → codec.unmarshal? (codec.marshal r) = some r)
  (hSpares : dest.Spares) {x : Exporters ε}
  (hRuns : Runs dest codec admits (.blank x) trace w)

include hCodec hSpares hRuns in
theorem Runs.decides_of_concluded {w' : World ε χ} {qe : Queue.Event Request}
    (hWords : w.queue.FitsWords) (hStep : Step dest codec admits w (.queue qe) w')
    {c : UInt64 × Request} (hMem : c ∈ concluded [qe]) : decides (answers c.1 trace) = true := by
  have hSound := Runs.sound hCodec hSpares (.step hRuns hWords hStep)
  rw [← answers_of_concluded hMem]
  exact hSound.decided c (mem_concluded_cons hMem _)

include hCodec hSpares hRuns in
theorem Runs.isShutdown_eq {after before : List Event} {qe : Queue.Event Request}
    (hTrace : trace = after ++ .queue qe :: before) {i : UInt64} {outcome : Outcome}
    (hEnding : ending? qe = some (i, outcome)) :
    outcome.isShutdown = !decides (answers i before) := by
  rw [hTrace] at hRuns
  obtain ⟨w₁, w₂, hBefore, -, hStep, -⟩ := hRuns.split
  exact ((hBefore.sound hCodec hSpares).concludes hStep hEnding).isShutdown_eq

include hCodec hSpares hRuns in
/-- What is kept when an exporter starts is attempted again by that one. -/
theorem Runs.resumes {answer : Except QueueError Unit} {w₁ w₂ : World ε χ} {after : List Event}
    (hWords : w.queue.FitsWords) (hStart : Step dest codec admits w (.queue (.started answer)) w₁)
    (hAfter : Runs dest codec admits w₁ after w₂) (hLocal : ∀ e ∈ after, e.isLocal = true)
    {rd wi : UInt64} {ds : List UInt64} (hRecords : Records w.queue.storage rd wi ds) {i : UInt64}
    (hMem : i ∈ ds ++ window rd wi) {b : Request} (hBatch : batchAt codec w.queue.storage i = some b) :
    ∃ q j, w₂.queue.running = some q ∧ ((j, b) ∈ attempted after ∨
      (∃ s ∈ w₂.shipments, s.item = (j, b) ∧ s.IsFresh) ∨
      (Waits codec w₂.queue.storage q j b ∧ Awake w₂.queue q)) := by
  have hAll := (Runs.step hRuns hWords hStart).trans hAfter
  have hSound := hAll.sound hCodec hSpares
  have hQueue : Queue.Step (.ofSpace codec admits false) w.queue (.started answer) w₁.queue := by
    rcases hStart.queue_cases with ⟨_, ⟨⟩, hQueue⟩ | ⟨hNone, -⟩
    · exact hQueue
    · exact absurd hNone (Option.some_ne_none _)
  obtain ⟨q, j, hRunning, hFate⟩ := (hRuns.attended hCodec).redelivers hCodec hWords hRecords hQueue
    hAfter.queue (queueTrace_isLocal hLocal) hMem hBatch
  refine ⟨q, j, hRunning, ?_⟩
  rcases hFate with hHanded | hWaits
  · have hIn : (j, b) ∈ handed (queueTrace (after ++ .queue (.started answer) :: trace)) := by
      rw [queueTrace, List.filterMap_append]
      exact mem_handed_append hHanded _
    rcases hSound.begun q hRunning _ hIn with hAttempted | hFresh
    · rw [attempted_append_started] at hAttempted
      exact .inl hAttempted
    · exact .inr (.inl hFresh)
  · exact .inr (.inr ⟨hWaits, (hAll.attended hCodec).awake q hRunning⟩)

end Runs

/-- After every run of exporters on a storage that was empty, with any number of workers, any answers of
the destination and shutdowns at any time, nothing was given up that no attempt has decided, and all of
it is attempted again. It is assumed that batches can be read back, that the destination cancels no
context of an exporter, and that indices and their number fit into their words. -/
theorem exporter_retains_until_decided {ε χ : Type} {dest : Destination ε χ}
    {codec : Queue.Codec Request} {admits : Request → Prop} {x : Exporters ε} {trace : List Event}
    {w : World ε χ} (hCodec : ∀ r, admits r → codec.unmarshal? (codec.marshal r) = some r)
    (hSpares : dest.Spares) (hRuns : Runs dest codec admits (.blank x) trace w) :
    Retains dest codec admits trace w := by
  have hAttended := hRuns.attended hCodec
  have hSound := hRuns.sound hCodec hSpares
  constructor
  case acknowledged =>
    exact fun _ _ _ _ _ hTrace hEnding => hRuns.isShutdown_eq hCodec hSpares hTrace hEnding
  case balance =>
    obtain ⟨rd, wi, ds, hBooks⟩ := hAttended.balanced.books
    have hBalance := hBooks.balance
    rw [hRuns.queue.lost_eq_zero, add_zero] at hBalance
    exact ⟨rd, wi, ds, hBooks.toRecords, hBalance⟩
  case held =>
    intro c hMem hOpen
    obtain ⟨rd, wi, ds, hBooks⟩ := hAttended.balanced.books
    have hNot : c ∉ concluded (queueTrace trace) := fun hOver =>
      absurd (hOpen.symm.trans (hSound.decided c hOver)) Bool.noConfusion
    exact ⟨rd, wi, ds, hBooks.toRecords, hAttended.remembered _ _ _ hBooks.toRecords c hMem hNot⟩
  case removal =>
    intro e w' hWords hStep i r hBatch
    rcases hStep.queue_cases with ⟨qe, rfl, hQueue⟩ | ⟨-, hSame⟩
    · rcases hAttended.balanced.step_batchAt hCodec hAttended.tidy hQueue hBatch with
        hStays | hOver | ⟨answer, rfl⟩
      · exact .inl hStays
      · exact .inr (.inl ⟨qe, rfl, hOver,
          hRuns.decides_of_concluded hCodec hSpares hWords hStep hOver⟩)
      · exact .inr (.inr ⟨answer, rfl⟩)
    · rw [hSame]
      exact .inl hBatch
  case resumed =>
    exact fun _ _ _ _ hWords hStart hAfter hLocal _ _ _ hRecords _ hMem _ hBatch =>
      hRuns.resumes hCodec hSpares hWords hStart hAfter hLocal hRecords hMem hBatch

/-- The targets of an agent cancel nothing at all. -/
theorem spares_targets : Agent.destination.Spares := fun _ _ _ _ _ hLive => hLive

/-! ## An item that a shutdown holds up -/

/-- A destination that is down for the time being. -/
def down : Destination Unit Unit where
  begin _ _ _ _ := ((), ())
  canGo _ _ _ := true
  due _ := []
  turn _ _ tokens _ := (.inr (.error (.transient "down")), tokens, ())
  answered _ _ _ _ := ()
  stopped _ _ _ _ := ()

/-- The only batch is empty. -/
def emptyLogs : Request := ⟨.logs, []⟩

/-- The defaults, without a limit to the retries. -/
def patient : ExportSettings :=
  { ExportSettings.default with retry := { RetryPolicy.default with maxElapsedTime := 0 } }

/-- The exporter that has started. -/
def helper : Exporters Unit := Exporters.add ⟨#[], [], ()⟩ patient

/-- A worker has the only item. -/
def handedOut : Queue.World Request Space :=
  ⟨[("0", []), (Queue.dispatchedKey, Queue.encodeIndices [0]), (Queue.readKey, Queue.encodeIndex 1),
    (Queue.writeKey, Queue.encodeIndex 1)], some Queue.busyQueue, 0, 0, [(0, emptyLogs)]⟩

/-- The worker sends it. -/
def shipping (x : Exporters Unit) (state : Sending Unit ⊕ Outcome) : World Unit Unit :=
  ⟨handedOut, x, 0, [⟨0, emptyLogs, state⟩]⟩

/-- What is known about the waits before the first one. -/
def firstBackoff : Backoff := .start patient.retry 0

/-- The first attempt. -/
def firstAttempt : Sending Unit × Exporters Unit :=
  (Sending.fresh 0 0 emptyLogs).attempt down 0 firstBackoff helper

/-- The wait for the second attempt. -/
def secondWait : Sending Unit :=
  ⟨0, 0, emptyLogs, .waiting (.transient "down") (1 + Backoff.milliseconds firstBackoff.interval)
    { firstBackoff with
      interval := min (Backoff.grow patient.retry.multiplier firstBackoff.interval)
        (Backoff.nanoseconds patient.retry.maxInterval) }⟩

/-- The exporter during that wait, when its shutdown was asked for. -/
def stopping : Exporters Unit :=
  { helper.stop 0 with tokens := firstAttempt.2.tokens.cancel 1 }

/-- An item is offered, handed to a worker and attempted once; a shutdown ends the wait for the next
attempt. -/
def heldUp : List Event :=
  [.queue .quiet, .queue .quiet, .queue .quiet, .queue .quiet,
    .queue (.ended 0 emptyLogs (.error (.interrupted (.transient "down")))),
    .moved 0 emptyLogs .works, .aside, .moved 0 emptyLogs (.answers (.error (.transient "down"))),
    .moved 0 emptyLogs .begins, .queue (.claimed 0 emptyLogs), .queue .quiet, .queue .quiet,
    .queue (.accepted emptyLogs), .queue (.started (.ok ()))]

/-- The runs of an exporter of logs whose destination is down. -/
abbrev RunsDown : List Event → World Unit Unit → Prop :=
  Runs down (.ofType .logs) (· = emptyLogs) (.blank ⟨#[], [], ()⟩)

theorem runs_handedOut : RunsDown (heldUp.drop 9) (shipping helper (.inl (.fresh 0 0 emptyLogs))) := by
  have hStarted : RunsDown (heldUp.drop 13) ⟨⟨[], some Queue.firstQueue, 0, 0, []⟩, helper, 0, []⟩ :=
    .step .refl (by rintro q ⟨⟩)
      (.start ⟨rfl, rfl⟩ ⟨#[], [], ()⟩
        (.start (Queue.PersistentQueue.unstarted_empty 5) (by rintro q ⟨⟩) 0 rfl))
  have hStored : RunsDown (heldUp.drop 12)
      ⟨⟨Queue.afterPut [] 0 [], some (Queue.firstQueue.grown 1 1), 1, 0, []⟩, helper, 0, []⟩ :=
    .step hStarted (by rintro q ⟨⟩; decide) (.tend rfl (.offer rfl rfl rfl))
  have hCalled : RunsDown (heldUp.drop 10)
      ⟨⟨Queue.afterPut [] 0 [], some (Queue.firstQueue.grown 1 1), 0, 1, []⟩, helper, 0, []⟩ :=
    .step (.step hStored (by rintro q ⟨⟩; decide) (.tend rfl (.wake rfl (by decide))))
      (by rintro q ⟨⟩; decide) (.tend rfl (.call rfl rfl rfl))
  exact .step hCalled (by rintro q ⟨⟩; decide) (.claim (.claim rfl (by decide) rfl))

/-- The worker goes on. -/
theorem step_shipping {now : Nat} {sending : Sending Unit} {x x' : Exporters Unit} {p : Progress}
    {state : Sending Unit ⊕ Outcome} (hMove : Move down now sending x p (state, x')) :
    Step down (.ofType .logs) (· = emptyLogs) (shipping x (.inl sending)) (.moved 0 emptyLogs p)
      (shipping x' state) :=
  @Step.move _ _ down _ _ (shipping x (.inl sending)) [] [] ⟨0, emptyLogs, .inl sending⟩ sending p
    state x' now rfl rfl hMove

theorem runs_interrupted :
    RunsDown (heldUp.drop 5) (shipping stopping (.inr (.error (.interrupted (.transient "down"))))) := by
  have hFits : ∀ x state, (shipping x state).queue.FitsWords := by
    rintro x state q ⟨⟩
    decide
  have hBegun : RunsDown (heldUp.drop 8) (shipping firstAttempt.2 (.inl firstAttempt.1)) :=
    .step runs_handedOut (hFits _ _) (step_shipping (Move.begin rfl))
  have hAnswer := @Move.answer _ _ down 1 firstAttempt.1 firstAttempt.2 _
    ⟨0, some ⟨5000, 5000, 1⟩, ()⟩ _ _ _ rfl rfl firstBackoff.interval
  have hAnswered : RunsDown (heldUp.drop 7)
      (shipping { helper with tokens := firstAttempt.2.tokens.cancel 1 } (.inl secondWait)) :=
    .step hBegun (hFits _ _) (step_shipping hAnswer)
  have hHalted : RunsDown (heldUp.drop 6) (shipping stopping (.inl secondWait)) :=
    .step hAnswered (hFits _ _) .halt
  have hShutdown : secondWait.Wakes 2 (1 + Backoff.milliseconds firstBackoff.interval) stopping
      .shutdown := rfl
  exact .step hHalted (hFits _ _) (step_shipping (Move.wake rfl hShutdown))

/-- The queue when the client was given up. -/
def leftQueue : Queue.PersistentQueue :=
  { Queue.busyQueue with
    client := none
    references := 0
    stopped := true
    retired := true
    closed := true }

/-- The exporter after its shutdown: the item is listed, and nobody works for the queue. -/
def shutDown : World Unit Unit :=
  ⟨{ handedOut with running := some leftQueue, carried := [] }, stopping, 0, []⟩

theorem runs_heldUp : RunsDown heldUp shutDown := by
  have hEnded : RunsDown (heldUp.drop 4)
      ⟨{ handedOut with running := some Queue.busyQueue.released, carried := [] }, stopping, 0, []⟩ :=
    .step runs_interrupted (by rintro q ⟨⟩; decide)
      (@Step.finish _ _ down _ _ (shipping stopping _) [] [] ⟨0, emptyLogs, _⟩ _ _ rfl rfl
        (@Queue.Step.finish _ _ _ _ _ _ _ [] [] 0 emptyLogs rfl rfl _ rfl) rfl)
  have hStopped : RunsDown (heldUp.drop 2)
      ⟨{ handedOut with running := some Queue.busyQueue.released.retire.stop, carried := [] }, stopping,
        0, []⟩ :=
    .step (.step hEnded (by rintro q ⟨⟩; decide) (.tend rfl (.retire rfl)))
      (by rintro q ⟨⟩; decide) (.tend rfl (.stop rfl rfl))
  exact .step (.step hStopped (by rintro q ⟨⟩; decide) (.tend rfl (.dismiss rfl rfl)))
    (by rintro q ⟨⟩; decide) (.tend rfl (.detach rfl rfl rfl rfl rfl))

/-- The attempt was answered by an error that is not permanent, the client was given up, and the item is
still there for the next exporter. -/
theorem exporter_retains_held_up_item :
    answers 0 heldUp = [.error (.transient "down")] ∧ shutDown.queue.IsFree ∧
      leftQueue.dispatched = [0] ∧
      batchAt (.ofType .logs) shutDown.queue.storage 0 = some emptyLogs ∧
      Retains down (.ofType .logs) (· = emptyLogs) heldUp shutDown := by
  refine ⟨rfl, ?_, rfl, rfl, ?_⟩
  · rintro q ⟨⟩
    rfl
  · refine exporter_retains_until_decided ?_ (fun _ _ _ _ _ hLive => hLive) runs_heldUp
    rintro r rfl
    rfl

end Telemetry.Shipping

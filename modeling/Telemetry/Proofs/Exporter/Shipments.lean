import Telemetry.Proofs.Exporter.Shipping

/-!
# What holds of shipments between two steps

Those who ship items are the workers of the queue that runs, each with an item of its own. A sending
stands as the answers of its attempts tell, and whatever was handed out was attempted or is about to be.
-/

namespace Telemetry.Shipping

open Queue (Attended concluded handed)
open Sending (Move Stands)
open Storage (Space)

variable {ε χ : Type} {dest : Destination ε χ} {codec : Queue.Codec Request}
  {admits : Request → Prop} {w w' origin : World ε χ} {e : Event} {trace : List Event}
  {s : Shipment χ} {before after : List (Shipment χ)}

/-- What holds of a world that a run has led to, beside what holds of its queue. -/
structure Sound (trace : List Event) (w : World ε χ) : Prop where
  carried : w.queue.carried = w.shipments.map Shipment.item
  vacant : w.queue.running = none → w.shipments = []
  endures : ∀ q, w.queue.running = some q → w.exporters.Endures w.number
  stands : ∀ s ∈ w.shipments, Stands w.exporters w.number (answers s.index trace) s.state
  decided : ∀ c ∈ concluded (queueTrace trace), decides (answers c.1 trace) = true
  begun : ∀ q, w.queue.running = some q → ∀ c ∈ handed (queueTrace trace),
    c ∈ attempted trace ∨ ∃ s ∈ w.shipments, s.item = c ∧ s.IsFresh

theorem sound_blank (x : Exporters ε) : Sound [] (World.blank x : World ε χ) where
  carried := rfl
  vacant := fun _ => rfl
  endures := fun _ hNone => absurd hNone.symm (Option.some_ne_none _)
  stands := fun _ hMem => absurd hMem List.not_mem_nil
  decided := fun _ hMem => absurd hMem List.not_mem_nil
  begun := fun _ hNone => absurd hNone.symm (Option.some_ne_none _)

/-- Whoever ships something ships it for a queue that runs. -/
theorem Sound.exists_running (h : Sound trace w) (hMem : s ∈ w.shipments) :
    ∃ q, w.queue.running = some q := by
  cases hRunning : w.queue.running with
  | some q => exact ⟨q, rfl⟩
  | none =>
      rw [h.vacant hRunning] at hMem
      exact absurd hMem List.not_mem_nil

section Shipments

variable (hAttended : Attended codec admits (queueTrace trace) w.queue) (h : Sound trace w)
include hAttended h

/-- What is shipped is listed. -/
theorem Sound.index_mem {q : Queue.PersistentQueue} (hRunning : w.queue.running = some q)
    (hMem : s ∈ w.shipments) : s.index ∈ q.dispatched := by
  have hIn : s.item ∈ w.queue.carried := by
    rw [h.carried]
    exact List.mem_map_of_mem hMem
  exact (hAttended.balanced.served q hRunning).team.mem_dispatched (List.mem_append_left _ hIn)

/-- What is shipped is not over. -/
theorem Sound.ne_of_concluded (hMem : s ∈ w.shipments) {c : UInt64 × Request}
    (hOver : c ∈ concluded (queueTrace trace)) : s.index ≠ c.1 := by
  obtain ⟨q, hRunning⟩ := h.exists_running hMem
  exact fun hEq =>
    (hAttended.spent q hRunning c hOver).1 (hEq ▸ h.index_mem hAttended hRunning hMem)

/-- No two shipments have the same index. -/
theorem Sound.index_ne (hShipments : w.shipments = before ++ s :: after) {s' : Shipment χ}
    (hMem : s' ∈ before ++ after) : s'.index ≠ s.index := by
  have hIn : s ∈ w.shipments := by rw [hShipments]; simp
  obtain ⟨q, hRunning⟩ := h.exists_running hIn
  have hServed := hAttended.balanced.served q hRunning
  -- The workers of a queue hold different indices of its list, which names each of them once.
  have hIndices := (hServed.team.listed.nodup_iff.mp hServed.books.nodup)
  rw [h.carried, hShipments, List.map_append, List.nodup_append] at hIndices
  have hNodup := hIndices.1
  rw [List.map_append, List.map_append, List.map_cons, List.map_cons,
    List.nodup_middle, List.nodup_cons, ← List.map_append, ← List.map_append] at hNodup
  intro hEq
  have hSame : s'.item.1 = s.item.1 := hEq
  have hAgain : s'.item.1 ∈ ((before ++ after).map Shipment.item).map Prod.fst :=
    List.mem_map_of_mem (List.mem_map_of_mem hMem)
  rw [hSame] at hAgain
  exact hNodup.1 hAgain

end Shipments

/-! ## Steps -/

/-- The outcome that a worker tells the queue is that of its attempts. -/
theorem Sound.concludes (h : Sound trace w) {qe : Queue.Event Request} {i : UInt64}
    {outcome : Outcome} (hStep : Step dest codec admits w (.queue qe) w')
    (hEnding : ending? qe = some (i, outcome)) : Concludes (answers i trace) outcome := by
  cases hStep with
  | start | claim => exact absurd hEnding.symm (Option.some_ne_none _)
  | tend hPlain hQueue =>
      cases qe with
      | ended | diedEnding => exact absurd hPlain Bool.noConfusion
      | _ => exact absurd hEnding.symm (Option.some_ne_none _)
  | @finish before after s outcome queue hShipments hState hQueue hLeft =>
      cases hEnding
      have hStands := h.stands s (by rw [hShipments]; simp)
      rw [hState] at hStands
      exact hStands
  | die hDeath hQueue hOver =>
      cases qe with
      | diedEnding i r outcome count =>
          cases hEnding
          exact h.stands _ (hOver i r outcome count rfl)
      | ended => exact absurd hDeath Bool.noConfusion
      | _ => exact absurd hEnding.symm (Option.some_ne_none _)

theorem answers_cons_of_ne {i j : UInt64} (hNe : j ≠ i) (r : Request) (p : Progress) :
    answers i (.moved j r p :: trace) = answers i trace := by
  rw [answers, if_neg hNe]

/-- A step that only tends to the queue. -/
theorem Sound.tend (h : Sound trace w) {qe : Queue.Event Request}
    {queue : Queue.World Request Space} (hPlain : isPlain qe = true)
    (hQueue : Queue.Step (.ofSpace codec admits false) w.queue qe queue) :
    Sound (.queue qe :: trace) { w with queue := queue } := by
  have hKept : queue.carried = w.queue.carried ∧ (∃ q, w.queue.running = some q) ∧
      ∃ q, queue.running = some q := by
    cases hQueue with
    | start | claim | finish | die | dieOffering | dieClaiming | dieEnding =>
        exact absurd hPlain Bool.noConfusion
    | refuse hRunning | turnAway hRunning => exact ⟨rfl, ⟨_, hRunning⟩, _, hRunning⟩
    | offer hRunning | wake hRunning | call hRunning | miss hRunning | retire hRunning
    | stop hRunning | dismiss hRunning | detach hRunning => exact ⟨rfl, ⟨_, hRunning⟩, _, rfl⟩
  obtain ⟨hCarried, ⟨q, hRunning⟩, q', hRunning'⟩ := hKept
  have hSilent : handed (queueTrace (.queue qe :: trace)) = handed (queueTrace trace) ∧
      concluded (queueTrace (.queue qe :: trace)) = concluded (queueTrace trace) ∧
      attempted (.queue qe :: trace) = attempted trace ∧
      ∀ i, answers i (.queue qe :: trace) = answers i trace := by
    cases qe with
    | accepted | refused | quiet => exact ⟨rfl, rfl, rfl, fun _ => rfl⟩
    | _ => exact absurd hPlain Bool.noConfusion
  obtain ⟨hHanded, hConcluded, hAttempted, hAnswers⟩ := hSilent
  constructor
  case carried => exact hCarried.trans h.carried
  case vacant => exact fun hNone => absurd (hNone.symm.trans hRunning').symm (Option.some_ne_none _)
  case endures => exact fun _ _ => h.endures q hRunning
  case stands =>
    intro s hMem
    rw [hAnswers]
    exact h.stands s hMem
  case decided =>
    intro c hMem
    rw [hAnswers]
    exact h.decided c (hConcluded ▸ hMem)
  case begun =>
    intro _ _ c hMem
    rw [hAttempted]
    exact h.begun q hRunning c (hHanded ▸ hMem)

/-- An exporter is started on what others have left. -/
theorem Sound.start {settings : ExportSettings} (hPolicy : settings.retry.IsEndless)
    (x : Exporters ε) {answer : Except QueueError Unit} {queue : Queue.World Request Space}
    (hQueue : Queue.Step (.ofSpace codec admits false) w.queue (.started answer) queue) :
    Sound (.queue (.started answer) :: trace)
      (⟨queue, x.add settings, x.exporters.length, []⟩ : World ε χ) := by
  cases hQueue with
  | start hNew hFree number hRun =>
      constructor
      case carried => rfl
      case vacant => exact fun _ => rfl
      case endures => exact fun _ _ => x.endures_add hPolicy
      case stands => exact fun _ hMem => absurd hMem List.not_mem_nil
      case decided => exact fun _ hMem => absurd hMem List.not_mem_nil
      case begun => exact fun _ _ _ hMem => absurd hMem List.not_mem_nil

/-- The process dies, perhaps while the end of a sending is being entered. -/
theorem Sound.die (h : Sound trace w) {qe : Queue.Event Request}
    {queue : Queue.World Request Space} (hDeath : qe.isDeath = true)
    (hQueue : Queue.Step (.ofSpace codec admits false) w.queue qe queue)
    (hOver : ∀ i r outcome count, qe = .diedEnding i r outcome count →
      ⟨i, r, .inr outcome⟩ ∈ w.shipments) :
    Sound (.queue qe :: trace) (⟨queue, w.exporters, w.number, []⟩ : World ε χ) := by
  have hIdle : queue.running = none ∧ queue.carried = [] := by
    cases hQueue with
    | die | dieOffering | dieClaiming | dieEnding => exact ⟨rfl, rfl⟩
    | _ => exact absurd hDeath Bool.noConfusion
  constructor
  case carried => exact hIdle.2
  case vacant => exact fun _ => rfl
  case endures => exact fun _ hRunning => absurd (hRunning.symm.trans hIdle.1) (Option.some_ne_none _)
  case stands => exact fun _ hMem => absurd hMem List.not_mem_nil
  case decided =>
    intro c hMem
    cases qe with
    | diedEnding i r outcome count =>
        change c ∈ concluded (.diedEnding i r outcome count :: queueTrace trace) at hMem
        rw [concluded] at hMem
        split at hMem
        · exact h.decided c hMem
        · next hOutcome =>
          rcases List.mem_cons.mp hMem with rfl | hOld
          · exact Concludes.decides_eq_true (h.stands _ (hOver i r outcome count rfl))
              (Bool.not_eq_true _ ▸ hOutcome)
          · exact h.decided c hOld
    | died | diedOffering | diedClaiming => exact h.decided c hMem
    | _ => exact absurd hDeath Bool.noConfusion
  case begun => exact fun _ hRunning => absurd (hRunning.symm.trans hIdle.1) (Option.some_ne_none _)

/-- A worker ends the sending of what it was handed. -/
theorem Sound.finish (h : Sound trace w) (hShipments : w.shipments = before ++ s :: after)
    {outcome : Outcome} (hState : s.state = .inr outcome) {queue : Queue.World Request Space}
    (hQueue : Queue.Step (.ofSpace codec admits false) w.queue
      (.ended s.index s.request outcome) queue)
    (hLeft : queue.carried = (before ++ after).map Shipment.item) :
    Sound (.queue (.ended s.index s.request outcome) :: trace)
      { w with queue := queue, shipments := before ++ after } := by
  have hMem : s ∈ w.shipments := by rw [hShipments]; simp
  have hStays : ∀ s' ∈ before ++ after, s' ∈ w.shipments := by
    intro s' hMem
    rw [hShipments]
    exact (List.mem_append.mp hMem).elim (List.mem_append_left _) fun hIn =>
      List.mem_append_right _ (List.mem_cons_of_mem _ hIn)
  obtain ⟨q, hRunning⟩ := h.exists_running hMem
  have hStands : Stands w.exporters w.number (answers s.index trace)
      (.inr outcome : Sending χ ⊕ Outcome) :=
    hState ▸ h.stands s hMem
  have hRuns : ∃ q', queue.running = some q' := by
    cases hQueue with
    | finish => exact ⟨_, rfl⟩
  constructor
  case carried => exact hLeft
  case vacant =>
    intro hNone
    obtain ⟨q', hRunning'⟩ := hRuns
    exact absurd (hNone.symm.trans hRunning').symm (Option.some_ne_none _)
  case endures => exact fun _ _ => h.endures q hRunning
  case stands => exact fun s' hMem => h.stands s' (hStays s' hMem)
  case decided =>
    intro c hMem
    change c ∈ concluded (.ended s.index s.request outcome :: queueTrace trace) at hMem
    rw [concluded] at hMem
    split at hMem
    · exact h.decided c hMem
    · next hOutcome =>
      rcases List.mem_cons.mp hMem with rfl | hOld
      · exact Concludes.decides_eq_true hStands (Bool.not_eq_true _ ▸ hOutcome)
      · exact h.decided c hOld
  case begun =>
    intro _ _ c hMem
    rcases h.begun q hRunning c hMem with hAttempted | ⟨s', hIn, hItem, hFresh⟩
    · exact .inl hAttempted
    · rw [hShipments, List.mem_append, List.mem_cons] at hIn
      rcases hIn with hIn | rfl | hIn
      · exact .inr ⟨s', List.mem_append_left _ hIn, hItem, hFresh⟩
      · obtain ⟨sending, hSending, -⟩ := hFresh
        exact absurd (hState.symm.trans hSending) Sum.inr_ne_inl
      · exact .inr ⟨s', List.mem_append_right _ hIn, hItem, hFresh⟩

/-- Elsewhere something happens that leaves the exporter and its context as they are. -/
theorem Sound.aside (h : Sound trace w) {x : Exporters ε} (hAlike : x.Alike w.exporters w.number)
    (hLive : w.exporters.tokens.IsLive (w.exporters.exporter w.number).context →
      x.tokens.IsLive (w.exporters.exporter w.number).context) :
    Sound (.aside :: trace) { w with exporters := x } where
  carried := h.carried
  vacant := h.vacant
  endures := fun q hRunning =>
    (h.endures q hRunning).congr hAlike (hLive (h.endures q hRunning).live)
  stands := fun s hMem => (h.stands s hMem).congr hAlike
  decided := h.decided
  begun := h.begun

section Steps

variable (hAttended : Attended codec admits (queueTrace trace) w.queue) (h : Sound trace w)
include hAttended h

/-- A worker is handed an item. -/
theorem Sound.claim {i : UInt64} {r : Request} {queue : Queue.World Request Space}
    (hQueue : Queue.Step (.ofSpace codec admits false) w.queue (.claimed i r) queue) :
    Sound (.queue (.claimed i r) :: trace)
      { w with
        queue := queue
        shipments := w.shipments ++
          [⟨i, r, .inl (.fresh w.number (w.exporters.exporter w.number).context r)⟩] } := by
  cases hAttended.balanced.effect hQueue with
  | death hDeath => exact absurd hDeath Bool.noConfusion
  | @claim q _ hRunning hCalled hOpen hWaiting hBatch =>
      have hBooks := (hAttended.balanced.served q hRunning).books
      have hOld : ∀ s ∈ w.shipments, q.readIndex ≠ s.index := fun s hMem hEq =>
        UInt64.lt_irrefl _ (hEq ▸ hBooks.below _ (h.index_mem hAttended hRunning hMem))
      constructor
      case carried =>
        rw [List.map_append]
        exact congrArg (· ++ [(q.readIndex, r)]) h.carried
      case vacant => exact fun hNone => absurd hNone (Option.some_ne_none _)
      case endures => exact fun _ _ => h.endures q hRunning
      case stands =>
        intro s hMem
        rcases List.mem_append.mp hMem with hBefore | hNew
        · rw [answers, if_neg (hOld s hBefore)]
          exact h.stands s hBefore
        · cases List.mem_singleton.mp hNew
          rw [answers, if_pos rfl]
          exact Sending.sound_fresh _ _ r
      case decided =>
        intro c hMem
        have hNe : q.readIndex ≠ c.1 := fun hEq =>
          UInt64.lt_irrefl _ (hEq ▸ (hAttended.spent q hRunning c hMem).2)
        rw [answers, if_neg hNe]
        exact h.decided c hMem
      case begun =>
        intro _ _ c hMem
        rcases List.mem_cons.mp hMem with rfl | hBefore
        · exact .inr ⟨_, List.mem_append_right _ (List.mem_singleton_self _), rfl, _, rfl, rfl⟩
        · rcases h.begun q hRunning c hBefore with hAttempted | ⟨s, hIn, hFresh⟩
          · exact .inl hAttempted
          · exact .inr ⟨s, List.mem_append_left _ hIn, hFresh⟩

/-- A worker goes on with the sending of what it was handed. -/
theorem Sound.move (hSpares : dest.Spares) (hShipments : w.shipments = before ++ s :: after)
    {sending : Sending χ} (hState : s.state = .inl sending) {now : Nat} {p : Progress}
    {state : Sending χ ⊕ Outcome} {x : Exporters ε}
    (hMove : Move dest now sending w.exporters p (state, x)) :
    Sound (.moved s.index s.request p :: trace)
      { w with exporters := x, shipments := before ++ { s with state := state } :: after } := by
  have hMem : s ∈ w.shipments := by rw [hShipments]; simp
  obtain ⟨q, hRunning⟩ := h.exists_running hMem
  have hEndures := h.endures q hRunning
  have hSound : sending.Sound w.exporters w.number (answers s.index trace) := by
    have hStands := h.stands s hMem
    rw [hState] at hStands
    exact hStands
  constructor
  case carried =>
    rw [h.carried, hShipments, List.map_append, List.map_append]
    rfl
  case vacant =>
    exact fun hNone => absurd (hNone.symm.trans hRunning).symm (Option.some_ne_none _)
  case endures =>
    exact fun _ _ => hEndures.congr (hMove.alike w.number)
      (hMove.live hSpares hSound.apart hEndures.live)
  case stands =>
    -- An attempt at one item leaves the answers for all others as they were.
    have hOthers : ∀ s' ∈ before ++ after, Stands x w.number
        (answers s'.index (.moved s.index s.request p :: trace)) s'.state := by
      intro s' hIn
      rw [answers_cons_of_ne (h.index_ne hAttended hShipments hIn).symm]
      refine (h.stands s' ?_).congr (hMove.alike w.number)
      rw [hShipments, List.mem_append, List.mem_cons]
      exact (List.mem_append.mp hIn).imp_right .inr
    intro s' hIn
    rcases List.mem_append.mp hIn with hBefore | hRest
    · exact hOthers s' (List.mem_append_left _ hBefore)
    · rcases List.mem_cons.mp hRest with rfl | hAfter
      · rw [answers, if_pos rfl]
        exact hMove.stands hEndures hSound
      · exact hOthers s' (List.mem_append_right _ hAfter)
  case decided =>
    intro c hOver
    rw [answers_cons_of_ne (h.ne_of_concluded hAttended hMem hOver)]
    exact h.decided c hOver
  case begun =>
    have hMore : ∀ c ∈ attempted trace, c ∈ attempted (.moved s.index s.request p :: trace) := by
      intro c hIn
      cases p with
      | begins => exact List.mem_cons_of_mem _ hIn
      | answers | works => exact hIn
    intro _ _ c hHanded
    rcases h.begun q hRunning c hHanded with hAttempted | ⟨s', hIn, rfl, hFresh⟩
    · exact .inl (hMore c hAttempted)
    · rw [hShipments, List.mem_append, List.mem_cons] at hIn
      rcases hIn with hBefore | rfl | hAfter
      · exact .inr ⟨s', List.mem_append_left _ hBefore, rfl, hFresh⟩
      · obtain ⟨_, hSending, hStage⟩ := hFresh
        cases hState.symm.trans hSending
        cases hMove.eq_begins hStage
        exact .inl List.mem_cons_self
      · exact .inr ⟨s', List.mem_append_right _ (List.mem_cons_of_mem _ hAfter), rfl, hFresh⟩

end Steps

/-! ## Runs -/

section Runs

variable (hCodec : ∀ r, admits r → codec.unmarshal? (codec.marshal r) = some r)
  (hSpares : dest.Spares)

include hSpares in
theorem Sound.step (hAttended : Attended codec admits (queueTrace trace) w.queue)
    (h : Sound trace w) (hStep : Step dest codec admits w e w') : Sound (e :: trace) w' := by
  cases hStep with
  | start hPolicy x hQueue => exact .start hPolicy x hQueue
  | tend hPlain hQueue => exact h.tend hPlain hQueue
  | claim hQueue => exact h.claim hAttended hQueue
  | move now hShipments hState hMove => exact h.move hAttended hSpares hShipments hState hMove
  | finish hShipments hState hQueue hLeft => exact h.finish hShipments hState hQueue hLeft
  | die hDeath hQueue hOver => exact h.die hDeath hQueue hOver
  | halt => exact h.aside (w.exporters.stop_alike _ _) id
  | pass hAlike hLive => exact h.aside hAlike hLive

variable {x : Exporters ε} (hRuns : Runs dest codec admits (.blank x) trace w)
include hCodec hRuns

theorem Runs.attended : Attended codec admits (queueTrace trace) w.queue :=
  Queue.Runs.attended hCodec hRuns.queue

include hSpares in
theorem Runs.sound : Sound trace w := by
  induction hRuns with
  | refl => exact sound_blank x
  | step prior hWords last ih => exact ih.step hSpares (prior.attended hCodec) last

end Runs

end Telemetry.Shipping

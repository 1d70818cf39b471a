import Telemetry.Proofs.Queue.Crossing
import Telemetry.Proofs.Queue.Offers

/-!
# Offers after a start that failed

A queue that was never started has no client and turns every offer away. A start gives the queue its client
before it reads what is stored, and the client stays when the start then fails. From there on no offer is
turned away as to a queue that was not started: batches are stored under indices that were never taken
over.
-/

namespace Telemetry.Queue

open Storage (Client)
open Text (Bytes)

variable {β σ ε ς : Type}

namespace PersistentQueue

variable {q q' : PersistentQueue} {value : Bytes} {client : Client σ} {number : Nat} {s t : σ}

theorem run_offer_of_none (hNone : q.client = none) (hRunning : q.retired = false) (value : Bytes)
    (client : Client σ) (s : σ) : (q.offer value).run client s = (.error .notStarted, s) := by
  rw [offer_of_running hRunning, run_offerEntered_of_refusal (refusal?_of_none hNone)]

/-- An offer that is taken in leaves the client to the queue. -/
theorem client_of_offer (hRun : (q.offer value).run client s = (.ok q', t)) : q'.client = q.client := by
  by_cases hRetired : q.retired = true
  · rw [offer_of_retired hRetired] at hRun
    cases hRun
  · rw [offer_of_running (Bool.not_eq_true _ ▸ hRetired)] at hRun
    cases hRefusal : q.refusal? with
    | some e =>
        rw [run_offerEntered_of_refusal hRefusal] at hRun
        cases hRun
    | none =>
        rw [run_offerEntered_of_room hRefusal] at hRun
        cases hStored : (client.batch (q.putting value) s).1.outcome with
        | error e =>
            rw [hStored] at hRun
            cases hRun
        | ok u =>
            rw [hStored] at hRun
            cases hRun
            rfl

/-- A queue that has a client does not turn offers away as if it had not been started. -/
theorem run_offer_ne_notStarted {d : Depot σ} (hClient : q.client = some number) (value : Bytes) (s : σ) :
    (d.run q.client (q.offer value) s).1 ≠ .error .notStarted := by
  by_cases hRetired : q.retired = true
  · rw [offer_of_retired hRetired]
    exact fun hAnswer => nomatch hAnswer
  · rw [offer_of_running (Bool.not_eq_true _ ▸ hRetired)]
    have hAnswered := answered_offerEntered (d := d) (.inl hClient) value s
    intro hAnswer
    cases hEnd : d.run q.client (q.offerEntered value) s with
    | mk answer t =>
        rw [hEnd] at hAnswered hAnswer
        cases hAnswered with
        | gone hShut hNone => exact absurd (hNone.symm.trans hClient) (by simp)
        | _ => cases hAnswer

end PersistentQueue

namespace Works

variable {rules : SendRules β ε ς} {d : Nat → Depot σ} {codec : Nat → Codec β} {n : Nat}
  {storage : ComponentId} {q : PersistentQueue} {w w₁ w₂ : Works β σ ε}

/-- Every offer to a line is answered that its queue is not started, and nothing happens but that the batch
is dropped, once. -/
def TurnsAway (rules : SendRules β ε ς) (d : Nat → Depot σ) (codec : Nat → Codec β) (n : Nat)
    (w : Works β σ ε) : Prop :=
  ∀ b, w.offer rules d codec n b = (.error .notStarted, { w with outside := rules.dropped n b w.outside })

/-- What may happen to a line that is neither started nor shut down and has no workers: batches are offered
to it, and whatever else happens leaves it alone. -/
inductive Waits (rules : SendRules β ε ς) (d : Nat → Depot σ) (codec : Nat → Codec β) (n : Nat)
    (w : Works β σ ε) : Works β σ ε → Prop
  | refl : Waits rules d codec n w w
  | offer {w₁ : Works β σ ε} (prior : Waits rules d codec n w w₁) (b : β) :
      Waits rules d codec n w (w₁.offer rules d codec n b).2
  | elsewhere {w₁ w₂ : Works β σ ε} (prior : Waits rules d codec n w w₁) (hLine : w₂.line n = w₁.line n) :
      Waits rules d codec n w w₂

theorem line_setQueue {queue queue' : SendingQueue β} (hQueue : (w.line n).queue = some queue') :
    ((w.setQueue n queue).line n).queue = some queue := by
  have hLow : n < w.lines.length := by
    by_contra hHigh
    rw [line, List.getD_eq_getElem?_getD, List.getElem?_eq_none (by omega)] at hQueue
    cases hQueue
  simp [setQueue, setLine, line, List.getD_eq_getElem?_getD, hLow]

theorem turnsAway_of_none (hQueue : (w.line n).queue = some (.persistent storage q))
    (hNone : q.client = none) (hRunning : q.retired = false) : TurnsAway rules d codec n w := by
  intro b
  rw [offer_eq_settle hQueue, Depot.run, PersistentQueue.run_offer_of_none hNone hRunning]
  rfl

theorem offer_ne_notStarted {number : Nat} (hQueue : (w.line n).queue = some (.persistent storage q))
    (hClient : q.client = some number) (b : β) :
    (w.offer rules d codec n b).1 ≠ .error .notStarted := by
  have hAnswer := PersistentQueue.run_offer_ne_notStarted (d := d n) hClient ((codec n).marshal b) w.storage
  rw [offer_eq_settle hQueue]
  generalize (d n).run q.client _ w.storage = answer at hAnswer
  obtain ⟨e | q', s⟩ := answer
  · exact fun hSame => hAnswer (congrArg Except.error (Except.error.inj hSame))
  · exact fun hSame => nomatch hSame

/-- A line that turns offers away goes on to do so. -/
theorem Waits.line_of_none (h : Waits rules d codec n w₁ w₂)
    (hQueue : (w₁.line n).queue = some (.persistent storage q)) (hNone : q.client = none)
    (hRunning : q.retired = false) : w₂.line n = w₁.line n := by
  induction h with
  | refl => rfl
  | offer prior b ih =>
      have hAway : TurnsAway rules d codec n _ := turnsAway_of_none (ih ▸ hQueue) hNone hRunning
      rw [hAway b]
      exact ih
  | elsewhere prior hLine ih => exact hLine.trans ih

/-- A queue that has a client keeps it. -/
theorem Waits.client_of_some {number : Nat} (h : Waits rules d codec n w₁ w₂)
    (hQueue : (w₁.line n).queue = some (.persistent storage q)) (hClient : q.client = some number) :
    ∃ q', (w₂.line n).queue = some (.persistent storage q') ∧ q'.client = some number := by
  induction h with
  | refl => exact ⟨q, hQueue, hClient⟩
  | @offer w prior b ih =>
      obtain ⟨q', hQueue', hClient'⟩ := ih
      rw [offer_eq_settle hQueue']
      cases hRun : (d n).run q'.client (q'.offer ((codec n).marshal b)) w.storage with
      | mk answer s =>
          cases answer with
          | error e => exact ⟨q', hQueue', hClient'⟩
          | ok q'' =>
              refine ⟨q'', line_setQueue hQueue', ?_⟩
              exact (PersistentQueue.client_of_offer hRun).trans hClient'
  | elsewhere prior hLine ih =>
      obtain ⟨q', hQueue', hClient'⟩ := ih
      exact ⟨q', hLine ▸ hQueue', hClient'⟩

/-- A start that fails leaves the queue as it is, if no client could be opened, and gives it the client that
was opened otherwise. -/
theorem queue_of_failed_start {workers : Nat} {e : QueueError} {tasks : List (Task ς)}
    (hQueue : (w.line n).queue = some (.persistent storage q))
    (hStart : w.start d codec n workers = (.error e, tasks, w₁)) :
    (∃ e' s, (d n).openClient storage w.storage = (.error e', s)) ∧
        (w₁.line n).queue = some (.persistent storage q) ∨
      ∃ number s q', (d n).openClient storage w.storage = (.ok number, s) ∧
        (w₁.line n).queue = some (.persistent storage q') ∧ q'.client = some number := by
  have hSet : ∀ queue : SendingQueue β, ∀ s : σ,
      (({ w with storage := s }.setQueue n queue).line n).queue = some queue := fun queue s =>
    line_setQueue (w := { w with storage := s }) hQueue
  rw [start, hQueue] at hStart
  simp only [SendingQueue.start] at hStart
  rcases hOpen : (d n).openClient storage w.storage with ⟨e' | number, s⟩
  · simp only [hOpen] at hStart
    cases hStart
    exact .inl ⟨⟨_, _, rfl⟩, hSet _ s⟩
  · rcases hRun : (d n).run (some number) (q.start (codec n) number) s with ⟨⟨e' | u, q'⟩, t⟩
    · simp only [hOpen, hRun] at hStart
      cases hStart
      have hAlike := PersistentQueue.heldAlike_of_start hRun
      exact .inr ⟨number, s, q', rfl, hSet _ t, hAlike.client⟩
    · simp only [hOpen, hRun] at hStart
      cases hStart

/-- A queue that was given no client turns offers away. After a start that failed it does so, until the next
start or a shutdown, just if it had no client before and the start could not open one. If the start opened
a client no offer is answered that the queue is not started. -/
theorem failed_start_turns_away_iff [Nonempty β] (rules : SendRules β ε ς) {workers : Nat} {e : QueueError}
    {tasks : List (Task ς)} (hQueue : (w.line n).queue = some (.persistent storage q))
    (hRunning : q.retired = false) (hStart : w.start d codec n workers = (.error e, tasks, w₁)) :
    (TurnsAway rules d codec n w ↔ q.client = none) ∧
    ((∀ w₂, Waits rules d codec n w₁ w₂ → TurnsAway rules d codec n w₂) ↔
      q.client = none ∧ ∃ e' s, (d n).openClient storage w.storage = (.error e', s)) ∧
    ((∃ number s, (d n).openClient storage w.storage = (.ok number, s)) →
      ∀ w₂, Waits rules d codec n w₁ w₂ → ∀ b, (w₂.offer rules d codec n b).1 ≠ .error .notStarted) := by
  obtain ⟨b₀⟩ := ‹Nonempty β›
  have hNever : ∀ {w₂ : Works β σ ε} {q' : PersistentQueue} {number : Nat},
      (w₂.line n).queue = some (.persistent storage q') → q'.client = some number →
        ¬ TurnsAway rules d codec n w₂ := fun hQueue' hClient hAway =>
    offer_ne_notStarted hQueue' hClient b₀ (congrArg Prod.fst (hAway b₀))
  have hStarted := queue_of_failed_start hQueue hStart
  refine ⟨⟨?before, ?new⟩, ⟨?after, ?unopened⟩, ?opened⟩
  case before =>
    intro hAway
    by_contra hSome
    obtain ⟨number, hClient⟩ := Option.ne_none_iff_exists'.mp hSome
    exact hNever hQueue hClient hAway
  case new => exact fun hNone => turnsAway_of_none hQueue hNone hRunning
  case after =>
    intro hAll
    rcases hStarted with ⟨hFailed, hSame⟩ | ⟨number, s, q', hOpen, hQueue', hClient⟩
    · refine ⟨?_, hFailed⟩
      by_contra hSome
      obtain ⟨number, hClient⟩ := Option.ne_none_iff_exists'.mp hSome
      exact hNever hSame hClient (hAll w₁ .refl)
    · exact absurd (hAll w₁ .refl) (hNever hQueue' hClient)
  case unopened =>
    rintro ⟨hNone, e', s, hFailed⟩ w₂ hWaits
    rcases hStarted with ⟨-, hSame⟩ | ⟨number, s', q', hOpen, -, -⟩
    · have hLine := hWaits.line_of_none hSame hNone hRunning
      exact turnsAway_of_none (hLine ▸ hSame) hNone hRunning
    · rw [hFailed] at hOpen
      cases hOpen
  case opened =>
    rintro ⟨number, s, hOpen⟩ w₂ hWaits b
    rcases hStarted with ⟨⟨e', s', hFailed⟩, -⟩ | ⟨number', s', q', -, hQueue', hClient⟩
    · rw [hOpen] at hFailed
      cases hFailed
    · obtain ⟨q'', hQueue'', hClient''⟩ := hWaits.client_of_some hQueue' hClient
      exact offer_ne_notStarted hQueue'' hClient'' b

/-! ## A start that fails, with and without a client -/

/-- No client can be opened. -/
def unopened : Depot Storage.Space :=
  ⟨fun _ => Storage.Space.client, fun id s => (.error (.noStorageClient id none), s)⟩

/-- A queue that was never started, and storage with two batches and a read index that cannot be read. -/
def spoiled : Works Bytes Storage.Space (List Bytes) :=
  ⟨[⟨some (.persistent cellar (.empty 5)), [], [], 0⟩],
    [(itemKey 0, [5]), (itemKey 1, [6]), (readKey, [1, 2, 3]), (writeKey, encodeIndex 2)], []⟩

theorem failed_start_turns_away_unopened :
    spoiled.start (fun _ => unopened) (fun _ => Codec.plain) 0 1 =
        (.error (.noStorageClient cellar none), ([] : List (Task Unit)), spoiled) ∧
      ∀ w₂, Waits keeping (fun _ => unopened) (fun _ => Codec.plain) 0 spoiled w₂ →
        TurnsAway keeping (fun _ => unopened) (fun _ => Codec.plain) 0 w₂ := by
  have hStart : spoiled.start (fun _ => unopened) (fun _ => Codec.plain) 0 1 =
      (.error (.noStorageClient cellar none), ([] : List (Task Unit)), spoiled) := rfl
  have hFailed := failed_start_turns_away_iff keeping (w := spoiled) rfl rfl hStart
  exact ⟨hStart, hFailed.2.1.mpr ⟨rfl, _, _, rfl⟩⟩

/-- The start fails at the read index. The next offer is taken in all the same, and its batch is stored over
the first one that waits. -/
theorem offer_overwrites_after_failed_start :
    ∃ w₁ w₂, spoiled.start (fun _ => sole) (fun _ => Codec.plain) 0 1 =
        (.error (.invalidIndex "index must be 8 bytes"), ([] : List (Task Unit)), w₁) ∧
      w₁.offer keeping (fun _ => sole) (fun _ => Codec.plain) 0 [7] = (.ok (), w₂) ∧
      w₁.storage.get? (itemKey 0) = some [5] ∧ w₂.storage.get? (itemKey 0) = some [7] ∧
      ¬ TurnsAway keeping (fun _ => sole) (fun _ => Codec.plain) 0 w₁ := by
  refine ⟨_, _, rfl, rfl, by decide +kernel, by decide +kernel, fun hAway => ?_⟩
  exact nomatch congrArg Prod.fst (hAway [7])

end Works

end Telemetry.Queue

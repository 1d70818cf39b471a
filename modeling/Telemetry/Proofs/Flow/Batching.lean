import Telemetry.Agent.Lifecycle
import Telemetry.Proofs.Flow.Gathering

/-!
# Holding batches back while others go on

A processor that holds batches back is used by calls that consume a batch, by timers and by shutdowns. Each
goes on in steps, between which the others go on, and so do those who hold other handles onto the batches.
What is held back is changed in one step each; whoever takes it hands it to the next consumer afterwards.
-/

namespace Telemetry

namespace Batching

/-- What a task does with a processor that holds batches back. -/
inductive Role
  | consume
  | timer
  /-- It waits for a timer first, if there is one. -/
  | shutdown (timer : Option Nat)

/-- How far a task has come. -/
inductive Stage
  | waiting
  /-- It has taken what was held back and not handed it on. -/
  | carrying (b : Handle)
  /-- The next consumer has not answered. -/
  | awaiting
  | over

/-- A task and how far it has come. -/
structure Task where
  role : Role
  stage : Stage

/-- What shows of a step. Tasks go by number. -/
inductive Event
  /-- A batch is added to what is held back. -/
  | pushed (k : Nat) (r : Request)
  /-- What is held back is taken. -/
  | taken (k : Nat) (r : Request)
  /-- The next consumer gets a batch. -/
  | handed (k : Nat) (r : Request)
  | answered (k : Nat) (outcome : Outcome)
  | returned (k : Nat) (outcome : Outcome)
  /-- A shutdown is called. -/
  | halted (k : Nat)

end Batching

/-- A processor that holds batches back, with its tasks and the handles of others. -/
structure Batching where
  heap : Heap
  held : Gathering
  others : List Handle
  tasks : List Batching.Task
  /-- Whether timers are to leave. -/
  stopped : Bool
  /-- The timer that the next shutdown waits for. -/
  timer : Option Nat

namespace Batching

/-- Nothing was made and nobody came. -/
def fresh : Batching := ⟨.empty, .empty, [], [], false, none⟩

/-- What those who hold other handles do with them. -/
inductive Move : Heap × List Handle → Heap × List Handle → Prop
  | make {h : Heap} {others : List Handle} (r : Request) :
      Move (h, others) ((h.new r).2, others ++ [(h.new r).1])
  | share {h : Heap} {before after : List Handle} {b : Handle} :
      Move (h, before ++ b :: after)
        ((h.share b).2, before ++ (h.share b).1.1 :: (h.share b).1.2 :: after)
  | edit {h : Heap} {before after : List Handle} {b : Handle} (f : Request → Request) :
      Move (h, before ++ b :: after) ((h.edit b f).2, before ++ (h.edit b f).1 :: after)
  | release {h : Heap} {before after : List Handle} {b : Handle} :
      Move (h, before ++ b :: after) (h.release b, before ++ after)

/-- The steps of the tasks, and of those who hold other handles. All batches consumed have one type. -/
inductive Step (settings : BatchSettings) (type : BatchType) : Batching → List Event → Batching → Prop
  | move {w : Batching} {h : Heap} {others : List Handle} (hMove : Move (w.heap, w.others) (h, others)) :
      Step settings type w [] { w with heap := h, others := others }
  | keep {w : Batching} {before after : List Handle} {b : Handle} {held : Gathering} {h : Heap}
      (hOthers : w.others = before ++ b :: after) (hType : (w.heap.read b).type = type)
      (hOffer : w.held.offer settings b w.heap = (none, held, h)) :
      Step settings type w
        [.pushed w.tasks.length (w.heap.read b), .returned w.tasks.length (.ok ())]
        { w with
          heap := h, held := held, others := before ++ after, tasks := w.tasks ++ [⟨.consume, .over⟩] }
  | fill {w : Batching} {before after : List Handle} {b full : Handle} {held : Gathering} {h : Heap}
      (hOthers : w.others = before ++ b :: after) (hType : (w.heap.read b).type = type)
      (hOffer : w.held.offer settings b w.heap = (some full, held, h)) :
      Step settings type w
        [.pushed w.tasks.length (w.heap.read b), .taken w.tasks.length (h.read full)]
        { w with
          heap := h, held := held, others := before ++ after
          tasks := w.tasks ++ [⟨.consume, .carrying full⟩] }
  | start {w : Batching} :
      Step settings type w []
        { w with tasks := w.tasks ++ [⟨.timer, .waiting⟩], timer := some w.tasks.length }
  | tick {w : Batching} {k : Nat} {b : Handle} (hTask : w.tasks[k]? = some ⟨.timer, .waiting⟩)
      (hBatch : w.held.batch = some b) :
      Step settings type w [.taken k (w.heap.read b)]
        { w with held := .empty, tasks := w.tasks.set k ⟨.timer, .carrying b⟩ }
  | tickIdle {w : Batching} {k : Nat} (hTask : w.tasks[k]? = some ⟨.timer, .waiting⟩)
      (hBatch : w.held.batch = none) : Step settings type w [] w
  | leave {w : Batching} {k : Nat} (hTask : w.tasks[k]? = some ⟨.timer, .waiting⟩)
      (hStopped : w.stopped = true) :
      Step settings type w [] { w with tasks := w.tasks.set k ⟨.timer, .over⟩ }
  | halt {w : Batching} :
      Step settings type w [.halted w.tasks.length]
        { w with stopped := true, tasks := w.tasks ++ [⟨.shutdown w.timer, .waiting⟩], timer := none }
  | drain {w : Batching} {k : Nat} {timer : Option Nat} {b : Handle}
      (hTask : w.tasks[k]? = some ⟨.shutdown timer, .waiting⟩)
      (hLeft : ∀ j, timer = some j → w.tasks[j]? = some ⟨.timer, .over⟩)
      (hBatch : w.held.batch = some b) :
      Step settings type w [.taken k (w.heap.read b)]
        { w with held := .empty, tasks := w.tasks.set k ⟨.shutdown timer, .carrying b⟩ }
  | drainIdle {w : Batching} {k : Nat} {timer : Option Nat}
      (hTask : w.tasks[k]? = some ⟨.shutdown timer, .waiting⟩)
      (hLeft : ∀ j, timer = some j → w.tasks[j]? = some ⟨.timer, .over⟩)
      (hBatch : w.held.batch = none) :
      Step settings type w [.returned k (.ok ())]
        { w with tasks := w.tasks.set k ⟨.shutdown timer, .over⟩ }
  | hand {w : Batching} {k : Nat} {role : Role} {b : Handle}
      (hTask : w.tasks[k]? = some ⟨role, .carrying b⟩) :
      Step settings type w [.handed k (w.heap.read b)]
        { w with others := w.others ++ [b], tasks := w.tasks.set k ⟨role, .awaiting⟩ }
  | answer {w : Batching} {k : Nat} (hTask : w.tasks[k]? = some ⟨.consume, .awaiting⟩)
      (outcome : Outcome) :
      Step settings type w [.answered k outcome, .returned k outcome]
        { w with tasks := w.tasks.set k ⟨.consume, .over⟩ }
  | answerTimer {w : Batching} {k : Nat} (hTask : w.tasks[k]? = some ⟨.timer, .awaiting⟩)
      (outcome : Outcome) :
      Step settings type w [.answered k outcome]
        { w with tasks := w.tasks.set k ⟨.timer, .waiting⟩ }
  | answerShutdown {w : Batching} {k : Nat} {timer : Option Nat}
      (hTask : w.tasks[k]? = some ⟨.shutdown timer, .awaiting⟩) (outcome : Outcome) :
      Step settings type w [.answered k outcome, .returned k (.ok ())]
        { w with tasks := w.tasks.set k ⟨.shutdown timer, .over⟩ }

/-- The runs from a state, with what showed of their steps, in order. -/
inductive Runs (settings : BatchSettings) (type : BatchType) (origin : Batching) :
    List Event → Batching → Prop
  | refl : Runs settings type origin [] origin
  | step {trace events : List Event} {w w' : Batching} (prior : Runs settings type origin trace w)
      (last : Step settings type w events w') : Runs settings type origin (trace ++ events) w'

/-! ## Without a break -/

section Unbroken

open Agent (State Gatherer)

variable {type : BatchType} {w : Batching} {s : State} {g : Gatherer} {n : Nat} {before after : List Handle}
  {b : Handle} {next : Consumer}

/-- An agent whose processor with a number holds something else back. -/
def withHeld (s : State) (n : Nat) (g : Gatherer) (h : Heap) (held : Gathering) : State :=
  ⟨h, { s.installed with gatherers := s.installed.gatherers.set n { g with held := held } }⟩

theorem consume_of_offer {full : Option Handle} {held : Gathering} {h : Heap}
    (hGatherer : s.installed.gatherers[n]? = some g)
    (hOffer : g.held.offer g.settings b s.heap = (full, held, h)) :
    s.consume (.gather n next) b =
      match full with
      | none => (.ok (), withHeld s n g h held)
      | some c => (withHeld s n g h held).consume next c := by
  simp only [State.consume, Consumer.consume, Agent.outlets, Agent.Installation.hold, hGatherer, hOffer]
  cases full <;> rfl

/-- A processor in an agent consumes a batch as a call that nobody disturbs does: either it keeps the batch
and returns, or it hands all on, and what the next consumer answers is its result. -/
theorem runs_consume (hGatherer : s.installed.gatherers[n]? = some g) (hHeap : w.heap = s.heap)
    (hHeld : w.held = g.held) (hOthers : w.others = before ++ b :: after)
    (hType : (s.heap.read b).type = type) :
    (∃ w', Runs g.settings type w
        [.pushed w.tasks.length (s.heap.read b), .returned w.tasks.length (.ok ())] w' ∧
      s.consume (.gather n next) b = (.ok (), withHeld s n g w'.heap w'.held)) ∨
    ∃ w' full, Runs g.settings type w
        [.pushed w.tasks.length (s.heap.read b), .taken w.tasks.length (w'.heap.read full),
          .handed w.tasks.length (w'.heap.read full)] w' ∧
      w'.others = before ++ after ++ [full] ∧
      s.consume (.gather n next) b = (withHeld s n g w'.heap w'.held).consume next full := by
  rw [← hHeap] at hType ⊢
  rcases hOffer : w.held.offer g.settings b w.heap with ⟨full, held, h⟩
  have hGiven : g.held.offer g.settings b s.heap = (full, held, h) := by rw [← hHeap, ← hHeld, hOffer]
  cases full with
  | none => exact .inl ⟨_, .step .refl (.keep hOthers hType hOffer),
      consume_of_offer hGatherer hGiven⟩
  | some full =>
      have hFilled : Runs g.settings type w _ _ := .step .refl (.fill hOthers hType hOffer)
      have hHanded := hFilled.step (.hand (k := w.tasks.length) List.getElem?_concat_length)
      let handed : Batching := ⟨h, held, before ++ after ++ [full],
        List.set (w.tasks ++ [⟨.consume, .carrying full⟩]) w.tasks.length ⟨.consume, .awaiting⟩,
        w.stopped, w.timer⟩
      exact .inr ⟨handed, full, hHanded, rfl, consume_of_offer hGatherer hGiven⟩

/-- A task that may take what is held back now. -/
def Takes (w : Batching) (k : Nat) (role : Role) : Prop :=
  w.tasks[k]? = some ⟨role, .waiting⟩ ∧
    (role = .timer ∨
      ∃ timer, role = .shutdown timer ∧ ∀ j, timer = some j → w.tasks[j]? = some ⟨.timer, .over⟩)

theorem runs_take {settings : BatchSettings} {k : Nat} {role : Role} (hTakes : w.Takes k role)
    (hBatch : w.held.batch = some b) :
    Runs settings type w [.taken k (w.heap.read b)]
      { w with held := .empty, tasks := w.tasks.set k ⟨role, .carrying b⟩ } := by
  obtain ⟨hTask, rfl | ⟨timer, rfl, hLeft⟩⟩ := hTakes
  · exact .step .refl (.tick hTask hBatch)
  · exact .step .refl (.drain hTask hLeft hBatch)

theorem flush_of_some (hGatherer : s.installed.gatherers[n]? = some g) (hBatch : g.held.batch = some b) :
    s.flush n = ((withHeld s n g s.heap .empty).consume g.next b).2 := by
  simp only [State.flush, hGatherer, hBatch]
  rfl

theorem flush_of_none (hGatherer : s.installed.gatherers[n]? = some g) (hBatch : g.held.batch = none) :
    s.flush n = s := by
  simp only [State.flush, hGatherer, hBatch]

/-- A processor in an agent passes on what it holds as a timer or a shutdown does that nobody disturbs. -/
theorem runs_flush {k : Nat} {role : Role} (hGatherer : s.installed.gatherers[n]? = some g)
    (hHeap : w.heap = s.heap) (hHeld : w.held = g.held) (hTakes : w.Takes k role) :
    (w.held.batch = none ∧ s.flush n = s) ∨
    ∃ w' full, Runs g.settings type w
        [.taken k (w.heap.read full), .handed k (w.heap.read full)] w' ∧
      w'.others = w.others ++ [full] ∧
      s.flush n = ((withHeld s n g w'.heap w'.held).consume g.next full).2 := by
  cases hBatch : w.held.batch with
  | none => exact .inl ⟨rfl, flush_of_none hGatherer (hHeld ▸ hBatch)⟩
  | some b =>
      have hTask : (w.tasks.set k ⟨role, .carrying b⟩)[k]? = some ⟨role, .carrying b⟩ :=
        List.getElem?_set_self (List.getElem?_eq_some_iff.mp hTakes.1).1
      have hTaken : Runs g.settings type w _ _ := runs_take hTakes hBatch
      have hHanded := hTaken.step (.hand hTask)
      refine .inr ⟨_, b, hHanded, rfl, ?_⟩
      rw [flush_of_some hGatherer (hHeld ▸ hBatch), ← hHeap]

end Unbroken

end Batching

end Telemetry

import Telemetry.Queue.Sending
import Telemetry.Scheduling.Turns

/-!
# Queues with workers

A line is a sending queue with the workers that empty it. A worker is free, was called to look for a
batch, sends one, or has sent one and is to say how that ended. A shutdown begins, waits for the
workers it found, and ends. How a batch is sent is left open: it takes any number of turns and may
wait for anything. Batches may also be sent without a queue, by their callers.
-/

namespace Telemetry.Queue

open Scheduling (Rules)

/-- A queue with its workers. -/
structure Line (β : Type) where
  /-- The queue, if there is one. -/
  queue : Option (SendingQueue β)
  /-- The workers that have not left, by number. -/
  present : List Nat
  /-- The workers that no shutdown has waited for yet. -/
  unclaimed : List Nat
  /-- The number of workers started so far. -/
  started : Nat

/-- How batches are sent, and what the surroundings of the lines learn. -/
structure SendRules (β ε ς : Type) where
  /-- Begins to send a batch: the time and the line. -/
  begin : Nat → Nat → β → ε → ς × ε
  /-- Whether a sending can go on, at a time. -/
  canGo : Nat → ε → ς → Bool
  /-- The times a sending waits for. -/
  due : ς → List Nat
  /-- One turn of a sending. -/
  turn : Nat → ς → ε → (ς ⊕ Outcome) × ε
  /-- The outcome of a batch that was sent by its caller. -/
  answered : Nat → Nat → Outcome → ε → ε
  /-- A batch of a line that nobody will send. -/
  dropped : Nat → β → ε → ε
  /-- A shutdown of a line is over: the time, the line, and the number of the call. -/
  stopped : Nat → Nat → Nat → ε → ε

/-- What a task is doing. -/
inductive Task (ς : Type)
  /-- A worker of a line is free. -/
  | free (line worker : Nat)
  /-- A worker was called. -/
  | called (line worker : Nat)
  /-- A worker sends a batch. -/
  | sending (line worker : Nat) (index : Option UInt64) (send : ς)
  /-- A worker has sent a batch. -/
  | sent (line worker : Nat) (index : Option UInt64) (outcome : Outcome)
  /-- A caller sends a batch without a queue. -/
  | caller (number : Nat) (send : ς)
  /-- A shutdown is to begin. -/
  | halt (line call : Nat)
  /-- A shutdown waits for workers. -/
  | awaiting (line call : Nat) (workers : List Nat) (last : Bool)

/-- The lines, the storage of their queues, and their surroundings. -/
structure Works (β σ ε : Type) where
  /-- The lines, by number. -/
  lines : List (Line β)
  /-- The storage. -/
  storage : σ
  /-- The surroundings. -/
  outside : ε

namespace Works

variable {β σ ε ς : Type}

/-- A line that has nothing. -/
def noLine : Line β := ⟨none, [], [], 0⟩

/-- The line with a number. -/
def line (w : Works β σ ε) (n : Nat) : Line β := w.lines.getD n noLine

/-- Changes the line with a number. -/
def setLine (w : Works β σ ε) (n : Nat) (l : Line β) : Works β σ ε :=
  { w with lines := w.lines.set n l }

/-- Adds a line. -/
def addLine (w : Works β σ ε) (queue : Option (SendingQueue β)) : Works β σ ε :=
  { w with lines := w.lines ++ [⟨queue, [], [], 0⟩] }

/-- Puts a queue in the place of that of a line. -/
def setQueue (w : Works β σ ε) (n : Nat) (q : SendingQueue β) : Works β σ ε :=
  w.setLine n { w.line n with queue := some q }

/-- Offers a batch to the queue of a line; one that is refused is dropped. -/
def offer (rules : SendRules β ε ς) (d : Nat → Depot σ) (codec : Nat → Codec β) (n : Nat) (b : β)
    (w : Works β σ ε) : Except QueueError Unit × Works β σ ε :=
  match (w.line n).queue with
  | none => (.ok (), w)
  | some q =>
    match q.offer (d n) (codec n) b w.storage with
    | (.ok (), q, s) => (.ok (), { w with storage := s }.setQueue n q)
    | (.error e, q, s) =>
      (.error e, { w with storage := s, outside := rules.dropped n b w.outside }.setQueue n q)

/-- Whether the caller of an offer panics instead of being answered. -/
def offerPanics (d : Nat → Depot σ) (codec : Nat → Codec β) (n : Nat) (b : β) (w : Works β σ ε) :
    Bool :=
  (w.line n).queue.any fun q => q.offerPanics (d n) (codec n) b w.storage

/-- Starts the queue of a line; the second result is the workers that are to be started. -/
def start (d : Nat → Depot σ) (codec : Nat → Codec β) (n workers : Nat) (w : Works β σ ε) :
    Except QueueError Unit × List (Task ς) × Works β σ ε :=
  let l := w.line n
  match l.queue with
  | none => (.ok (), [], w)
  | some q =>
    match q.start (d n) (codec n) w.storage with
    | (.error e, q, s) => (.error e, [], { w with storage := s }.setQueue n q)
    | (.ok false, q, s) => (.ok (), [], { w with storage := s }.setQueue n q)
    | (.ok true, q, s) =>
      let fresh := (List.range workers).map (l.started + ·)
      let l := ⟨some q, l.present ++ fresh, l.unclaimed ++ fresh, l.started + workers⟩
      (.ok (), fresh.map (Task.free n), { w with storage := s }.setLine n l)

/-- Whether the caller of a start panics instead of being answered. -/
def startPanics (d : Nat → Depot σ) (codec : Nat → Codec β) (n : Nat) (w : Works β σ ε) : Bool :=
  (w.line n).queue.any fun q => q.startPanics (d n) (codec n) w.storage

/-- A worker leaves. -/
def leave (w : Works β σ ε) (n worker : Nat) : Works β σ ε :=
  let l := w.line n
  w.setLine n { l with present := l.present.filter (· != worker) }

/-- A shutdown takes the workers it has to wait for. -/
def beginHalt (n call : Nat) (w : Works β σ ε) : Task ς × Works β σ ε :=
  let l := w.line n
  match l.queue with
  | none => (.awaiting n call [] false, w)
  | some q =>
    let (last, q) := q.beginShutdown
    let awaited := if last then l.unclaimed else []
    let unclaimed := if last then [] else l.unclaimed
    (.awaiting n call awaited last,
      w.setLine n { l with queue := some q, unclaimed := unclaimed })

/-- A shutdown ends. -/
def endHalt (rules : SendRules β ε ς) (d : Nat → Depot σ) (now n call : Nat)
    (last : Bool) (w : Works β σ ε) : Works β σ ε :=
  let w := match (w.line n).queue with
    | some q =>
      if last then
        let (rest, q, s) := q.endShutdown (d n) w.storage
        let outside := rest.foldl (fun o b => rules.dropped n b o) w.outside
        { w with storage := s, outside := outside }.setQueue n q
      else w
    | none => w
  { w with outside := rules.stopped now n call w.outside }

/-- Whether a task can take a turn. -/
def canGo (rules : SendRules β ε ς) (now : Nat) (w : Works β σ ε) : Task ς → Bool
  | .free n _ => (w.line n).queue.any SendingQueue.isReady
  | .called .. | .sent .. | .halt .. => true
  | .sending _ _ _ send | .caller _ send => rules.canGo now w.outside send
  | .awaiting n _ workers _ => workers.all fun i => !(w.line n).present.contains i

/-- One turn of a task. -/
def turn (rules : SendRules β ε ς) (d : Nat → Depot σ) (codec : Nat → Codec β) (now : Nat) :
    Task ς → Works β σ ε → Option (Task ς) × Works β σ ε
  | .free n i, w =>
    match (w.line n).queue with
    | none => (none, w.leave n i)
    | some q =>
      match q.call with
      | (.leave, q) => (none, (w.setQueue n q).leave n i)
      | (.wait, q) => (some (.free n i), w.setQueue n q)
      | (.look, q) => (some (.called n i), w.setQueue n q)
  | .called n i, w =>
    match (w.line n).queue with
    | none => (none, w.leave n i)
    | some q =>
      match q.take (d n) (codec n) w.storage with
      | (.over, q, s) => (none, ({ w with storage := s }.setQueue n q).leave n i)
      | (.nothing, q, s) => (some (.free n i), { w with storage := s }.setQueue n q)
      | (.item index b, q, s) =>
        let (send, outside) := rules.begin now n b w.outside
        (some (.sending n i index send),
          { w with storage := s, outside := outside }.setQueue n q)
  | .sending n i index send, w =>
    match rules.turn now send w.outside with
    | (.inl send, outside) => (some (.sending n i index send), { w with outside := outside })
    | (.inr outcome, outside) => (some (.sent n i index outcome), { w with outside := outside })
  | .sent n i index outcome, w =>
    match (w.line n).queue with
    | none => (none, w.leave n i)
    | some q =>
      let (q, s) := q.finish (d n) index outcome w.storage
      (some (.free n i), { w with storage := s }.setQueue n q)
  | .caller number send, w =>
    match rules.turn now send w.outside with
    | (.inl send, outside) => (some (.caller number send), { w with outside := outside })
    | (.inr outcome, outside) =>
      (none, { w with outside := rules.answered now number outcome outside })
  | .halt n call, w =>
    let (task, w) := w.beginHalt n call
    (some task, w)
  | .awaiting n call workers last, w =>
    if workers.all fun i => !(w.line n).present.contains i then
      (none, w.endHalt rules d now n call last)
    else (some (.awaiting n call workers last), w)

/-- The times a task waits for. -/
def due (rules : SendRules β ε ς) : Task ς → List Nat
  | .sending _ _ _ send | .caller _ send => rules.due send
  | _ => []

/-- The rules of the tasks of lines. -/
def rules (rules : SendRules β ε ς) (d : Nat → Depot σ) (codec : Nat → Codec β) :
    Rules (Works β σ ε) (Task ς) :=
  ⟨canGo rules, due rules, turn rules d codec⟩

end Works

end Telemetry.Queue

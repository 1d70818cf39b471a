import Telemetry.Testbed.Trial

/-!
# A queue behind a gate

A sending queue whose batches are sent by writing down how many items they have, waiting at a gate,
and answering what was agreed on for that many items. It shows in what order a queue hands out its
batches, how each ends, and what it leaves in storage.
-/

namespace Telemetry.Testbed

open Queue (SendRules SendingQueue)
open Storage (StorageSite)

/-- The gate and what was written down at it. -/
structure Gate where
  /-- Whether batches wait at the gate at all. -/
  closed : Bool
  /-- Whether batches that nobody will send are written down. -/
  watchesDrops : Bool
  /-- The error agreed on for a number of items. -/
  refusals : List (Nat × ConsumeError)
  /-- The number of batches that came to the gate so far. -/
  arrivals : Nat
  /-- The number of batches that may pass so far. -/
  passes : Nat
  /-- The items of the batches that were taken up. -/
  sent : List Nat
  /-- The items of the batches that passed. -/
  finished : List Nat
  /-- The items of the batches that nobody will send. -/
  dropped : List Nat
  /-- Whether a shutdown was asked for, and whether the last one is over. -/
  shutdown : Option Bool

namespace Gate

/-- A gate to which nothing came yet. -/
def ofRefusals (closed watchesDrops : Bool) (refusals : List (Nat × ConsumeError)) : Gate :=
  ⟨closed, watchesDrops, refusals, 0, 0, [], [], [], none⟩

/-- A batch at the gate: its items, and its place in the order of arrival if it has to wait. -/
structure Passage where
  /-- The number of items. -/
  items : Nat
  /-- The place. -/
  place : Option Nat

/-- The outcome agreed on for a number of items. -/
def outcome (g : Gate) (items : Nat) : Outcome :=
  match g.refusals.lookup items with
  | some e => .error e
  | none => .ok ()

/-- Sending through the gate: batches pass in the order in which they came. -/
def rules : SendRules Request Gate Passage where
  begin _ _ r g :=
    let g := { g with sent := g.sent ++ [r.itemCount] }
    if g.closed then (⟨r.itemCount, some g.arrivals⟩, { g with arrivals := g.arrivals + 1 })
    else (⟨r.itemCount, none⟩, g)
  canGo _ g p := p.place.all (· < g.passes)
  due _ := []
  turn _ p g := (.inr (g.outcome p.items), { g with finished := g.finished ++ [p.items] })
  answered _ _ _ g := g
  dropped _ r g := if g.watchesDrops then { g with dropped := g.dropped ++ [r.itemCount] } else g
  stopped _ _ _ g := { g with shutdown := some true }

end Gate

/-- A queue behind a gate. -/
structure GatedQueue where
  /-- Its settings. -/
  settings : QueueSettings
  /-- The queue, as line number zero, with its tasks. -/
  trial : Trial Gate Gate.Passage

namespace GatedQueue

/-- Builds a queue with a gate of its own onto the storage of a trial; whatever lines the trial
had are left behind as they are. -/
def build (settings : QueueSettings) (gate : Gate) (t : Trial Gate Gate.Passage) : GatedQueue :=
  let line : Queue.Line Request := ⟨SendingQueue.ofSettings? settings, [], [], 0⟩
  ⟨settings, { t with turns := .start ⟨[line], t.works.storage, gate⟩ }⟩

/-- The queue itself, if the settings ask for one. -/
def queue? (q : GatedQueue) : Option (SendingQueue Request) := (q.trial.works.line 0).queue

/-- The gate. -/
def gate (q : GatedQueue) : Gate := q.trial.outside

/-- Lets every task go on until all wait. -/
def settle (q : GatedQueue) : GatedQueue := { q with trial := q.trial.settle Gate.rules }

/-- Starts the queue. There is no answer if that panics. -/
def start (q : GatedQueue) : Option (Except QueueError Unit) × GatedQueue :=
  if q.trial.startPanics 0 then (none, q)
  else
    let (outcome, t) := q.trial.startLine 0 q.settings.consumers
    (some outcome, { q with trial := t })

/-- Offers a batch. There is no answer if that panics. -/
def offer (q : GatedQueue) (r : Request) : Option (Except QueueError Unit) × GatedQueue :=
  if q.trial.offerPanics 0 r then (none, q)
  else
    let (outcome, t) := q.trial.offer Gate.rules 0 r
    (some outcome, { q with trial := t })

/-- Lets so many more batches pass. -/
def letPass (q : GatedQueue) (n : Nat) : GatedQueue :=
  { q with trial := q.trial.updateOutside fun g => { g with passes := g.passes + n } }

/-- Asks for a shutdown. -/
def shutdown (q : GatedQueue) : GatedQueue :=
  let t := q.trial.updateOutside fun g => { g with shutdown := some false }
  { q with trial := t.spawn (.halt 0 0) }

/-- Forgets what was written down so far. -/
def turnPage (q : GatedQueue) : GatedQueue :=
  { q with
    trial := q.trial.updateOutside fun g => { g with sent := [], finished := [], dropped := [] } }

/-- Leaves the queue as it is and builds another onto the same storage. -/
def replace (q : GatedQueue) (settings : QueueSettings) (closed watchesDrops : Bool) :
    GatedQueue :=
  build settings (.ofRefusals closed watchesDrops q.gate.refusals) q.trial

end GatedQueue

end Telemetry.Testbed

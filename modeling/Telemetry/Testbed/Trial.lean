import Telemetry.Queue.Line
import Telemetry.Testbed.FaultyVault

/-!
# Trials of sending queues

Lines with their workers on one thread and a clock that is set forward by hand. After every step the
tasks go on until all wait, so that what a trial shows depends on its steps alone.
-/

namespace Telemetry.Testbed

open Queue (SendRules Works Codec)
open Storage (FaultyVault StorageSite QueueContent)
open Scheduling (Turns)

/-- Lines whose queues share a namespace, and their tasks. -/
structure Trial (ε ς : Type) where
  /-- The type of the batches. -/
  type : BatchType
  /-- The namespace of the queues. -/
  space : String
  /-- Where the queues find storage. -/
  site : StorageSite
  /-- The lines and their tasks. -/
  turns : Turns (Works Request FaultyVault ε) (Queue.Task ς)

namespace Trial

variable {ε ς : Type}

/-- The most turns that are served before the clock moves. -/
def patience : Nat := 1000000

/-- No lines. -/
def start (type : BatchType) (space : String) (site : StorageSite) (outside : ε) : Trial ε ς :=
  ⟨type, space, site, .start ⟨[], .empty, outside⟩⟩

/-- Where a queue gets its clients from. -/
def depot (t : Trial ε ς) (_ : Nat) : Queue.Depot FaultyVault := t.site.depot t.space

/-- How batches are turned into bytes and back. -/
def codec (t : Trial ε ς) (_ : Nat) : Codec Request := .ofType t.type

/-- The lines, the storage and what surrounds them. -/
def works (t : Trial ε ς) : Works Request FaultyVault ε := t.turns.state

/-- Changes the lines, the storage or what surrounds them. -/
def update (t : Trial ε ς) (f : Works Request FaultyVault ε → Works Request FaultyVault ε) :
    Trial ε ς :=
  { t with turns := { t.turns with state := f t.turns.state } }

/-- What surrounds the lines. -/
def outside (t : Trial ε ς) : ε := t.works.outside

/-- Changes what surrounds the lines. -/
def updateOutside (t : Trial ε ς) (f : ε → ε) : Trial ε ς :=
  t.update fun w => { w with outside := f w.outside }

/-- Adds a task. -/
def spawn (t : Trial ε ς) (task : Queue.Task ς) : Trial ε ς :=
  { t with turns := t.turns.spawn task }

/-- Lets every task go on until all wait. -/
def settle (rules : SendRules Request ε ς) (t : Trial ε ς) : Trial ε ς :=
  let rules := Works.rules rules t.depot t.codec
  { t with turns := (t.turns.wake rules).settle rules patience }

/-- Sets the clock forward. -/
def advance (rules : SendRules Request ε ς) (ms : Nat) (t : Trial ε ς) : Trial ε ς :=
  let rules := Works.rules rules t.depot t.codec
  { t with turns := t.turns.advance rules patience patience (t.turns.now + ms) }

/-- Offers a batch to the queue of a line. -/
def offer (rules : SendRules Request ε ς) (line : Nat) (r : Request) (t : Trial ε ς) :
    Except QueueError Unit × Trial ε ς :=
  let (outcome, w) := t.works.offer rules t.depot t.codec line r
  (outcome, t.update fun _ => w)

/-- Whether the caller of an offer panics. -/
def offerPanics (line : Nat) (r : Request) (t : Trial ε ς) : Bool :=
  t.works.offerPanics t.depot t.codec line r

/-- Starts the queue of a line with so many workers. -/
def startLine (line workers : Nat) (t : Trial ε ς) : Except QueueError Unit × Trial ε ς :=
  let (outcome, (tasks : List (Queue.Task ς)), w) := t.works.start t.depot t.codec line workers
  (outcome, tasks.foldl spawn (t.update fun _ => w))

/-- Whether the caller of a start panics. -/
def startPanics (line : Nat) (t : Trial ε ς) : Bool := t.works.startPanics t.depot t.codec line

/-- Makes storage fail, or work again. -/
def setFailing (failing : Bool) (t : Trial ε ς) : Trial ε ς :=
  t.update fun w => { w with storage := { w.storage with failing := failing } }

/-- One batch of accesses to the namespace of the queues. -/
def access (ops : List Storage.Operation) (t : Trial ε ς) :
    Except StorageError Unit × Trial ε ς :=
  let (reply, v) := t.works.storage.batchIn t.space ops
  (reply.outcome, t.update fun w => { w with storage := v })

/-- What the namespace of the queues holds. -/
def content (t : Trial ε ς) : QueueContent := .ofSpace (t.works.storage.space t.space)

/-- The number of times a storage client was given up. -/
def closings (t : Trial ε ς) : Nat := t.works.storage.closings

end Trial

end Telemetry.Testbed

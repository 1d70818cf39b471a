import Telemetry.Batch.Handle
import Telemetry.Failure.Consume

/-!
# Consumers

A consumer takes a batch through a handle and answers whether it was delivered. Consumers form
trees: the inner ones pass batches on as they are, change them, derive others from them, hold them
back, or hand them to several branches; a leaf is where a pipeline ends. What the leaves do, and
what is held back, is kept in a state the tree knows nothing about.

A branch that says it changes its batches gets a copy of its own, the others share one request. When
every branch changes its batches the last one gets the handle that came in, so that nothing is
copied for nobody.
-/

namespace Telemetry

/-- A consumer of batches. -/
inductive Consumer
  /-- An end of the pipelines, by its number, and whether it changes the batches it gets. -/
  | leaf (mutates : Bool) (place : Nat)
  /-- Passes batches on as they are; it may say that they are changed further on. -/
  | pass (mutates : Bool) (next : Consumer)
  /-- Changes the content of every batch. -/
  | edit (change : Request → Request) (next : Consumer)
  /-- Passes on a batch derived from the one it got and the time, in nanoseconds, if there is one. -/
  | convert (derived : UInt64 → Request → Option Request) (next : Consumer)
  /-- Holds batches back, under a number, until there is enough to pass on. -/
  | gather (place : Nat) (next : Consumer)
  /-- Hands every batch to several consumers. -/
  | fanOut (branches : List Consumer)
deriving Inhabited

/-- What happens at the numbered places of a tree of consumers. -/
structure Outlets (σ : Type) where
  /-- What a leaf does with a batch. -/
  deliver : Nat → Handle → Heap → σ → Outcome × Heap × σ
  /-- Holds a batch back; the result is what is to be passed on now. -/
  hold : Nat → Handle → Heap → σ → Option Handle × Heap × σ
  /-- The time, in nanoseconds. -/
  clock : σ → UInt64

namespace Consumer

/-- Whether a consumer changes the batches it gets. -/
def mutates : Consumer → Bool
  | leaf mutates _ | pass mutates _ => mutates
  | edit .. => true
  | convert .. | gather .. | fanOut _ => false

/-- A consumer that hands every batch to all of the given ones; there must be one. -/
def ofBranches? : List Consumer → Option Consumer
  | [] => none
  | [c] => some c
  | cs => some (fanOut cs)

variable {σ : Type}

mutual

/-- Consumes a batch. -/
def consume (outlets : Outlets σ) : Consumer → Handle → Heap → σ → Outcome × Heap × σ
  | leaf _ place, b, h, s => outlets.deliver place b h s
  | pass _ next, b, h, s => consume outlets next b h s
  | edit change next, b, h, s =>
    let (b, h) := h.edit b change
    consume outlets next b h s
  | convert derived next, b, h, s =>
    let (content, h) := h.take b
    match derived (outlets.clock s) content with
    | none => (.ok (), h, s)
    | some r =>
      let (b, h) := h.new r
      consume outlets next b h s
  | gather place next, b, h, s =>
    match outlets.hold place b h s with
    | (none, h, s) => (.ok (), h, s)
    | (some full, h, s) => consume outlets next full h s
  | fanOut branches, b, h, s =>
    let (errors, h, s) := dispatch outlets (branches.all mutates) branches b h s
    (ConsumeError.join errors, h, s)

/-- Hands a batch to consumers in turn and collects their errors; `given` says whether the last one
gets the handle itself. -/
def dispatch (outlets : Outlets σ) (given : Bool) :
    List Consumer → Handle → Heap → σ → List ConsumeError × Heap × σ
  | [], b, h, s => ([], h.release b, s)
  | c :: rest, b, h, s =>
    if given && rest.isEmpty then
      let (outcome, h, s) := consume outlets c b h s
      (Outcome.errors outcome, h, s)
    else
      let ((b, own), h) := if c.mutates then h.duplicate b else h.share b
      let (outcome, h, s) := consume outlets c own h s
      let (errors, h, s) := dispatch outlets given rest b h s
      (Outcome.errors outcome ++ errors, h, s)

end

end Consumer

end Telemetry

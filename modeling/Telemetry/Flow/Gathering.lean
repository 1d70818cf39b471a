import Telemetry.Batch.Handle
import Telemetry.Component.Settings

/-!
# Gathering batches

Small batches are held back and merged until there are enough items, or until they have waited long
enough. What is held back is one batch, to which later ones are appended, and the number of items
in it.
-/

namespace Telemetry

/-- What is held back. -/
structure Gathering where
  /-- The merged batch. -/
  batch : Option Handle
  /-- The number of its items. -/
  items : Nat
deriving DecidableEq, Repr

namespace Gathering

/-- Nothing is held back. -/
def empty : Gathering := ⟨none, 0⟩

/-- Adds a batch to what is held back. -/
def push (g : Gathering) (b : Handle) (h : Heap) : Gathering × Heap :=
  let items := g.items + (h.read b).itemCount
  match g.batch with
  | none => (⟨some b, items⟩, h)
  | some pending =>
    let (merged, h) := h.merge pending b
    (⟨some merged, items⟩, h)

/-- Adds a batch; when that makes enough items the whole is given out and nothing is held back. -/
def offer (s : BatchSettings) (g : Gathering) (b : Handle) (h : Heap) :
    Option Handle × Gathering × Heap :=
  let (g, h) := g.push b h
  if s.sendBatchSize ≤ g.items then (g.batch, empty, h) else (none, g, h)

end Gathering

end Telemetry

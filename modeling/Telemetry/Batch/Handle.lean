import Telemetry.Batch.Request

/-!
# Handles onto batches

A batch is passed along as a handle onto a request in a heap. Several handles may refer to one
request, which counts its holders. Whoever changes a batch through a handle first gets a request of
its own if others hold it too, so that a change is never seen through another handle. A handle knows
whether it was last shared or last changed.
-/

namespace Telemetry

/-- A request with the number of handles that refer to it. -/
structure Cell where
  /-- The content. -/
  request : Request
  /-- The number of handles. -/
  holders : Nat

/-- The requests made so far, in the order they were made. -/
structure Heap where
  /-- The cells; the reference of a request is its position. -/
  cells : List Cell

/-- A handle onto a request. -/
structure Handle where
  /-- The reference of the request. -/
  ref : Nat
  /-- Whether the handle has been shared since it was last changed. -/
  shared : Bool
deriving DecidableEq, Repr

namespace Heap

/-- No requests. -/
def empty : Heap := ⟨[]⟩

/-- Makes a request with one handle onto it. -/
def new (r : Request) (h : Heap) : Handle × Heap :=
  (⟨h.cells.length, false⟩, ⟨h.cells ++ [⟨r, 1⟩]⟩)

/-- The content behind a handle. -/
def read (b : Handle) (h : Heap) : Request :=
  match h.cells[b.ref]? with
  | some c => c.request
  | none => .blank .logs

/-- The number of handles onto the request of a handle. -/
def holders (b : Handle) (h : Heap) : Nat :=
  match h.cells[b.ref]? with
  | some c => c.holders
  | none => 0

/-- Changes the cell of a handle. -/
def updateCell (b : Handle) (f : Cell → Cell) (h : Heap) : Heap :=
  ⟨h.cells.modify b.ref f⟩

/-- Gives a handle up. -/
def release (b : Handle) (h : Heap) : Heap :=
  h.updateCell b fun c => { c with holders := c.holders - 1 }

/-- Makes a second handle onto the same request; both are shared from then on. The first result
takes the place of the handle that was given. -/
def share (b : Handle) (h : Heap) : (Handle × Handle) × Heap :=
  let b : Handle := ⟨b.ref, true⟩
  ((b, b), h.updateCell b fun c => { c with holders := c.holders + 1 })

/-- Makes a handle onto a request of its own with the same content; the given one stays. -/
def copy (b : Handle) (h : Heap) : Handle × Heap := h.new (h.read b)

/-- A handle and a copy of it, like the two handles of a shared request. -/
def duplicate (b : Handle) (h : Heap) : (Handle × Handle) × Heap :=
  let (own, h) := h.copy b
  ((b, own), h)

/-- Makes sure that no other handle refers to the request of a handle; the result takes the place
of the handle that was given. -/
def own (b : Handle) (h : Heap) : Handle × Heap :=
  if h.holders b ≤ 1 then (⟨b.ref, false⟩, h)
  else
    let (fresh, h') := h.new (h.read b)
    (fresh, h'.release b)

/-- Changes the content behind a handle, which owns its request from then on. -/
def edit (b : Handle) (f : Request → Request) (h : Heap) : Handle × Heap :=
  let (b, h) := h.own b
  (b, h.updateCell b fun c => { c with request := f c.request })

/-- Gives a handle up for its content. -/
def take (b : Handle) (h : Heap) : Request × Heap := (h.read b, h.release b)

/-- Passes a handle on and leaves a handle onto a blank batch of the same type in its place. -/
def moveOut (b : Handle) (h : Heap) : (Handle × Handle) × Heap :=
  let (rest, h) := h.new (.blank (h.read b).type)
  ((b, rest), h)

/-- Appends the groups of one batch to another, giving the former up. The result takes the place of
the latter. -/
def merge (target source : Handle) (h : Heap) : Handle × Heap :=
  let (r, h) := h.take source
  h.edit target fun t => t.append r.groups

end Heap

/-- Names of handles that refer to one request, for each request that several of them refer to, in
the order of the first of them. -/
def sharedNames (handles : List (String × Handle)) : List (List String) :=
  let refs := handles.map fun e => e.2.ref
  refs.eraseDups.filterMap fun r =>
    let names := (handles.filter fun e => e.2.ref = r).map Prod.fst
    if names.length ≥ 2 then some names else none

end Telemetry

import Telemetry.Batch.Handle
import Telemetry.Table

/-!
# Named handles

A program of steps over handles that are kept under names, each step with a result. A step that
refers to a name under which nothing is kept does nothing.
-/

namespace Telemetry

/-- A step over named handles. -/
inductive SlotStep
  /-- Keeps a new batch under a name, or refuses bytes that are none. -/
  | load (slot : String) (content : Option Request)
  /-- Keeps a shared handle under a second name. -/
  | share (slot target : String)
  /-- Moves a handle to a second name and leaves a blank batch under the first. -/
  | move (slot target : String)
  /-- Keeps a copy of the content under a second name. -/
  | copy (slot target : String)
  /-- Appends the groups of a batch to a second one and gives the first up. -/
  | merge (slot target : String)
  /-- Gives a handle up for its content and makes a new one onto it. -/
  | rewrap (slot : String)
  /-- Changes the resource of every group, giving it one if it has none, and counts the attributes
  of each. -/
  | visit (slot : String) (f : Resource → Resource)
  /-- Changes the content behind a handle. -/
  | edit (slot : String) (f : Request → Request)
  /-- Gives a handle up. -/
  | drop (slot : String)
  /-- Compares two batches. -/
  | compare (slot target : String)
  /-- Counts items. -/
  | counts (slot : String)

namespace SlotStep

/-- Gives every group a resource and counts the attributes of each. -/
def resources (slot : String) : SlotStep := .visit slot id

/-- Appends a blank group. -/
def push (slot : String) : SlotStep := .edit slot fun r => r.append [.blank]

/-- Removes all groups. -/
def clear (slot : String) : SlotStep := .edit slot fun r => { r with groups := [] }

/-- Makes sure the handle owns its request. -/
def touch (slot : String) : SlotStep := .edit slot id

end SlotStep

/-- What a step finds out. -/
inductive SlotResult
  | done
  | refused
  | equal (yes : Bool)
  | attributes (counts : List Nat)
  | counts (content : Request)

/-- Handles under names, in the order of the names. -/
structure Slots where
  /-- The requests. -/
  heap : Heap
  /-- The handle under each name. -/
  handles : Table String Handle

namespace Slots

/-- Nothing is kept. -/
def empty : Slots := ⟨.empty, []⟩

/-- Puts a handle in the place of the one under a name. -/
def put (name : String) (b : Handle) (h : Heap) (s : Slots) : Slots :=
  ⟨h, s.handles.insert name b⟩

/-- Keeps a handle under a name and gives up the one that was there. -/
def keep (name : String) (b : Handle) (h : Heap) (s : Slots) : Slots :=
  match s.handles.get? name with
  | some old => s.put name b (h.release old)
  | none => s.put name b h

/-- Changes the content behind the handle under a name. -/
def edit (name : String) (f : Request → Request) (s : Slots) : Slots :=
  match s.handles.get? name with
  | none => s
  | some b => let (b, h) := s.heap.edit b f; s.put name b h

/-- Carries out a step that uses the handle under a name. -/
def stepWith (s : Slots) (name : String) (b : Handle) : SlotStep → SlotResult × Slots
  | .share _ target =>
    let ((b, twin), h) := s.heap.share b
    (.done, (s.put name b h).keep target twin h)
  | .move _ target =>
    let ((b, rest), h) := s.heap.moveOut b
    (.done, (s.put name rest h).keep target b h)
  | .copy _ target =>
    let (twin, h) := s.heap.copy b
    (.done, s.keep target twin h)
  | .merge _ target =>
    let others := s.handles.erase name
    let (into, h) := match others.get? target with
      | some into => (into, s.heap)
      | none => s.heap.new (.blank (s.heap.read b).type)
    let (into, h) := h.merge into b
    (.done, ⟨h, others.insert target into⟩)
  | .rewrap _ =>
    let (r, h) := s.heap.take b
    let (b, h) := h.new r
    (.done, s.put name b h)
  | .visit _ f =>
    let s := s.edit name (Request.mapResources f)
    let counts := (s.heap.read ((s.handles.get? name).getD b)).groups.map fun g =>
      (g.resource.getD .blank).attributes.length
    (.attributes counts, s)
  | .edit _ f => (.done, s.edit name f)
  | .drop _ => (.done, ⟨s.heap.release b, s.handles.erase name⟩)
  | .compare _ target =>
    match s.handles.get? target with
    | some c => (.equal ((s.heap.read b).equals (s.heap.read c)), s)
    | none => (.equal false, s)
  | .counts _ => (.counts (s.heap.read b), s)
  | .load .. => (.done, s)

/-- The name a step is about. -/
def slotOf : SlotStep → String
  | .load slot _ | .share slot _ | .move slot _ | .copy slot _ | .merge slot _ | .rewrap slot
  | .visit slot _ | .edit slot _ | .drop slot | .compare slot _ | .counts slot => slot

/-- Carries out a step. -/
def step (s : Slots) : SlotStep → SlotResult × Slots
  | .load _ none => (.refused, s)
  | .load slot (some r) => let (b, h) := s.heap.new r; (.done, s.keep slot b h)
  | other =>
    match s.handles.get? (slotOf other) with
    | some b => s.stepWith (slotOf other) b other
    | none => (.done, s)

end Slots

end Telemetry

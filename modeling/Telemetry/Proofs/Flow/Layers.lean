import Telemetry.Proofs.Flow.Custody

/-!
# Consumers that forward

A consumer forwards if it hands every batch it gets, changed by a function, to one further consumer:
it is made of layers around that consumer.
-/

namespace Telemetry

/-- What a consumer does to every batch before it hands it on. -/
inductive Layer
  /-- Nothing; it may say that batches are changed further on. -/
  | pass (mutates : Bool)
  /-- Changes the content. -/
  | edit (change : Request → Request)
  /-- Makes a batch with other content. -/
  | convert (change : Request → Request)

namespace Layer

/-- The layer around a consumer. -/
def wrap : Layer → Consumer → Consumer
  | pass mutates, next => .pass mutates next
  | edit change, next => .edit change next
  | convert change, next => .convert (fun _ r => some (change r)) next

/-- What a layer makes of a content. -/
def change : Layer → Request → Request
  | pass _ => id
  | edit change | convert change => change

/-- What a layer makes of a handle. -/
def carry : Layer → Handle → Heap → Handle × Heap
  | pass _, b, h => (b, h)
  | edit change, b, h => h.edit b change
  | convert change, b, h => (h.take b).2.new (change (h.take b).1)

variable {σ : Type} {outlets : Outlets σ} {b : Handle} {h : Heap} {s : σ} {refs : List Nat}

theorem consume_wrap (l : Layer) (next : Consumer) :
    (l.wrap next).consume outlets b h s =
      next.consume outlets (l.carry b h).1 (l.carry b h).2 s := by
  cases l <;> rw [wrap, Consumer.consume] <;> rfl

theorem exchanges_carry (l : Layer) (hCovers : h.Covers (b.ref :: refs)) :
    Heap.Exchanges refs l.change b h (l.carry b h).1 (l.carry b h).2 := by
  cases l with
  | pass mutates => exact ⟨hCovers, .refl _ _, rfl⟩
  | edit change => exact hCovers.exchanges_edit change
  | convert change => exact hCovers.exchanges_take_new change

/-- Layers around a consumer, the first outermost. -/
def wrapAll : List Layer → Consumer → Consumer
  | [], next => next
  | l :: layers, next => l.wrap (wrapAll layers next)

/-- What layers make of a content, one after the other. -/
def changeAll : List Layer → Request → Request
  | [] => id
  | l :: layers => changeAll layers ∘ l.change

/-- What layers make of a handle. -/
def carryAll : List Layer → Handle → Heap → Handle × Heap
  | [], b, h => (b, h)
  | l :: layers, b, h => carryAll layers (l.carry b h).1 (l.carry b h).2

theorem consume_wrapAll (layers : List Layer) (next : Consumer) :
    (wrapAll layers next).consume outlets b h s =
      next.consume outlets (carryAll layers b h).1 (carryAll layers b h).2 s := by
  induction layers generalizing b h with
  | nil => rfl
  | cons l layers ih => rw [wrapAll, consume_wrap, ih, carryAll]

theorem exchanges_carryAll (layers : List Layer) (hCovers : h.Covers (b.ref :: refs)) :
    Heap.Exchanges refs (changeAll layers) b h (carryAll layers b h).1 (carryAll layers b h).2 := by
  induction layers generalizing b h with
  | nil => exact ⟨hCovers, .refl _ _, rfl⟩
  | cons l layers ih =>
      have hFirst := exchanges_carry l hCovers
      exact hFirst.trans (ih hFirst.covers)

end Layer

/-- Whether a consumer hands every batch, changed by a function, to another consumer. -/
def Consumer.Forwards (c next : Consumer) : Prop := ∃ layers, c = Layer.wrapAll layers next

end Telemetry

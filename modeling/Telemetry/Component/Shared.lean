import Telemetry.Component.Lifecycle
import Telemetry.Table

/-!
# Shared components

One component may serve several signals. Whoever asks for the component of an id gets the one that
is there, or makes it. It is started by the first start and shut down by the first shutdown, after
which the next one who asks makes another.
-/

namespace Telemetry

/-- How far a shared component has come. -/
inductive SharedPhase
  | created
  | started
  | stopped
deriving DecidableEq, Repr

/-- A component and how far it has come. -/
structure SharedComponent (κ : Type) where
  /-- The id it was made for. -/
  id : ComponentId
  /-- The component. -/
  inner : κ
  /-- How far it has come. -/
  phase : SharedPhase

/-- The shared components of a factory. -/
structure SharedComponents (κ : Type) where
  /-- Every component made so far, by number. -/
  made : List (SharedComponent κ)
  /-- The component to be shared under an id, by number. -/
  live : Table ComponentId Nat

namespace SharedComponents

variable {σ κ : Type}

/-- Nothing was made. -/
def empty : SharedComponents κ := ⟨[], []⟩

/-- The number of the component to be shared under an id. -/
def get? (m : SharedComponents κ) (id : ComponentId) : Option Nat := m.live.get? id

/-- The number of ids with a component to be shared. -/
def size (m : SharedComponents κ) : Nat := m.live.length

/-- The component with a number. -/
def inner? (m : SharedComponents κ) (n : Nat) : Option κ := m.made[n]?.map SharedComponent.inner

/-- Changes the component with a number. -/
def modify (m : SharedComponents κ) (n : Nat) (f : SharedComponent κ → SharedComponent κ) :
    SharedComponents κ :=
  { m with made := m.made.modify n f }

/-- The number of the component to be shared under an id, which is made if there is none. When that
fails nothing is kept. -/
def getOrAdd (id : ComponentId) (create : σ → Except ComponentError κ × σ)
    (m : SharedComponents κ) (s : σ) : Except ComponentError Nat × SharedComponents κ × σ :=
  match m.get? id with
  | some n => (.ok n, m, s)
  | none =>
    match create s with
    | (.error e, s) => (.error e, m, s)
    | (.ok c, s) =>
      let n := m.made.length
      (.ok n, ⟨m.made ++ [⟨id, c, .created⟩], m.live.insert id n⟩, s)

/-- Starts the component with a number, unless it was started or shut down before. -/
def start (l : Lifecycle σ κ) (n : Nat) (m : SharedComponents κ) (s : σ) :
    Except ComponentError Unit × SharedComponents κ × σ :=
  match m.made[n]? with
  | some ⟨_, c, .created⟩ =>
    match l.start c s with
    | (.ok (), s) => (.ok (), m.modify n fun x => { x with phase := .started }, s)
    | (.error e, s) => (.error e, m, s)
  | _ => (.ok (), m, s)

/-- Shuts the component with a number down, unless that was done before. From then on it is not
shared any more. -/
def shutdown (l : Lifecycle σ κ) (n : Nat) (m : SharedComponents κ) (s : σ) :
    Except ComponentError Unit × SharedComponents κ × σ :=
  match m.made[n]? with
  | none | some ⟨_, _, .stopped⟩ => (.ok (), m, s)
  | some ⟨id, c, _⟩ =>
    let m := m.modify n fun x => { x with phase := .stopped }
    let (outcome, s) := l.shutdown c s
    (outcome, { m with live := m.live.erase id }, s)

end SharedComponents

end Telemetry

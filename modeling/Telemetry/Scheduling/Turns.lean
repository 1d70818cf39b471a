/-!
# Tasks that take turns

Tasks share a state and take turns on a clock that stands still while any of them can go on. A turn
is one step of a task; a task takes turn after turn until it must wait. Tasks that wait keep the
order in which they began to, and those that can go on again are served in that order. When all wait,
the clock may be set forward to the next time one of them is waiting for.
-/

namespace Telemetry.Scheduling

/-- What tasks do to a state. -/
structure Rules (σ τ : Type) where
  /-- Whether a task can take a turn, at a time. -/
  canGo : Nat → σ → τ → Bool
  /-- The times a task waits for. -/
  due : τ → List Nat
  /-- One turn of a task, at a time; a task that is over leaves nothing. -/
  turn : Nat → τ → σ → Option τ × σ

/-- A task with its place in the order of those that wait. -/
structure Placed (τ : Type) where
  /-- Tasks that began to wait earlier have smaller places. -/
  place : Nat
  /-- The task. -/
  task : τ

/-- A state, the time, and the tasks. -/
structure Turns (σ τ : Type) where
  /-- The time, in milliseconds. -/
  now : Nat
  /-- What the tasks share. -/
  state : σ
  /-- The tasks whose turn it is, in order. -/
  ready : List (Placed τ)
  /-- The tasks that wait, in the order of their places. -/
  waiting : List (Placed τ)
  /-- The next place. -/
  next : Nat

namespace Turns

variable {σ τ : Type}

/-- No tasks, at time zero. -/
def start (state : σ) : Turns σ τ := ⟨0, state, [], [], 0⟩

/-- Adds a task behind the others. -/
def spawn (t : Turns σ τ) (task : τ) : Turns σ τ :=
  { t with ready := t.ready ++ [⟨t.next, task⟩], next := t.next + 1 }

/-- Makes those tasks ready that wait and can go on. -/
def wake (rules : Rules σ τ) (t : Turns σ τ) : Turns σ τ :=
  let (go, stay) := t.waiting.partition fun p => rules.canGo t.now t.state p.task
  { t with ready := t.ready ++ go, waiting := stay }

/-- Puts a task among those that wait. -/
def insertPlaced (p : Placed τ) : List (Placed τ) → List (Placed τ)
  | [] => [p]
  | q :: rest => if p.place < q.place then p :: q :: rest else q :: insertPlaced p rest

/-- Serves a task that has those of `rest` behind it. If it cannot go on after all, it keeps its
place; otherwise it takes one turn, and stays in front if it can take another. -/
def serve (rules : Rules σ τ) (t : Turns σ τ) (p : Placed τ) (rest : List (Placed τ)) :
    Turns σ τ :=
  if rules.canGo t.now t.state p.task then
    let (outcome, s) := rules.turn t.now p.task t.state
    let place := t.next
    let t := { t with state := s, ready := rest, next := place + 1 }
    match outcome with
    | none => t.wake rules
    | some task =>
      let p : Placed τ := ⟨place, task⟩
      if rules.canGo t.now s task then
        let t := t.wake rules
        { t with ready := p :: t.ready }
      else { t with waiting := t.waiting ++ [p] }.wake rules
  else { t with ready := rest, waiting := insertPlaced p t.waiting }

/-- Serves tasks until all wait, or so many times. -/
def settle (rules : Rules σ τ) : Nat → Turns σ τ → Turns σ τ
  | 0, t => t
  | fuel + 1, t =>
    match t.ready with
    | [] => t
    | p :: rest => settle rules fuel (t.serve rules p rest)

/-- The first time after now, and at most `target`, that a task waits for. -/
def nextDue? (rules : Rules σ τ) (t : Turns σ τ) (target : Nat) : Option Nat :=
  ((t.waiting.flatMap fun p => rules.due p.task).filter fun d => t.now < d && d ≤ target).min?

/-- Sets the clock forward to a time, stopping at every time that a task waits for. -/
def advance (rules : Rules σ τ) (turns : Nat) : Nat → Nat → Turns σ τ → Turns σ τ
  | 0, _, t => t
  | fuel + 1, target, t =>
    match t.nextDue? rules target with
    | none => { t with now := max t.now target }
    | some d => advance rules turns fuel target (({ t with now := d }.wake rules).settle rules turns)

end Turns

end Telemetry.Scheduling

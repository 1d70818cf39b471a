import Mathlib.Logic.Function.Basic
import Telemetry.Component.Shared
import Telemetry.Proofs.Component.Lifecycle
import Telemetry.Proofs.Identity.Order

/-!
# Shared components under calls that take turns

Whoever asks for the component of an id, starts it or shuts it down goes on in steps, between which the
others go on. A start and a shutdown hold the lock of the component while it is being asked, so that there
is one of them at a time; the table of components to be shared is changed in one step each.
-/

namespace Telemetry

/-- Who holds the lock of a shared component. -/
inductive Hold
  | free
  /-- A start, while the component starts. -/
  | starting
  /-- A shutdown that has marked the component as stopped and not yet taken it out of the table. -/
  | leaving
  /-- A shutdown, while the component shuts down. -/
  | stopping
deriving DecidableEq

namespace Hold

/-- How far a component may have come while its lock is held. -/
def Fits : Hold → SharedPhase → Prop
  | free, _ => True
  | starting, phase => phase = .created
  | leaving, phase | stopping, phase => phase = .stopped

end Hold

/-- Shared components with the holders of their locks. -/
structure Sharing (κ : Type) where
  shared : SharedComponents κ
  holds : Nat → Hold

namespace Sharing

/-- What shows of a step. Components go by number. -/
inductive Event
  /-- Someone gets the component to be shared under an id. -/
  | obtained (id : ComponentId) (n : Nat)
  /-- A component could not be made. -/
  | refused (id : ComponentId) (e : ComponentError)
  /-- There is no component to be shared under an id. -/
  | missed (id : ComponentId)
  /-- A call returns without the component being asked. -/
  | passed (verb : Verb) (n : Nat)
  /-- The component is asked to start or to shut down. -/
  | begun (verb : Verb) (n : Nat)
  /-- The component answers. -/
  | ended (verb : Verb) (n : Nat) (outcome : Except ComponentError Unit)
  /-- A call is dropped before the component has answered. -/
  | dropped (verb : Verb) (n : Nat)
  /-- A shutdown marks the component as stopped. -/
  | marked (n : Nat)

variable {κ : Type}

/-- Nothing was made. -/
def fresh : Sharing κ := ⟨.empty, fun _ => .free⟩

/-- Says how far the component with a number has come. -/
def setPhase (w : Sharing κ) (n : Nat) (phase : SharedPhase) : Sharing κ :=
  { w with shared := w.shared.modify n fun x => { x with phase := phase } }

/-- Says who holds the lock of the component with a number. -/
def setHold (w : Sharing κ) (n : Nat) (hold : Hold) : Sharing κ :=
  { w with holds := Function.update w.holds n hold }

/-- Takes what is shared under an id out of the table. -/
def forget (w : Sharing κ) (id : ComponentId) : Sharing κ :=
  { w with shared := { w.shared with live := w.shared.live.erase id } }

/-- The steps of those who share components, and of the components they ask. -/
inductive Step : Sharing κ → Event → Sharing κ → Prop
  | ask {w : Sharing κ} {σ : Type} {create : σ → Except ComponentError κ × σ} {s s' : σ}
      {id : ComponentId} {n : Nat} {m : SharedComponents κ}
      (hAnswer : w.shared.getOrAdd id create s = (.ok n, m, s')) :
      Step w (.obtained id n) { w with shared := m }
  | askInVain {w : Sharing κ} {σ : Type} {create : σ → Except ComponentError κ × σ} {s s' : σ}
      {id : ComponentId} {e : ComponentError} {m : SharedComponents κ}
      (hAnswer : w.shared.getOrAdd id create s = (.error e, m, s')) :
      Step w (.refused id e) { w with shared := m }
  | find {w : Sharing κ} {id : ComponentId} {n : Nat} (hThere : w.shared.get? id = some n) :
      Step w (.obtained id n) w
  | miss {w : Sharing κ} {id : ComponentId} (hNone : w.shared.get? id = none) :
      Step w (.missed id) w
  | passStart {w : Sharing κ} {n : Nat} {x : SharedComponent κ}
      (hMade : w.shared.made[n]? = some x) (hFree : w.holds n = .free)
      (hLater : x.phase ≠ .created) : Step w (.passed .start n) w
  | beginStart {w : Sharing κ} {n : Nat} {x : SharedComponent κ}
      (hMade : w.shared.made[n]? = some x) (hFree : w.holds n = .free)
      (hCreated : x.phase = .created) : Step w (.begun .start n) (w.setHold n .starting)
  | endStart {w : Sharing κ} {n : Nat} (hHeld : w.holds n = .starting) :
      Step w (.ended .start n (.ok ())) ((w.setPhase n .started).setHold n .free)
  | failStart {w : Sharing κ} {n : Nat} (hHeld : w.holds n = .starting) (e : ComponentError) :
      Step w (.ended .start n (.error e)) (w.setHold n .free)
  | dropStart {w : Sharing κ} {n : Nat} (hHeld : w.holds n = .starting) :
      Step w (.dropped .start n) (w.setHold n .free)
  | passShutdown {w : Sharing κ} {n : Nat} {x : SharedComponent κ}
      (hMade : w.shared.made[n]? = some x) (hFree : w.holds n = .free)
      (hStopped : x.phase = .stopped) : Step w (.passed .shutdown n) w
  | mark {w : Sharing κ} {n : Nat} {x : SharedComponent κ}
      (hMade : w.shared.made[n]? = some x) (hFree : w.holds n = .free)
      (hRunning : x.phase ≠ .stopped) :
      Step w (.marked n) ((w.setPhase n .stopped).setHold n .leaving)
  | remove {w : Sharing κ} {n : Nat} {x : SharedComponent κ}
      (hMade : w.shared.made[n]? = some x) (hHeld : w.holds n = .leaving) :
      Step w (.begun .shutdown n) ((w.forget x.id).setHold n .stopping)
  | endShutdown {w : Sharing κ} {n : Nat} (hHeld : w.holds n = .stopping)
      (outcome : Except ComponentError Unit) :
      Step w (.ended .shutdown n outcome) (w.setHold n .free)
  | dropShutdown {w : Sharing κ} {n : Nat} (hHeld : w.holds n = .stopping) :
      Step w (.dropped .shutdown n) (w.setHold n .free)

/-- The runs from a state, with what showed of their steps, in order. -/
inductive Runs (origin : Sharing κ) : List Event → Sharing κ → Prop
  | refl : Runs origin [] origin
  | step {trace : List Event} {e : Event} {w w' : Sharing κ} (prior : Runs origin trace w)
      (last : Step w e w') : Runs origin (trace ++ [e]) w'

variable {w w' : Sharing κ} {n k : Nat} {x y : SharedComponent κ} {id : ComponentId} {hold : Hold}
  {phase : SharedPhase} {e f : Event} {trace : List Event}

@[simp] theorem shared_setHold : (w.setHold n hold).shared = w.shared := rfl

@[simp] theorem holds_setPhase : (w.setPhase n phase).holds = w.holds := rfl

@[simp] theorem made_forget : (w.forget id).shared.made = w.shared.made := rfl

@[simp] theorem holds_forget : (w.forget id).holds = w.holds := rfl

theorem holds_setHold : (w.setHold n hold).holds k = if k = n then hold else w.holds k :=
  Function.update_apply _ _ _ _

@[simp] theorem holds_setHold_self : (w.setHold n hold).holds n = hold := Function.update_self _ _ _

theorem getElem?_setPhase : (w.setPhase n phase).shared.made[k]? =
    w.shared.made[k]?.map fun x => if k = n then { x with phase := phase } else x := by
  rw [setPhase, SharedComponents.modify, List.getElem?_modify]
  by_cases hSame : n = k
  · subst hSame
    simp
  · simp [hSame, Ne.symm hSame]

@[simp] theorem setHold_setHold {last : Hold} : (w.setHold n hold).setHold n last = w.setHold n last := by
  rw [setHold, setHold, setHold, Function.update_idem]

@[simp] theorem setPhase_setHold :
    (w.setHold n hold).setPhase k phase = (w.setPhase k phase).setHold n hold := rfl

@[simp] theorem forget_setHold : (w.setHold n hold).forget id = (w.forget id).setHold n hold := rfl

theorem setHold_eq_self (hHeld : w.holds n = hold) : w.setHold n hold = w := by
  rw [setHold, ← hHeld, Function.update_eq_self]

theorem get?_forget_self : (w.forget id).shared.get? id = none := Table.get?_erase_self _ _

theorem get?_forget_of_ne {other : ComponentId} (hNe : other ≠ id) :
    (w.forget id).shared.get? other = w.shared.get? other := Table.get?_erase_of_ne hNe _

end Sharing

/-! ## Without a break -/

namespace SharedComponents

variable {σ κ : Type} {m m' : SharedComponents κ} {id : ComponentId} {n : Nat} {s s' : σ}
  {create : σ → Except ComponentError κ × σ}

theorem getOrAdd_of_some (hThere : m.get? id = some n) : m.getOrAdd id create s = (.ok n, m, s) := by
  rw [getOrAdd, hThere]

theorem getOrAdd_of_none {c : κ} (hNone : m.get? id = none) (hCreate : create s = (.ok c, s')) :
    m.getOrAdd id create s = (.ok m.made.length,
      ⟨m.made ++ [⟨id, c, .created⟩], m.live.insert id m.made.length⟩, s') := by
  rw [getOrAdd, hNone]
  simp only [hCreate]

/-- Either the component is there, or it was made now. -/
theorem getOrAdd_eq_ok (h : m.getOrAdd id create s = (.ok n, m', s')) :
    m.get? id = some n ∧ m' = m ∨ m.get? id = none ∧ n = m.made.length ∧
      ∃ c, m' = ⟨m.made ++ [⟨id, c, .created⟩], m.live.insert id n⟩ := by
  cases hGet : m.get? id with
  | some k =>
      rw [getOrAdd_of_some hGet] at h
      cases h
      exact .inl ⟨rfl, rfl⟩
  | none =>
      rcases hCreate : create s with ⟨e | c, s₁⟩
      · rw [getOrAdd, hGet] at h
        simp only [hCreate] at h
        cases h
      · rw [getOrAdd_of_none hGet hCreate] at h
        cases h
        exact .inr ⟨rfl, rfl, c, rfl⟩

theorem getOrAdd_eq_error {e : ComponentError} (h : m.getOrAdd id create s = (.error e, m', s')) :
    m' = m := by
  cases hGet : m.get? id with
  | some k =>
      rw [getOrAdd_of_some hGet] at h
      cases h
  | none =>
      rcases hCreate : create s with ⟨e | c, s₁⟩
      · rw [getOrAdd, hGet] at h
        simp only [hCreate] at h
        cases h
        rfl
      · rw [getOrAdd_of_none hGet hCreate] at h
        cases h

end SharedComponents

namespace Sharing

section Unbroken

variable {σ κ : Type} {w : Sharing κ} {n : Nat} {x : SharedComponent κ} {l : Lifecycle σ κ} {s s' : σ}
  {outcome : Except ComponentError Unit} {m : SharedComponents κ}

/-- A start that nobody disturbs does what the start of a shared component does. -/
theorem runs_start (hMade : w.shared.made[n]? = some x) (hFree : w.holds n = .free)
    (hStart : w.shared.start l n s = (outcome, m, s')) :
    ∃ trace, Runs w trace { w with shared := m } := by
  obtain ⟨id, c, phase⟩ := x
  rw [SharedComponents.start, hMade] at hStart
  cases phase with
  | created =>
      have hBegun : Runs w _ _ := .step .refl (.beginStart hMade hFree rfl)
      rcases hInner : l.start c s with ⟨e | ⟨⟩, s₁⟩
      · simp only [hInner] at hStart
        cases hStart
        have hEnded := hBegun.step (.failStart holds_setHold_self e)
        rw [setHold_setHold, setHold_eq_self hFree] at hEnded
        exact ⟨_, hEnded⟩
      · simp only [hInner] at hStart
        cases hStart
        have hEnded := hBegun.step (.endStart holds_setHold_self)
        rw [setPhase_setHold, setHold_setHold, ← setPhase_setHold, setHold_eq_self hFree] at hEnded
        exact ⟨_, hEnded⟩
  | started | stopped =>
      cases hStart
      exact ⟨_, .step .refl (.passStart hMade hFree nofun)⟩

/-- A shutdown that nobody disturbs does what the shutdown of a shared component does. -/
theorem runs_shutdown (hMade : w.shared.made[n]? = some x) (hFree : w.holds n = .free)
    (hShutdown : w.shared.shutdown l n s = (outcome, m, s')) :
    ∃ trace, Runs w trace { w with shared := m } := by
  obtain ⟨id, c, phase⟩ := x
  rw [SharedComponents.shutdown, hMade] at hShutdown
  cases phase with
  | stopped =>
      cases hShutdown
      exact ⟨_, .step .refl (.passShutdown hMade hFree rfl)⟩
  | created | started =>
      cases hShutdown
      have hMarked : Runs w _ _ := .step .refl (.mark hMade hFree nofun)
      have hRemoved := hMarked.step (.remove (n := n) (x := ⟨id, c, .stopped⟩)
        (by simp [getElem?_setPhase, hMade]) holds_setHold_self)
      have hEnded := hRemoved.step (.endShutdown holds_setHold_self (l.shutdown c s).1)
      rw [forget_setHold, setHold_setHold, setHold_setHold, ← forget_setHold, ← setPhase_setHold,
        setHold_eq_self hFree] at hEnded
      exact ⟨_, hEnded⟩

end Unbroken

end Sharing

end Telemetry

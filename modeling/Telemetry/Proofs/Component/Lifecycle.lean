import Mathlib.Data.List.Basic
import Telemetry.Component.Lifecycle

/-!
# The calls of a start and of a shutdown

Starts and shutdowns are written down with their outcomes. A start that fails is followed by the
shutdowns of all that was started, the last first, and of nothing else; a shutdown asks everything.
-/

namespace Telemetry

/-- What a part of a service is asked to do. -/
inductive Verb
  | start
  | shutdown

/-- A call to a part of a service, and how it ended. -/
structure Call where
  verb : Verb
  part : ServicePart
  outcome : Except ComponentError Unit

namespace Call

/-- The call without its outcome. -/
def asked (c : Call) : Verb × ServicePart := (c.verb, c.part)

/-- What a shutdown reports if it fails. -/
def shutdownError? (c : Call) : Option GraphError :=
  match c.outcome with
  | .ok () => none
  | .error e => some (.shutdown c.part e)

end Call

/-- A part whose component knows which part it is. -/
def Part.labelled {κ : Type} (p : Part κ) : Part (Part κ) := (p.1, p)

/-- The calls of a start: either every part starts, or one fails, and it and those started before it
are shut down, the last first. -/
inductive Startup (started parts : List ServicePart) : Except GraphError Unit → List Call → Prop
  | all : Startup started parts (.ok ()) (parts.map fun p => ⟨.start, p, .ok ()⟩)
  | failed {before after : List ServicePart} {p : ServicePart} {e : ComponentError}
      {shutdowns : List Call} (hParts : parts = before ++ p :: after)
      (hShutdowns : shutdowns.map Call.asked =
        (started ++ before ++ [p]).reverse.map fun q => (.shutdown, q)) :
      Startup started parts (.error (.start p e))
        (before.map (fun q => ⟨.start, q, .ok ()⟩) ++ ⟨.start, p, .error e⟩ :: shutdowns)

/-- One more part was started before the others. -/
theorem Startup.cons {started parts : List ServicePart} {p : ServicePart}
    {result : Except GraphError Unit} {calls : List Call}
    (h : Startup (started ++ [p]) parts result calls) :
    Startup started (p :: parts) result (⟨.start, p, .ok ()⟩ :: calls) := by
  cases h with
  | all => exact .all
  | @failed before after q e shutdowns hParts hShutdowns =>
      have hAll : p :: parts = (p :: before) ++ q :: after := by rw [hParts, List.cons_append]
      refine .failed hAll ?_
      simpa using hShutdowns

namespace Lifecycle

variable {σ κ : Type}

/-- Writes every call down. -/
def recorded (l : Lifecycle σ κ) : Lifecycle (σ × List Call) (Part κ) where
  start p s :=
    let (outcome, s') := l.start p.2 s.1
    (outcome, s', s.2 ++ [⟨.start, p.1, outcome⟩])
  shutdown p s :=
    let (outcome, s') := l.shutdown p.2 s.1
    (outcome, s', s.2 ++ [⟨.shutdown, p.1, outcome⟩])

theorem shutdownAll_cons (l : Lifecycle σ κ) (p : Part κ) (parts : List (Part κ)) (s : σ) :
    l.shutdownAll (p :: parts) s =
      ((Call.shutdownError? ⟨.shutdown, p.1, (l.shutdown p.2 s).1⟩).toList ++
        (l.shutdownAll parts (l.shutdown p.2 s).2).1, (l.shutdownAll parts (l.shutdown p.2 s).2).2) := by
  obtain ⟨part, c⟩ := p
  rw [shutdownAll]
  rcases l.shutdown c s with ⟨_ | _, s'⟩ <;> rfl

theorem shutdownAll_recorded (l : Lifecycle σ κ) (parts : List (Part κ)) (s : σ)
    (calls : List Call) : ∃ made : List Call,
      l.recorded.shutdownAll (parts.map Part.labelled) (s, calls) =
        ((l.shutdownAll parts s).1, (l.shutdownAll parts s).2, calls ++ made) ∧
      made.map Call.asked = parts.map (fun p => (.shutdown, p.1)) ∧
      (l.shutdownAll parts s).1 = made.filterMap Call.shutdownError? := by
  induction parts generalizing s calls with
  | nil => exact ⟨[], by simp [shutdownAll]⟩
  | cons p parts ih =>
      let call : Call := ⟨.shutdown, p.1, (l.shutdown p.2 s).1⟩
      obtain ⟨made, hMade, hAsked, hErrors⟩ := ih (l.shutdown p.2 s).2 (calls ++ [call])
      refine ⟨call :: made, ?_, ?_, ?_⟩
      · rw [List.append_assoc] at hMade
        rw [List.map_cons, shutdownAll_cons, shutdownAll_cons]
        change (_ ++ (l.recorded.shutdownAll _ ((l.shutdown p.2 s).2, calls ++ [call])).1,
          (l.recorded.shutdownAll _ ((l.shutdown p.2 s).2, calls ++ [call])).2) = _
        rw [hMade]
        rfl
      · simp [call, Call.asked, hAsked]
      · rw [shutdownAll_cons, hErrors, List.filterMap_cons]
        cases Call.shutdownError? call <;> rfl

theorem startAll_recorded (l : Lifecycle σ κ) (started parts : List (Part κ)) (s : σ)
    (calls : List Call) : ∃ made : List Call,
      l.recorded.startAll (started.map Part.labelled) (parts.map Part.labelled) (s, calls) =
        ((l.startAll started parts s).1, (l.startAll started parts s).2, calls ++ made) ∧
      Startup (started.map Prod.fst).reverse (parts.map Prod.fst) (l.startAll started parts s).1
        made := by
  induction parts generalizing started s calls with
  | nil => exact ⟨[], by simp [startAll], .all⟩
  | cons p parts ih =>
      obtain ⟨part, c⟩ := p
      rw [List.map_cons, Part.labelled, startAll, startAll]
      rcases hOutcome : l.start c s with ⟨outcome, s'⟩
      have hRecorded : l.recorded.start (part, c) (s, calls) =
          (outcome, s', calls ++ [⟨.start, part, outcome⟩]) := by simp [recorded, hOutcome]
      rw [hRecorded]
      cases outcome with
      | ok =>
          obtain ⟨made, hMade, hStartup⟩ :=
            ih ((part, c) :: started) s' (calls ++ [⟨.start, part, .ok ()⟩])
          refine ⟨⟨.start, part, .ok ()⟩ :: made, ?_, ?_⟩
          · rw [List.append_assoc] at hMade
            exact hMade
          · rw [List.map_cons, List.reverse_cons] at hStartup
            exact hStartup.cons
      | error e =>
          obtain ⟨made, hMade, hAsked, -⟩ :=
            l.shutdownAll_recorded ((part, c) :: started) s' (calls ++ [⟨.start, part, .error e⟩])
          refine ⟨⟨.start, part, .error e⟩ :: made, ?_, ?_⟩
          · rw [List.append_assoc] at hMade
            exact congrArg (fun r => (Except.error (GraphError.start part e), r.2)) hMade
          · have hFirst : ((part, c) :: parts).map Prod.fst = [] ++ part :: parts.map Prod.fst := rfl
            refine .failed hFirst ?_
            simp [hAsked, ← List.map_reverse]

end Lifecycle

end Telemetry

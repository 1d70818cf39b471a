import Telemetry.Proofs.Component.Sharing

/-!
# One instance for an id at a time

The table of components to be shared has, for each id, the one that is not stopped, if there is one. Only
while a shutdown is between its two steps is a stopped component still there. So what is obtained under an
id is the same component until that one is shut down, and no component is started twice, started after it
was shut down, or shut down twice.
-/

namespace Telemetry.Sharing

variable {κ : Type} {w w' w'' : Sharing κ} {n k : Nat} {x y : SharedComponent κ} {id : ComponentId}
  {hold : Hold} {phase : SharedPhase} {e f : Event} {trace : List Event}

/-- Whether a component is the one to be shared under an id: it is not stopped, or a shutdown is about to
take it out of the table. -/
def Keeps (w : Sharing κ) (id : ComponentId) (n : Nat) : Prop :=
  ∃ x, w.shared.made[n]? = some x ∧ x.id = id ∧ (x.phase = .stopped → w.holds n = .leaving)

/-- Whether a component is stopped and out of the table. -/
def Gone (w : Sharing κ) (n : Nat) : Prop :=
  ∃ x, w.shared.made[n]? = some x ∧ x.phase = .stopped ∧ w.holds n ≠ .leaving

/-- The table has what is to be shared, and a lock is held only while it has to be. -/
structure Sound (w : Sharing κ) : Prop where
  live : ∀ id n, w.shared.get? id = some n ↔ w.Keeps id n
  held : ∀ n, w.holds n = .free ∨ ∃ x, w.shared.made[n]? = some x ∧ (w.holds n).Fits x.phase

theorem sound_fresh : Sound (fresh : Sharing κ) where
  live _ _ := ⟨nofun, fun ⟨_, hMade, _⟩ => nomatch hMade⟩
  held _ := .inl rfl

theorem Sound.exists_of_held (h : Sound w) (hHeld : w.holds n = hold) (hNot : hold ≠ .free) :
    ∃ x, w.shared.made[n]? = some x ∧ hold.Fits x.phase := by
  subst hHeld
  exact (h.held n).resolve_left hNot

theorem Sound.stopped_of_leaving (h : Sound w) (hMade : w.shared.made[n]? = some x)
    (hHeld : w.holds n = .leaving) : x.phase = .stopped := by
  obtain ⟨y, hy, hStopped⟩ := h.exists_of_held hHeld nofun
  cases Option.some.inj (hMade.symm.trans hy)
  exact hStopped

theorem Sound.eq_of_keeps (h : Sound w) (hn : w.Keeps id n) (hk : w.Keeps id k) : n = k :=
  Option.some.inj (((h.live id n).mpr hn).symm.trans ((h.live id k).mpr hk))

/-! ## What a step does -/

/-- A component goes on, or the holder of its lock changes, while it stays in the table or out of it. -/
structure Turn (w : Sharing κ) (n : Nat) (x : SharedComponent κ) (phase : SharedPhase) (hold : Hold) :
    Prop where
  made : w.shared.made[n]? = some x
  fits : hold.Fits phase
  keeps : (phase = .stopped → hold = .leaving) ↔ (x.phase = .stopped → w.holds n = .leaving)
  begun : x.phase ≠ .created → phase ≠ .created

/-- What a step does to the components and their locks. -/
inductive Effect (w : Sharing κ) : Event → Sharing κ → Prop
  | same {e : Event} : Effect w e w
  | made {id : ComponentId} (hNone : w.shared.get? id = none) (c : κ) :
      Effect w (.obtained id w.shared.made.length) { w with
        shared := ⟨w.shared.made ++ [⟨id, c, .created⟩], w.shared.live.insert id w.shared.made.length⟩ }
  | turned {e : Event} {n : Nat} {x : SharedComponent κ} {phase : SharedPhase} {hold : Hold}
      (hTurn : w.Turn n x phase hold) : Effect w e ((w.setPhase n phase).setHold n hold)
  | removed {n : Nat} {x : SharedComponent κ} (hMade : w.shared.made[n]? = some x)
      (hHeld : w.holds n = .leaving) :
      Effect w (.begun .shutdown n) ((w.forget x.id).setHold n .stopping)

theorem setPhase_eq_self (hMade : w.shared.made[n]? = some x) : w.setPhase n x.phase = w := by
  have hSame : (w.setPhase n x.phase).shared.made = w.shared.made := by
    refine List.ext_getElem? fun k => ?_
    rw [getElem?_setPhase]
    by_cases hk : k = n
    · subst hk
      rw [hMade]
      simp
    · simp [hk]
  exact congrArg (fun made => (⟨⟨made, w.shared.live⟩, w.holds⟩ : Sharing κ)) hSame

/-- Only the holder of the lock changes. -/
theorem Effect.relocked (hMade : w.shared.made[n]? = some x) (hFits : hold.Fits x.phase)
    (hKeeps : x.phase = .stopped → (hold = .leaving ↔ w.holds n = .leaving)) :
    Effect w e (w.setHold n hold) := by
  have hTurn : w.Turn n x x.phase hold := ⟨hMade, hFits, imp_congr_right hKeeps, id⟩
  have hEffect : Effect w e ((w.setPhase n x.phase).setHold n hold) := .turned hTurn
  rwa [setPhase_eq_self hMade] at hEffect

theorem Step.effect (h : Sound w) (hStep : Step w e w') : Effect w e w' := by
  cases hStep with
  | ask hAnswer =>
      rcases SharedComponents.getOrAdd_eq_ok hAnswer with ⟨-, rfl⟩ | ⟨hNone, rfl, c, rfl⟩
      · exact .same
      · exact .made hNone c
  | askInVain hAnswer =>
      rw [SharedComponents.getOrAdd_eq_error hAnswer]
      exact .same
  | find | miss | passStart | passShutdown => exact .same
  | beginStart hMade hFree hCreated =>
      refine .relocked hMade hCreated fun hStopped => ?_
      rw [hCreated] at hStopped
      cases hStopped
  | endStart hHeld =>
      obtain ⟨x, hMade, hCreated⟩ := h.exists_of_held hHeld nofun
      refine .turned ⟨hMade, trivial, ?_, nofun⟩
      rw [show x.phase = .created from hCreated]
      exact iff_of_true nofun nofun
  | failStart hHeld | dropStart hHeld =>
      obtain ⟨x, hMade, hCreated⟩ := h.exists_of_held hHeld nofun
      refine .relocked hMade trivial fun hStopped => ?_
      rw [show x.phase = .created from hCreated] at hStopped
      cases hStopped
  | mark hMade hFree hRunning =>
      exact .turned ⟨hMade, rfl, iff_of_true (fun _ => rfl) fun hStopped => absurd hStopped hRunning, nofun⟩
  | remove hMade hHeld => exact .removed hMade hHeld
  | endShutdown hHeld | dropShutdown hHeld =>
      obtain ⟨x, hMade, -⟩ := h.exists_of_held hHeld nofun
      refine .relocked hMade trivial fun _ => ?_
      rw [hHeld]
      exact iff_of_false nofun nofun

namespace Effect

theorem getElem?_turned : ((w.setPhase n phase).setHold n hold).shared.made[k]? =
    w.shared.made[k]?.map fun x => if k = n then { x with phase := phase } else x := getElem?_setPhase

theorem keeps_turned_iff (hTurn : w.Turn n x phase hold) :
    ((w.setPhase n phase).setHold n hold).Keeps id k ↔ w.Keeps id k := by
  rw [Keeps, Keeps, getElem?_turned, holds_setHold]
  by_cases hk : k = n
  · subst hk
    simp [hTurn.made, hTurn.keeps]
  · simp [hk]

theorem getElem?_append_of_some {α : Type} {l l' : List α} {a : α} (h : l[k]? = some a) :
    (l ++ l')[k]? = some a := by
  rw [List.getElem?_append_left (List.getElem?_eq_some_iff.mp h).1, h]

theorem keeps_made_iff {c : κ} {other : ComponentId} :
    Keeps { w with shared := ⟨w.shared.made ++ [⟨id, c, .created⟩],
      w.shared.live.insert id w.shared.made.length⟩ } other k ↔
        k = w.shared.made.length ∧ other = id ∨ w.Keeps other k := by
  constructor
  · rintro ⟨x, hMade, hId, hKept⟩
    rw [List.getElem?_append, List.getElem?_singleton] at hMade
    split at hMade
    · exact .inr ⟨x, hMade, hId, hKept⟩
    · rename_i hLe
      obtain ⟨hPlace, hNew⟩ := Option.ite_none_right_eq_some.mp hMade
      cases hNew
      exact .inl ⟨by omega, hId.symm⟩
  · rintro (⟨rfl, rfl⟩ | ⟨x, hMade, hId, hKept⟩)
    · exact ⟨_, List.getElem?_concat_length, rfl, nofun⟩
    · exact ⟨x, getElem?_append_of_some hMade, hId, hKept⟩

theorem keeps_removed_iff (h : Sound w) (hMade : w.shared.made[n]? = some x) (hHeld : w.holds n = .leaving)
    {other : ComponentId} :
    ((w.forget x.id).setHold n .stopping).Keeps other k ↔ w.Keeps other k ∧ k ≠ n := by
  rw [Keeps, Keeps, holds_setHold]
  by_cases hk : k = n
  · subst hk
    have hStopped := h.stopped_of_leaving hMade hHeld
    simp [hMade, hStopped]
  · simp [hk]

theorem sound (hEffect : Effect w e w') (h : Sound w) : Sound w' := by
  cases hEffect with
  | same => exact h
  | @made id hNone c =>
      refine ⟨fun other k => ?live, fun k => ?held⟩
      case live =>
        rw [keeps_made_iff, ← h.live]
        by_cases hSame : other = id
        · subst hSame
          have hInsert : SharedComponents.get? ⟨w.shared.made ++ [⟨other, c, .created⟩],
              w.shared.live.insert other w.shared.made.length⟩ other = some w.shared.made.length :=
            Table.get?_insert_self _ _ _
          simp [hInsert, hNone, eq_comm]
        · have hInsert : SharedComponents.get? ⟨w.shared.made ++ [⟨id, c, .created⟩],
              w.shared.live.insert id w.shared.made.length⟩ other = w.shared.get? other :=
            Table.get?_insert_of_ne hSame _ _
          simp [hInsert, hSame]
      case held =>
        exact (h.held k).imp_right fun ⟨x, hMade, hFits⟩ => ⟨x, getElem?_append_of_some hMade, hFits⟩
  | @turned _ n x phase hold hTurn =>
      refine ⟨fun id k => ?live, fun k => ?held⟩
      case live =>
        rw [keeps_turned_iff hTurn, ← h.live]
        rfl
      case held =>
        rw [getElem?_turned, holds_setHold]
        by_cases hk : k = n
        · subst hk
          simpa [hTurn.made] using .inr hTurn.fits
        · simpa [hk] using h.held k
  | @removed n x hMade hHeld =>
      refine ⟨fun other k => ?live, fun k => ?held⟩
      case live =>
        have hKept : w.Keeps x.id n := ⟨x, hMade, rfl, fun _ => hHeld⟩
        rw [keeps_removed_iff h hMade hHeld, shared_setHold]
        by_cases hSame : other = x.id
        · subst hSame
          rw [get?_forget_self]
          exact iff_of_false nofun fun ⟨hk, hNe⟩ => hNe (h.eq_of_keeps hk hKept)
        · rw [get?_forget_of_ne hSame, h.live]
          refine ⟨fun hk => ⟨hk, ?_⟩, And.left⟩
          rintro rfl
          obtain ⟨y, hy, rfl, -⟩ := hk
          cases Option.some.inj (hMade.symm.trans hy)
          exact hSame rfl
      case held =>
        rw [holds_setHold, shared_setHold, made_forget]
        by_cases hk : k = n
        · subst hk
          rw [if_pos rfl]
          exact .inr ⟨x, hMade, h.stopped_of_leaving hMade hHeld⟩
        · simpa [hk] using h.held k

/-- What was made stays, and does not go back. -/
theorem made_later (hEffect : Effect w e w') (hMade : w.shared.made[k]? = some y) :
    ∃ z, w'.shared.made[k]? = some z ∧ z.id = y.id ∧ (y.phase ≠ .created → z.phase ≠ .created) := by
  cases hEffect with
  | same => exact ⟨y, hMade, rfl, id⟩
  | made hNone c => exact ⟨y, getElem?_append_of_some hMade, rfl, id⟩
  | removed hRemoved hHeld => exact ⟨y, hMade, rfl, id⟩
  | @turned _ n x phase hold hTurn =>
      rw [getElem?_turned, hMade]
      by_cases hk : k = n
      · subst hk
        cases Option.some.inj (hTurn.made.symm.trans hMade)
        simpa using hTurn.begun
      · simp [hk]

theorem gone_later (hEffect : Effect w e w') (hGone : w.Gone k) : w'.Gone k := by
  obtain ⟨y, hMade, hStopped, hOut⟩ := hGone
  cases hEffect with
  | same => exact ⟨y, hMade, hStopped, hOut⟩
  | made hNone c => exact ⟨y, getElem?_append_of_some hMade, hStopped, hOut⟩
  | removed hRemoved hHeld =>
      refine ⟨y, hMade, hStopped, ?_⟩
      rw [holds_setHold]
      split
      · exact nofun
      · exact hOut
  | @turned _ n x phase hold hTurn =>
      rw [Gone, getElem?_turned, holds_setHold]
      by_cases hk : k = n
      · subst hk
        cases Option.some.inj (hTurn.made.symm.trans hMade)
        have hNot := mt hTurn.keeps.mp fun hKept => hOut (hKept hStopped)
        simpa [hMade] using hNot
      · simpa [hk, hMade] using ⟨hStopped, hOut⟩

/-- A component leaves the table by its own shutdown only. -/
theorem entry_later (hEffect : Effect w e w') (h : Sound w) (hThere : w.shared.get? id = some k) :
    w'.shared.get? id = some k ∨ e = .begun .shutdown k := by
  cases hEffect with
  | same => exact .inl hThere
  | made hNone c =>
      refine .inl ((Table.get?_insert_of_ne ?_ _ _).trans hThere)
      rintro rfl
      rw [hNone] at hThere
      cases hThere
  | turned hTurn => exact .inl hThere
  | @removed n x hMade hHeld =>
      by_cases hSame : id = x.id
      · subst hSame
        have hKept : w.Keeps x.id n := ⟨x, hMade, rfl, fun _ => hHeld⟩
        rw [h.eq_of_keeps ((h.live _ _).mp hThere) hKept]
        exact .inr rfl
      · exact .inl ((get?_forget_of_ne hSame).trans hThere)

end Effect

theorem Step.sound (h : Sound w) (hStep : Step w e w') : Sound w' := (hStep.effect h).sound h

theorem sound_of_runs (hRuns : Runs fresh trace w) : Sound w := by
  induction hRuns with
  | refl => exact sound_fresh
  | step prior last ih => exact last.sound ih

/-! ## What has shown -/

/-- What an event says about the component it shows. -/
def Shows (w : Sharing κ) : Event → Prop
  | .obtained id n => ∃ x, w.shared.made[n]? = some x ∧ x.id = id
  | .ended .start n (.ok ()) => ∃ x, w.shared.made[n]? = some x ∧ x.phase ≠ .created
  | .begun .shutdown n => w.Gone n
  | _ => True

/-- One event bars another from coming later: a component starts successfully once, and once it is asked
to shut down it is asked for nothing more and is not obtained. -/
def Event.Bars : Event → Event → Prop
  | .ended .start n (.ok ()), .ended .start k (.ok ()) => n = k
  | .begun .shutdown n, .begun _ k => n = k
  | .begun .shutdown n, .obtained _ k => n = k
  | _, _ => False

theorem Effect.shows (hEffect : Effect w e w') (hShows : w.Shows f) : w'.Shows f := by
  unfold Shows at hShows ⊢
  split at hShows
  · obtain ⟨x, hMade, rfl⟩ := hShows
    obtain ⟨y, hLater, hId, -⟩ := hEffect.made_later hMade
    exact ⟨y, hLater, hId⟩
  · obtain ⟨x, hMade, hBegun⟩ := hShows
    obtain ⟨y, hLater, -, hPhase⟩ := hEffect.made_later hMade
    exact ⟨y, hLater, hPhase hBegun⟩
  · exact hEffect.gone_later hShows
  · trivial

/-- Whoever obtains a component obtains the one that is in the table then. -/
theorem Step.get?_of_obtained (hStep : Step w (.obtained id n) w') : w'.shared.get? id = some n := by
  cases hStep with
  | ask hAnswer =>
      rcases SharedComponents.getOrAdd_eq_ok hAnswer with ⟨hThere, rfl⟩ | ⟨-, -, c, rfl⟩
      · exact hThere
      · exact Table.get?_insert_self _ _ _
  | find hThere => exact hThere

theorem Step.shows (h : Sound w) (hStep : Step w e w') : w'.Shows e := by
  cases hStep with
  | ask hAnswer =>
      obtain ⟨x, hMade, hId, -⟩ := ((Step.ask hAnswer).sound h |>.live _ _).mp
        (Step.ask hAnswer).get?_of_obtained
      exact ⟨x, hMade, hId⟩
  | find hThere =>
      obtain ⟨x, hMade, hId, -⟩ := (h.live _ _).mp hThere
      exact ⟨x, hMade, hId⟩
  | endStart hHeld =>
      obtain ⟨x, hMade, -⟩ := h.exists_of_held hHeld nofun
      refine ⟨{ x with phase := .started }, ?_, nofun⟩
      rw [shared_setHold, getElem?_setPhase, hMade]
      simp
  | remove hMade hHeld =>
      refine ⟨_, hMade, h.stopped_of_leaving hMade hHeld, ?_⟩
      rw [holds_setHold_self]
      exact nofun
  | _ => trivial

theorem Step.not_bars (h : Sound w) (hShows : w.Shows f) (hStep : Step w e w') : ¬ f.Bars e := by
  intro hBars
  unfold Event.Bars at hBars
  split at hBars
  · subst hBars
    obtain ⟨x, hMade, hBegun⟩ := hShows
    cases hStep with
    | endStart hHeld =>
        obtain ⟨y, hy, hCreated⟩ := h.exists_of_held hHeld nofun
        cases Option.some.inj (hMade.symm.trans hy)
        exact hBegun hCreated
  · subst hBars
    obtain ⟨x, hMade, hStopped, hOut⟩ := hShows
    cases hStep with
    | beginStart hy hFree hCreated =>
        cases Option.some.inj (hMade.symm.trans hy)
        rw [hStopped] at hCreated
        cases hCreated
    | remove hy hHeld => exact hOut hHeld
  · subst hBars
    obtain ⟨x, hMade, hStopped, hOut⟩ := hStep.effect h |>.gone_later hShows
    obtain ⟨y, hy, -, hKept⟩ := ((hStep.sound h).live _ _).mp hStep.get?_of_obtained
    cases Option.some.inj (hMade.symm.trans hy)
    exact hOut (hKept hStopped)
  · exact hBars

theorem shows_of_runs (hRuns : Runs fresh trace w) : ∀ e ∈ trace, w.Shows e := by
  induction hRuns with
  | refl => exact List.forall_mem_nil _
  | step prior last ih =>
      have hSound := sound_of_runs prior
      intro e hMem
      rcases List.mem_append.mp hMem with hOld | hNew
      · exact (last.effect hSound).shows (ih e hOld)
      · cases List.mem_singleton.mp hNew
        exact last.shows hSound

theorem pairwise_of_runs (hRuns : Runs fresh trace w) : trace.Pairwise fun e f => ¬ e.Bars f := by
  induction hRuns with
  | refl => exact .nil
  | step prior last ih =>
      refine List.pairwise_append.mpr ⟨ih, List.pairwise_singleton _ _, fun e hOld f hNew => ?_⟩
      cases List.mem_singleton.mp hNew
      exact last.not_bars (sound_of_runs prior) (shows_of_runs prior e hOld)

/-- No event after another is barred by it. -/
theorem not_bars_of_runs {before after : List Event} (hRuns : Runs fresh trace w)
    (hTrace : trace = before ++ e :: after) (hLater : f ∈ after) : ¬ e.Bars f := by
  have hPairs := pairwise_of_runs hRuns
  rw [hTrace] at hPairs
  exact (List.pairwise_cons.mp (List.pairwise_append.mp hPairs).2.1).1 f hLater

/-- What was obtained under an id is in the table until it is asked to shut down. -/
theorem stays_of_runs (hRuns : Runs fresh trace w) {before after : List Event}
    (hTrace : trace = before ++ .obtained id n :: after) :
    w.shared.get? id = some n ∨ .begun .shutdown n ∈ after := by
  induction hRuns generalizing after with
  | refl => simp at hTrace
  | @step trace e w w' prior last ih =>
      rcases List.eq_nil_or_concat after with rfl | ⟨earlier, f, rfl⟩
      · obtain ⟨-, hLast⟩ := List.append_inj' hTrace rfl
        cases hLast
        exact .inl last.get?_of_obtained
      · rw [List.concat_eq_append, ← List.cons_append, ← List.append_assoc] at hTrace
        obtain ⟨hPrior, hLast⟩ := List.append_inj' hTrace rfl
        cases hLast
        rcases ih hPrior with hThere | hGone
        · refine ((last.effect (sound_of_runs prior)).entry_later (sound_of_runs prior) hThere).imp_right ?_
          rintro rfl
          simp
        · exact .inr (by simp [hGone])

/-- A run goes through each of its events. -/
theorem Runs.exists_step {before after : List Event} (hRuns : Runs fresh trace w)
    (hTrace : trace = before ++ e :: after) : ∃ w₁ w₂ : Sharing κ,
      Runs fresh before w₁ ∧ Step w₁ e w₂ := by
  induction hRuns generalizing after with
  | refl => simp at hTrace
  | @step trace f w w' prior last ih =>
      rcases List.eq_nil_or_concat after with rfl | ⟨earlier, f', rfl⟩
      · obtain ⟨rfl, hLast⟩ := List.append_inj' hTrace rfl
        cases hLast
        exact ⟨w, w', prior, last⟩
      · rw [List.concat_eq_append, ← List.cons_append, ← List.append_assoc] at hTrace
        exact ih (List.append_inj' hTrace rfl).1

theorem eq_of_obtained {before between after : List Event} (hRuns : Runs fresh trace w)
    (hTrace : trace = before ++ .obtained id k :: (between ++ .obtained id n :: after)) :
    n = k ∨ .begun .shutdown k ∈ between := by
  rw [← List.cons_append, ← List.append_assoc] at hTrace
  obtain ⟨w₁, w₂, prior, last⟩ := hRuns.exists_step hTrace
  refine (stays_of_runs prior rfl).imp_left fun hThere => ?_
  have hLater := (last.effect (sound_of_runs prior)).entry_later (sound_of_runs prior) hThere
  exact Option.some.inj (last.get?_of_obtained.symm.trans (hLater.resolve_right nofun))

/-- However calls take turns, a component starts successfully at most once, and once it is asked to shut
down it is asked for nothing more and nobody obtains it. Unless a shutdown is between its two steps, the
table has for an id just the component made for it that is not stopped. What is obtained under an id is the
same component until that one is asked to shut down; only this takes it out of the table, and then the next
one who asks makes another. -/
theorem instances_live_once (hRuns : Runs fresh trace w) :
    (∀ before after n, trace = before ++ .ended .start n (.ok ()) :: after →
      .ended .start n (.ok ()) ∉ after) ∧
    (∀ before after n, trace = before ++ .begun .shutdown n :: after →
      (∀ verb, .begun verb n ∉ after) ∧ ∀ id, .obtained id n ∉ after) ∧
    (∀ id, (∀ n x, w.shared.made[n]? = some x → w.holds n = .leaving → x.id ≠ id) →
      ∀ n, w.shared.get? id = some n ↔
        ∃ x, w.shared.made[n]? = some x ∧ x.id = id ∧ x.phase ≠ .stopped) ∧
    (∀ id n, w.shared.get? id = some n ↔ w.Keeps id n) ∧
    (∀ before between after id m n,
      trace = before ++ .obtained id m :: (between ++ .obtained id n :: after) →
        n = m ∨ .begun .shutdown m ∈ between) ∧
    (∀ e w' id n, Step w e w' → w.shared.get? id = some n →
      w'.shared.get? id = some n ∨ e = .begun .shutdown n) ∧
    (∀ n x w', w.shared.made[n]? = some x → Step w (.begun .shutdown n) w' →
      w'.shared.get? x.id = none) ∧
    ∀ {σ : Type} id (create : σ → Except ComponentError κ × σ) s s' c,
      w.shared.get? id = none → create s = (.ok c, s') →
        w.shared.getOrAdd id create s = (.ok w.shared.made.length,
          ⟨w.shared.made ++ [⟨id, c, .created⟩], w.shared.live.insert id w.shared.made.length⟩, s') ∧
        ∀ other, .obtained other w.shared.made.length ∉ trace := by
  have hSound := sound_of_runs hRuns
  refine ⟨?once, ?last, ?unique, hSound.live, fun _ _ _ _ _ _ => eq_of_obtained hRuns,
    ?entries, ?removed, ?fresh⟩
  case once => exact fun before after n hTrace hLater => not_bars_of_runs hRuns hTrace hLater rfl
  case last =>
    refine fun before after n hTrace => ⟨fun verb hLater => ?_, fun id hLater => ?_⟩
    · exact not_bars_of_runs hRuns hTrace hLater rfl
    · exact not_bars_of_runs hRuns hTrace hLater rfl
  case unique =>
    intro id hOutside n
    rw [hSound.live]
    refine exists_congr fun x => and_congr_right fun hMade => and_congr_right fun hId => ?_
    have hNot : w.holds n ≠ .leaving := fun hHeld => hOutside n x hMade hHeld hId
    exact ⟨fun hKept hStopped => hNot (hKept hStopped), fun hRunning hStopped => absurd hStopped hRunning⟩
  case entries => exact fun e w' id n hStep => (hStep.effect hSound).entry_later hSound
  case removed =>
    intro n x w' hMade hStep
    cases hStep with
    | remove hy hHeld =>
        cases Option.some.inj (hMade.symm.trans hy)
        exact get?_forget_self
  case fresh =>
    intro σ id create s s' c hNone hCreate
    refine ⟨SharedComponents.getOrAdd_of_none hNone hCreate, fun other hEarlier => ?_⟩
    obtain ⟨x, hMade, -⟩ := shows_of_runs hRuns _ hEarlier
    simp at hMade

theorem isTypeName_otlp : isTypeName "otlp".toList = true := by decide

def otlp : ComponentId := ⟨⟨"otlp", isTypeName_otlp⟩, none⟩

/-- A component is made, starts and is shut down, and another is made after it. -/
def renewed : List Event :=
  [.obtained otlp 0, .begun .start 0, .ended .start 0 (.ok ()), .marked 0, .begun .shutdown 0,
    .ended .shutdown 0 (.ok ()), .obtained otlp 1]

/-- A component that is always made. -/
def makes (c : Nat) (s : Unit) : Except ComponentError Nat × Unit := (.ok c, s)

theorem instances_live_once_renewed : ∃ w : Sharing Nat, Runs fresh renewed w ∧
    w.shared.get? otlp = some 1 ∧ w.Keeps otlp 1 ∧ ¬ w.Keeps otlp 0 := by
  have hFirst : (fresh : Sharing Nat).shared.getOrAdd otlp (makes 7) () = (.ok 0, _, ()) := rfl
  have hMade : Runs (fresh : Sharing Nat) [.obtained otlp 0] _ := .step .refl (.ask hFirst)
  have hBegun := hMade.step (.beginStart (n := 0) rfl rfl rfl)
  have hStarted := hBegun.step (.endStart (n := 0) rfl)
  have hMarked := hStarted.step (.mark (n := 0) rfl rfl nofun)
  have hRemoved := hMarked.step (.remove (n := 0) rfl rfl)
  have hStopped := hRemoved.step (.endShutdown (n := 0) rfl (.ok ()))
  have hRenewed := hStopped.step (.ask
    (show SharedComponents.getOrAdd otlp (makes 8) _ () = (.ok 1, _, ()) from rfl))
  obtain ⟨-, -, -, hLive, -⟩ := instances_live_once hRenewed
  refine ⟨_, hRenewed, rfl, (hLive otlp 1).mp rfl, fun hKept => ?_⟩
  have hOld := (hLive otlp 0).mpr hKept
  cases hOld

end Telemetry.Sharing

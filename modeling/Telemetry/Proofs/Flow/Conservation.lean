import Telemetry.Proofs.Flow.Batching

/-!
# No group is lost, doubled or out of place

However the tasks of a processor that holds batches back take turns, what was taken and what is still held
back is what was consumed, in order. Whoever takes what is held back hands it on unchanged.
-/

namespace Telemetry.Batching

variable {settings : BatchSettings} {type : BatchType} {w w' : Batching} {trace events : List Event}
  {h h' : Heap} {others others' : List Handle} {kept : List Nat} {k j : Nat} {t t' : Task}

/-! ## Who holds handles -/

/-- The handle that a task carries. -/
def Task.refs (t : Task) : List Nat :=
  match t.stage with
  | .carrying b => [b.ref]
  | _ => []

/-- The handles that tasks carry. -/
def carried (w : Batching) : List Nat := w.tasks.flatMap Task.refs

/-- All handles are counted. -/
def Covered (w : Batching) : Prop :=
  w.heap.Covers (w.others.map Handle.ref ++ (w.carried ++ w.held.refs))

theorem refs_middle_perm (before after : List Handle) (b : Handle) (kept : List Nat) :
    ((before ++ b :: after).map Handle.ref ++ kept).Perm
      (b.ref :: ((before ++ after).map Handle.ref ++ kept)) :=
  (List.perm_middle.map Handle.ref).append_right kept

theorem Move.settles (hMove : Move (h, others) (h', others'))
    (hCovers : h.Covers (others.map Handle.ref ++ kept)) :
    h'.Covers (others'.map Handle.ref ++ kept) ∧ Heap.Keeps kept h h' := by
  cases hMove with
  | make r =>
      refine ⟨(hCovers.new r).perm ?_, (hCovers.keeps_new r).subset (List.subset_append_right _ _)⟩
      have hLast := refs_middle_perm others [] (h.new r).1 kept
      rw [List.append_nil] at hLast
      exact hLast.symm
  | @share _ before after b =>
      have hShare := (hCovers.perm (refs_middle_perm _ _ _ _)).branches_share
      refine ⟨hShare.covers.perm ?_, hShare.keeps.subset fun k hk => ?_⟩
      · refine List.Perm.symm ((refs_middle_perm before _ _ _).trans ?_)
        rw [hShare.ref]
        exact ((refs_middle_perm _ _ _ _).cons _).trans (.swap _ _ _)
      · exact List.mem_cons_of_mem _ (List.mem_append_right _ hk)
  | @edit _ before after b f =>
      have hEdit := (hCovers.perm (refs_middle_perm _ _ _ _)).exchanges_edit f
      exact ⟨hEdit.covers.perm (refs_middle_perm _ _ _ _).symm,
        hEdit.keeps.subset (List.subset_append_right _ _)⟩
  | release => exact ⟨(hCovers.perm (refs_middle_perm _ _ _ _)).release, Heap.keeps_release⟩

theorem carried_concat : (w.tasks ++ [t]).flatMap Task.refs = w.carried ++ t.refs := by
  simp [carried]

theorem covered_fresh : Covered fresh := fun _ => Nat.zero_le _

/-- A task goes on, and what it carries and what is held back are the handles of before. -/
theorem Covered.set {held : Gathering} (hCovered : Covered w) (hTask : w.tasks[k]? = some t)
    (hHandles : (others.map Handle.ref ++ (t'.refs ++ held.refs)).Perm
      (w.others.map Handle.ref ++ (t.refs ++ w.held.refs))) :
    w.heap.Covers (others.map Handle.ref ++ ((w.tasks.set k t').flatMap Task.refs ++ held.refs)) := by
  obtain ⟨rest, hCarried, hSet⟩ := exists_flatMap_set_perm (f := Task.refs) hTask
  refine Heap.Covers.perm hCovered (List.perm_iff_count.mpr fun j => ?_)
  have hAll := hHandles.count_eq j
  have hOld := hCarried.count_eq j
  have hNew := (hSet t').count_eq j
  simp only [carried, List.count_append] at hAll hOld hNew ⊢
  omega

/-- A batch that is consumed is one of the handles of others. -/
theorem Covered.of_others {before after : List Handle} {b : Handle} (hCovered : Covered w)
    (hOthers : w.others = before ++ b :: after) :
    w.heap.Covers (b.ref :: (((before ++ after).map Handle.ref ++ w.carried) ++ w.held.refs)) := by
  rw [List.append_assoc]
  refine Heap.Covers.perm hCovered ?_
  rw [hOthers]
  exact refs_middle_perm _ _ _ _

/-- A batch that is consumed goes from the handles of others to what is held back or given out. -/
theorem Covered.offer {before after : List Handle} {b : Handle} {full : Option Handle} {held : Gathering}
    (hCovered : Covered w) (hOthers : w.others = before ++ b :: after)
    (hOffer : w.held.offer settings b w.heap = (full, held, h)) :
    h.Covers (full.toList.map Handle.ref ++
        (((before ++ after).map Handle.ref ++ w.carried) ++ held.refs)) ∧
      Heap.Keeps ((before ++ after).map Handle.ref ++ w.carried) w.heap h := by
  have hOffered := w.held.covers_offer settings (hCovered.of_others hOthers)
  rwa [hOffer] at hOffered

/-- What is held back is some batches joined, and so it is with one more. -/
theorem Covered.holds_push {before after : List Handle} {b : Handle} {rs : List Request}
    (hCovered : Covered w) (hHolds : w.held.Holds w.heap type rs) (hOthers : w.others = before ++ b :: after)
    (hType : (w.heap.read b).type = type) :
    (w.held.push b w.heap).1.Holds (w.held.push b w.heap).2 type (rs ++ [w.heap.read b]) :=
  Gathering.holds_push hHolds (hCovered.of_others hOthers) hType

theorem Step.covered (hStep : Step settings type w events w') (hCovered : Covered w) : Covered w' := by
  cases hStep with
  | move hMove => exact (hMove.settles hCovered).1
  | keep hOthers hType hOffer =>
      have hOffered := (hCovered.offer hOthers hOffer).1
      rw [Covered, carried, carried_concat]
      simpa [Task.refs] using hOffered
  | fill hOthers hType hOffer =>
      have hOffered := (hCovered.offer hOthers hOffer).1
      rw [Covered, carried, carried_concat]
      refine hOffered.perm (List.perm_iff_count.mpr fun j => ?_)
      simp [Task.refs, List.count_cons]
      omega
  | start | halt =>
      rw [Covered] at hCovered
      rw [Covered, carried, carried_concat]
      simpa [Task.refs] using hCovered
  | tick hTask hBatch | drain hTask hLeft hBatch =>
      exact hCovered.set hTask (by simp [Task.refs, Gathering.refs, Gathering.empty, hBatch])
  | tickIdle hTask hBatch => exact hCovered
  | leave hTask | drainIdle hTask | answer hTask | answerTimer hTask | answerShutdown hTask =>
      exact hCovered.set hTask (.refl _)
  | hand hTask => exact hCovered.set hTask (by simp [Task.refs])

/-- What tasks carry is not changed. -/
theorem Step.keeps_carried (hStep : Step settings type w events w') (hCovered : Covered w) :
    Heap.Keeps w.carried w.heap w'.heap := by
  cases hStep with
  | move hMove => exact (hMove.settles hCovered).2.subset (List.subset_append_left _ _)
  | keep hOthers hType hOffer | fill hOthers hType hOffer =>
      exact (hCovered.offer hOthers hOffer).2.subset (List.subset_append_right _ _)
  | _ => exact .refl _ _

/-! ## What was consumed and what was taken -/

namespace Event

/-- The batch that is added to what is held back. -/
@[simp] def pushes : Event → List Request
  | pushed _ r => [r]
  | _ => []

/-- The batch that is taken. -/
@[simp] def takes : Event → List Request
  | taken _ r => [r]
  | _ => []

/-- The task whose step shows. -/
@[simp] def task : Event → Nat
  | pushed k _ | taken k _ | handed k _ | answered k _ | returned k _ | halted k => k

end Event

/-- What was consumed falls into runs of batches: those that were taken, each joined to one, and those that
are held back. -/
def Accounted (type : BatchType) (trace : List Event) (w : Batching) : Prop :=
  ∃ parts rest, trace.flatMap Event.pushes = List.flatten parts ++ rest ∧
    trace.flatMap Event.takes = parts.map (Request.joined type) ∧ w.held.Holds w.heap type rest

theorem accounted_fresh : Accounted type [] fresh := ⟨[], [], rfl, rfl, Gathering.holds_empty _ _⟩

namespace Accounted

/-- Nothing is added or taken. -/
theorem stay (hAccounted : Accounted type trace w) (hPushes : events.flatMap Event.pushes = [])
    (hTakes : events.flatMap Event.takes = []) (hHeld : w'.held = w.held)
    (hKeeps : Heap.Keeps w.held.refs w.heap w'.heap) : Accounted type (trace ++ events) w' := by
  obtain ⟨parts, rest, hPushed, hTaken, hHolds⟩ := hAccounted
  refine ⟨parts, rest, ?_, ?_, ?_⟩
  · rw [List.flatMap_append, hPushes, List.append_nil, hPushed]
  · rw [List.flatMap_append, hTakes, List.append_nil, hTaken]
  · rw [hHeld]
    exact hHolds.congr hKeeps

/-- All that is held back is taken. -/
theorem take {b : Handle} (hAccounted : Accounted type trace w) (hBatch : w.held.batch = some b)
    (hHeld : w'.held = .empty) : Accounted type (trace ++ [.taken k (w.heap.read b)]) w' := by
  obtain ⟨parts, rest, hPushed, hTaken, hHolds⟩ := hAccounted
  refine ⟨parts ++ [rest], [], ?_, ?_, ?_⟩
  · simp [hPushed]
  · simp [hTaken, (hHolds.read_eq hBatch).1]
  · rw [hHeld]
    exact Gathering.holds_empty _ _

end Accounted

theorem Step.accounted (hStep : Step settings type w events w') (hCovered : Covered w)
    (hAccounted : Accounted type trace w) : Accounted type (trace ++ events) w' := by
  cases hStep with
  | move hMove =>
      exact hAccounted.stay rfl rfl rfl ((hMove.settles hCovered).2.subset (List.subset_append_right _ _))
  | @keep before after b held h hOthers hType hOffer =>
      obtain ⟨parts, rest, hPushed, hTaken, hHolds⟩ := hAccounted
      have hPush := hCovered.holds_push hHolds hOthers hType
      rw [(Gathering.offer_eq_none hOffer).1] at hPush
      exact ⟨parts, rest ++ [w.heap.read b], by simp [hPushed], by simp [hTaken], hPush⟩
  | @fill before after b full held h hOthers hType hOffer =>
      obtain ⟨parts, rest, hPushed, hTaken, hHolds⟩ := hAccounted
      have hPush := hCovered.holds_push hHolds hOthers hType
      obtain ⟨rfl, items, hOffered, -⟩ := Gathering.offer_eq_some hOffer
      rw [hOffered] at hPush
      refine ⟨parts ++ [rest ++ [w.heap.read b]], [], by simp [hPushed], ?_, Gathering.holds_empty _ _⟩
      simp [hTaken, (hPush.read_eq rfl).1]
  | tick hTask hBatch | drain hTask hLeft hBatch => exact hAccounted.take hBatch rfl
  | _ => exact hAccounted.stay rfl rfl rfl (.refl _ _)

/-! ## What each task does -/

/-- What shows of a task that takes what is held back, hands it on and is answered, any number of times. -/
def Rounds (k : Nat) (es : List Event) : Prop :=
  ∃ rounds : List (Request × Outcome),
    es = rounds.flatMap fun x => [.taken k x.1, .handed k x.1, .answered k x.2]

/-- What showed of a task that has come so far. What it hands on is what it has taken, and a call that
consumed a batch returns what the next consumer answers. -/
def Told (k : Nat) (h : Heap) : Option Task → List Event → Prop
  | none, es => es = []
  | some ⟨.consume, .waiting⟩, _ => False
  | some ⟨.consume, .carrying b⟩, es => ∃ r, es = [.pushed k r, .taken k (h.read b)]
  | some ⟨.consume, .awaiting⟩, es => ∃ r c, es = [.pushed k r, .taken k c, .handed k c]
  | some ⟨.consume, .over⟩, es => ∃ r, es = [.pushed k r, .returned k (.ok ())] ∨
      ∃ c outcome, es =
        [.pushed k r, .taken k c, .handed k c, .answered k outcome, .returned k outcome]
  | some ⟨.timer, .waiting⟩, es | some ⟨.timer, .over⟩, es => Rounds k es
  | some ⟨.timer, .carrying b⟩, es => ∃ es', Rounds k es' ∧ es = es' ++ [.taken k (h.read b)]
  | some ⟨.timer, .awaiting⟩, es => ∃ es' c, Rounds k es' ∧ es = es' ++ [.taken k c, .handed k c]
  | some ⟨.shutdown _, .waiting⟩, es => es = [.halted k]
  | some ⟨.shutdown _, .carrying b⟩, es => es = [.halted k, .taken k (h.read b)]
  | some ⟨.shutdown _, .awaiting⟩, es => ∃ c, es = [.halted k, .taken k c, .handed k c]
  | some ⟨.shutdown _, .over⟩, es => es = [.halted k, .returned k (.ok ())] ∨
      ∃ c outcome, es =
        [.halted k, .taken k c, .handed k c, .answered k outcome, .returned k (.ok ())]

/-- What showed of the steps of a task. -/
def told (k : Nat) (trace : List Event) : List Event := trace.filter fun e => e.task = k

theorem told_append (k : Nat) (trace events : List Event) :
    told k (trace ++ events) = told k trace ++ told k events := List.filter_append ..

theorem told_eq_self (hEvents : ∀ e ∈ events, e.task = k) : told k events = events :=
  List.filter_eq_self.mpr fun e he => decide_eq_true (hEvents e he)

theorem told_eq_nil (hEvents : ∀ e ∈ events, e.task = k) (hNe : j ≠ k) : told j events = [] :=
  List.filter_eq_nil_iff.mpr fun e he hSame =>
    hNe ((of_decide_eq_true hSame).symm.trans (hEvents e he))

theorem Told.congr {o : Option Task} {es : List Event} (hTold : Told k h o es)
    (hKeeps : Heap.Keeps (o.elim [] Task.refs) h h') : Told k h' o es := by
  rcases o with _ | ⟨role, _ | b | _ | _⟩
  case none => exact hTold
  case some.carrying =>
    have hRead : h'.read b = h.read b := Heap.read_congr (hKeeps b.ref List.mem_cons_self)
    cases role <;> simpa only [Told, hRead] using hTold
  all_goals cases role <;> exact hTold

/-- What showed of each task is what a task shows that has come so far. -/
def Tales (trace : List Event) (w : Batching) : Prop := ∀ k, Told k w.heap w.tasks[k]? (told k trace)

namespace Tales

theorem refs_subset_carried {o : Option Task} (hTask : w.tasks[k]? = o) :
    o.elim [] Task.refs ⊆ w.carried := by
  subst hTask
  intro j hj
  cases hTask : w.tasks[k]? with
  | none => simp [hTask] at hj
  | some t =>
      rw [hTask] at hj
      exact List.mem_flatMap.mpr ⟨t, List.mem_of_getElem? hTask, hj⟩

/-- One task goes on. -/
theorem set (hTales : Tales trace w) (hKeeps : Heap.Keeps w.carried w.heap w'.heap)
    (hTask : w.tasks[k]? = some t) (hTasks : w'.tasks = w.tasks.set k t')
    (hEvents : ∀ e ∈ events, e.task = k)
    (hTold : Told k w.heap (some t) (told k trace) → Told k w'.heap (some t') (told k trace ++ events)) :
    Tales (trace ++ events) w' := by
  intro j
  have hOld := hTales j
  rw [hTasks, told_append]
  by_cases hj : j = k
  · subst hj
    rw [hTask] at hOld
    rw [List.getElem?_set_self (List.getElem?_eq_some_iff.mp hTask).1, told_eq_self hEvents]
    exact hTold hOld
  · rw [List.getElem?_set_ne (Ne.symm hj), told_eq_nil hEvents hj, List.append_nil]
    exact hOld.congr (hKeeps.subset (refs_subset_carried rfl))

/-- One more task comes. -/
theorem concat (hTales : Tales trace w) (hKeeps : Heap.Keeps w.carried w.heap w'.heap)
    (hTasks : w'.tasks = w.tasks ++ [t]) (hEvents : ∀ e ∈ events, e.task = w.tasks.length)
    (hTold : Told w.tasks.length w'.heap (some t) events) : Tales (trace ++ events) w' := by
  intro j
  have hOld := hTales j
  rw [hTasks, told_append]
  by_cases hj : j = w.tasks.length
  · subst hj
    rw [List.getElem?_eq_none (Nat.le_refl _)] at hOld
    rw [List.getElem?_concat_length, show told _ trace = [] from hOld, told_eq_self hEvents]
    exact hTold
  · have hSame : (w.tasks ++ [t])[j]? = w.tasks[j]? := by
      rw [List.getElem?_append, List.getElem?_singleton]
      split
      · rfl
      · rename_i hLe
        rw [if_neg (by omega), List.getElem?_eq_none (Nat.le_of_not_lt hLe)]
    rw [hSame, told_eq_nil hEvents hj, List.append_nil]
    exact hOld.congr (hKeeps.subset (refs_subset_carried rfl))

/-- No task goes on. -/
theorem stay (hTales : Tales trace w) (hKeeps : Heap.Keeps w.carried w.heap w'.heap)
    (hTasks : w'.tasks = w.tasks) : Tales (trace ++ []) w' := by
  intro j
  rw [hTasks, List.append_nil]
  exact (hTales j).congr (hKeeps.subset (refs_subset_carried rfl))

end Tales

theorem Step.tales (hStep : Step settings type w events w') (hCovered : Covered w)
    (hTales : Tales trace w) : Tales (trace ++ events) w' := by
  have hKeeps := hStep.keeps_carried hCovered
  cases hStep with
  | move hMove => exact hTales.stay hKeeps rfl
  | tickIdle hTask hBatch => exact hTales.stay hKeeps rfl
  | keep hOthers hType hOffer => exact hTales.concat hKeeps rfl (by simp) ⟨_, .inl rfl⟩
  | fill hOthers hType hOffer => exact hTales.concat hKeeps rfl (by simp) ⟨_, rfl⟩
  | start => exact hTales.concat hKeeps rfl (by simp) ⟨[], rfl⟩
  | halt => exact hTales.concat hKeeps rfl (by simp) rfl
  | tick hTask hBatch =>
      exact hTales.set hKeeps hTask rfl (by simp) fun hTold => ⟨_, hTold, rfl⟩
  | leave hTask hStopped =>
      exact hTales.set hKeeps hTask rfl (by simp) fun hTold => by rwa [List.append_nil]
  | drain hTask hLeft hBatch =>
      refine hTales.set hKeeps hTask rfl (by simp) fun hTold => ?_
      rw [show told _ trace = _ from hTold]
      exact rfl
  | drainIdle hTask hLeft hBatch =>
      refine hTales.set hKeeps hTask rfl (by simp) fun hTold => ?_
      rw [show told _ trace = _ from hTold]
      exact .inl rfl
  | @hand k role b hTask =>
      refine hTales.set hKeeps hTask rfl (by simp) fun hTold => ?_
      cases role with
      | consume =>
          obtain ⟨r, hTrace⟩ := hTold
          exact ⟨r, w.heap.read b, by rw [hTrace]; rfl⟩
      | timer =>
          obtain ⟨es, hRounds, hTrace⟩ := hTold
          exact ⟨es, w.heap.read b, hRounds, by rw [hTrace]; simp⟩
      | shutdown timer => exact ⟨w.heap.read b, by rw [show told k trace = _ from hTold]; rfl⟩
  | answer hTask outcome =>
      refine hTales.set hKeeps hTask rfl (by simp) fun hTold => ?_
      obtain ⟨r, c, hTrace⟩ := hTold
      exact ⟨r, .inr ⟨c, outcome, by rw [hTrace]; rfl⟩⟩
  | answerTimer hTask outcome =>
      refine hTales.set hKeeps hTask rfl (by simp) fun hTold => ?_
      obtain ⟨es, c, ⟨rounds, hRounds⟩, hTrace⟩ := hTold
      exact ⟨rounds ++ [(c, outcome)], by simp [hTrace, hRounds]⟩
  | answerShutdown hTask outcome =>
      refine hTales.set hKeeps hTask rfl (by simp) fun hTold => ?_
      obtain ⟨c, hTrace⟩ := hTold
      exact .inr ⟨c, outcome, by rw [hTrace]; rfl⟩

/-! ## After a shutdown -/

/-- A shutdown is yet to take what is held back, or nothing is held back, as long as nothing is added. -/
def Emptied (trace : List Event) (w : Batching) : Prop :=
  ∀ before after k, trace = before ++ .halted k :: after → after.flatMap Event.pushes = [] →
    (∃ timer, w.tasks[k]? = some ⟨.shutdown timer, .waiting⟩) ∨ w.held.batch = none

/-- An event of a longer list is in the first part or in the second. -/
theorem append_eq_append_cons {e : Event} {before after : List Event}
    (hTrace : trace ++ events = before ++ e :: after) :
    (∃ after', trace = before ++ e :: after' ∧ after = after' ++ events) ∨
      ∃ before', events = before' ++ e :: after := by
  rcases List.append_eq_append_iff.mp hTrace with ⟨before', -, hEvents⟩ | ⟨rest, hPrior, hRest⟩
  · exact .inr ⟨before', hEvents⟩
  · cases rest with
    | nil => exact .inr ⟨[], hRest.symm⟩
    | cons f after' =>
        obtain ⟨rfl, rfl⟩ := List.cons.inj hRest
        exact .inl ⟨after', hPrior, rfl⟩

/-- A shutdown that waits goes on waiting when another task goes on. -/
theorem waiting_set {timer : Option Nat} (hWaiting : w.tasks[k]? = some ⟨.shutdown timer, .waiting⟩)
    (hTask : w.tasks[j]? = some t) (hOther : t ≠ ⟨.shutdown timer, .waiting⟩) :
    (w.tasks.set j t')[k]? = some ⟨.shutdown timer, .waiting⟩ := by
  have hNe : j ≠ k := by
    rintro rfl
    exact hOther (Option.some.inj (hTask.symm.trans hWaiting))
  rw [List.getElem?_set_ne hNe, hWaiting]

theorem waiting_concat {timer : Option Nat} (hWaiting : w.tasks[k]? = some ⟨.shutdown timer, .waiting⟩) :
    (w.tasks ++ [t])[k]? = some ⟨.shutdown timer, .waiting⟩ := by
  rw [List.getElem?_append_left (List.getElem?_eq_some_iff.mp hWaiting).1, hWaiting]

theorem Step.emptied (hStep : Step settings type w events w') (hEmptied : Emptied trace w) :
    Emptied (trace ++ events) w' := by
  intro before after k hTrace hNone
  rcases append_eq_append_cons hTrace with ⟨after', hPrior, rfl⟩ | ⟨before', hEvents⟩
  · rw [List.flatMap_append, List.append_eq_nil_iff] at hNone
    have hOld := hEmptied before after' k hPrior hNone.1
    cases hStep with
    | move | tickIdle => exact hOld
    | keep | fill => simp at hNone
    | start | halt => exact hOld.imp_left fun ⟨timer, hWaiting⟩ => ⟨timer, waiting_concat hWaiting⟩
    | tick | drain => exact .inr rfl
    | drainIdle hTask hLeft hBatch => exact .inr hBatch
    | leave hTask | hand hTask | answer hTask | answerTimer hTask | answerShutdown hTask =>
        exact hOld.imp_left fun ⟨timer, hWaiting⟩ => ⟨timer, waiting_set hWaiting hTask nofun⟩
  · have hHalted : .halted k ∈ events := by simp [hEvents]
    cases hStep with
    | halt =>
        obtain rfl : k = w.tasks.length := by simpa using hHalted
        exact .inl ⟨w.timer, List.getElem?_concat_length⟩
    | _ => simp at hHalted

/-! ## Runs -/

/-- What holds at all times. -/
structure Sound (type : BatchType) (trace : List Event) (w : Batching) : Prop where
  covered : Covered w
  accounted : Accounted type trace w
  tales : Tales trace w
  emptied : Emptied trace w

theorem sound_of_runs (hRuns : Runs settings type fresh trace w) : Sound type trace w := by
  induction hRuns with
  | refl => exact ⟨covered_fresh, accounted_fresh, fun _ => rfl, by simp [Emptied]⟩
  | step prior last ih =>
      exact ⟨last.covered ih.covered, last.accounted ih.covered ih.accounted,
        last.tales ih.covered ih.tales, last.emptied ih.emptied⟩

/-- Where a batch is consumed, all that is held back is given out if there are enough items then. -/
theorem Step.consumed {r : Request} (hStep : Step settings type w events w') (hSound : Sound type trace w)
    (hPushed : .pushed k r ∈ events) :
    (settings.sendBatchSize ≤ w.held.items + r.itemCount → ∃ c, events = [.pushed k r, .taken k c] ∧
      c.groups = w.held.groups w.heap ++ r.groups ∧ w'.held = .empty) ∧
    (w.held.items + r.itemCount < settings.sendBatchSize →
      events = [.pushed k r, .returned k (.ok ())] ∧
        w'.held.groups w'.heap = w.held.groups w.heap ++ r.groups) := by
  obtain ⟨parts, rest, -, -, hHolds⟩ := hSound.accounted
  have hGroups := hHolds.groups_eq
  cases hStep with
  | @keep before after b held h hOthers hType hOffer =>
      obtain ⟨rfl, rfl⟩ : k = w.tasks.length ∧ r = w.heap.read b := by simpa using hPushed
      have hPush := hSound.covered.holds_push hHolds hOthers hType
      obtain ⟨hOffered, hFew⟩ := Gathering.offer_eq_none hOffer
      have hItems := Gathering.items_push (g := w.held) (b := b) (h := w.heap)
      rw [hOffered] at hPush hItems
      refine ⟨fun hEnough => absurd (hItems ▸ hFew) (Nat.not_lt.mpr hEnough), fun _ => ⟨rfl, ?_⟩⟩
      rw [hPush.groups_eq, hGroups]
      simp
  | @fill before after b full held h hOthers hType hOffer =>
      obtain ⟨rfl, rfl⟩ : k = w.tasks.length ∧ r = w.heap.read b := by simpa using hPushed
      have hPush := hSound.covered.holds_push hHolds hOthers hType
      obtain ⟨rfl, items, hOffered, hEnough⟩ := Gathering.offer_eq_some hOffer
      have hItems := Gathering.items_push (g := w.held) (b := b) (h := w.heap)
      rw [hOffered] at hPush hItems
      refine ⟨fun _ => ⟨_, rfl, ?_, rfl⟩, fun hFew => absurd (hItems ▸ hEnough) (Nat.not_le.mpr hFew)⟩
      rw [(hPush.read_eq rfl).1, hGroups]
      simp [Request.joined]
  | _ => simp at hPushed

/-- What is read through other handles stays as it is, unless those who hold them change it. -/
theorem Step.read_eq {b : Handle} (hStep : Step settings type w events w') (hCovered : Covered w)
    (hShown : events ≠ []) (hOther : b ∈ w'.others) :
    w'.heap.read b = w.heap.read b := by
  cases hStep with
  | keep hOthers hType hOffer | fill hOthers hType hOffer =>
      refine Heap.read_congr ((hCovered.offer hOthers hOffer).2 _ (List.mem_append_left _ ?_))
      exact List.mem_map_of_mem hOther
  | move | start | tickIdle | leave => exact absurd rfl hShown
  | _ => rfl

/-- A shutdown that has returned has left nothing behind. -/
theorem Sound.held_eq_empty {before after : List Event} {outcome : Outcome} (hSound : Sound type trace w)
    (hTrace : trace = before ++ .halted k :: after) (hNone : after.flatMap Event.pushes = [])
    (hReturned : .returned k outcome ∈ after) : w.held = .empty := by
  have hBatch : w.held.batch = none := by
    refine (hSound.emptied before after k hTrace hNone).resolve_left fun ⟨timer, hWaiting⟩ => ?_
    have hTold := hSound.tales k
    rw [hWaiting] at hTold
    change told k trace = [.halted k] at hTold
    have hMem : .returned k outcome ∈ told k trace :=
      List.mem_filter.mpr ⟨by simp [hTrace, hReturned], by simp⟩
    rw [hTold] at hMem
    simp at hMem
  obtain ⟨parts, rest, -, -, hHolds⟩ := hSound.accounted
  have hItems := hHolds.items_eq
  rw [hBatch] at hItems
  rw [show w.held = ⟨w.held.batch, w.held.items⟩ from rfl, hBatch, hItems]
  rfl

/-- However tasks take turns, the batches that are taken, and after them what is held back, are the batches
consumed, in order, each joined from whole ones. Every task hands on what it takes, and a call that makes
enough items takes all and returns what the next consumer answers. After the last shutdown nothing is held
back if nothing is added, and no step of a task changes what others read. -/
theorem batches_conserved (hRuns : Runs settings type fresh trace w) :
    (∃ parts rest, trace.flatMap Event.pushes = List.flatten parts ++ rest ∧
      trace.flatMap Event.takes = parts.map (Request.joined type) ∧ w.held.Holds w.heap type rest) ∧
    (trace.flatMap Event.takes).flatMap Request.groups ++ w.held.groups w.heap =
      (trace.flatMap Event.pushes).flatMap Request.groups ∧
    w.held.items = (w.held.batch.map w.heap.read).elim 0 Request.itemCount ∧
    (∀ k, Told k w.heap w.tasks[k]? (told k trace)) ∧
    (∀ events w' k r, Step settings type w events w' → .pushed k r ∈ events →
      (settings.sendBatchSize ≤ w.held.items + r.itemCount → ∃ c,
        events = [.pushed k r, .taken k c] ∧ c.groups = w.held.groups w.heap ++ r.groups ∧
          w'.held = .empty) ∧
      (w.held.items + r.itemCount < settings.sendBatchSize →
        events = [.pushed k r, .returned k (.ok ())] ∧
          w'.held.groups w'.heap = w.held.groups w.heap ++ r.groups)) ∧
    (∀ before after k outcome, trace = before ++ .halted k :: after →
      after.flatMap Event.pushes = [] → .returned k outcome ∈ after → w.held = .empty) ∧
    ∀ events w', Step settings type w events w' → events ≠ [] →
      ∀ b ∈ w'.others, w'.heap.read b = w.heap.read b := by
  have hSound := sound_of_runs hRuns
  obtain ⟨parts, rest, hPushed, hTaken, hHolds⟩ := hSound.accounted
  refine ⟨⟨parts, rest, hPushed, hTaken, hHolds⟩, ?groups, hHolds.items_eq, hSound.tales, ?consumed,
    ?emptied, ?others⟩
  case groups =>
    rw [hPushed, hTaken, hHolds.groups_eq, List.flatMap_append, Request.groups_joined]
  case consumed => exact fun events w' k r hStep hMem => hStep.consumed hSound hMem
  case emptied => exact fun before after k outcome => hSound.held_eq_empty
  case others => exact fun events w' hStep hShown b hOther => hStep.read_eq hSound.covered hShown hOther

/-- Logs with one record. -/
def record : Request := ⟨.logs, [⟨none, [⟨none, [[]], ""⟩], ""⟩]⟩

theorem batches_conserved_pair : ∃ trace w, Runs ⟨2, 200⟩ .logs fresh trace w ∧
    trace.flatMap Event.pushes = [record, record] ∧
    trace.flatMap Event.takes = [.joined .logs [record, record]] ∧ w.held = .empty := by
  have hFirst : Runs ⟨2, 200⟩ .logs fresh _ _ := .step .refl (.move (.make record))
  have hSecond := hFirst.step (.move (.make record))
  have hKept := hSecond.step (.keep (show _ = [] ++ _ :: _ from rfl) rfl rfl)
  have hFilled := hKept.step (.fill (show _ = [] ++ _ :: _ from rfl) rfl rfl)
  have hHanded := hFilled.step (.hand (k := 1) rfl)
  have hAnswered := hHanded.step (.answer (k := 1) rfl (.ok ()))
  have hHalted := hAnswered.step .halt
  have hReturned := hHalted.step (.drainIdle (k := 2) rfl nofun rfl)
  obtain ⟨-, -, -, -, -, hEmptied, -⟩ := batches_conserved hReturned
  exact ⟨_, _, hReturned, rfl, rfl, hEmptied _ _ 2 (.ok ()) (List.append_assoc ..) rfl (by simp)⟩

end Telemetry.Batching

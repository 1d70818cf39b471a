import Telemetry.Proofs.Flow.Custody

/-!
# Handles in several hands

Several owners hold handles, and each can do with its own what can be done with handles: make requests,
change them, share them, copy them and give them up. What an owner sees through its handles follows from
what it got and did itself, however requests are shared and whatever the others do at any time.
-/

namespace Telemetry

open Heap (Covers Keeps)

namespace Hands

/-- Something done with handles. Those that an owner has are told apart by their positions. -/
inductive Deed
  | make (r : Request)
  | change (i : Nat) (f : Request → Request)
  | share (i : Nat)
  | copy (i : Nat)
  | drop (i : Nat)

namespace Deed

/-- What becomes of the handles of an owner. -/
def act (h : Heap) (hs : List Handle) : Deed → List Handle × Heap
  | make r => let (b, h) := h.new r; (hs ++ [b], h)
  | change i f =>
    match hs[i]? with
    | none => (hs, h)
    | some b => let (b, h) := h.edit b f; (hs.set i b, h)
  | share i =>
    match hs[i]? with
    | none => (hs, h)
    | some b => let ((b, other), h) := h.share b; (hs.set i b ++ [other], h)
  | copy i =>
    match hs[i]? with
    | none => (hs, h)
    | some b => let ((b, other), h) := h.duplicate b; (hs.set i b ++ [other], h)
  | drop i =>
    match hs[i]? with
    | none => (hs, h)
    | some b => (hs.eraseIdx i, h.release b)

/-- What becomes of contents that nobody else has. -/
def actOn (rs : List Request) : Deed → List Request
  | make r => rs ++ [r]
  | change i f =>
    match rs[i]? with
    | none => rs
    | some r => rs.set i (f r)
  | share i | copy i => rs ++ rs[i]?.toList
  | drop i => rs.eraseIdx i

/-- An owner did something with its handles: it has handles onto the contents that come of it, and whoever
holds others sees no change. -/
structure Acts (refs : List Nat) (h : Heap) (hs' : List Handle) (h' : Heap) (rs' : List Request) :
    Prop where
  covers : h'.Covers (hs'.map Handle.ref ++ refs)
  keeps : Keeps refs h h'
  reads : hs'.map h'.read = rs'

variable {h h' : Heap} {hs before after : List Handle} {refs : List Nat} {b : Handle}

theorem map_read_congr (hKeeps : Keeps refs h h') (hHandles : ∀ b ∈ hs, b.ref ∈ refs) :
    hs.map h'.read = hs.map h.read :=
  List.map_congr_left fun b hb => Heap.read_congr (hKeeps b.ref (hHandles b hb))

theorem exists_append_of_getElem? {α : Type} {l : List α} {i : Nat} {a : α} (h : l[i]? = some a) :
    ∃ before after, l = before ++ a :: after ∧ before.length = i := by
  obtain ⟨hLt, rfl⟩ := List.getElem?_eq_some_iff.mp h
  exact ⟨l.take i, l.drop (i + 1), by simp, by simp [Nat.le_of_lt hLt]⟩

/-- One handle and the others. -/
theorem perm_middle (before after : List Handle) (b : Handle) (refs : List Nat) :
    ((before ++ b :: after).map Handle.ref ++ refs).Perm
      (b.ref :: ((before ++ after).map Handle.ref ++ refs)) := by
  rw [List.map_append, List.map_cons, List.map_append]
  exact List.perm_middle.append_right refs

theorem perm_concat (hs : List Handle) (b : Handle) (refs : List Nat) :
    ((hs ++ [b]).map Handle.ref ++ refs).Perm (b.ref :: (hs.map Handle.ref ++ refs)) := by
  simp

theorem map_read_middle (hKeeps : Keeps ((before ++ after).map Handle.ref ++ refs) h h') :
    (before ++ b :: after).map h'.read = before.map h.read ++ h'.read b :: after.map h.read := by
  have hOthers : ∀ b' ∈ before ++ after, b'.ref ∈ (before ++ after).map Handle.ref ++ refs :=
    fun b' hb' => List.mem_append_left _ (List.mem_map_of_mem hb')
  rw [List.map_append, List.map_cons, map_read_congr hKeeps fun b' hb' => hOthers b' (by simp [hb']),
    map_read_congr hKeeps fun b' hb' => hOthers b' (by simp [hb'])]

theorem acts_branches {r : (Handle × Handle) × Heap}
    (hBranches : Heap.Branches ((before ++ after).map Handle.ref ++ refs) b h r) :
    Acts refs h (before ++ r.1.1 :: after ++ [r.1.2]) r.2
      ((before ++ b :: after).map h.read ++ [h.read b]) where
  covers := by
    have hPlace : (b.ref :: ((before ++ after).map Handle.ref ++ refs)).Perm
        ((before ++ r.1.1 :: after).map Handle.ref ++ refs) := by
      rw [← hBranches.ref]
      exact (perm_middle before after r.1.1 refs).symm
    exact hBranches.covers.perm ((hPlace.cons _).trans (perm_concat _ _ _).symm)
  keeps := hBranches.keeps.subset fun k hk => List.mem_cons_of_mem _ (List.mem_append_right _ hk)
  reads := by
    have hSame : r.2.read r.1.1 = h.read b := by
      refine Heap.read_congr ?_
      rw [hBranches.ref]
      exact hBranches.keeps _ List.mem_cons_self
    rw [List.map_append, map_read_middle (hBranches.keeps.subset (List.subset_cons_self _ _)), hSame]
    simp [hBranches.read]

/-- Whatever an owner does, it sees what comes of the contents it had, and no other owner sees anything. -/
theorem acts_act (d : Deed) (hCovers : h.Covers (hs.map Handle.ref ++ refs)) :
    Acts refs h (d.act h hs).1 (d.act h hs).2 (d.actOn (hs.map h.read)) := by
  have hIdle : Acts refs h hs h (hs.map h.read) := ⟨hCovers, .refl _ _, rfl⟩
  have hFind : ∀ i, (hs.map h.read)[i]? = (hs[i]?).map h.read := fun i => List.getElem?_map
  cases d with
  | make r =>
      have hKeeps := hCovers.keeps_new r
      refine ⟨?_, hKeeps.subset (List.subset_append_right _ _), ?_⟩
      · exact (hCovers.new r).perm (perm_concat _ _ _).symm
      · rw [act, List.map_append, map_read_congr hKeeps fun b hb =>
          List.mem_append_left _ (List.mem_map_of_mem hb), List.map_singleton, Heap.read_new]
        rfl
  | change i f =>
      rw [act, actOn, hFind]
      cases hGet : hs[i]? with
      | none => exact hIdle
      | some b =>
          obtain ⟨before, after, rfl, rfl⟩ := exists_append_of_getElem? hGet
          have hEdit := (hCovers.perm (perm_middle before after b refs)).exchanges_edit f
          refine ⟨?_, hEdit.keeps.subset (List.subset_append_right _ _), ?_⟩
          · simpa using hEdit.covers.perm (perm_middle before after _ refs).symm
          · simpa [hEdit.read] using map_read_middle (b := (h.edit b f).1) hEdit.keeps
  | share i =>
      rw [act, actOn, hFind]
      cases hGet : hs[i]? with
      | none => simpa using hIdle
      | some b =>
          obtain ⟨before, after, rfl, rfl⟩ := exists_append_of_getElem? hGet
          have hShare := (hCovers.perm (perm_middle before after b refs)).branches_share
          simpa using acts_branches hShare
  | copy i =>
      rw [act, actOn, hFind]
      cases hGet : hs[i]? with
      | none => simpa using hIdle
      | some b =>
          obtain ⟨before, after, rfl, rfl⟩ := exists_append_of_getElem? hGet
          have hCopy := (hCovers.perm (perm_middle before after b refs)).branches_duplicate
          simpa using acts_branches hCopy
  | drop i =>
      rw [act, actOn]
      cases hGet : hs[i]? with
      | none =>
          have hNone : (hs.map h.read).eraseIdx i = hs.map h.read :=
            List.eraseIdx_of_length_le (by simpa using List.getElem?_eq_none_iff.mp hGet)
          rw [hNone]
          exact hIdle
      | some b =>
          obtain ⟨before, after, rfl, rfl⟩ := exists_append_of_getElem? hGet
          have hRelease := (hCovers.perm (perm_middle before after b refs)).release
          refine ⟨?_, Heap.keeps_release, ?_⟩
          · simpa [List.eraseIdx_append_of_length_le] using hRelease
          · have hReads : (before ++ after).map (h.release b).read = (before ++ after).map h.read :=
              map_read_congr Heap.keeps_release fun b' hb' => List.mem_map_of_mem hb'
            simpa [List.eraseIdx_append_of_length_le] using hReads

end Deed

/-! ## Owners -/

/-- What befalls an owner: it gets a batch, does something with its handles, or hands one on. -/
inductive Event
  | got (content : Request)
  | did (deed : Deed)
  | gave (i : Nat)

/-- What an event makes of the contents that an owner sees. -/
def Event.actOn (rs : List Request) : Event → List Request
  | got content => rs ++ [content]
  | did deed => deed.actOn rs
  | gave i => rs.eraseIdx i

/-- What becomes of the contents that an owner sees by those of some events that are its own. -/
def replay (owner : Nat) (events : List (Nat × Event)) (rs : List Request) : List Request :=
  (events.filter fun e => e.1 = owner).foldl (fun rs e => e.2.actOn rs) rs

theorem replay_append (owner : Nat) (events events' : List (Nat × Event)) (rs : List Request) :
    replay owner (events ++ events') rs = replay owner events' (replay owner events rs) := by
  rw [replay, List.filter_append, List.foldl_append]
  rfl

end Hands

/-- The handles of several owners, by their numbers, and what has befallen them. -/
structure Hands where
  /-- The handles of each owner. -/
  hands : List (List Handle)
  /-- The events of each owner, in the order in which they came. -/
  log : List (Nat × Hands.Event)

namespace Hands

variable {h h' h'' : Heap} {x x' x'' : Hands} {hs hs' : List Handle} {refs : List Nat} {b : Handle}
  {owner : Nat} {e : Event}

/-- The handles of all owners. -/
def held (x : Hands) : List Nat := x.hands.flatMap fun hs => hs.map Handle.ref

/-- The contents that an owner sees. -/
def view (x : Hands) (h : Heap) (owner : Nat) : List Request := ((x.hands[owner]?).getD []).map h.read

/-- An event changes the handles of an owner. -/
def put (owner : Nat) (hs : List Handle) (e : Event) (x : Hands) : Hands :=
  ⟨x.hands.set owner hs, x.log ++ [(owner, e)]⟩

/-- What every owner sees changes by its own events and no others. -/
def Leads (h : Heap) (x : Hands) (h' : Heap) (x' : Hands) : Prop :=
  ∃ events, x'.log = x.log ++ events ∧
    ∀ owner, x'.view h' owner = replay owner events (x.view h owner)

theorem Leads.trans (hFirst : Leads h x h' x') (hSecond : Leads h' x' h'' x'') : Leads h x h'' x'' := by
  obtain ⟨events, hLog, hViews⟩ := hFirst
  obtain ⟨events', hLog', hViews'⟩ := hSecond
  refine ⟨events ++ events', by rw [hLog', hLog, List.append_assoc], fun owner => ?_⟩
  rw [hViews', hViews, replay_append]

theorem mem_held {owner : Nat} (hGet : x.hands[owner]? = some hs) (hMem : b ∈ hs) : b.ref ∈ x.held :=
  List.mem_flatMap.mpr ⟨hs, List.mem_of_getElem? hGet, List.mem_map_of_mem hMem⟩

theorem view_congr (hKeeps : Keeps x.held h h') (owner : Nat) : x.view h' owner = x.view h owner := by
  rw [view, view]
  cases hGet : x.hands[owner]? with
  | none => rfl
  | some hs => exact Deed.map_read_congr hKeeps fun b hb => mem_held hGet hb

/-- Where no handle sees a change, nothing has befallen anybody. -/
theorem Leads.of_keeps (hKeeps : Keeps x.held h h') : Leads h x h' x :=
  ⟨[], (List.append_nil _).symm, view_congr hKeeps⟩

theorem Leads.refl (h : Heap) (x : Hands) : Leads h x h x := .of_keeps (.refl _ _)

/-- The handles of one owner and those of the others. -/
theorem exists_held_perm (hGet : x.hands[owner]? = some hs) : ∃ others,
    x.held.Perm (hs.map Handle.ref ++ others) ∧
    (∀ hs' e, (x.put owner hs' e).held.Perm (hs'.map Handle.ref ++ others)) ∧
    ∀ other hs', other ≠ owner → x.hands[other]? = some hs' → ∀ b ∈ hs', b.ref ∈ others := by
  obtain ⟨rest, hHeld, hSet⟩ := exists_flatMap_set_perm (f := List.map Handle.ref) hGet
  refine ⟨rest, hHeld.trans List.perm_append_comm,
    fun hs' e => (hSet hs').trans List.perm_append_comm, ?_⟩
  intro other hs' hNe hOther b hb
  have hGone := (hSet []).mem_iff (a := b.ref)
  rw [List.map_nil, List.append_nil] at hGone
  refine hGone.mp (List.mem_flatMap.mpr ⟨hs', ?_, List.mem_map_of_mem hb⟩)
  refine List.mem_of_getElem? (i := other) ?_
  rw [List.getElem?_set_ne (Ne.symm hNe), hOther]

/-- An event befell one owner: what it sees changed by it, and nobody else sees a change. -/
theorem Leads.put {others : List Nat} (hGet : x.hands[owner]? = some hs)
    (hOthers : ∀ other hs', other ≠ owner → x.hands[other]? = some hs' → ∀ b ∈ hs', b.ref ∈ others)
    (hKeeps : Keeps others h h') (hReads : hs'.map h'.read = e.actOn (hs.map h.read)) :
    Leads h x h' (x.put owner hs' e) := by
  refine ⟨[(owner, e)], rfl, fun other => ?_⟩
  rw [view, view, Hands.put]
  by_cases hSame : other = owner
  · subst hSame
    obtain ⟨hLt, -⟩ := List.getElem?_eq_some_iff.mp hGet
    rw [List.getElem?_set_self hLt, hGet]
    simpa [replay] using hReads
  · have hNone : ([(owner, e)].filter fun e => e.1 = other) = [] := by simp [Ne.symm hSame]
    rw [List.getElem?_set_ne (Ne.symm hSame), replay, hNone]
    cases hOther : x.hands[other]? with
    | none => rfl
    | some hs' => exact Deed.map_read_congr hKeeps fun b hb => hOthers other hs' hSame hOther b hb

/-- What owners do with their handles: the handles that others have stay, and what each owner sees follows
from its own events. -/
structure Proceeds (refs : List Nat) (h : Heap) (x : Hands) (h' : Heap) (x' : Hands) : Prop where
  covers : h'.Covers (refs ++ x'.held)
  keeps : Keeps refs h h'
  leads : Leads h x h' x'

theorem Proceeds.refl (hCovers : h.Covers (refs ++ x.held)) : Proceeds refs h x h x :=
  ⟨hCovers, .refl _ _, .refl _ _⟩

theorem Proceeds.trans (hFirst : Proceeds refs h x h' x') (hSecond : Proceeds refs h' x' h'' x'') :
    Proceeds refs h x h'' x'' :=
  ⟨hSecond.covers, hFirst.keeps.trans hSecond.keeps, hFirst.leads.trans hSecond.leads⟩

/-- An owner does something with its handles; without handles there is nothing to do. -/
def perform (owner : Nat) (d : Deed) (h : Heap) (x : Hands) : Heap × Hands :=
  match x.hands[owner]? with
  | none => (h, x)
  | some hs => ((d.act h hs).2, x.put owner (d.act h hs).1 (.did d))

/-- Owners do things with their handles, one after the other. -/
def performAll : List (Nat × Deed) → Heap → Hands → Heap × Hands
  | [], h, x => (h, x)
  | (owner, d) :: deeds, h, x => performAll deeds (x.perform owner d h).1 (x.perform owner d h).2

theorem proceeds_perform (owner : Nat) (d : Deed) (hCovers : h.Covers (refs ++ x.held)) :
    Proceeds refs h x (x.perform owner d h).1 (x.perform owner d h).2 := by
  rw [perform]
  cases hGet : x.hands[owner]? with
  | none => exact .refl hCovers
  | some hs =>
      obtain ⟨others, hHeld, hPut, hOthers⟩ := exists_held_perm hGet
      have hSwap : ∀ l : List Nat, (refs ++ (l ++ others)).Perm (l ++ (refs ++ others)) := fun l =>
        List.perm_append_comm_assoc refs l others
      have hActs := Deed.acts_act d (hCovers.perm ((hHeld.append_left refs).trans (hSwap _)))
      refine ⟨?_, hActs.keeps.subset (List.subset_append_left _ _), ?_⟩
      · exact hActs.covers.perm ((hSwap _).symm.trans ((hPut _ _).symm.append_left refs))
      · exact .put hGet hOthers (hActs.keeps.subset (List.subset_append_right _ _)) hActs.reads

theorem proceeds_performAll (deeds : List (Nat × Deed)) (hCovers : h.Covers (refs ++ x.held)) :
    Proceeds refs h x (performAll deeds h x).1 (performAll deeds h x).2 := by
  induction deeds generalizing h x with
  | nil => exact .refl hCovers
  | cons deed deeds ih =>
      have hFirst := proceeds_perform deed.1 deed.2 hCovers
      exact hFirst.trans (ih hFirst.covers)

/-- An owner gets a batch. -/
def receive? (owner : Nat) (b : Handle) (h : Heap) (x : Hands) : Option Hands :=
  (x.hands[owner]?).map fun hs => x.put owner (hs ++ [b]) (.got (h.read b))

theorem proceeds_receive (hCovers : h.Covers (b.ref :: (refs ++ x.held)))
    (hReceive : x.receive? owner b h = some x') : Proceeds refs h x h x' := by
  obtain ⟨hs, hGet, rfl⟩ := Option.map_eq_some_iff.mp hReceive
  obtain ⟨others, hHeld, hPut, hOthers⟩ := exists_held_perm hGet
  refine ⟨hCovers.perm ?_, .refl _ _, .put hGet hOthers (.refl _ _) (by simp [Event.actOn])⟩
  have hNew : (b.ref :: x.held).Perm (x.put owner (hs ++ [b]) (.got (h.read b))).held :=
    (hHeld.cons b.ref).trans ((Deed.perm_concat hs b others).symm.trans (hPut _ _).symm)
  exact List.perm_middle.symm.trans (hNew.append_left refs)

/-- Where a batch branches nobody sees a change. -/
theorem leads_branch (c : Consumer) (hCovers : h.Covers (b.ref :: (refs ++ x.held))) :
    Leads h x (c.branch b h).2 x :=
  .of_keeps ((c.branches_branch hCovers).keeps.subset fun _ hk =>
    List.mem_cons_of_mem _ (List.mem_append_right _ hk))

/-- An owner hands one of its handles on. -/
def give? (owner i : Nat) (x : Hands) : Option (Handle × Hands) := do
  let hs ← x.hands[owner]?
  let b ← hs[i]?
  return (b, x.put owner (hs.eraseIdx i) (.gave i))

theorem leads_give {i : Nat} (hCovers : h.Covers (refs ++ x.held))
    (hGive : x.give? owner i = some (b, x')) :
    h.Covers (b.ref :: (refs ++ x'.held)) ∧ Leads h x h x' := by
  rw [give?] at hGive
  cases hGet : x.hands[owner]? with
  | none => simp [hGet] at hGive
  | some hs =>
      cases hAt : hs[i]? with
      | none => simp [hGet, hAt] at hGive
      | some b' =>
          simp only [hGet, hAt, Option.bind_eq_bind, Option.bind_some, Option.pure_def,
            Option.some.injEq, Prod.mk.injEq] at hGive
          obtain ⟨rfl, rfl⟩ := hGive
          obtain ⟨others, hHeld, hPut, hOthers⟩ := exists_held_perm hGet
          obtain ⟨before, after, rfl, rfl⟩ := Deed.exists_append_of_getElem? hAt
          have hErase : (before ++ b' :: after).eraseIdx before.length = before ++ after := by
            simp [List.eraseIdx_append_of_length_le]
          refine ⟨hCovers.perm ?_, .put hGet hOthers (.refl _ _) ?_⟩
          · rw [hErase]
            have hLess : x.held.Perm
                (b'.ref :: (x.put owner (before ++ after) (.gave before.length)).held) :=
              hHeld.trans ((Deed.perm_middle _ _ _ _).trans ((hPut _ _).symm.cons _))
            exact (hLess.append_left refs).trans List.perm_middle
          · rw [hErase, Event.actOn]
            simp [List.eraseIdx_append_of_length_le]

end Hands

/-! ## Owners as the ends of pipelines -/

/-- How owners behave: what they do when one of them is given a batch, what that one answers, and which of
its handles it hands on. All of it may depend on everything there is. -/
structure Conduct where
  /-- What owners do, whichever of them, until the one that was given a batch has answered. -/
  deeds : Nat → Handle → Heap → Hands → List (Nat × Hands.Deed)
  /-- The answer. -/
  outcome : Nat → Handle → Heap → Hands → Outcome
  /-- The position of the handle that is handed on, if one is. -/
  onward : Nat → Handle → Heap → Hands → Option Nat
  /-- The time. -/
  clock : Hands → UInt64

namespace Conduct

variable {conduct : Conduct} {h : Heap} {x : Hands} {refs : List Nat} {b : Handle} {owner : Nat}

/-- An owner is given a batch; where there is no owner the batch is given up. -/
def deliver (conduct : Conduct) (owner : Nat) (b : Handle) (h : Heap) (x : Hands) :
    Outcome × Heap × Hands :=
  match x.receive? owner b h with
  | none => (conduct.outcome owner b h x, h.release b, x)
  | some x' => (conduct.outcome owner b h x, Hands.performAll (conduct.deeds owner b h x) h x')

/-- An owner is given a batch and may hand one on. -/
def hold (conduct : Conduct) (owner : Nat) (b : Handle) (h : Heap) (x : Hands) :
    Option Handle × Heap × Hands :=
  match x.receive? owner b h with
  | none => (some b, h, x)
  | some x' =>
    let (h', x') := Hands.performAll (conduct.deeds owner b h x) h x'
    match (conduct.onward owner b h x).bind fun i => x'.give? owner i with
    | none => (none, h', x')
    | some (full, x') => (some full, h', x')

/-- Owners as the ends of pipelines. -/
def outlets (conduct : Conduct) : Outlets Hands := ⟨conduct.deliver, conduct.hold, conduct.clock⟩

theorem settles_deliver (hCovers : h.Covers (b.ref :: (refs ++ x.held))) :
    Settles Hands.held refs h (conduct.deliver owner b h x) ∧
      Hands.Leads h x (conduct.deliver owner b h x).2.1 (conduct.deliver owner b h x).2.2 := by
  rw [deliver]
  cases hReceive : x.receive? owner b h with
  | none => exact ⟨⟨hCovers.release, Heap.keeps_release⟩, .of_keeps Heap.keeps_release⟩
  | some x' =>
      have hGot := Hands.proceeds_receive hCovers hReceive
      have hDone := hGot.trans (Hands.proceeds_performAll (conduct.deeds owner b h x) hGot.covers)
      exact ⟨⟨hDone.covers, hDone.keeps⟩, hDone.leads⟩

/-- What is held back stays with its owner, and what is handed on leaves it. -/
theorem hold_cases (conduct : Conduct) (owner : Nat) (hCovers : h.Covers (b.ref :: (refs ++ x.held))) :
    ∃ passed h' x', conduct.hold owner b h x = (passed, h', x') ∧
      h'.Covers (passed.toList.map Handle.ref ++ (refs ++ x'.held)) ∧ Keeps refs h h' ∧
        Hands.Leads h x h' x' := by
  rw [hold]
  cases hReceive : x.receive? owner b h with
  | none => exact ⟨some b, h, x, rfl, hCovers, .refl _ _, .refl _ _⟩
  | some x' =>
      have hGot := Hands.proceeds_receive hCovers hReceive
      have hDone := hGot.trans (Hands.proceeds_performAll (conduct.deeds owner b h x) hGot.covers)
      dsimp only
      generalize Hands.performAll (conduct.deeds owner b h x) h x' = r at hDone ⊢
      obtain ⟨h', x''⟩ := r
      dsimp only
      cases hGive : (conduct.onward owner b h x).bind fun i => x''.give? owner i with
      | none => exact ⟨none, h', x'', rfl, hDone.covers, hDone.keeps, hDone.leads⟩
      | some given =>
          obtain ⟨full, y⟩ := given
          obtain ⟨i, -, hGive⟩ := Option.bind_eq_some_iff.mp hGive
          obtain ⟨hFull, hLeads⟩ := Hands.leads_give hDone.covers hGive
          exact ⟨some full, h', y, rfl, hFull, hDone.keeps, hDone.leads.trans hLeads⟩

theorem custody (conduct : Conduct) : conduct.outlets.Custody Hands.held where
  deliver hCovers := (settles_deliver hCovers).1
  hold_none hCovers hHold := by
    obtain ⟨passed, h', x', hSame, hRest, hKeeps, -⟩ := conduct.hold_cases _ hCovers
    cases hSame.symm.trans hHold
    exact ⟨hRest, hKeeps⟩
  hold_some hCovers hHold := by
    obtain ⟨passed, h', x', hSame, hRest, hKeeps, -⟩ := conduct.hold_cases _ hCovers
    cases hSame.symm.trans hHold
    exact ⟨hRest, hKeeps⟩

/-- A consumer in whose run every owner sees what follows from its own events. -/
def Fair (conduct : Conduct) (c : Consumer) : Prop :=
  ∀ ⦃b h x refs⦄, h.Covers (b.ref :: (refs ++ x.held)) →
    Hands.Leads h x (c.consume conduct.outlets b h x).2.1 (c.consume conduct.outlets b h x).2.2

theorem leads_dispatch {given : Bool} {branches : List Consumer}
    (hBranches : ∀ c ∈ branches, conduct.Fair c) (hCovers : h.Covers (b.ref :: (refs ++ x.held))) :
    Hands.Leads h x (Consumer.dispatch conduct.outlets given branches b h x).2.1
      (Consumer.dispatch conduct.outlets given branches b h x).2.2 := by
  induction branches generalizing b h x with
  | nil =>
      rw [Consumer.dispatch]
      exact .of_keeps Heap.keeps_release
  | cons c rest ih =>
      rw [Consumer.dispatch]
      split
      · exact hBranches c List.mem_cons_self hCovers
      · have hSpares := (Consumer.settles_consume conduct.custody c).spares hCovers
        have hCall := hBranches c List.mem_cons_self hSpares.covers_own
        have hRest := ih (fun c hc => hBranches c (List.mem_cons_of_mem _ hc)) hSpares.covers_left
        exact (Hands.leads_branch c hCovers).trans (hCall.trans hRest)

/-- However a batch is passed on, changed, held back and shared, every owner sees what follows from its own
events. -/
theorem leads_consume (conduct : Conduct) (c : Consumer) : conduct.Fair c := by
  intro b h x refs hCovers
  induction c using Consumer.induction generalizing b h x refs with
  | leaf mutates place =>
      rw [Consumer.consume]
      exact (settles_deliver hCovers).2
  | pass mutates next ih =>
      rw [Consumer.consume]
      exact ih hCovers
  | edit change next ih =>
      rw [Consumer.consume]
      have hEdit := hCovers.exchanges_edit change
      have hKeeps := hEdit.keeps.subset (List.subset_append_right refs x.held)
      exact (Hands.Leads.of_keeps hKeeps).trans (ih hEdit.covers)
  | convert derived next ih =>
      rw [Consumer.consume]
      have hTake : Hands.Leads h x (h.take b).2 x := .of_keeps Heap.keeps_release
      cases hDerived : derived (conduct.outlets.clock x) (h.take b).1 with
      | none =>
          simp only [hDerived]
          exact hTake
      | some r =>
          simp only [hDerived]
          have hNew := (hCovers.release.keeps_new r).subset (List.subset_append_right refs x.held)
          exact hTake.trans ((Hands.Leads.of_keeps hNew).trans (ih (hCovers.release.new r)))
  | gather place next ih =>
      rw [Consumer.consume]
      obtain ⟨passed, h', x', hHold, hRest, -, hLeads⟩ := conduct.hold_cases place hCovers
      change conduct.outlets.hold place b h x = _ at hHold
      rw [hHold]
      cases passed with
      | none => exact hLeads
      | some full => exact hLeads.trans (ih hRest)
  | fanOut branches ih =>
      rw [Consumer.consume]
      exact leads_dispatch (fun c hc => ih c hc) hCovers

end Conduct

end Telemetry

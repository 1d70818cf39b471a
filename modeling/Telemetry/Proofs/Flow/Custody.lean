import Telemetry.Flow.Sink
import Telemetry.Proofs.Batch.Heap

/-!
# Batches in custody

The ends of the pipelines and what is held back keep handles. As long as they give up no handle but their
own, a tree of consumers gives up the one it gets and no other, and whoever else holds a handle sees no
change.
-/

namespace Telemetry

/-- An induction over the branches of consumers. -/
theorem Consumer.induction {P : Consumer → Prop} (leaf : ∀ mutates place, P (.leaf mutates place))
    (pass : ∀ mutates next, P next → P (.pass mutates next))
    (edit : ∀ change next, P next → P (.edit change next))
    (convert : ∀ derived next, P next → P (.convert derived next))
    (gather : ∀ place next, P next → P (.gather place next))
    (fanOut : ∀ branches, (∀ c ∈ branches, P c) → P (.fanOut branches)) : ∀ c, P c
  | .leaf mutates place => leaf mutates place
  | .pass mutates next => pass mutates next (induction leaf pass edit convert gather fanOut next)
  | .edit change next => edit change next (induction leaf pass edit convert gather fanOut next)
  | .convert derived next => convert derived next (induction leaf pass edit convert gather fanOut next)
  | .gather place next => gather place next (induction leaf pass edit convert gather fanOut next)
  | .fanOut branches => fanOut branches fun c _ => induction leaf pass edit convert gather fanOut c

open Heap (Covers Keeps)

section Custody

variable {σ : Type} {outlets : Outlets σ} {held : σ → List Nat}

/-- A handle was given up: the others' handles are there, those in custody among them, and the others
see no change. -/
structure Settles {α : Type} (held : σ → List Nat) (refs : List Nat) (h : Heap) (r : α × Heap × σ) :
    Prop where
  covers : r.2.1.Covers (refs ++ held r.2.2)
  keeps : Keeps refs h r.2.1

/-- Outlets that give up no handles but those they get and those in their custody. -/
structure Outlets.Custody (outlets : Outlets σ) (held : σ → List Nat) : Prop where
  deliver : ∀ {place b h s refs}, h.Covers (b.ref :: (refs ++ held s)) →
    Settles held refs h (outlets.deliver place b h s)
  hold_none : ∀ {place b h s refs h' s'}, h.Covers (b.ref :: (refs ++ held s)) →
    outlets.hold place b h s = (none, h', s') → h'.Covers (refs ++ held s') ∧ Keeps refs h h'
  hold_some : ∀ {place b h s refs full h' s'}, h.Covers (b.ref :: (refs ++ held s)) →
    outlets.hold place b h s = (some full, h', s') →
      h'.Covers (full.ref :: (refs ++ held s')) ∧ Keeps refs h h'

theorem Settles.after {α : Type} {refs : List Nat} {h h' : Heap} {r : α × Heap × σ}
    (hSettles : Settles held refs h' r) (hKeeps : Keeps refs h h') : Settles held refs h r :=
  ⟨hSettles.covers, hKeeps.trans hSettles.keeps⟩

namespace Consumer

/-- A consumer that gives up the handle it gets, and no other. -/
def Settling (outlets : Outlets σ) (held : σ → List Nat) (c : Consumer) : Prop :=
  ∀ ⦃b h s refs⦄, h.Covers (b.ref :: (refs ++ held s)) → Settles held refs h (c.consume outlets b h s)

/-- A consumer takes a handle of its own, and when it is done the handle that is left still has the
content that was there before. -/
structure Spares (outlets : Outlets σ) (held : σ → List Nat) (refs : List Nat) (c : Consumer)
    (b : Handle) (h : Heap) (s : σ) (left own : Handle) (h' : Heap) : Prop where
  covers_own : h'.Covers (own.ref :: ((b.ref :: refs) ++ held s))
  read_own : h'.read own = h.read b
  covers_left : (c.consume outlets own h' s).2.1.Covers
    (left.ref :: (refs ++ held (c.consume outlets own h' s).2.2))
  read_left : (c.consume outlets own h' s).2.1.read left = h.read b
  keeps : Keeps refs h (c.consume outlets own h' s).2.1

variable {b : Handle} {h : Heap} {s : σ} {refs : List Nat}

/-- What is left of a batch, and what a consumer is given: a copy or a shared handle, whichever it takes. -/
def branch (c : Consumer) (b : Handle) (h : Heap) : (Handle × Handle) × Heap :=
  if c.mutates then h.duplicate b else h.share b

theorem branches_branch (c : Consumer) (hCovers : h.Covers (b.ref :: refs)) :
    Heap.Branches refs b h (c.branch b h) := by
  rw [branch]
  split
  · exact hCovers.branches_duplicate
  · exact hCovers.branches_share

theorem Settling.spares {c : Consumer} (hSettling : c.Settling outlets held)
    (hCovers : h.Covers (b.ref :: (refs ++ held s))) :
    let branch := if c.mutates then h.duplicate b else h.share b
    Spares outlets held refs c b h s branch.1.1 branch.1.2 branch.2 := by
  intro branch
  have hBranch : Heap.Branches (refs ++ held s) b h branch := branches_branch c hCovers
  obtain ⟨⟨left, own⟩, h'⟩ := branch
  have hRun : Settles held (b.ref :: refs) h' (c.consume outlets own h' s) :=
    hSettling hBranch.covers
  constructor
  case covers_own => exact hBranch.covers
  case read_own => exact hBranch.read
  case covers_left =>
    rw [hBranch.ref]
    exact hRun.covers
  case read_left =>
    refine Heap.read_congr ?_
    rw [hBranch.ref, hRun.keeps b.ref List.mem_cons_self, hBranch.keeps b.ref List.mem_cons_self]
  case keeps => exact (hBranch.keeps.subset (by simp)).trans (hRun.keeps.subset (by simp))

theorem settles_dispatch {given : Bool} {branches : List Consumer}
    (hBranches : ∀ c ∈ branches, c.Settling outlets held)
    (hCovers : h.Covers (b.ref :: (refs ++ held s))) :
    Settles held refs h (dispatch outlets given branches b h s) := by
  induction branches generalizing b h s with
  | nil =>
      rw [dispatch]
      exact ⟨hCovers.release, Heap.keeps_release⟩
  | cons c rest ih =>
      rw [dispatch]
      split
      · have hLast := hBranches c List.mem_cons_self hCovers
        exact ⟨hLast.covers, hLast.keeps⟩
      · have hSpares := (hBranches c List.mem_cons_self).spares hCovers
        have hRest := ih (fun c hc => hBranches c (List.mem_cons_of_mem _ hc)) hSpares.covers_left
        exact ⟨hRest.covers, hSpares.keeps.trans hRest.keeps⟩

/-- A consumer gives up the handle it gets, and no other. -/
theorem settles_consume (hCustody : outlets.Custody held) (c : Consumer) : c.Settling outlets held := by
  intro b h s refs hCovers
  induction c using Consumer.induction generalizing b h s refs with
  | leaf mutates place =>
      rw [consume]
      exact hCustody.deliver hCovers
  | pass mutates next ih =>
      rw [consume]
      exact ih hCovers
  | edit change next ih =>
      rw [consume]
      have hEdit := hCovers.exchanges_edit change
      exact (ih hEdit.covers).after (hEdit.keeps.subset (List.subset_append_left _ _))
  | convert derived next ih =>
      rw [consume]
      have hTake : Keeps refs h (h.take b).2 := Heap.keeps_release
      cases hDerived : derived (outlets.clock s) (h.take b).1 with
      | none =>
          simp only [hDerived]
          exact ⟨hCovers.release, hTake⟩
      | some r =>
          simp only [hDerived]
          have hNew := (hCovers.release.keeps_new r).subset (List.subset_append_left refs _)
          exact (ih (hCovers.release.new r)).after (hTake.trans hNew)
  | gather place next ih =>
      rw [consume]
      rcases hHold : outlets.hold place b h s with ⟨_ | full, h', s'⟩
      · obtain ⟨hRest, hKeeps⟩ := hCustody.hold_none hCovers hHold
        exact ⟨hRest, hKeeps⟩
      · obtain ⟨hRest, hKeeps⟩ := hCustody.hold_some hCovers hHold
        exact (ih hRest).after hKeeps
  | fanOut branches ih =>
      rw [consume]
      have hDispatch :
          Settles held refs h (dispatch outlets (branches.all mutates) branches b h s) :=
        settles_dispatch (fun c hc => ih c hc) hCovers
      exact ⟨hDispatch.covers, hDispatch.keeps⟩

end Consumer

end Custody

/-! ## What consumers leave as it is -/

section Spares

variable {σ α : Type} {outlets : Outlets σ} {f : σ → α} {b : Handle} {h : Heap} {s : σ}

/-- Outlets that leave something as it is. -/
structure Outlets.Spares (outlets : Outlets σ) (f : σ → α) : Prop where
  deliver : ∀ place b h s, f (outlets.deliver place b h s).2.2 = f s
  hold : ∀ place b h s, f (outlets.hold place b h s).2.2 = f s

namespace Consumer

theorem spares_dispatch {given : Bool} {branches : List Consumer}
    (hBranches : ∀ c ∈ branches, ∀ b h s, f (c.consume outlets b h s).2.2 = f s) :
    f (dispatch outlets given branches b h s).2.2 = f s := by
  induction branches generalizing b h s with
  | nil => rw [dispatch]
  | cons c rest ih =>
      rw [dispatch]
      split
      · exact hBranches c List.mem_cons_self _ _ _
      · exact (ih fun c hc => hBranches c (List.mem_cons_of_mem _ hc)).trans
          (hBranches c List.mem_cons_self _ _ _)

/-- What the outlets leave as it is stays when a batch is consumed. -/
theorem spares_consume (hSpares : outlets.Spares f) (c : Consumer) (b : Handle) (h : Heap) (s : σ) :
    f (c.consume outlets b h s).2.2 = f s := by
  induction c using Consumer.induction generalizing b h s with
  | leaf mutates place =>
      rw [consume]
      exact hSpares.deliver place b h s
  | pass mutates next ih =>
      rw [consume]
      exact ih b h s
  | edit change next ih =>
      rw [consume]
      exact ih _ _ s
  | convert derived next ih =>
      rw [consume]
      dsimp only
      split
      · rfl
      · exact ih _ _ s
  | gather place next ih =>
      have hHold := hSpares.hold place b h s
      rw [consume]
      split
      · next h' s' hNone => rwa [hNone] at hHold
      · next full h' s' hSome =>
          rw [hSome] at hHold
          exact (ih full h' s').trans hHold
  | fanOut branches ih =>
      rw [consume]
      exact spares_dispatch ih

end Consumer

end Spares

/-! ## Sinks keep what they get -/

section Parts

variable {σ τ α ι : Type} {held : σ → List Nat} {part : τ → List Nat} {f : ι → List Nat}
  {refs rest : List Nat} {h : Heap}

/-- What a part of a state settles is settled in the whole if the rest stays. -/
theorem Settles.widen {r : α × Heap × τ} {s : σ} (hSettles : Settles part (refs ++ rest) h r)
    (hState : (held s).Perm (rest ++ part r.2.2)) : Settles held refs h (r.1, r.2.1, s) where
  covers := hSettles.covers.perm ((List.append_assoc refs _ _).symm ▸ hState.symm.append_left refs)
  keeps := hSettles.keeps.subset (List.subset_append_left refs rest)

/-- One place of a list and the rest. -/
theorem exists_flatMap_set_perm {xs : List ι} {i : Nat} {x : ι} (hGet : xs[i]? = some x) :
    ∃ rest, (xs.flatMap f).Perm (rest ++ f x) ∧ ∀ y, ((xs.set i y).flatMap f).Perm (rest ++ f y) := by
  obtain ⟨hLt, rfl⟩ := List.getElem?_eq_some_iff.mp hGet
  have hSet : ∀ y, ((xs.set i y).flatMap f).Perm
      ((xs.take i).flatMap f ++ (xs.drop (i + 1)).flatMap f ++ f y) := by
    intro y
    rw [List.set_eq_take_append_cons_drop, if_pos hLt, List.flatMap_append, List.flatMap_cons,
      List.append_assoc]
    exact List.perm_append_comm.append_left _
  have hSame := hSet xs[i]
  rw [List.set_getElem_self] at hSame
  exact ⟨_, hSame, hSet⟩

end Parts

/-- The handles that a sink keeps. -/
def Sink.held (s : Sink) : List Nat := s.kept.map Handle.ref

theorem Sink.settles_deliver (s : Sink) {b : Handle} {h : Heap} {refs : List Nat}
    (hCovers : h.Covers (b.ref :: (refs ++ s.held))) : Settles Sink.held refs h (s.deliver b h) := by
  obtain ⟨_ | e, edits, kept⟩ := s
  · have hEdited : Heap.Exchanges (refs ++ kept.map Handle.ref)
        (if edits then fun r => r.append [.blank] else id) b h
        (if edits then h.edit b fun r => r.append [.blank] else (b, h)).1
        (if edits then h.edit b fun r => r.append [.blank] else (b, h)).2 := by
      split
      · exact hCovers.exchanges_edit _
      · exact ⟨hCovers, .refl _ _, rfl⟩
    simp only [deliver]
    generalize (if edits then h.edit b fun r => r.append [.blank] else (b, h)) = edited at hEdited ⊢
    refine ⟨hEdited.covers.perm ?_, hEdited.keeps.subset (List.subset_append_left _ _)⟩
    rw [held, List.map_append, ← List.append_assoc]
    exact (List.perm_append_singleton _ _).symm
  · exact ⟨hCovers.release, Heap.keeps_release⟩

namespace Sinks

/-- The handles that sinks keep. -/
def held (sinks : Sinks) : List Nat := sinks.flatMap Sink.held

theorem settles_deliver {place : Nat} {b : Handle} {h : Heap} {sinks : Sinks} {refs : List Nat}
    (hCovers : h.Covers (b.ref :: (refs ++ held sinks))) :
    Settles held refs h (deliver place b h sinks) := by
  rw [deliver]
  cases hSink : sinks[place]? with
  | none => exact ⟨hCovers.release, Heap.keeps_release⟩
  | some s =>
      obtain ⟨rest, hHeld, hSet⟩ := exists_flatMap_set_perm hSink
      refine (s.settles_deliver (hCovers.perm ?_)).widen (hSet _)
      rw [List.append_assoc]
      exact (hHeld.append_left refs).cons b.ref

theorem custody : outlets.Custody held where
  deliver := settles_deliver
  hold_none _ hHold := by cases hHold
  hold_some hCovers hHold := by
    cases hHold
    exact ⟨hCovers, .refl _ _⟩

end Sinks

end Telemetry

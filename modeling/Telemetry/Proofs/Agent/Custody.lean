import Telemetry.Agent.Delivery
import Telemetry.Proofs.Flow.Custody

/-!
# What an agent keeps of its batches

Sinks keep what they get and processors that hold batches back keep what they hold. An exporter takes the
content and keeps no handle. So an agent gives up no handle but those it gets and those it keeps.
-/

namespace Telemetry

namespace Gathering

/-- The handles that are held back. -/
def refs (g : Gathering) : List Nat := g.batch.toList.map Handle.ref

variable {b : Handle} {h : Heap} {others : List Nat}

theorem covers_push (g : Gathering) (hCovers : h.Covers (b.ref :: (others ++ g.refs))) :
    (g.push b h).2.Covers (others ++ (g.push b h).1.refs) ∧ Heap.Keeps others h (g.push b h).2 := by
  obtain ⟨_ | pending, items⟩ := g
  · exact ⟨hCovers.perm (by simpa [push, refs] using (List.perm_append_singleton _ _).symm),
      .refl _ _⟩
  · have hMerge : Heap.Exchanges others _ pending h (h.merge pending b).1 (h.merge pending b).2 :=
      Heap.Covers.exchanges_merge
        (hCovers.perm ((List.perm_append_singleton pending.ref others).cons b.ref))
    exact ⟨hMerge.covers.perm (List.perm_append_singleton _ _).symm, hMerge.keeps⟩

theorem covers_offer (settings : BatchSettings) (g : Gathering)
    (hCovers : h.Covers (b.ref :: (others ++ g.refs))) :
    (g.offer settings b h).2.2.Covers ((g.offer settings b h).1.toList.map Handle.ref ++
      (others ++ (g.offer settings b h).2.1.refs)) ∧ Heap.Keeps others h (g.offer settings b h).2.2 := by
  obtain ⟨hHeld, hKeeps⟩ := g.covers_push hCovers
  rw [offer]
  generalize g.push b h = pushed at hHeld hKeeps ⊢
  obtain ⟨g', h'⟩ := pushed
  dsimp only
  split
  · refine ⟨hHeld.perm ?_, hKeeps⟩
    change (others ++ g'.refs).Perm (g'.refs ++ (others ++ []))
    rw [List.append_nil]
    exact List.perm_append_comm
  · exact ⟨hHeld, hKeeps⟩

end Gathering

namespace Agent

/-- The handles that an end of the pipelines keeps. -/
def Port.held : Port → List Nat
  | exporter _ => []
  | sink s => s.held

namespace Installation

/-- The handles that an agent keeps. -/
def held (x : Installation) : List Nat :=
  x.gatherers.flatMap (fun g => g.held.refs) ++ x.ports.flatMap Port.held

variable {x : Installation} {b : Handle} {h : Heap} {n : Nat} {refs : List Nat}

theorem held_sendTo (exporter : Nat) (r : Request) : (x.sendTo exporter r).2.held = x.held := by
  rw [sendTo]
  split <;> rfl

theorem exists_held_ports_perm {p : Port} (hPort : x.ports[n]? = some p) :
    ∃ rest, x.held.Perm (rest ++ p.held) ∧
      ∀ p', (held { x with ports := x.ports.set n p' }).Perm (rest ++ p'.held) := by
  obtain ⟨rest, hHeld, hSet⟩ := exists_flatMap_set_perm (f := Port.held) hPort
  refine ⟨x.gatherers.flatMap (fun g => g.held.refs) ++ rest, ?_, fun p' => ?_⟩
  · rw [List.append_assoc]
    exact hHeld.append_left _
  · rw [List.append_assoc]
    exact (hSet p').append_left _

theorem exists_held_gatherers_perm {g : Gatherer} (hGatherer : x.gatherers[n]? = some g) :
    ∃ rest, x.held.Perm (rest ++ g.held.refs) ∧
      ∀ g' : Gatherer, (held { x with gatherers := x.gatherers.set n g' }).Perm
        (rest ++ g'.held.refs) := by
  obtain ⟨rest, hHeld, hSet⟩ := exists_flatMap_set_perm (f := fun g : Gatherer => g.held.refs) hGatherer
  refine ⟨x.ports.flatMap Port.held ++ rest, ?_, fun g' => ?_⟩
  · rw [List.append_assoc]
    exact List.perm_append_comm.trans (hHeld.append_left _)
  · rw [List.append_assoc]
    exact List.perm_append_comm.trans ((hSet g').append_left _)

theorem settles_deliver (hCovers : h.Covers (b.ref :: (refs ++ x.held))) :
    Settles held refs h (x.deliver n b h) := by
  rw [deliver]
  split
  · exact ⟨hCovers.release, Heap.keeps_release⟩
  · rename_i s hPort
    obtain ⟨rest, hHeld, hSet⟩ := exists_held_ports_perm hPort
    refine (s.settles_deliver (hCovers.perm ?_)).widen (hSet _)
    rw [List.append_assoc]
    exact (hHeld.append_left refs).cons b.ref
  · exact ⟨by rw [held_sendTo]; exact hCovers.release, Heap.keeps_release⟩

theorem covers_hold (hCovers : h.Covers (b.ref :: (refs ++ x.held))) :
    (x.hold n b h).2.1.Covers ((x.hold n b h).1.toList.map Handle.ref ++
      (refs ++ (x.hold n b h).2.2.held)) ∧ Heap.Keeps refs h (x.hold n b h).2.1 := by
  rw [hold]
  split
  · exact ⟨hCovers, .refl _ _⟩
  · rename_i g hGatherer
    obtain ⟨rest, hHeld, hSet⟩ := exists_held_gatherers_perm hGatherer
    have hAll : h.Covers (b.ref :: ((refs ++ rest) ++ g.held.refs)) := by
      rw [List.append_assoc]
      exact hCovers.perm ((hHeld.append_left refs).cons b.ref)
    obtain ⟨hOffer, hKeeps⟩ := g.held.covers_offer g.settings hAll
    generalize g.held.offer g.settings b h = offered at hOffer hKeeps ⊢
    obtain ⟨full, held', h'⟩ := offered
    refine ⟨hOffer.perm ?_, hKeeps.subset (List.subset_append_left refs rest)⟩
    rw [List.append_assoc]
    exact ((hSet { g with held := held' }).symm.append_left refs).append_left _

end Installation

/-- The places of an agent give up no handle but those they get and those they keep. -/
theorem custody : outlets.Custody Installation.held where
  deliver := Installation.settles_deliver
  hold_none {place b h x refs h' x'} hCovers hHold := by
    have hHeld := Installation.covers_hold (n := place) hCovers
    change x.hold place b h = (none, h', x') at hHold
    rwa [hHold] at hHeld
  hold_some {place b h x refs full h' x'} hCovers hHold := by
    have hHeld := Installation.covers_hold (n := place) hCovers
    change x.hold place b h = (some full, h', x') at hHold
    rwa [hHold] at hHeld

end Agent

end Telemetry

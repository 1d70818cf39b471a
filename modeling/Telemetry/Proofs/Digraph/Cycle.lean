import Mathlib.Data.List.Chain
import Mathlib.Data.List.TakeWhile
import Mathlib.Tactic.Tauto
import Telemetry.Digraph
import Telemetry.Proofs.Digraph.Order

/-!
# Cycles are found

Where there is no topological order the search comes back with a cycle. It never leaves the one way open
to miss it: what it has visited and left behind leads only to what it has left behind before.
-/

namespace Telemetry.Digraph

open Relation (TransGen)

variable {α : Type} {a : α} {path visited done l : List α} {next : α → List α}

theorem mem_of_firstCycle_some {walk : α → List α → Option (List α) × List α} {cycle : List α}
    (h : (firstCycle walk l visited).1 = some cycle) :
    ∃ a ∈ l, ∃ visited', (walk a visited').1 = some cycle := by
  induction l generalizing visited with
  | nil => cases h
  | cons a l ih =>
      rw [firstCycle] at h
      split at h
      · rename_i cycle' visited' hWalk
        cases h
        exact ⟨a, List.mem_cons_self, visited, by rw [hWalk]⟩
      · obtain ⟨b, hb, hFound⟩ := ih h
        exact ⟨b, List.mem_cons_of_mem _ hb, hFound⟩

/-- Nodes that were left behind one after the other, the last first: each leads only to earlier ones. -/
inductive Finished (next : α → List α) : List α → Prop
  | nil : Finished next []
  | cons {done : List α} {a : α} (prior : Finished next done) (hNext : ∀ b ∈ next a, b ∈ done) :
      Finished next (a :: done)

theorem Finished.acc (h : Finished next done) (hMem : a ∈ done) :
    Acc (fun y x => y ∈ next x) a := by
  induction h generalizing a with
  | nil => cases hMem
  | cons prior hNext ih =>
      rcases List.mem_cons.mp hMem with rfl | hMem
      · exact ⟨_, fun b hb => ih (hNext b hb)⟩
      · exact ih hMem

/-- No way leads back to a node that was left behind. -/
theorem Finished.not_transGen_self (h : Finished next done) (hMem : a ∈ done) :
    ¬ TransGen (fun x y => y ∈ next x) a a := by
  have hAcc := (h.acc hMem).transGen
  clear hMem
  induction hAcc with
  | intro a _ ih =>
      intro hWay
      exact ih a (Relation.transGen_swap.mpr hWay) hWay

/-- What was visited is on the path or was left behind. -/
structure Explored (next : α → List α) (path visited done : List α) : Prop where
  finished : Finished next done
  mem_visited : ∀ x, x ∈ visited ↔ x ∈ done ∨ x ∈ path

/-- What a search without result leaves behind. -/
def Passes (next : α → List α) (path targets done visited : List α) : Prop :=
  ∃ done', Explored next path visited done' ∧ done ⊆ done' ∧ targets ⊆ done'

theorem passes_firstCycle {walk : α → List α → Option (List α) × List α}
    (hWalk : ∀ a ∈ l, ∀ visited done, Explored next path visited done →
      (walk a visited).1 = none → Passes next path [a] done (walk a visited).2)
    (hExplored : Explored next path visited done) (h : (firstCycle walk l visited).1 = none) :
    Passes next path l done (firstCycle walk l visited).2 := by
  induction l generalizing visited done with
  | nil => exact ⟨done, hExplored, fun _ hx => hx, List.nil_subset _⟩
  | cons a l ih =>
      rw [firstCycle] at h ⊢
      split at h
      · cases h
      · rename_i visited' hNone
        have hFirst := hWalk a List.mem_cons_self visited done hExplored (by rw [hNone])
        rw [hNone] at hFirst
        obtain ⟨done₁, hExplored₁, hDone₁, ha⟩ := hFirst
        obtain ⟨done₂, hExplored₂, hDone₂, hl⟩ :=
          ih (fun b hb => hWalk b (List.mem_cons_of_mem _ hb)) hExplored₁ h
        exact ⟨done₂, hExplored₂, fun _ hx => hDone₂ (hDone₁ hx),
          List.cons_subset.mpr ⟨hDone₂ (ha List.mem_cons_self), hl⟩⟩

/-! ## Walks in a graph -/

variable [Ord α] [DecidableEq α] {g : Digraph α} {settled : List α}

/-- A way along edges that ends where it began and meets no other node twice. -/
structure IsCycle (g : Digraph α) (cycle : List α) : Prop where
  two_le_length : 2 ≤ cycle.length
  closed : cycle.head? = cycle.getLast?
  chain : cycle.IsChain g.Edge
  nodup : cycle.dropLast.Nodup

/-- The part of a path from a node on, closed by an edge back to the node, is a cycle. -/
theorem isCycle_dropWhile (hMem : a ∈ path) (hNodup : path.Nodup)
    (hChain : (path ++ [a]).IsChain g.Edge) :
    g.IsCycle (path.dropWhile (· != a) ++ [a]) := by
  obtain ⟨rest, hRest⟩ : ∃ rest, path.dropWhile (· != a) = a :: rest := by
    have hSome : path.dropWhile (· != a) ≠ [] := by
      rw [Ne, List.dropWhile_eq_nil_iff]
      exact fun hAll => by simpa using hAll a hMem
    obtain ⟨b, rest, hRest⟩ := List.exists_cons_of_ne_nil hSome
    have hHead := List.head_dropWhile_not (· != a) hSome
    simp only [hRest, List.head_cons, bne_eq_false_iff_eq] at hHead
    exact ⟨rest, hHead ▸ hRest⟩
  obtain ⟨first, hPath⟩ : a :: rest <:+ path := hRest ▸ List.dropWhile_suffix _
  rw [hRest]
  subst hPath
  constructor
  case two_le_length => simp
  case closed => rw [List.getLast?_concat, List.cons_append, List.head?_cons]
  case chain =>
    rw [List.append_assoc] at hChain
    exact hChain.suffix (List.suffix_append _ _)
  case nodup =>
    rw [List.dropLast_concat]
    exact hNodup.sublist (List.sublist_append_right _ _)

theorem isCycle_of_walk {fuel : Nat} {cycle : List α} (hNodup : path.Nodup)
    (hChain : (path ++ [a]).IsChain g.Edge) (h : (walk g settled fuel path a visited).1 = some cycle) :
    g.IsCycle cycle := by
  induction fuel generalizing path a visited with
  | zero => cases h
  | succ fuel ih =>
      rw [walk] at h
      split at h
      · rename_i hMem
        cases h
        exact isCycle_dropWhile (List.contains_iff_mem.mp hMem) hNodup hChain
      · rename_i hNew
        have hNew : a ∉ path := fun hMem => hNew (List.contains_iff_mem.mpr hMem)
        split at h
        · cases h
        · obtain ⟨b, hb, visited', hFound⟩ := mem_of_firstCycle_some h
          have hEdge : g.Edge a b := (List.mem_filter.mp hb).1
          refine ih ?_ ?_ hFound
          · exact List.nodup_append_comm.mp (List.nodup_cons.mpr ⟨hNew, hNodup⟩)
          · rw [List.append_assoc]
            exact List.isChain_append_cons_cons.mpr ⟨hChain, hEdge, List.isChain_singleton b⟩

/-- The successors of a node that are not settled. -/
def openSuccessors (g : Digraph α) (settled : List α) (a : α) : List α :=
  (g.successors a).filter fun b => !settled.contains b

/-- A walk that finds nothing leaves its first node behind. There is fuel enough, since a path meets no
node twice. -/
theorem passes_walk {fuel : Nat} (hClosed : g.IsClosed) (hPath : path.Nodup) (hNodes : path ⊆ g.nodes)
    (ha : a ∈ g.nodes) (hFuel : g.nodes.length < path.length + fuel)
    (hExplored : Explored (g.openSuccessors settled) path visited done)
    (h : (walk g settled fuel path a visited).1 = none) :
    Passes (g.openSuccessors settled) path [a] done (walk g settled fuel path a visited).2 := by
  induction fuel generalizing path a visited done with
  | zero => exact absurd (hPath.subperm hNodes).length_le (by omega)
  | succ fuel ih =>
      rw [walk] at h ⊢
      split at h
      · cases h
      · rename_i hOff
        have hOff : a ∉ path := fun hMem => hOff (List.contains_iff_mem.mpr hMem)
        rw [if_neg (by simpa using hOff)]
        split at h
        · rename_i hOld
          rw [if_pos hOld]
          have hDone := ((hExplored.mem_visited a).mp (List.contains_iff_mem.mp hOld)).resolve_right hOff
          exact ⟨done, hExplored, fun _ hx => hx, by simpa using hDone⟩
        · rename_i hNew
          rw [if_neg hNew]
          have hStep : Explored (g.openSuccessors settled) (path ++ [a]) (visited ++ [a]) done :=
            ⟨hExplored.finished, fun x => by
              rw [List.mem_append, List.mem_append, hExplored.mem_visited, or_assoc]⟩
          obtain ⟨done', hExplored', hDone, hNext⟩ := passes_firstCycle
            (fun b hb visited done hExplored hNone => ih
              (List.nodup_append_comm.mp (List.nodup_cons.mpr ⟨hOff, hPath⟩))
              (List.append_subset.mpr ⟨hNodes, by simpa using ha⟩)
              (hClosed.target_mem (List.mem_filter.mp hb).1) (by simp; omega) hExplored hNone)
            hStep h
          -- The node leaves the path only now, when all it leads to has been left behind.
          refine ⟨a :: done', ⟨.cons hExplored'.finished hNext, fun x => ?_⟩,
            fun x hx => List.mem_cons_of_mem _ (hDone hx), by simp⟩
          rw [hExplored'.mem_visited, List.mem_append, List.mem_singleton, List.mem_cons]
          tauto

/-- Where there is no order a cycle is found. -/
theorem exists_isCycle_of_order?_eq_none [Std.LawfulEqOrd α] [Std.TransOrd α] (hClosed : g.IsClosed)
    (h : g.order? = none) : ∃ cycle, g.findCycle? g.sorted = some cycle ∧ g.IsCycle cycle := by
  cases hFound : g.findCycle? g.sorted with
  | some cycle =>
      obtain ⟨a, -, visited, hWalk⟩ := mem_of_firstCycle_some hFound
      exact ⟨cycle, rfl, isCycle_of_walk List.nodup_nil (List.isChain_singleton a) hWalk⟩
  | none =>
      exfalso
      obtain ⟨a, ha, hNot⟩ := exists_not_mem_sorted_of_order? hClosed h
      obtain ⟨x, hWay⟩ := exists_transGen_of_not_mem_sorted hClosed ha hNot
      have hStart : Explored (g.openSuccessors g.sorted) [] [] [] := ⟨.nil, by simp⟩
      obtain ⟨done, hExplored, -, hAll⟩ := passes_firstCycle
        (fun b hb visited done hExplored hNone => passes_walk hClosed List.nodup_nil
          (List.nil_subset _) (List.mem_filter.mp hb).1 (by simp [nodes, Table.keys]) hExplored hNone)
        hStart hFound
      have hNode : x ∈ g.nodes ∧ x ∉ g.sorted := by
        obtain ⟨y, ⟨hx, -, hEdge⟩, -⟩ := TransGen.head'_iff.mp hWay
        exact ⟨hEdge.source_mem, hx⟩
      refine hExplored.finished.not_transGen_self (hAll (by simpa using hNode)) ?_
      refine TransGen.mono ?_ x x hWay
      rintro y z ⟨-, hz, hEdge⟩
      exact List.mem_filter.mpr ⟨hEdge, by simpa using hz⟩

end Telemetry.Digraph

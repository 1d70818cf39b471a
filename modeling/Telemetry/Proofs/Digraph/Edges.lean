import Mathlib.Data.List.Nodup
import Mathlib.Logic.Relation
import Telemetry.Digraph
import Telemetry.Proofs.Table

/-!
# Nodes and edges of directed graphs

The graph of a list of edges has just these edges, each once, and their ends as nodes.
-/

namespace Telemetry.Digraph

open Relation (TransGen)

variable {α : Type} [Ord α]

/-- An edge leads from a node to each of its successors. -/
def Edge (g : Digraph α) (a b : α) : Prop := b ∈ g.successors a

instance [DecidableEq α] (g : Digraph α) : DecidableRel g.Edge :=
  fun a b => inferInstanceAs (Decidable (b ∈ g.successors a))

/-- Whether there is a way back to some node along one edge or more. -/
def IsCyclic (g : Digraph α) : Prop := ∃ a, TransGen g.Edge a a

/-- Nodes are there once, and an edge leads to a node. -/
structure IsClosed (g : Digraph α) : Prop where
  ascending : Table.Ascending g
  target_mem : ∀ {a b}, g.Edge a b → b ∈ g.nodes

/-- Nodes and edges are there once, and an edge leads to a node. -/
structure IsProper (g : Digraph α) : Prop extends IsClosed g where
  nodup : ∀ a, (g.successors a).Nodup

variable [Std.LawfulEqOrd α] {g : Digraph α} {a b s t : α}

theorem Edge.source_mem (h : g.Edge a b) : a ∈ g.nodes := by
  rw [Edge, successors] at h
  rcases hNext : Table.get? a g with _ | next
  · rw [hNext] at h
    cases h
  · exact Table.isSome_get?_iff.mp (by rw [hNext]; rfl)

theorem successors_addNode : (g.addNode a).successors b = g.successors b := by
  rw [addNode]
  split
  · rfl
  · rename_i hNew
    by_cases hb : b = a
    · subst hb
      have hNone : Table.get? b g = none := by simpa [Table.contains] using hNew
      simp [successors, hNone]
    · rw [successors, successors, Table.get?_insert_of_ne hb]

theorem mem_nodes_addNode : b ∈ (g.addNode a).nodes ↔ b = a ∨ b ∈ g.nodes := by
  rw [addNode]
  split
  · rename_i hOld
    constructor
    · exact .inr
    · rintro (rfl | hb)
      · exact Table.contains_iff.mp hOld
      · exact hb
  · exact Table.mem_keys_insert_iff

section Adding

variable [BEq α] [LawfulBEq α]

theorem successors_addEdge_self : (g.addEdge s t).successors s =
    if (g.successors s).contains t then g.successors s else g.successors s ++ [t] := by
  simp only [addEdge, successors_addNode]
  simp [successors]

omit [LawfulBEq α] in
theorem successors_addEdge_of_ne (h : a ≠ s) : (g.addEdge s t).successors a = g.successors a := by
  rw [addEdge, successors, Table.get?_insert_of_ne h]
  exact successors_addNode

theorem edge_addEdge : (g.addEdge s t).Edge a b ↔ g.Edge a b ∨ a = s ∧ b = t := by
  by_cases h : a = s
  · subst h
    rw [Edge, Edge, successors_addEdge_self]
    split
    · rename_i hOld
      have hOld : t ∈ g.successors a := List.contains_iff_mem.mp hOld
      constructor
      · exact .inl
      · rintro (hb | ⟨-, rfl⟩)
        · exact hb
        · exact hOld
    · simp
  · rw [Edge, Edge, successors_addEdge_of_ne h]
    simp [h]

omit [LawfulBEq α] in
theorem mem_nodes_addEdge : b ∈ (g.addEdge s t).nodes ↔ b = s ∨ b = t ∨ b ∈ g.nodes := by
  rw [nodes, addEdge, Table.mem_keys_insert_iff, ← mem_nodes_addNode, nodes]

theorem IsProper.addEdge [Std.TransOrd α] (h : g.IsProper) : (g.addEdge s t).IsProper where
  ascending := by
    have hNode : Table.Ascending (g.addNode t) := by
      rw [addNode]
      split
      · exact h.ascending
      · exact h.ascending.insert
    exact hNode.insert
  nodup a := by
    by_cases ha : a = s
    · subst ha
      rw [successors_addEdge_self]
      split
      · exact h.nodup a
      · rename_i hNew
        have hNew : t ∉ g.successors a := fun ht => hNew (List.contains_iff_mem.mpr ht)
        refine List.nodup_append.mpr ⟨h.nodup a, List.nodup_singleton t, ?_⟩
        rintro b hb c hc rfl
        exact hNew (List.mem_singleton.mp hc ▸ hb)
    · rw [successors_addEdge_of_ne ha]
      exact h.nodup a
  target_mem {a b} hEdge := by
    rw [mem_nodes_addEdge]
    rcases edge_addEdge.mp hEdge with hOld | ⟨-, rfl⟩
    · exact .inr (.inr (h.target_mem hOld))
    · exact .inr (.inl rfl)

variable {edges : List (α × α)}

theorem isProper_ofEdges [Std.TransOrd α] (edges : List (α × α)) : (ofEdges edges).IsProper := by
  have hFold : ∀ g : Digraph α, g.IsProper →
      IsProper (edges.foldl (fun g e => g.addEdge e.1 e.2) g) := by
    induction edges with
    | nil => exact fun g hg => hg
    | cons e edges ih => exact fun g hg => ih _ hg.addEdge
  exact hFold [] ⟨⟨List.Pairwise.nil, fun h => by cases h⟩, fun _ => List.nodup_nil⟩

theorem edge_ofEdges : (ofEdges edges).Edge a b ↔ (a, b) ∈ edges := by
  have hFold : ∀ g : Digraph α,
      Edge (edges.foldl (fun g e => g.addEdge e.1 e.2) g) a b ↔ g.Edge a b ∨ (a, b) ∈ edges := by
    induction edges with
    | nil => simp
    | cons e edges ih =>
        intro g
        rw [List.foldl_cons, ih, edge_addEdge, List.mem_cons, Prod.ext_iff, or_assoc]
  rw [ofEdges, hFold]
  simp [Edge, successors]

omit [LawfulBEq α] in
theorem mem_nodes_ofEdges : a ∈ (ofEdges edges).nodes ↔ ∃ e ∈ edges, a = e.1 ∨ a = e.2 := by
  have hFold : ∀ g : Digraph α, a ∈ nodes (edges.foldl (fun g e => g.addEdge e.1 e.2) g) ↔
      (∃ e ∈ edges, a = e.1 ∨ a = e.2) ∨ a ∈ g.nodes := by
    induction edges with
    | nil => simp
    | cons e edges ih =>
        intro g
        rw [List.foldl_cons, ih, mem_nodes_addEdge, List.exists_mem_cons_iff]
        simp only [or_assoc, or_left_comm]
  rw [ofEdges, hFold]
  simp [nodes, Table.keys]

end Adding

end Telemetry.Digraph

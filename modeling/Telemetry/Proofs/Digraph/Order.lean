import Mathlib.Data.Finite.Defs
import Mathlib.Order.WellFounded
import Mathlib.Data.Fintype.Card
import Mathlib.Data.Set.Finite.Basic
import Telemetry.Digraph
import Telemetry.Proofs.Digraph.Edges

/-!
# Topological orders are found

The order of a graph has every node once, after all its predecessors. There is none just if some node
leads back to itself.
-/

namespace Telemetry.Digraph

open Relation (TransGen)

variable {α : Type} {a b : α} {l : List α}

/-- In a finite set where each member has a predecessor there is a way in circles. -/
theorem exists_transGen_self [DecidableEq α] {r : α → α → Prop} (hSome : a ∈ l)
    (hBack : ∀ x ∈ l, ∃ y ∈ l, r y x) :
    ∃ x ∈ l, TransGen (fun y z => y ∈ l ∧ z ∈ l ∧ r y z) x x := by
  by_contra hNone
  push Not at hNone
  let way (x y : { x // x ∈ l }) : Prop := TransGen (fun y z => y ∈ l ∧ z ∈ l ∧ r y z) x.1 y.1
  have : IsTrans { x // x ∈ l } way := ⟨fun _ _ _ => TransGen.trans⟩
  have : Std.Irrefl way := ⟨fun x => hNone x.1 x.2⟩
  obtain ⟨least, -, hLeast⟩ :=
    (Finite.wellFounded_of_trans_of_irrefl way).has_min Set.univ ⟨⟨a, hSome⟩, trivial⟩
  obtain ⟨y, hy, hr⟩ := hBack least.1 least.2
  exact hLeast ⟨y, hy⟩ trivial (TransGen.single ⟨hy, least.2, hr⟩)

variable [Ord α] {g : Digraph α}

/-- Lists of nodes, each once and after all its predecessors. -/
inductive Topological (g : Digraph α) : List α → Prop
  | nil : Topological g []
  | snoc {order : List α} {a : α} (prior : Topological g order) (hNode : a ∈ g.nodes)
      (hNew : a ∉ order) (hBefore : ∀ b, g.Edge b a → b ∈ order) : Topological g (order ++ [a])

namespace Topological

variable {order before after : List α}

theorem nodup (h : g.Topological order) : order.Nodup := by
  induction h with
  | nil => exact List.nodup_nil
  | snoc prior hNode hNew hBefore ih =>
      exact List.nodup_append_comm.mp (List.nodup_cons.mpr ⟨hNew, ih⟩)

theorem subset (h : g.Topological order) : order ⊆ g.nodes := by
  induction h with
  | nil => exact List.nil_subset _
  | snoc prior hNode hNew hBefore ih =>
      exact List.append_subset.mpr ⟨ih, List.cons_subset.mpr ⟨hNode, List.nil_subset _⟩⟩

/-- What stands before a node holds its predecessors. -/
theorem mem_of_edge (h : g.Topological (before ++ b :: after)) (hEdge : g.Edge a b) :
    a ∈ before := by
  generalize hOrder : before ++ b :: after = order at h
  induction h generalizing after with
  | nil => simp at hOrder
  | @snoc order c prior hNode hNew hBefore ih =>
      rcases List.eq_nil_or_concat after with rfl | ⟨after, d, rfl⟩
      · obtain ⟨rfl, hLast⟩ := List.append_inj' hOrder rfl
        cases hLast
        exact hBefore a hEdge
      · rw [List.concat_eq_append, ← List.cons_append, ← List.append_assoc] at hOrder
        exact ih (List.append_inj' hOrder rfl).1

theorem mem_of_transGen (h : g.Topological (before ++ b :: after)) (hWay : TransGen g.Edge a b) :
    a ∈ before := by
  induction hWay generalizing before after with
  | single hEdge => exact h.mem_of_edge hEdge
  | @tail c b hWay hEdge ih =>
      obtain ⟨first, second, rfl⟩ := List.append_of_mem (h.mem_of_edge hEdge)
      rw [List.append_assoc] at h
      exact List.mem_append_left _ (ih h)

theorem not_transGen_self (h : g.Topological order) (hMem : a ∈ order) : ¬ TransGen g.Edge a a := by
  intro hWay
  obtain ⟨before, after, rfl⟩ := List.append_of_mem hMem
  have hNodup := h.nodup
  rw [List.nodup_append] at hNodup
  exact hNodup.2.2 a (h.mem_of_transGen hWay) a List.mem_cons_self rfl

/-- No way leads back. -/
theorem pairwise (h : g.Topological order) : order.Pairwise fun x y => ¬ TransGen g.Edge y x := by
  induction h with
  | nil => exact List.Pairwise.nil
  | snoc prior hNode hNew hBefore ih =>
      refine List.pairwise_append.mpr ⟨ih, List.pairwise_singleton _ _, ?_⟩
      intro x hx y hy hWay
      obtain ⟨before, after, rfl⟩ := List.append_of_mem hx
      rw [List.mem_singleton.mp hy] at hWay
      exact hNew (List.mem_append_left _ (prior.mem_of_transGen hWay))

/-- What a node leads to stands after it. -/
theorem mem_after_of_transGen (h : g.Topological (before ++ a :: after))
    (hMem : b ∈ before ++ a :: after) (hWay : TransGen g.Edge a b) : b ∈ after := by
  rcases List.mem_append.mp hMem with hBefore | hRest
  · exact absurd hWay ((List.pairwise_append.mp h.pairwise).2.2 b hBefore a List.mem_cons_self)
  · rcases List.mem_cons.mp hRest with rfl | hAfter
    · exact absurd hWay (h.not_transGen_self hMem)
    · exact hAfter

/-- What holds of a node when it holds of all that follow it holds of every node. -/
theorem downward_induction {P : α → Prop} (h : g.Topological order)
    (hStep : ∀ a ∈ order, (∀ b ∈ order, g.Edge a b → P b) → P a) : ∀ a ∈ order, P a := by
  have hAll : ∀ size before a after, order = before ++ a :: after → after.length = size → P a := by
    intro size
    induction size using Nat.strong_induction_on with
    | _ size ih =>
        rintro before a after rfl rfl
        refine hStep a (by simp) fun b hb hEdge => ?_
        obtain ⟨first, second, rfl⟩ := List.append_of_mem (h.mem_after_of_transGen hb (.single hEdge))
        exact ih second.length (by simp; omega) (before ++ a :: first) b second (by simp) rfl
  intro a ha
  obtain ⟨before, after, hOrder⟩ := List.append_of_mem ha
  exact hAll _ before a after hOrder rfl

end Topological

/-! ## Taking the nodes one by one -/

theorem flatMap_targets [Std.LawfulEqOrd α] (hClosed : g.IsClosed) :
    g.flatMap Prod.snd = g.nodes.flatMap g.successors := by
  rw [nodes, Table.keys, List.flatMap_map]
  refine List.flatMap_congr fun e he => ?_
  rw [successors, hClosed.ascending.get?_of_mem he]
  rfl

section Degrees

variable [Std.LawfulEqOrd α] [DecidableEq α] {degrees : Table α Nat} {ready : List α}

theorem get?_countEdge :
    (countEdge degrees b).get? a = if a = b then (degrees.get? a).map (· + 1) else degrees.get? a := by
  rw [countEdge]
  by_cases h : a = b
  · subst h
    cases hDegree : degrees.get? a <;> simp [hDegree]
  · rw [if_neg h]
    split
    · rfl
    · exact Table.get?_insert_of_ne h _ _

theorem get?_countEdges (degrees : Table α Nat) (l : List α) :
    Table.get? a (l.foldl countEdge degrees) = (degrees.get? a).map (· + l.count a) := by
  induction l generalizing degrees with
  | nil => simp
  | cons b l ih =>
      rw [List.foldl_cons, ih, get?_countEdge]
      by_cases h : a = b
      · subst h
        simp [Function.comp_def, Nat.add_comm, Nat.add_left_comm]
      · simp [h, List.count_cons_of_ne (Ne.symm h)]

theorem get?_relax (degrees : Table α Nat) (ready l : List α) :
    (relax degrees ready l).1.get? a = (degrees.get? a).map (· - l.count a) := by
  induction l generalizing degrees ready with
  | nil => simp [relax]
  | cons b l ih =>
      rw [relax]
      split
      · rename_i hNone
        rw [ih]
        by_cases h : a = b
        · subst h
          simp [hNone]
        · rw [List.count_cons_of_ne (Ne.symm h)]
      · rename_i n hSome
        rw [ih]
        by_cases h : a = b
        · subst h
          simp [hSome, Nat.sub_sub, Nat.add_comm]
        · rw [List.count_cons_of_ne (Ne.symm h), Table.get?_insert_of_ne h]

/-- A node becomes ready when as many edges are taken away as there are. -/
theorem mem_relax (degrees : Table α Nat) (ready l : List α) :
    a ∈ (relax degrees ready l).2 ↔
      a ∈ ready ∨ a ∈ l ∧ ∃ n, degrees.get? a = some n ∧ n ≤ l.count a := by
  induction l generalizing degrees ready with
  | nil => simp [relax]
  | cons b l ih =>
      rw [relax]
      split
      · rename_i hNone
        rw [ih]
        by_cases h : a = b
        · subst h
          simp [hNone]
        · simp [h, List.count_cons_of_ne (Ne.symm h)]
      · rename_i n hSome
        rw [ih]
        by_cases h : a = b
        · subst h
          by_cases hMem : a ∈ l
          · have hPos := List.count_pos_iff.mpr hMem
            simp only [hSome, Table.get?_insert_self, hMem, List.count_cons_self]
            split <;> simp [mem_insertOrdered_iff]
            omega
          · simp only [hSome, hMem, List.count_cons_self, List.count_eq_zero_of_not_mem hMem]
            split <;> simp [mem_insertOrdered_iff] <;> omega
        · rw [List.count_cons_of_ne (Ne.symm h), Table.get?_insert_of_ne h]
          split <;> simp [mem_insertOrdered_iff, h]

omit [DecidableEq α] in
theorem pairwise_relax [Std.TransOrd α] (degrees : Table α Nat) (l : List α)
    (h : ready.Pairwise fun x y => compare x y = .lt) :
    (relax degrees ready l).2.Pairwise fun x y => compare x y = .lt := by
  induction l generalizing degrees ready with
  | nil => exact h
  | cons b l ih =>
      rw [relax]
      split
      · exact ih degrees h
      · refine ih _ ?_
        split
        · exact pairwise_insertOrdered h
        · exact h

/-- How far the taking of nodes has come: some are taken, the others are left, and the edges that count
are those that come from nodes that are left. -/
structure Sorting (g : Digraph α) (taken left : List α) (degrees : Table α Nat)
    (ready : List α) : Prop where
  perm : (taken ++ left).Perm g.nodes
  placed : g.Topological taken
  degree : ∀ a ∈ g.nodes, degrees.get? a = some ((left.flatMap g.successors).count a)
  mem_ready : ∀ a, a ∈ ready ↔ a ∈ left ∧ (left.flatMap g.successors).count a = 0
  ascending : ready.Pairwise fun x y => compare x y = .lt

omit [Std.LawfulEqOrd α] in
/-- No edge that counts leads to a node just if all its predecessors are taken. -/
theorem count_successors_eq_zero_iff :
    (l.flatMap g.successors).count a = 0 ↔ ∀ b ∈ l, ¬ g.Edge b a := by
  rw [List.count_eq_zero, List.mem_flatMap]
  simp [Edge]

variable [Std.TransOrd α] {taken left : List α}

omit [Std.LawfulEqOrd α] in
theorem Sorting.nodup (h : Sorting g taken left degrees ready) (hClosed : g.IsClosed) :
    (taken ++ left).Nodup :=
  h.perm.nodup_iff.mpr hClosed.ascending.nodup_keys

omit [Std.LawfulEqOrd α] [Std.TransOrd α] in
theorem Sorting.mem_nodes_iff (h : Sorting g taken left degrees ready) :
    a ∈ g.nodes ↔ a ∈ taken ∨ a ∈ left := by
  rw [← h.perm.mem_iff, List.mem_append]

omit [Std.LawfulEqOrd α] in
theorem Sorting.not_mem_of_edge (h : Sorting g taken left degrees ready) (hClosed : g.IsClosed)
    (hLeft : a ∈ left) (hEdge : g.Edge a b) : b ∉ taken := by
  intro hTaken
  obtain ⟨before, after, rfl⟩ := List.append_of_mem hTaken
  have hBefore := h.placed.mem_of_edge hEdge
  exact (List.nodup_append.mp (h.nodup hClosed)).2.2 a (List.mem_append_left _ hBefore) a hLeft rfl

/-- One more node is taken, and its edges count no longer. -/
theorem Sorting.take (h : Sorting g taken left degrees (a :: ready)) (hClosed : g.IsClosed) :
    Sorting g (taken ++ [a]) (left.erase a) (relax degrees ready (g.successors a)).1
      (relax degrees ready (g.successors a)).2 := by
  obtain ⟨hLeft, hFree⟩ := (h.mem_ready a).mp List.mem_cons_self
  have hPerm : left.Perm (a :: left.erase a) := List.perm_cons_erase hLeft
  have hNodup := List.nodup_append.mp (h.nodup hClosed)
  have hCount : ∀ x, (left.flatMap g.successors).count x =
      (g.successors a).count x + ((left.erase a).flatMap g.successors).count x := by
    intro x
    rw [(hPerm.flatMap_right g.successors).count_eq, List.flatMap_cons, List.count_append]
  have hNone : ∀ b ∈ left, ¬ g.Edge b a := count_successors_eq_zero_iff.mp hFree
  have hMemErase : ∀ x, x ∈ left.erase a ↔ x ≠ a ∧ x ∈ left := fun x => hNodup.2.1.mem_erase_iff
  constructor
  case perm =>
    rw [List.append_assoc]
    exact (hPerm.symm.append_left taken).trans h.perm
  case placed =>
    refine .snoc h.placed (h.mem_nodes_iff.mpr (.inr hLeft)) ?_ ?_
    · exact fun hTaken => hNodup.2.2 a hTaken a hLeft rfl
    · intro b hEdge
      exact (h.mem_nodes_iff.mp hEdge.source_mem).resolve_right fun hb => hNone b hb hEdge
  case degree =>
    intro x hx
    rw [get?_relax, h.degree x hx, hCount]
    simp
  case mem_ready =>
    intro x
    rw [mem_relax, hMemErase]
    constructor
    · rintro (hReady | ⟨hNext, n, hDegree, hLe⟩)
      · obtain ⟨hx, hZero⟩ := (h.mem_ready x).mp (List.mem_cons_of_mem _ hReady)
        rw [hCount] at hZero
        have hNe : x ≠ a := by
          rintro rfl
          simpa using (List.pairwise_cons.mp h.ascending).1 x hReady
        exact ⟨⟨hNe, hx⟩, by omega⟩
      · have hx : x ∈ g.nodes := hClosed.target_mem hNext
        rw [h.degree x hx, hCount] at hDegree
        cases hDegree
        have hNe : x ≠ a := by
          rintro rfl
          exact hNone x hLeft hNext
        exact ⟨⟨hNe, (h.mem_nodes_iff.mp hx).resolve_left (h.not_mem_of_edge hClosed hLeft hNext)⟩,
          by omega⟩
    · rintro ⟨⟨hNe, hx⟩, hZero⟩
      by_cases hNext : x ∈ g.successors a
      · refine .inr ⟨hNext, _, h.degree x (hClosed.target_mem hNext), ?_⟩
        rw [hCount]
        omega
      · have hAll : (left.flatMap g.successors).count x = 0 := by
          rw [hCount, List.count_eq_zero_of_not_mem hNext, hZero]
        exact .inl ((List.mem_cons.mp ((h.mem_ready x).mpr ⟨hx, hAll⟩)).resolve_left hNe)
  case ascending => exact pairwise_relax degrees _ (List.pairwise_cons.mp h.ascending).2

/-- Nodes are taken until none is ready. -/
theorem Sorting.takeReady {fuel : Nat} (h : Sorting g taken left degrees ready)
    (hClosed : g.IsClosed) (hFuel : left.length ≤ fuel) :
    ∃ left' degrees', Sorting g (taken ++ g.takeReady fuel degrees ready) left' degrees' [] := by
  induction fuel generalizing taken left degrees ready with
  | zero =>
      have hLeft : left = [] := List.length_eq_zero_iff.mp (Nat.le_zero.mp hFuel)
      have hReady : ready = [] :=
        List.eq_nil_iff_forall_not_mem.mpr fun a ha => by simpa [hLeft] using (h.mem_ready a).mp ha
      subst hReady
      rw [Digraph.takeReady, List.append_nil]
      exact ⟨left, degrees, h⟩
  | succ fuel ih =>
      cases ready with
      | nil =>
          rw [Digraph.takeReady, List.append_nil]
          exact ⟨left, degrees, h⟩
      | cons a ready =>
          have hLeft := ((h.mem_ready a).mp List.mem_cons_self).1
          have hLength := List.length_erase_of_mem hLeft
          obtain ⟨left', degrees', hEnd⟩ := ih (h.take hClosed) (by omega)
          rw [List.append_assoc, List.singleton_append] at hEnd
          exact ⟨left', degrees', hEnd⟩

omit [Std.LawfulEqOrd α] [DecidableEq α] in
theorem ascending_countEdges (h : Table.Ascending degrees) (l : List α) :
    Table.Ascending (l.foldl countEdge degrees) := by
  induction l generalizing degrees with
  | nil => exact h
  | cons a l ih =>
      refine ih ?_
      rw [countEdge]
      split
      · exact h
      · exact h.insert

omit [Std.TransOrd α] in
theorem get?_inDegrees (hClosed : g.IsClosed) :
    g.inDegrees.get? a =
      (Table.get? a g).map fun _ => (g.nodes.flatMap g.successors).count a := by
  rw [inDegrees, get?_countEdges, flatMap_targets hClosed]
  have hZero : Table.get? a (g.map fun e => (e.1, 0)) = (Table.get? a g).map fun _ => 0 :=
    Table.get?_map (fun _ _ => 0) a g
  rw [hZero, Option.map_map]
  simp [Function.comp_def]

/-- At first nothing is taken, and every edge counts. -/
theorem sorting_start (hClosed : g.IsClosed) :
    Sorting g [] g.nodes g.inDegrees ((g.inDegrees.filter fun e => e.2 = 0).map Prod.fst) := by
  have hAscending : Table.Ascending g.inDegrees := by
    refine ascending_countEdges ?_ _
    rw [Table.Ascending, Table.keys, List.map_map]
    exact hClosed.ascending
  constructor
  case perm => exact List.Perm.refl _
  case placed => exact .nil
  case degree =>
    intro a ha
    obtain ⟨next, hNext⟩ := Option.isSome_iff_exists.mp (Table.isSome_get?_iff.mpr ha)
    rw [get?_inDegrees hClosed, hNext]
    rfl
  case mem_ready =>
    intro a
    have hReady : a ∈ (g.inDegrees.filter fun e => e.2 = 0).map Prod.fst ↔
        g.inDegrees.get? a = some 0 := by
      simp [← hAscending.mem_iff]
    rw [hReady, get?_inDegrees hClosed, Option.map_eq_some_iff]
    rw [nodes, ← Table.isSome_get?_iff, Option.isSome_iff_exists]
    simp
  case ascending =>
    exact List.Pairwise.sublist (List.filter_sublist.map Prod.fst) hAscending

/-! ## The order -/

theorem topological_sorted (hClosed : g.IsClosed) : g.Topological g.sorted := by
  have hFuel : g.nodes.length ≤ g.length := by simp [nodes, Table.keys]
  obtain ⟨left, degrees, hEnd⟩ := (sorting_start hClosed).takeReady hClosed hFuel
  exact hEnd.placed

/-- A node that cannot be taken has a predecessor that cannot be taken. -/
theorem exists_edge_of_not_mem_sorted (hClosed : g.IsClosed) (hNode : a ∈ g.nodes)
    (hNot : a ∉ g.sorted) : ∃ b ∉ g.sorted, g.Edge b a := by
  have hFuel : g.nodes.length ≤ g.length := by simp [nodes, Table.keys]
  obtain ⟨left, degrees, hEnd⟩ := (sorting_start hClosed).takeReady hClosed hFuel
  have hLeft := (hEnd.mem_nodes_iff.mp hNode).resolve_left hNot
  have hBusy : ¬ ∀ b ∈ left, ¬ g.Edge b a := fun hFree =>
    List.not_mem_nil ((hEnd.mem_ready a).mpr ⟨hLeft, count_successors_eq_zero_iff.mpr hFree⟩)
  push Not at hBusy
  obtain ⟨b, hb, hEdge⟩ := hBusy
  exact ⟨b, fun hTaken => (List.nodup_append.mp (hEnd.nodup hClosed)).2.2 b hTaken b hb rfl, hEdge⟩

/-- Among the nodes that cannot be taken there is a way in circles. -/
theorem exists_transGen_of_not_mem_sorted (hClosed : g.IsClosed) (hNode : a ∈ g.nodes)
    (hNot : a ∉ g.sorted) :
    ∃ x, TransGen (fun y z => y ∉ g.sorted ∧ z ∉ g.sorted ∧ g.Edge y z) x x := by
  obtain ⟨x, -, hWay⟩ := exists_transGen_self (r := g.Edge) (a := a)
    (l := g.nodes.filter fun b => b ∉ g.sorted) (by simp [hNode, hNot]) fun b hb => by
      have hb : b ∈ g.nodes ∧ b ∉ g.sorted := by simpa using hb
      obtain ⟨c, hc, hEdge⟩ := exists_edge_of_not_mem_sorted hClosed hb.1 hb.2
      exact ⟨c, by simp [hEdge.source_mem, hc], hEdge⟩
  refine ⟨x, TransGen.mono ?_ x x hWay⟩
  rintro y z ⟨hy, hz, hEdge⟩
  simp only [List.mem_filter, decide_eq_true_eq] at hy hz
  exact ⟨hy.2, hz.2, hEdge⟩

/-- An order has every node once, after all its predecessors. -/
theorem topological_of_order? {order : List α} (hClosed : g.IsClosed) (h : g.order? = some order) :
    g.Topological order ∧ order.Perm g.nodes := by
  rw [order?] at h
  split at h
  · cases h
  · rename_i hAll
    cases h
    have hSorted := topological_sorted hClosed
    refine ⟨hSorted, (hSorted.nodup.subperm hSorted.subset).perm_of_length_le ?_⟩
    simpa [nodes, Table.keys] using hAll

omit [Std.LawfulEqOrd α] in
theorem exists_not_mem_sorted_of_order? (hClosed : g.IsClosed) (h : g.order? = none) :
    ∃ a ∈ g.nodes, a ∉ g.sorted := by
  have hShort : g.sorted.length < g.nodes.length := by
    by_contra hAll
    rw [order?, if_neg (by simpa [nodes, Table.keys] using hAll)] at h
    cases h
  by_contra hNone
  push Not at hNone
  exact Nat.not_le.mpr hShort (hClosed.ascending.nodup_keys.subperm hNone).length_le

/-- There is no order just if some node leads back to itself. -/
theorem order?_eq_none_iff (hClosed : g.IsClosed) : g.order? = none ↔ g.IsCyclic := by
  constructor
  · intro h
    obtain ⟨a, ha, hNot⟩ := exists_not_mem_sorted_of_order? hClosed h
    obtain ⟨x, hWay⟩ := exists_transGen_of_not_mem_sorted hClosed ha hNot
    exact ⟨x, TransGen.mono (fun _ _ hStep => hStep.2.2) x x hWay⟩
  · rintro ⟨a, hWay⟩
    cases hOrder : g.order? with
    | none => rfl
    | some order =>
        obtain ⟨hTopological, hPerm⟩ := topological_of_order? hClosed hOrder
        obtain ⟨b, hEdge, -⟩ := TransGen.head'_iff.mp hWay
        exact absurd hWay (hTopological.not_transGen_self (hPerm.mem_iff.mpr hEdge.source_mem))

end Degrees

end Telemetry.Digraph

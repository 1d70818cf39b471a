import Mathlib.Data.List.Lex
import Telemetry.Proofs.Digraph.Order

/-!
# The order that is found is the least

Of all lists that have every node once and every edge leading forward, the one that is found comes
first, compared node by node. So it depends on the nodes and edges alone. The counts of the edges that
are left are never asked for less than nothing.
-/

namespace Telemetry.Digraph

variable {α : Type} [Ord α] {g g' : Digraph α} {a b : α} {l order other : List α}

/-! ## Orders -/

/-- Lists that have every node once, and every edge leading forward. -/
structure IsOrder [BEq α] (g : Digraph α) (order : List α) : Prop where
  perm : order.Perm g.nodes
  forward : ∀ {a b}, g.Edge a b → order.idxOf a < order.idxOf b

/-- Whether one list comes before another: at the first place where they differ it has the smaller
element, or it ends there. -/
abbrev Precedes (order other : List α) : Prop := List.Lex (fun a b => compare a b = .lt) order other

theorem Precedes.asymm [Std.OrientedOrd α] (h : Precedes order other) : ¬ Precedes other order := by
  have hElements : Std.Asymm fun a b : α => compare a b = .lt :=
    ⟨fun _ _ => Std.OrientedCmp.not_lt_of_lt⟩
  exact (List.Lex.asymm (fun a b : α => compare a b = .lt)).asymm _ _ h

section Orders

variable [DecidableEq α]

omit [Ord α] in
theorem idxOf_append_cons {before after : List α} (hNew : a ∉ before) :
    (before ++ a :: after).idxOf a = before.length := by
  rw [List.idxOf_append_of_notMem hNew, List.idxOf_cons_self, Nat.add_zero]

theorem Topological.idxOf_lt (h : g.Topological order) (hMem : b ∈ order) (hEdge : g.Edge a b) :
    order.idxOf a < order.idxOf b := by
  obtain ⟨before, after, rfl⟩ := List.append_of_mem hMem
  have hNew : b ∉ before := fun hOld =>
    (List.nodup_append.mp h.nodup).2.2 b hOld b List.mem_cons_self rfl
  have hBefore : a ∈ before := h.mem_of_edge hEdge
  rw [idxOf_append_cons hNew, List.idxOf_append_of_mem hBefore]
  exact List.idxOf_lt_length_of_mem hBefore

theorem IsOrder.nodup [Std.TransOrd α] (h : g.IsOrder order) (hClosed : g.IsClosed) : order.Nodup :=
  h.perm.nodup_iff.mpr hClosed.ascending.nodup_keys

theorem IsOrder.topological [Std.TransOrd α] (h : g.IsOrder order) (hClosed : g.IsClosed) :
    g.Topological order := by
  have hPrefix : ∀ before after, before ++ after = order → g.Topological before := by
    intro before
    induction before using List.reverseRecOn with
    | nil => exact fun _ _ => .nil
    | append_singleton before a ih =>
        rintro after rfl
        have hOrder : before ++ [a] ++ after = before ++ a :: after := List.append_assoc before [a] after
        have hNew : a ∉ before := by
          have hNodup := h.nodup hClosed
          rw [hOrder] at hNodup
          exact fun hOld => (List.nodup_append.mp hNodup).2.2 a hOld a List.mem_cons_self rfl
        refine .snoc (ih (a :: after) hOrder.symm) (h.perm.mem_iff.mp (by simp)) hNew fun b hEdge => ?_
        have hForward := h.forward hEdge
        rw [hOrder, idxOf_append_cons hNew] at hForward
        by_contra hLater
        rw [List.idxOf_append_of_notMem hLater] at hForward
        omega
  exact hPrefix order [] (List.append_nil order)

theorem isOrder_iff [Std.TransOrd α] (hClosed : g.IsClosed) :
    g.IsOrder order ↔ g.Topological order ∧ order.Perm g.nodes := by
  constructor
  · exact fun h => ⟨h.topological hClosed, h.perm⟩
  · rintro ⟨hTopological, hPerm⟩
    refine ⟨hPerm, fun hEdge => hTopological.idxOf_lt ?_ hEdge⟩
    exact hPerm.mem_iff.mpr (hClosed.target_mem hEdge)

end Orders

/-! ## The counts suffice -/

/-- Takes away one edge into each of some nodes, as long as there is one for each. -/
def relax? (degrees : Table α Nat) (ready : List α) : List α → Option (Table α Nat × List α)
  | [] => some (degrees, ready)
  | a :: rest =>
    match degrees.get? a with
    | none => relax? degrees ready rest
    | some 0 => none
    | some (n + 1) => relax? (degrees.insert a n) (if n = 0 then insertOrdered a ready else ready) rest

/-- Takes at most so many nodes, as long as the counts suffice. -/
def takeReady? (g : Digraph α) : Nat → Table α Nat → List α → Option (List α)
  | 0, _, _ => some []
  | _ + 1, _, [] => some []
  | fuel + 1, degrees, a :: ready =>
    match relax? degrees ready (g.successors a) with
    | none => none
    | some (degrees, ready) => (takeReady? g fuel degrees ready).map (a :: ·)

/-- The nodes that can be taken, in order, unless a count falls short. -/
def sorted? (g : Digraph α) : Option (List α) :=
  let degrees := g.inDegrees
  takeReady? g g.length degrees ((degrees.filter fun e => e.2 = 0).map Prod.fst)

section Sorting

variable [Std.LawfulEqOrd α] [DecidableEq α] {degrees : Table α Nat} {ready taken left : List α}

theorem relax?_eq_some (hEnough : ∀ a ∈ l, ∀ n, degrees.get? a = some n → l.count a ≤ n) :
    relax? degrees ready l = some (relax degrees ready l) := by
  induction l generalizing degrees ready with
  | nil => rfl
  | cons a l ih =>
      have hLater : ∀ b ∈ l, b ≠ a → ∀ n, degrees.get? b = some n → l.count b ≤ n := by
        intro b hb hNe n hDegree
        have hCount := hEnough b (List.mem_cons_of_mem a hb) n hDegree
        rwa [List.count_cons_of_ne (Ne.symm hNe)] at hCount
      rw [relax?, relax]
      cases hDegree : degrees.get? a with
      | none =>
          refine ih fun b hb n hb' => hLater b hb ?_ n hb'
          rintro rfl
          rw [hDegree] at hb'
          cases hb'
      | some n =>
          have hCount := hEnough a List.mem_cons_self n hDegree
          rw [List.count_cons_self] at hCount
          cases n with
          | zero => exact absurd hCount (by omega)
          | succ n =>
              refine ih fun b hb m hb' => ?_
              by_cases hSame : b = a
              · subst hSame
                rw [Table.get?_insert_self] at hb'
                cases hb'
                omega
              · rw [Table.get?_insert_of_ne hSame] at hb'
                exact hLater b hb hSame m hb'

variable [Std.TransOrd α]

omit [Std.LawfulEqOrd α] [Std.TransOrd α] in
/-- The edges that count include those from the node that is taken next. -/
theorem Sorting.count_le (h : Sorting g taken left degrees (a :: ready)) (hClosed : g.IsClosed)
    (hEdge : g.Edge a b) {n : Nat} (hDegree : degrees.get? b = some n) :
    (g.successors a).count b ≤ n := by
  obtain ⟨before, after, rfl⟩ := List.append_of_mem ((h.mem_ready a).mp List.mem_cons_self).1
  rw [h.degree b (hClosed.target_mem hEdge)] at hDegree
  cases hDegree
  simp only [List.flatMap_append, List.flatMap_cons, List.count_append]
  omega

theorem Sorting.takeReady? {fuel : Nat} (h : Sorting g taken left degrees ready)
    (hClosed : g.IsClosed) :
    g.takeReady? fuel degrees ready = some (g.takeReady fuel degrees ready) := by
  induction fuel generalizing taken left degrees ready with
  | zero => rfl
  | succ fuel ih =>
      cases ready with
      | nil => rfl
      | cons a ready =>
          rw [Digraph.takeReady?, relax?_eq_some fun b hb n => h.count_le hClosed hb]
          simp only [ih (h.take hClosed), Digraph.takeReady, Option.map_some]

/-- No count is asked for less than nothing. -/
theorem sorted?_eq_some (hClosed : g.IsClosed) : g.sorted? = some g.sorted :=
  (sorting_start hClosed).takeReady? hClosed

/-! ## No order comes before -/

omit [Std.LawfulEqOrd α] in
/-- What comes next in any order is ready. -/
theorem Sorting.mem_ready_of_topological {rest : List α} (h : Sorting g taken left degrees ready)
    (hClosed : g.IsClosed) (hOrder : g.Topological (taken ++ a :: rest)) (hLeft : a ∈ left) :
    a ∈ ready := by
  refine (h.mem_ready a).mpr ⟨hLeft, count_successors_eq_zero_iff.mpr fun b hb hEdge => ?_⟩
  exact (List.nodup_append.mp (h.nodup hClosed)).2.2 b (hOrder.mem_of_edge hEdge) b hb rfl

/-- However the order may go on, what is taken from here comes no later. -/
theorem Sorting.takeReady_least {fuel : Nat} {rest : List α} (h : Sorting g taken left degrees ready)
    (hClosed : g.IsClosed) (hFuel : left.length ≤ fuel) (hOrder : g.Topological (taken ++ rest))
    (hRest : rest.Perm left) :
    g.takeReady fuel degrees ready = rest ∨ Precedes (g.takeReady fuel degrees ready) rest := by
  induction fuel generalizing taken left degrees ready rest with
  | zero =>
      have hNone : rest = [] := List.length_eq_zero_iff.mp (by have := hRest.length_eq; omega)
      exact .inl (hNone ▸ rfl)
  | succ fuel ih =>
      cases ready with
      | nil =>
          rw [Digraph.takeReady]
          cases rest with
          | nil => exact .inl rfl
          | cons b rest => exact .inr .nil
      | cons a ready =>
          have hLeft : a ∈ left := ((h.mem_ready a).mp List.mem_cons_self).1
          have hLength := List.length_erase_of_mem hLeft
          rw [Digraph.takeReady]
          cases rest with
          | nil => exact absurd (hRest.mem_iff.mpr hLeft) List.not_mem_nil
          | cons b rest =>
              have hReady : b ∈ a :: ready :=
                h.mem_ready_of_topological hClosed hOrder (hRest.mem_iff.mp List.mem_cons_self)
              rcases List.mem_cons.mp hReady with rfl | hLater
              · -- Both go on with the same node, and differ later if at all.
                rw [List.append_cons] at hOrder
                have hNext := hRest.trans (List.perm_cons_erase hLeft)
                rcases ih (h.take hClosed) (by omega) hOrder hNext.cons_inv with hSame | hBefore
                · exact .inl (congrArg (b :: ·) hSame)
                · exact .inr (.cons hBefore)
              · exact .inr (.rel ((List.pairwise_cons.mp h.ascending).1 b hLater))

theorem isOrder_of_order? (hClosed : g.IsClosed) (h : g.order? = some order) : g.IsOrder order :=
  (isOrder_iff hClosed).mpr (topological_of_order? hClosed h)

/-- No order comes before the one that is found. -/
theorem order?_least (hClosed : g.IsClosed) (h : g.order? = some order) (hOther : g.IsOrder other) :
    order = other ∨ Precedes order other := by
  have hFuel : g.nodes.length ≤ g.length := by simp [nodes, Table.keys]
  rw [order?] at h
  split at h
  · cases h
  · cases h
    exact (sorting_start hClosed).takeReady_least hClosed hFuel (hOther.topological hClosed) hOther.perm

/-! ## Nodes and edges alone matter -/

omit [Std.LawfulEqOrd α] in
theorem IsOrder.congr (hClosed : g.IsClosed) (hClosed' : g'.IsClosed)
    (hNodes : ∀ a, a ∈ g.nodes ↔ a ∈ g'.nodes) (hEdges : ∀ a b, g.Edge a b ↔ g'.Edge a b)
    (h : g.IsOrder order) : g'.IsOrder order where
  perm := h.perm.trans ((List.perm_ext_iff_of_nodup hClosed.ascending.nodup_keys
    hClosed'.ascending.nodup_keys).mpr hNodes)
  forward hEdge := h.forward ((hEdges _ _).mpr hEdge)

theorem order?_eq_none_of_edges (hClosed : g.IsClosed) (hClosed' : g'.IsClosed)
    (hEdges : ∀ a b, g.Edge a b ↔ g'.Edge a b) (h : g.order? = none) : g'.order? = none := by
  obtain ⟨a, hWay⟩ := (order?_eq_none_iff hClosed).mp h
  refine (order?_eq_none_iff hClosed').mpr ⟨a, Relation.TransGen.mono ?_ a a hWay⟩
  exact fun a b => (hEdges a b).mp

/-- Graphs with the same nodes and edges have the same order. -/
theorem order?_congr (hClosed : g.IsClosed) (hClosed' : g'.IsClosed)
    (hNodes : ∀ a, a ∈ g.nodes ↔ a ∈ g'.nodes) (hEdges : ∀ a b, g.Edge a b ↔ g'.Edge a b) :
    g.order? = g'.order? := by
  cases h : g.order? with
  | none => exact (order?_eq_none_of_edges hClosed hClosed' hEdges h).symm
  | some order =>
      cases h' : g'.order? with
      | none =>
          have hEdges' : ∀ a b, g'.Edge a b ↔ g.Edge a b := fun a b => (hEdges a b).symm
          rw [order?_eq_none_of_edges hClosed' hClosed hEdges' h'] at h
          cases h
      | some order' =>
          have hOrder := (isOrder_of_order? hClosed h).congr hClosed hClosed' hNodes hEdges
          have hOrder' := (isOrder_of_order? hClosed' h').congr hClosed' hClosed
            (fun a => (hNodes a).symm) fun a b => (hEdges a b).symm
          -- Each is an order of the other graph, so neither comes before the other.
          rcases order?_least hClosed h hOrder' with hSame | hBefore
          · rw [hSame]
          · rcases order?_least hClosed' h' hOrder with hSame | hAfter
            · rw [hSame]
            · exact absurd hAfter hBefore.asymm

end Sorting

end Telemetry.Digraph

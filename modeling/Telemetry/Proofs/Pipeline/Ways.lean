import Mathlib.Data.List.Dedup
import Mathlib.Data.Set.Card
import Telemetry.Proofs.Pipeline.Building
import Telemetry.Proofs.Pipeline.Routes

/-!
# Ways through a graph

The labels of a route follow the edges of a graph. A batch then arrives on every way through the graph
once, changed by each node it came through.
-/

namespace Telemetry

variable {σ κ : Type} {b : Blueprint σ κ} {ps : Pipelines} {g : Graph κ} {m n : NodeId}
  {path way : List NodeId} {layers : NodeId → List Layer}

namespace Graph

/-- The consumer that stands for a node: the one by which it takes batches, or, for a receiver, the one
it hands batches to. -/
def consumer? (g : Graph κ) : NodeId → Option Consumer
  | .receiver id signal =>
    (BatchType.ofSignal? signal).bind fun type => g.feed? type (.receiver id signal)
  | n => (g.consumers.get? n).map Prod.snd

/-- A way along edges that begins at a node. -/
structure IsWay (g : Graph κ) (start : NodeId) (way : List NodeId) : Prop where
  start : way.head? = some start
  chain : way.IsChain g.wiring.Edge

theorem isWay_iff : g.IsWay n way ↔
    way = [n] ∨ ∃ m ∈ g.wiring.successors n, ∃ rest, g.IsWay m rest ∧ way = n :: rest := by
  constructor
  · rintro ⟨hStart, hChain⟩
    match way, hStart, hChain with
    | [_], rfl, _ => exact .inl rfl
    | _ :: m :: rest, rfl, hChain =>
        obtain ⟨hEdge, hRest⟩ := List.isChain_cons_cons.mp hChain
        exact .inr ⟨m, hEdge, m :: rest, ⟨rfl, hRest⟩, rfl⟩
  · rintro (rfl | ⟨m, hEdge, rest, ⟨hStart, hChain⟩, rfl⟩)
    · exact ⟨rfl, List.isChain_singleton n⟩
    · obtain ⟨k, rest, rfl⟩ : ∃ k tail, rest = k :: tail := by
        cases rest with
        | nil => cases hStart
        | cons k tail => exact ⟨k, tail, rfl⟩
      cases hStart
      exact ⟨rfl, List.isChain_cons_cons.mpr ⟨hEdge, hChain⟩⟩

theorem IsWay.ne_nil (h : g.IsWay n way) : way ≠ [] := by
  rintro rfl
  cases h.start

end Graph

/-- What a content has become at the end of a way, by the nodes before the last. -/
def carried (layers : NodeId → List Layer) (way : List NodeId) (content : Request) : Request :=
  way.dropLast.foldl (fun r n => Layer.changeAll (layers n) r) content

theorem carried_cons (content : Request) (hWay : way ≠ []) :
    carried layers (n :: way) content = carried layers way (Layer.changeAll (layers n) content) := by
  rw [carried, List.dropLast_cons_of_ne_nil hWay, List.foldl_cons, carried]

namespace Route

/-- A route whose labels follow the edges of a graph to its exporters, with the consumers of the
graph. -/
inductive Follows (g : Graph κ) (layers : NodeId → List Layer) : Route → Prop
  | stop {n : NodeId} {c : Consumer} (hKind : n.kind? = some .exporter)
      (hConsumer : g.consumer? n = some c) (hNext : g.wiring.successors n = []) :
      Follows g layers (.stop n c)
  | relay {n : NodeId} {branches : List Route} (hKind : n.kind? ≠ some .exporter)
      (hConsumer : g.consumer? n = some (erase (.relay n (layers n) branches)))
      (hNext : g.wiring.successors n = branches.map node)
      (hBranches : ∀ r ∈ branches, Follows g layers r) :
      Follows g layers (.relay n (layers n) branches)

variable {r : Route} {content : Request} {a : Arrival}

theorem Follows.consumer? (h : Follows g layers r) : g.consumer? r.node = some r.erase := by
  cases h with
  | stop hKind hConsumer => exact hConsumer
  | relay hKind hConsumer => exact hConsumer

theorem Follows.mem_arrivals_iff (h : Follows g layers r) : a ∈ r.arrivals path content ↔
    ∃ way, g.IsWay r.node way ∧ a = ⟨path ++ way, carried layers way content⟩ := by
  induction h generalizing path content with
  | @stop n c hKind hConsumer hNext =>
      have hWay : ∀ way, g.IsWay n way ↔ way = [n] := fun way => by
        rw [Graph.isWay_iff, hNext]
        simp
      simp [arrivals, node, hWay, carried]
  | @relay n branches hKind hConsumer hNext hBranches ih =>
      rw [arrivals, arrivalsAll_eq_flatMap, List.mem_cons, List.mem_flatMap]
      constructor
      · rintro (rfl | ⟨branch, hBranch, hArrival⟩)
        · exact ⟨[n], Graph.isWay_iff.mpr (.inl rfl), rfl⟩
        · obtain ⟨rest, hRest, rfl⟩ := (ih branch hBranch).mp hArrival
          refine ⟨n :: rest, Graph.isWay_iff.mpr (.inr ⟨branch.node, ?_, rest, hRest, rfl⟩), ?_⟩
          · rw [node, hNext]
            exact List.mem_map_of_mem hBranch
          · rw [carried_cons _ hRest.ne_nil, List.append_assoc, List.singleton_append]
      · rintro ⟨way, hWay, rfl⟩
        rcases Graph.isWay_iff.mp hWay with rfl | ⟨m, hEdge, rest, hRest, rfl⟩
        · exact .inl rfl
        · rw [node, hNext] at hEdge
          obtain ⟨branch, hBranch, rfl⟩ := List.mem_map.mp hEdge
          refine .inr ⟨branch, hBranch, (ih branch hBranch).mpr ⟨rest, hRest, ?_⟩⟩
          rw [node, carried_cons _ hRest.ne_nil, List.append_assoc, List.singleton_append]

theorem Follows.exists_way_of_mem (h : Follows g layers r) {p : List NodeId}
    (hMem : p ∈ (r.arrivals path content).map Arrival.path) :
    ∃ way, g.IsWay r.node way ∧ p = path ++ way := by
  obtain ⟨a, ha, rfl⟩ := List.mem_map.mp hMem
  obtain ⟨way, hWay, rfl⟩ := h.mem_arrivals_iff.mp ha
  exact ⟨way, hWay, rfl⟩

/-- A batch arrives at most once on each way. -/
theorem Follows.nodup_arrivals (hNodup : ∀ n, (g.wiring.successors n).Nodup)
    (h : Follows g layers r) : ((r.arrivals path content).map Arrival.path).Nodup := by
  induction h generalizing path content with
  | stop hKind hConsumer hNext => simp [arrivals]
  | @relay n branches hKind hConsumer hNext hBranches ih =>
      have hNodes : branches.Pairwise fun r r' => r.node ≠ r'.node :=
        List.pairwise_map.mp (hNext ▸ hNodup n)
      rw [arrivals, arrivalsAll_eq_flatMap, List.map_cons, List.map_flatMap, List.nodup_cons,
        List.nodup_flatMap]
      refine ⟨?longer, fun branch hBranch => ih branch hBranch, hNodes.imp_of_mem ?apart⟩
      case longer =>
        rw [List.mem_flatMap]
        rintro ⟨branch, hBranch, hPath⟩
        obtain ⟨rest, hRest, hSame⟩ := (hBranches branch hBranch).exists_way_of_mem hPath
        exact hRest.ne_nil (List.append_right_eq_self.mp hSame.symm)
      case apart =>
        intro r r' hr hr' hNe
        rw [Function.onFun, List.disjoint_left]
        intro p hPath hPath'
        obtain ⟨rest, hRest, rfl⟩ := (hBranches r hr).exists_way_of_mem hPath
        obtain ⟨rest', hRest', hSame⟩ := (hBranches r' hr').exists_way_of_mem hPath'
        cases List.append_cancel_left hSame
        exact hNe (Option.some.inj (hRest.start.symm.trans hRest'.start))

end Route

end Telemetry

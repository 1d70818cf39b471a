import Telemetry.Proofs.Digraph.Least
import Telemetry.Proofs.Identity.Order
import Telemetry.Proofs.Pipeline.Wiring

/-!
# The order of a service

The nodes of a service are put in one order, which only their edges decide. It does not matter how
often, and where in its list, a pipeline names what it receives from and exports to.
-/

namespace Telemetry

/-- Pipelines with the same processors that name the same receivers and exporters. -/
structure PipelineConfig.Alike (p q : PipelineConfig) : Prop where
  processors : p.processors = q.processors
  receivers : ∀ id, id ∈ p.receivers ↔ id ∈ q.receivers
  exporters : ∀ id, id ∈ p.exporters ↔ id ∈ q.exporters

/-- Whether each of some pipelines is, but for its lists, among others. -/
def Pipelines.Covers (ps qs : Pipelines) : Prop :=
  ∀ pipeline p, (pipeline, p) ∈ ps → ∃ q, (pipeline, q) ∈ qs ∧ p.Alike q

namespace Blueprint

variable {σ κ : Type} {b : Blueprint σ κ} {ps qs : Pipelines} {m n : NodeId} {id : ComponentId}
  {source target : PipelineId}

theorem Feeds.of_covers (h : b.Feeds ps id source target) (hCovers : ps.Covers qs) :
    b.Feeds qs id source target where
  connector := h.connector
  exports := by
    obtain ⟨p, hMem, hId⟩ := h.exports
    obtain ⟨q, hMem', hAlike⟩ := hCovers _ _ hMem
    exact ⟨q, hMem', (hAlike.exporters id).mp hId⟩
  receives := by
    obtain ⟨p, hMem, hId⟩ := h.receives
    obtain ⟨q, hMem', hAlike⟩ := hCovers _ _ hMem
    exact ⟨q, hMem', (hAlike.receivers id).mp hId⟩
  joins := h.joins

theorem HasEdge.of_covers (h : b.HasEdge ps m n) (hCovers : ps.Covers qs) : b.HasEdge qs m n := by
  cases h with
  | receiver hMem hId hPlain =>
      obtain ⟨q, hMem', hAlike⟩ := hCovers _ _ hMem
      exact .receiver hMem' ((hAlike.receivers _).mp hId) hPlain
  | chain hMem hNext =>
      obtain ⟨q, hMem', hAlike⟩ := hCovers _ _ hMem
      exact .chain hMem' (hAlike.processors ▸ hNext)
  | exporter hMem hId hPlain =>
      obtain ⟨q, hMem', hAlike⟩ := hCovers _ _ hMem
      exact .exporter hMem' ((hAlike.exporters _).mp hId) hPlain
  | intoConnector hFeeds => exact .intoConnector (hFeeds.of_covers hCovers)
  | fromConnector hFeeds => exact .fromConnector (hFeeds.of_covers hCovers)

/-- Services with the same edges are ordered alike. -/
theorem order?_wiring_congr {σ' κ' : Type} {b' : Blueprint σ' κ'}
    (hEdges : ∀ m n, b.HasEdge ps m n ↔ b'.HasEdge qs m n) :
    (b.wiring ps).order? = (b'.wiring qs).order? := by
  refine Digraph.order?_congr isProper_wiring.toIsClosed isProper_wiring.toIsClosed ?nodes ?edges
  case nodes =>
    intro n
    rw [mem_nodes_wiring_iff_hasEdge, mem_nodes_wiring_iff_hasEdge]
    simp only [hEdges]
  case edges =>
    intro m n
    rw [edge_wiring_iff, edge_wiring_iff]
    exact hEdges m n

theorem order?_wiring_of_covers (hCovers : ps.Covers qs) (hCovers' : qs.Covers ps) :
    (b.wiring ps).order? = (b.wiring qs).order? :=
  order?_wiring_congr fun _ _ => ⟨(·.of_covers hCovers), (·.of_covers hCovers')⟩

end Blueprint

namespace Digraph

variable {g : Digraph NodeId}

/-- Nodes are put in order just if no way leads back. The order has every node once and every edge
leading forward, and comes before all others that do. It is the same for all graphs with these nodes
and edges, in particular however often and in whatever order pipelines list what they receive from and
export to. While it is found no count falls below nothing. -/
theorem order?_is_least_order (hClosed : g.IsClosed) :
    (g.order?.isSome ↔ ¬ g.IsCyclic) ∧
    (∀ order, g.order? = some order → g.IsOrder order ∧
      ∀ other, g.IsOrder other → order = other ∨ Precedes order other) ∧
    (∀ g' : Digraph NodeId, g'.IsClosed → (∀ a, a ∈ g.nodes ↔ a ∈ g'.nodes) →
      (∀ a b, g.Edge a b ↔ g'.Edge a b) → g.order? = g'.order?) ∧
    (∀ {σ κ : Type} (b : Blueprint σ κ) (ps qs : Pipelines),
      ((∀ m n, b.HasEdge ps m n ↔ b.HasEdge qs m n) → (b.wiring ps).order? = (b.wiring qs).order?) ∧
      (ps.Covers qs → qs.Covers ps → (b.wiring ps).order? = (b.wiring qs).order?)) ∧
    g.sorted? = some g.sorted := by
  refine ⟨?acyclic, ?least, ?graphs, ?pipelines, sorted?_eq_some hClosed⟩
  case acyclic => rw [← order?_eq_none_iff hClosed, Option.isSome_iff_ne_none]
  case least =>
    intro order hOrder
    exact ⟨isOrder_of_order? hClosed hOrder, fun other => order?_least hClosed hOrder⟩
  case graphs => exact fun g' hClosed' hNodes hEdges => order?_congr hClosed hClosed' hNodes hEdges
  case pipelines =>
    exact fun b ps qs => ⟨Blueprint.order?_wiring_congr, Blueprint.order?_wiring_of_covers⟩

end Digraph

namespace Relay

/-- The pipelines of the service, with their lists turned round and components named twice. -/
def shuffled : Pipelines :=
  [(traces, ⟨[source, source], [stamp], [relay, store, relay]⟩), (logs, ⟨[relay], [], [store, store]⟩),
    (copies, ⟨[relay], [], [store]⟩)]

/-- The nodes of the service in order. -/
def order : List NodeId :=
  [.receiver source .traces, .capabilities traces, .processor traces stamp, .fanOut traces,
    .exporter store .traces, .connector relay .traces .logs, .capabilities logs, .capabilities copies,
    .fanOut logs, .fanOut copies, .exporter store .logs]

theorem covers_shuffled : pipelines.Covers shuffled := by
  intro pipeline p hMem
  simp only [pipelines, List.mem_cons, Prod.mk.injEq, List.not_mem_nil, or_false] at hMem
  rcases hMem with ⟨rfl, rfl⟩ | ⟨rfl, rfl⟩ | ⟨rfl, rfl⟩
  · exact ⟨_, List.mem_cons_self, rfl, by simp, by simp [or_comm]⟩
  · exact ⟨⟨[relay], [], [store, store]⟩, by simp [shuffled], rfl, by simp, by simp⟩
  · exact ⟨⟨[relay], [], [store]⟩, by simp [shuffled], rfl, by simp, by simp⟩

theorem shuffled_covers : shuffled.Covers pipelines := by
  intro pipeline p hMem
  simp only [shuffled, List.mem_cons, Prod.mk.injEq, List.not_mem_nil, or_false] at hMem
  rcases hMem with ⟨rfl, rfl⟩ | ⟨rfl, rfl⟩ | ⟨rfl, rfl⟩
  · exact ⟨_, List.mem_cons_self, rfl, by simp, by simp [or_comm]⟩
  · exact ⟨⟨[relay], [], [store]⟩, by simp [pipelines], rfl, by simp, by simp⟩
  · exact ⟨⟨[relay], [], [store]⟩, by simp [pipelines], rfl, by simp, by simp⟩

theorem order?_is_least_order_relay :
    (blueprint.wiring pipelines).IsClosed ∧ ¬ (blueprint.wiring pipelines).IsCyclic ∧
    (blueprint.wiring pipelines).order? = some order ∧ (blueprint.wiring pipelines).IsOrder order ∧
    (blueprint.wiring shuffled).order? = some order ∧
    (blueprint.wiring pipelines).sorted? = some order := by
  have hClosed : (blueprint.wiring pipelines).IsClosed := Blueprint.isProper_wiring.toIsClosed
  have hOrder : (blueprint.wiring pipelines).order? = some order := by decide +kernel
  obtain ⟨hAcyclic, hLeast, -, hPipelines, hCounts⟩ := Digraph.order?_is_least_order hClosed
  have hShuffled := (hPipelines blueprint pipelines shuffled).2 covers_shuffled shuffled_covers
  refine ⟨hClosed, hAcyclic.mp (by rw [hOrder]; rfl), hOrder, (hLeast order hOrder).1, ?_, ?_⟩
  · rw [← hShuffled, hOrder]
  · rw [hCounts]
    decide +kernel

end Relay

end Telemetry

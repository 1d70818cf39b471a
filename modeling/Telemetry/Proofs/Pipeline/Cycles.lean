import Mathlib.Data.Prod.Lex
import Telemetry.Pipeline.Graph
import Telemetry.Proofs.Digraph.Cycle
import Telemetry.Proofs.Pipeline.Wiring

/-!
# Cycles of pipelines

A graph is refused for a cycle just if some pipeline feeds itself, at once or through others, and what
is reported is a cycle of its wiring.
-/

namespace Telemetry

open Relation (TransGen ReflTransGen)

section Pairs

variable {α : Type} {x y : α} {l : List α}

theorem mem_of_adjacent (h : [x, y] <:+: l) : x ∈ l.dropLast ∧ y ∈ l.tail := by
  obtain ⟨before, after, rfl⟩ := h
  constructor
  · rw [List.append_assoc, List.dropLast_append_of_ne_nil (by simp)]
    simp
  · cases before <;> simp

theorem getElem?_of_adjacent [DecidableEq α] (hNodup : l.Nodup) (h : [x, y] <:+: l) :
    l[l.idxOf x + 1]? = some y := by
  obtain ⟨before, after, rfl⟩ := h
  rw [List.append_assoc, List.nodup_append] at hNodup
  have hBefore : x ∉ before := fun hMem => hNodup.2.2 x hMem x List.mem_cons_self rfl
  rw [List.append_assoc, List.idxOf_append_of_notMem hBefore]
  simp

theorem idxOf_lt_of_adjacent [DecidableEq α] (hNodup : l.Nodup) (h : [x, y] <:+: l) :
    l.idxOf x < l.idxOf y := by
  obtain ⟨hLt, hNext⟩ := List.getElem?_eq_some_iff.mp (getElem?_of_adjacent hNodup h)
  rw [← hNext, hNodup.idxOf_getElem]
  exact Nat.lt_succ_self _

/-- In a list without repetitions every member has one successor. -/
theorem eq_of_adjacent [DecidableEq α] {z : α} (hNodup : l.Nodup) (h : [x, y] <:+: l)
    (h' : [x, z] <:+: l) : y = z :=
  Option.some.inj ((getElem?_of_adjacent hNodup h).symm.trans (getElem?_of_adjacent hNodup h'))

end Pairs

namespace Blueprint

variable {σ κ : Type} {b : Blueprint σ κ} {ps : Pipelines} {m n : NodeId}
  {pipeline source target : PipelineId} {p : PipelineConfig} {ids : List ComponentId}

/-- Whether one pipeline feeds another through some connector. -/
def Feeding (b : Blueprint σ κ) (ps : Pipelines) (source target : PipelineId) : Prop :=
  ∃ id, b.Feeds ps id source target

/-! ## From pipelines to nodes -/

theorem isChain_stations (hMem : (pipeline, p) ∈ ps) :
    (stations pipeline p.processors).IsChain (b.wiring ps).Edge := by
  rw [List.isChain_iff_forall_rel_of_append_cons_cons]
  intro m n before after hStations
  exact edge_wiring_iff.mpr (.chain hMem ⟨before, after, by simpa using hStations.symm⟩)

theorem reflTransGen_head_tail (hMem : (pipeline, p) ∈ ps) :
    ReflTransGen (b.wiring ps).Edge (.capabilities pipeline) (.fanOut pipeline) :=
  List.relationReflTransGen_of_exists_isChain_cons _ (isChain_stations hMem) (by simp)

theorem transGen_head_processor {id : ComponentId} (hMem : (pipeline, p) ∈ ps)
    (hId : id ∈ p.processors) :
    TransGen (b.wiring ps).Edge (.capabilities pipeline) (.processor pipeline id) := by
  have hWays : (stations pipeline p.processors).Pairwise (TransGen (b.wiring ps).Edge) :=
    ((isChain_stations hMem).imp fun _ _ => .single).pairwise
  exact (List.pairwise_cons.mp hWays).1 _ (by simp [hId])

theorem transGen_heads_of_feeding (h : b.Feeding ps source target) :
    TransGen (b.wiring ps).Edge (.capabilities source) (.capabilities target) := by
  obtain ⟨id, hFeeds⟩ := h
  obtain ⟨p, hMem, -⟩ := hFeeds.exports
  have hInto : (b.wiring ps).Edge (.fanOut source) (.connector id source.signal target.signal) :=
    edge_wiring_iff.mpr (.intoConnector hFeeds)
  have hFrom : (b.wiring ps).Edge (.connector id source.signal target.signal) (.capabilities target) :=
    edge_wiring_iff.mpr (.fromConnector hFeeds)
  exact .tail' (.tail (reflTransGen_head_tail hMem) hInto) hFrom

/-! ## Every cycle goes through the head of a pipeline -/

theorem adjacent_stations (h : [m, n] <:+: stations pipeline ids) :
    (m = .capabilities pipeline ∨ ∃ id ∈ ids, .processor pipeline id = m) ∧
      ((∃ id ∈ ids, .processor pipeline id = n) ∨ n = .fanOut pipeline) := by
  obtain ⟨hSource, hTarget⟩ := mem_of_adjacent h
  constructor
  · rw [stations, ← List.cons_append, List.dropLast_concat] at hSource
    simpa using hSource
  · simpa [stations] using hTarget

theorem nodup_stations (h : ids.Nodup) : (stations pipeline ids).Nodup := by
  have hMap : (ids.map (NodeId.processor pipeline)).Nodup :=
    h.map fun _ _ hSame => (NodeId.processor.inj hSame).2
  simp [stations, List.nodup_append, hMap]

/-- Where a node stands in the chain of its pipeline. -/
def place (ps : Pipelines) (n : NodeId) : Nat :=
  n.pipeline?.elim 0 fun pipeline =>
    (stations pipeline ((Table.get? pipeline ps).elim [] PipelineConfig.processors)).idxOf n

theorem place_of_mem_stations (hValid : b.validate = .ok ps) (hMem : (pipeline, p) ∈ ps)
    (hNode : n ∈ stations pipeline p.processors) :
    place ps n = (stations pipeline p.processors).idxOf n := by
  have hGet : Table.get? pipeline ps = some p :=
    (Pipelines.ascending_of_ofConfig (validate_eq_ok_iff.mp hValid).1).get?_of_mem hMem
  have hPipeline : n.pipeline? = some pipeline := by
    rcases mem_stations.mp hNode with rfl | ⟨id, -, rfl⟩ | rfl <;> rfl
  rw [place, hPipeline, Option.elim_some, hGet, Option.elim_some]

/-- Roles follow one another on the way through a pipeline, and among processors their places. -/
def height (ps : Pipelines) (n : NodeId) : ℕ ×ₗ ℕ := toLex (n.rank, place ps n)

theorem height_lt_of_hasEdge (hValid : b.validate = .ok ps) (h : b.HasEdge ps m n)
    (hNot : ∀ pipeline, n ≠ .capabilities pipeline) : height ps m < height ps n := by
  rw [height, height, Prod.Lex.toLex_lt_toLex]
  cases h with
  | receiver hMem hId hPlain => exact absurd rfl (hNot _)
  | @chain _ p _ _ hMem hNext =>
      rw [place_of_mem_stations hValid hMem (hNext.subset (by simp)),
        place_of_mem_stations hValid hMem (hNext.subset (by simp))]
      have hPlace := idxOf_lt_of_adjacent (nodup_stations (nodup_processors hValid hMem)) hNext
      obtain ⟨rfl | ⟨i, -, rfl⟩, ⟨j, -, rfl⟩ | rfl⟩ := adjacent_stations hNext <;>
        simp_all [NodeId.rank]
  | exporter hMem hId hPlain => exact .inl (by simp [NodeId.rank])
  | intoConnector hFeeds => exact .inl (by simp [NodeId.rank])
  | fromConnector hFeeds => exact absurd rfl (hNot _)

/-- A way climbs all the time unless it passes the head of a pipeline. -/
theorem height_lt_or_head_of_transGen (hValid : b.validate = .ok ps)
    (h : TransGen (b.wiring ps).Edge m n) : height ps m < height ps n ∨
      ∃ pipeline, ReflTransGen (b.wiring ps).Edge m (.capabilities pipeline) ∧
        ReflTransGen (b.wiring ps).Edge (.capabilities pipeline) n := by
  have hStep : ∀ {x y}, (b.wiring ps).Edge x y →
      height ps x < height ps y ∨ ∃ pipeline, y = .capabilities pipeline := fun hEdge => by
    by_contra hNone
    push Not at hNone
    exact absurd (height_lt_of_hasEdge hValid (edge_wiring_iff.mp hEdge) hNone.2) (not_lt.mpr hNone.1)
  induction h with
  | single hEdge =>
      rcases hStep hEdge with hUp | ⟨pipeline, rfl⟩
      · exact .inl hUp
      · exact .inr ⟨pipeline, .single hEdge, .refl⟩
  | tail hWay hEdge ih =>
      rcases ih with hUp | ⟨pipeline, hTo, hFrom⟩
      · rcases hStep hEdge with hUp' | ⟨pipeline, rfl⟩
        · exact .inl (hUp.trans hUp')
        · exact .inr ⟨pipeline, (hWay.tail hEdge).to_reflTransGen, .refl⟩
      · exact .inr ⟨pipeline, hTo, hFrom.tail hEdge⟩

theorem exists_transGen_head_of_isCyclic (hValid : b.validate = .ok ps)
    (h : (b.wiring ps).IsCyclic) : ∃ pipeline,
      TransGen (b.wiring ps).Edge (.capabilities pipeline) (.capabilities pipeline) := by
  obtain ⟨n, hWay⟩ := h
  rcases height_lt_or_head_of_transGen hValid hWay with hUp | ⟨pipeline, hTo, hFrom⟩
  · exact absurd hUp (lt_irrefl _)
  · exact ⟨pipeline, (TransGen.trans_right hFrom hWay).trans_left hTo⟩

/-! ## From nodes to pipelines -/

/-- What a batch that came through one pipeline has come through when it is at a node: the pipeline of
the node, or one that exports to the connector. -/
def Reached (b : Blueprint σ κ) (ps : Pipelines) (start : PipelineId) : NodeId → Prop
  | .capabilities pipeline => TransGen (b.Feeding ps) start pipeline
  | .processor pipeline _ | .fanOut pipeline => ReflTransGen (b.Feeding ps) start pipeline
  | .connector id signal _ => ∃ source target, ReflTransGen (b.Feeding ps) start source ∧
      b.Feeds ps id source target ∧ source.signal = signal
  | .exporter .. => True
  | .receiver .. => False

theorem Reached.of_mem_stations {start : PipelineId}
    (hPipeline : ReflTransGen (b.Feeding ps) start pipeline)
    (hNode : (∃ id ∈ ids, .processor pipeline id = n) ∨ n = .fanOut pipeline) :
    b.Reached ps start n := by
  rcases hNode with ⟨id, -, rfl⟩ | rfl <;> exact hPipeline

theorem Reached.step {start : PipelineId} (h : b.Reached ps start m) (hEdge : b.HasEdge ps m n) :
    b.Reached ps start n := by
  cases hEdge with
  | receiver => cases h
  | exporter => trivial
  | chain hMem hNext =>
      obtain ⟨hSource, hTarget⟩ := adjacent_stations hNext
      refine .of_mem_stations ?_ hTarget
      rcases hSource with rfl | ⟨id, -, rfl⟩
      · exact TransGen.to_reflTransGen h
      · exact h
  | @intoConnector source target id hFeeds => exact ⟨source, target, h, hFeeds, rfl⟩
  | @fromConnector source target id hFeeds =>
      -- The pipeline the batch came through need not be the one that the edge was added for.
      obtain ⟨source', target', hSource', hFeeds', hSignal⟩ := h
      refine TransGen.tail' hSource' ⟨id, hFeeds.connector, hFeeds'.exports, hFeeds.receives, ?_⟩
      rw [hSignal]
      exact hFeeds.joins

theorem reached_of_transGen (h : TransGen (b.wiring ps).Edge (.capabilities pipeline) n) :
    b.Reached ps pipeline n := by
  induction h with
  | single hEdge =>
      cases edge_wiring_iff.mp hEdge with
      | chain hMem hNext =>
          obtain ⟨hSource, hTarget⟩ := adjacent_stations hNext
          refine .of_mem_stations ?_ hTarget
          rcases hSource with hSame | ⟨id, -, hSame⟩
          · cases hSame
            exact .refl
          · cases hSame
  | tail hWay hEdge ih => exact ih.step (edge_wiring_iff.mp hEdge)

/-- There are cycles among nodes just if there are cycles among pipelines. -/
theorem isCyclic_wiring_iff (hValid : b.validate = .ok ps) :
    (b.wiring ps).IsCyclic ↔ ∃ pipeline, TransGen (b.Feeding ps) pipeline pipeline := by
  constructor
  · intro hCyclic
    obtain ⟨pipeline, hWay⟩ := exists_transGen_head_of_isCyclic hValid hCyclic
    exact ⟨pipeline, reached_of_transGen hWay⟩
  · rintro ⟨pipeline, hWay⟩
    refine ⟨.capabilities pipeline, ?_⟩
    exact TransGen.lift' NodeId.capabilities (fun _ _ => transGen_heads_of_feeding) _ _ hWay

end Blueprint

namespace Graph

variable {σ κ : Type} {b : Blueprint σ κ} {ps : Pipelines} {g : Graph κ} {path : List NodeId}

/-! ## What is reported -/

theorem instantiate_ne_cycle (type : BatchType) (node : NodeId) (s : σ) :
    (g.instantiate b type node s).1 ≠ .error (.cycle path) := by
  have hCreated : ∀ {α : Type} (f : α → Instance κ) (r : Except ComponentError α × σ),
      (created node f r).1 ≠ .error (.cycle path) := by
    rintro α f ⟨_ | _, s⟩ <;> simp [created]
  cases node with
  | exporter | fanOut | processor | capabilities | receiver =>
      rw [instantiate]
      repeat' split
      all_goals simp [hCreated]
  | connector id source target =>
      rw [instantiate]
      split
      · simp
      · cases BatchType.ofSignal? target with
        | none => simp
        | some targetType =>
            cases hFeed : g.feed? targetType (.connector id source target) <;> simp [hFeed, hCreated]

theorem make_ne_cycle (node : NodeId) (s : σ) : (g.make b node s).1 ≠ .error (.cycle path) := by
  rw [make]
  split
  · exact instantiate_ne_cycle _ node s
  · split <;> simp

/-- What fails to be made fails at some node. -/
theorem exists_make_of_makeAll_eq_error {nodes : List NodeId} {s : σ} {e : GraphError}
    (h : (makeAll b nodes g s).1 = .error e) :
    ∃ node ∈ nodes, ∃ (g' : Graph κ) (s' : σ), (g'.make b node s').1 = .error e := by
  induction nodes generalizing g s with
  | nil => cases h
  | cons node nodes ih =>
      rw [makeAll] at h
      split at h
      · rename_i e' s' hMake
        cases h
        exact ⟨node, List.mem_cons_self, g, s, by rw [hMake]⟩
      · obtain ⟨n, hn, hFail⟩ := ih h
        exact ⟨n, List.mem_cons_of_mem _ hn, hFail⟩

theorem makeAll_ne_cycle (nodes : List NodeId) (s : σ) :
    (makeAll b nodes g s).1 ≠ .error (.cycle path) := by
  intro hCycle
  obtain ⟨node, -, g', s', hMake⟩ := exists_make_of_makeAll_eq_error hCycle
  exact make_ne_cycle node s' hMake

/-- A graph is refused for a cycle just if its wiring has no topological order. -/
theorem build_eq_cycle_iff (hValid : b.validate = .ok ps) (s : σ) :
    (build b s).1 = .error (.cycle path) ↔
      (b.wiring ps).order? = none ∧ (b.wiring ps).findCycle? (b.wiring ps).sorted = some path := by
  rw [build, hValid]
  simp only [Except.bind, plan]
  cases hOrder : (b.wiring ps).order? with
  | some order => simp [makeAll_ne_cycle]
  | none =>
      obtain ⟨cycle, hFound, -⟩ :=
        Digraph.exists_isCycle_of_order?_eq_none Blueprint.isProper_wiring.toIsClosed hOrder
      simp [hFound]

end Graph

namespace Relay

/-- A pipeline that receives what it exports. -/
def loop : Pipelines := [(traces, ⟨[source, relay], [], [relay, store]⟩)]

/-- A service of a pipeline that feeds itself. -/
def looped : Blueprint Nat Nat where
  config := { config with service := ⟨[], [("traces", ⟨[source, relay], [], [relay, store]⟩)]⟩ }
  factories := { factories with
    connectors := .ofList .connector [(relay.type, ⟨.object [], fun _ _ => .beta,
      fun _ _ _ _ next n => (.ok ⟨n, .pass false next⟩, n + 1)⟩)] }

end Relay

namespace Graph

variable {σ κ : Type} {b : Blueprint σ κ} {ps : Pipelines}

/-- A graph is refused for a cycle just if some pipeline feeds itself, at once or through others. What
is reported is a cycle of its wiring. -/
theorem build_reports_cycle (hValid : b.validate = .ok ps) (s : σ) :
    ((∃ path, (build b s).1 = .error (.cycle path)) ↔
      ∃ pipeline, TransGen (b.Feeding ps) pipeline pipeline) ∧
    ∀ path, (build b s).1 = .error (.cycle path) → (b.wiring ps).IsCycle path := by
  simp only [build_eq_cycle_iff hValid, ← Blueprint.isCyclic_wiring_iff hValid]
  rw [← Digraph.order?_eq_none_iff Blueprint.isProper_wiring.toIsClosed]
  refine ⟨⟨?refused, ?cyclic⟩, ?cycle⟩
  case refused =>
    rintro ⟨path, hOrder, -⟩
    exact hOrder
  case cyclic =>
    intro hOrder
    obtain ⟨path, hFound, -⟩ :=
      Digraph.exists_isCycle_of_order?_eq_none Blueprint.isProper_wiring.toIsClosed hOrder
    exact ⟨path, hOrder, hFound⟩
  case cycle =>
    rintro path ⟨hOrder, hFound⟩
    obtain ⟨cycle, hSame, hCycle⟩ :=
      Digraph.exists_isCycle_of_order?_eq_none Blueprint.isProper_wiring.toIsClosed hOrder
    cases hFound.symm.trans hSame
    exact hCycle

theorem build_reports_cycle_looped :
    Relay.looped.validate = .ok Relay.loop ∧
    (∃ pipeline, TransGen (Relay.looped.Feeding Relay.loop) pipeline pipeline) ∧
    (Relay.looped.wiring Relay.loop).IsCycle [.capabilities Relay.traces, .fanOut Relay.traces,
      .connector Relay.relay .traces .traces, .capabilities Relay.traces] := by
  have hValid : Relay.looped.validate = .ok Relay.loop := rfl
  have hCycle : (build Relay.looped 0).1 = .error (.cycle [.capabilities Relay.traces,
    .fanOut Relay.traces, .connector Relay.relay .traces .traces, .capabilities Relay.traces]) := rfl
  have hReport := build_reports_cycle hValid 0
  exact ⟨hValid, hReport.1.mp ⟨_, hCycle⟩, hReport.2 _ hCycle⟩

end Graph

end Telemetry

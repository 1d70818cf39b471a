import Telemetry.Pipeline.Graph
import Telemetry.Proofs.Digraph.Order
import Telemetry.Proofs.Pipeline.Cycles

/-!
# What is built

Nodes are made from the ends of the pipelines upwards, so that what a node leads to is there when it is
made and is not touched again. In the graph that comes out, everything is as if it had been made in that
very graph.
-/

namespace Telemetry

open Relation (TransGen)

namespace Graph

variable {σ κ : Type} {b : Blueprint σ κ} {ps : Pipelines} {g g' g'' : Graph κ} {n m : NodeId}
  {nodes : List NodeId} {i : Instance κ}

/-- What can be made for a node of a graph. -/
inductive Makes (b : Blueprint σ κ) (g : Graph κ) : NodeId → Instance κ → Prop
  | exporter {id : ComponentId} {signal : Signal} {type : BatchType} {f : ExporterFactory σ κ}
      {made : Inlet κ} {s : σ} (hType : BatchType.ofSignal? signal = some type)
      (hFactory : b.factories.exporters.get? id.type = some f)
      (hCreate : (f.create id type (settingsOver f.defaults b.config.exporters id) s).1 = .ok made) :
      Makes b g (.exporter id signal) (.ofInlet type made)
  | fanOut {pipeline : PipelineId} {type : BatchType} {c : Consumer}
      (hType : BatchType.ofSignal? pipeline.signal = some type)
      (hNext : g.feed? type (.fanOut pipeline) = some c) :
      Makes b g (.fanOut pipeline) ⟨none, some (type, c)⟩
  | processor {pipeline : PipelineId} {id : ComponentId} {type : BatchType}
      {f : ProcessorFactory σ κ} {next : Consumer} {made : Inlet κ} {s : σ}
      (hType : BatchType.ofSignal? pipeline.signal = some type)
      (hFactory : b.factories.processors.get? id.type = some f)
      (hNext : (g.nextConsumers type (.processor pipeline id)).head? = some next)
      (hCreate : (f.create id type (settingsOver f.defaults b.config.processors id) next s).1 =
        .ok made) :
      Makes b g (.processor pipeline id) (.ofInlet type made)
  | capabilities {pipeline : PipelineId} {type : BatchType} {next : Consumer}
      (hType : BatchType.ofSignal? pipeline.signal = some type)
      (hNext : (g.nextConsumers type (.capabilities pipeline)).head? = some next) :
      Makes b g (.capabilities pipeline)
        ⟨none, some (type, .pass (g.chainMutates pipeline) next)⟩
  | receiver {id : ComponentId} {signal : Signal} {type : BatchType} {f : ReceiverFactory σ κ}
      {next : Consumer} {made : κ} {s : σ} (hType : BatchType.ofSignal? signal = some type)
      (hFactory : b.factories.receivers.get? id.type = some f)
      (hNext : g.feed? type (.receiver id signal) = some next)
      (hCreate : (f.create id type (settingsOver f.defaults b.config.receivers id) next s).1 =
        .ok made) :
      Makes b g (.receiver id signal) ⟨some made, none⟩
  | connector {id : ComponentId} {source target : Signal} {type targetType : BatchType}
      {f : ConnectorFactory σ κ} {next : Consumer} {made : Inlet κ} {s : σ}
      (hType : BatchType.ofSignal? source = some type)
      (hTarget : BatchType.ofSignal? target = some targetType)
      (hFactory : b.factories.connectors.get? id.type = some f)
      (hNext : g.feed? targetType (.connector id source target) = some next)
      (hCreate : (f.create id type targetType (settingsOver f.defaults b.config.connectors id) next
        s).1 = .ok made) :
      Makes b g (.connector id source target) (.ofInlet type made)
  | untyped {n : NodeId} (hType : BatchType.ofSignal? n.signal = none) (hPart : n.componentId? = none) :
      Makes b g n .nothing

theorem created_eq_ok {α : Type} {f : α → Instance κ} {r : Except ComponentError α × σ}
    (h : (created n f r).1 = .ok i) : ∃ a, r.1 = .ok a ∧ i = f a := by
  obtain ⟨_ | a, s⟩ := r
  · cases h
  · cases h
    exact ⟨a, rfl, rfl⟩

theorem makes_of_instantiate {type : BatchType} {s : σ}
    (hType : BatchType.ofSignal? n.signal = some type)
    (h : (g.instantiate b type n s).1 = .ok i) : g.Makes b n i := by
  cases n with
  | exporter id signal =>
      rw [instantiate] at h
      split at h
      · cases h
      · rename_i f hFactory
        obtain ⟨made, hCreate, rfl⟩ := created_eq_ok h
        exact .exporter hType hFactory hCreate
  | fanOut pipeline =>
      rw [instantiate] at h
      split at h
      · cases h
      · rename_i c hNext
        cases h
        exact .fanOut hType hNext
  | processor pipeline id =>
      rw [instantiate] at h
      split at h
      · cases h
      · rename_i f hFactory
        split at h
        · cases h
        · rename_i next hNext
          obtain ⟨made, hCreate, rfl⟩ := created_eq_ok h
          exact .processor hType hFactory hNext hCreate
  | capabilities pipeline =>
      rw [instantiate] at h
      split at h
      · cases h
      · rename_i next hNext
        cases h
        exact .capabilities hType hNext
  | receiver id signal =>
      rw [instantiate] at h
      split at h
      · cases h
      · rename_i f hFactory
        split at h
        · cases h
        · rename_i next hNext
          obtain ⟨made, hCreate, rfl⟩ := created_eq_ok h
          exact .receiver hType hFactory hNext hCreate
  | connector id source target =>
      rw [instantiate] at h
      split at h
      · cases h
      · rename_i f hFactory
        split at h
        · cases h
        · rename_i targetType hTarget
          split at h
          · cases h
          · rename_i next hNext
            obtain ⟨made, hCreate, rfl⟩ := created_eq_ok h
            exact .connector hType hTarget hFactory hNext hCreate

theorem makes_of_make {s : σ} (h : (g.make b n s).1 = .ok i) : g.Makes b n i := by
  rw [make] at h
  split at h
  · rename_i type hType
    exact makes_of_instantiate hType h
  · rename_i hType
    split at h
    · cases h
    · rename_i hNone
      cases h
      refine .untyped hType ?_
      cases n <;> first | rfl | exact absurd rfl (hNone _ _ rfl)

/-! ## One node after the other -/

/-- A graph that differs from another at some nodes at most. -/
structure Extends (g : Graph κ) (nodes : List NodeId) (g' : Graph κ) : Prop where
  pipelines : g'.pipelines = g.pipelines
  wiring : g'.wiring = g.wiring
  order : g'.order = g.order
  components : ∀ n ∉ nodes, g'.components.get? n = g.components.get? n
  consumers : ∀ n ∉ nodes, g'.consumers.get? n = g.consumers.get? n

theorem Extends.refl : g.Extends [] g := ⟨rfl, rfl, rfl, fun _ _ => rfl, fun _ _ => rfl⟩

theorem Extends.trans {nodes' : List NodeId} (h : g.Extends nodes g') (h' : g'.Extends nodes' g'') :
    g.Extends (nodes ++ nodes') g'' where
  pipelines := h'.pipelines.trans h.pipelines
  wiring := h'.wiring.trans h.wiring
  order := h'.order.trans h.order
  components n hNot := by
    rw [List.mem_append, not_or] at hNot
    rw [h'.components n hNot.2, h.components n hNot.1]
  consumers n hNot := by
    rw [List.mem_append, not_or] at hNot
    rw [h'.consumers n hNot.2, h.consumers n hNot.1]

theorem get?_elim_insert {α : Type} (t : Table NodeId α) (o : Option α) (hNone : t.get? n = none) :
    Table.get? n (o.elim t fun a => t.insert n a) = o := by
  cases o <;> simp [hNone]

theorem get?_elim_insert_of_ne {α : Type} (t : Table NodeId α) (o : Option α) (h : m ≠ n) :
    Table.get? m (o.elim t fun a => t.insert n a) = t.get? m := by
  cases o with
  | none => rfl
  | some a => exact Table.get?_insert_of_ne h a t

theorem extends_put (g : Graph κ) (n : NodeId) (i : Instance κ) : g.Extends [n] (g.put n i) where
  pipelines := rfl
  wiring := rfl
  order := rfl
  components m hNot := get?_elim_insert_of_ne _ _ (by simpa using hNot)
  consumers m hNot := get?_elim_insert_of_ne _ _ (by simpa using hNot)

theorem makeAll_cons_eq_ok {s : σ} (h : (makeAll b (n :: nodes) g s).1 = .ok g') :
    ∃ i s', g.Makes b n i ∧ (makeAll b nodes (g.put n i) s').1 = .ok g' := by
  rw [makeAll] at h
  split at h
  · cases h
  · rename_i i s' hMake
    exact ⟨i, s', makes_of_make (by rw [hMake]), h⟩

theorem extends_of_makeAll {s : σ} (h : (makeAll b nodes g s).1 = .ok g') : g.Extends nodes g' := by
  induction nodes generalizing g s with
  | nil =>
      cases h
      exact .refl
  | cons n nodes ih =>
      obtain ⟨i, s', -, hRest⟩ := makeAll_cons_eq_ok h
      exact (extends_put g n i).trans (ih hRest)

/-- What is made for a node is made when those before it have been made, and stays. -/
theorem exists_makes_of_makeAll {before after : List NodeId} {s : σ}
    (h : (makeAll b (before ++ n :: after) g s).1 = .ok g') :
    ∃ g₁ i, g.Extends before g₁ ∧ g₁.Makes b n i ∧ (g₁.put n i).Extends after g' := by
  induction before generalizing g s with
  | nil =>
      obtain ⟨i, s', hMakes, hRest⟩ := makeAll_cons_eq_ok h
      exact ⟨g, i, .refl, hMakes, extends_of_makeAll hRest⟩
  | cons m before ih =>
      obtain ⟨i, s', -, hRest⟩ := makeAll_cons_eq_ok h
      obtain ⟨g₁, j, hBefore, hMakes, hAfter⟩ := ih hRest
      exact ⟨g₁, j, (extends_put g m i).trans hBefore, hMakes, hAfter⟩

theorem nextConsumers_congr {type : BatchType} (hWiring : g'.wiring = g.wiring)
    (h : ∀ m ∈ g.wiring.successors n, g'.consumers.get? m = g.consumers.get? m) :
    g'.nextConsumers type n = g.nextConsumers type n := by
  rw [nextConsumers, nextConsumers, hWiring]
  exact List.filterMap_congr fun m hm => by rw [h m hm]

/-- What can be made for a node depends on what comes after it. -/
theorem Makes.congr (h : g.Makes b n i)
    (hNext : ∀ type, g'.nextConsumers type n = g.nextConsumers type n)
    (hMutates : ∀ pipeline, n = .capabilities pipeline →
      g'.chainMutates pipeline = g.chainMutates pipeline) : g'.Makes b n i := by
  have hFeed : ∀ type, g'.feed? type n = g.feed? type n := fun type => by rw [feed?, hNext, feed?]
  cases h with
  | exporter hType hFactory hCreate => exact .exporter hType hFactory hCreate
  | fanOut hType hFeed' => exact .fanOut hType ((hFeed _).trans hFeed')
  | processor hType hFactory hHead hCreate =>
      exact .processor hType hFactory (by rw [hNext, hHead]) hCreate
  | capabilities hType hHead =>
      rw [← hMutates _ rfl]
      exact .capabilities hType (by rw [hNext, hHead])
  | receiver hType hFactory hFeed' hCreate =>
      exact .receiver hType hFactory ((hFeed _).trans hFeed') hCreate
  | connector hType hTarget hFactory hFeed' hCreate =>
      exact .connector hType hTarget hFactory ((hFeed _).trans hFeed') hCreate
  | untyped hType hPart => exact .untyped hType hPart

/-! ## The graph that comes out -/

/-- A graph that was built: its nodes are those of the wiring, in topological order, and each has what
can be made for it in the graph. -/
structure Built (b : Blueprint σ κ) (ps : Pipelines) (g : Graph κ) : Prop where
  valid : b.validate = .ok ps
  pipelines : g.pipelines = ps
  wiring : g.wiring = b.wiring ps
  topological : g.wiring.Topological g.order
  perm : g.order.Perm g.wiring.nodes
  made : ∀ n ∈ g.order, ∃ i, g.Makes b n i ∧ g.components.get? n = i.component ∧
    g.consumers.get? n = i.consumer
  others : ∀ n ∉ g.order, g.components.get? n = none

/-- What was made for a node before its predecessors can be made again when all is done. -/
theorem Makes.of_extends {g₁ : Graph κ} {before after : List NodeId} (hWiring : g₁.wiring = b.wiring ps)
    (hPipelines : g₁.pipelines = ps) (hOrder : (b.wiring ps).Topological (before ++ n :: after))
    (hNodes : (before ++ n :: after).Perm (b.wiring ps).nodes) (hMakes : g₁.Makes b n i)
    (hRest : g₁.Extends ([n] ++ before.reverse) g) : g.Makes b n i := by
  have hLater : ∀ m, TransGen (b.wiring ps).Edge n m → g.consumers.get? m = g₁.consumers.get? m := by
    intro m hWay
    obtain ⟨k, -, hEdge⟩ := TransGen.tail'_iff.mp hWay
    have hMem := hNodes.mem_iff.mpr (Blueprint.isProper_wiring.target_mem hEdge)
    have hAfter := hOrder.mem_after_of_transGen hMem hWay
    obtain ⟨-, hDone, hApart⟩ := List.nodup_append.mp hOrder.nodup
    refine hRest.consumers m fun hBefore => ?_
    rcases List.mem_cons.mp hBefore with rfl | hBefore
    · exact (List.nodup_cons.mp hDone).1 hAfter
    · exact hApart m (List.mem_reverse.mp hBefore) m (List.mem_cons_of_mem _ hAfter) rfl
  have hNext : ∀ m ∈ g₁.wiring.successors n, g.consumers.get? m = g₁.consumers.get? m := by
    rw [hWiring]
    exact fun m hm => hLater m (.single hm)
  refine hMakes.congr (fun type => nextConsumers_congr hRest.wiring hNext) ?_
  rintro pipeline rfl
  rw [chainMutates, chainMutates, hRest.pipelines, hPipelines]
  cases hGet : Table.get? pipeline ps with
  | none => rfl
  | some p =>
      rw [Option.elim_some, List.any_map, List.any_map, Bool.eq_iff_iff, List.any_eq_true,
        List.any_eq_true]
      refine exists_congr fun id => and_congr_right fun hId => ?_
      have hWay := Blueprint.transGen_head_processor (b := b) (Table.mem_of_get? hGet) hId
      rw [Function.comp_apply, Function.comp_apply, hLater _ hWay]

theorem plan_eq_ok (h : plan b ps = .ok g) :
    g = ⟨ps, b.wiring ps, g.order, [], []⟩ ∧ (b.wiring ps).Topological g.order ∧
      g.order.Perm (b.wiring ps).nodes := by
  rw [plan] at h
  cases hOrder : (b.wiring ps).order? with
  | none => simp [hOrder] at h
  | some order =>
      simp only [hOrder] at h
      cases h
      exact ⟨rfl, Digraph.topological_of_order? Blueprint.isProper_wiring.toIsClosed hOrder⟩

/-- A graph that could be built is built. -/
theorem built_of_build {s : σ} (h : (build b s).1 = .ok g) : ∃ ps, g.Built b ps := by
  rw [build] at h
  split at h
  · cases h
  rename_i g₀ hPlan
  obtain ⟨ps, hValid, hPlan⟩ := bind_eq_ok_iff.mp hPlan
  obtain ⟨hStart, hTopological, hPerm⟩ := plan_eq_ok hPlan
  have hAll := extends_of_makeAll h
  have hWiring : g.wiring = b.wiring ps := by rw [hAll.wiring, hStart]
  refine ⟨ps, hValid, by rw [hAll.pipelines, hStart], hWiring, by rwa [hWiring, hAll.order],
    by rwa [hWiring, hAll.order], ?made, ?others⟩
  case made =>
    rw [hAll.order]
    intro n hn
    obtain ⟨before, after, hOrder⟩ := List.append_of_mem hn
    rw [hOrder, List.reverse_append, List.reverse_cons, List.append_assoc, List.singleton_append] at h
    rw [hOrder] at hTopological hPerm
    obtain ⟨g₁, i, hAfter, hMakes, hBefore⟩ := exists_makes_of_makeAll h
    have hNodup := List.nodup_append.mp hTopological.nodup
    have hNotAfter : n ∉ after.reverse := by simpa using (List.nodup_cons.mp hNodup.2.1).1
    have hNotBefore : n ∉ before.reverse := by
      simpa using fun hMem => hNodup.2.2 n hMem n List.mem_cons_self rfl
    refine ⟨i, ?_, ?_, ?_⟩
    · exact .of_extends (by rw [hAfter.wiring, hStart]) (by rw [hAfter.pipelines, hStart])
        hTopological hPerm hMakes ((extends_put g₁ n i).trans hBefore)
    · rw [hBefore.components n hNotBefore]
      refine get?_elim_insert _ _ ?_
      rw [hAfter.components n hNotAfter, hStart]
      rfl
    · rw [hBefore.consumers n hNotBefore]
      refine get?_elim_insert _ _ ?_
      rw [hAfter.consumers n hNotAfter, hStart]
      rfl
  case others =>
    rw [hAll.order]
    intro n hn
    rw [hAll.components n (by simpa using hn), hStart]
    rfl

theorem Makes.isSome_component (h : g.Makes b n i) : i.component.isSome = n.componentId?.isSome := by
  cases h with
  | untyped hType hPart => rw [hPart]; rfl
  | _ => rfl

/-- The nodes that stand for components have one. -/
theorem Built.isSome_components (h : g.Built b ps) :
    (g.components.get? n).isSome = true ↔ n ∈ g.wiring.nodes ∧ n.componentId?.isSome = true := by
  rw [← h.perm.mem_iff]
  by_cases hn : n ∈ g.order
  · obtain ⟨i, hMakes, hComponent, -⟩ := h.made n hn
    simp [hn, hComponent, hMakes.isSome_component]
  · simp [hn, h.others n hn]

end Graph

end Telemetry

import Telemetry.Proofs.Pipeline.Creations
import Telemetry.Proofs.Pipeline.Entries
import Telemetry.Proofs.Pipeline.Successors

/-!
# Every component is created once

A build comes to a node when everything the node leads to is there. What the node hands on has the type that
those after it take, so none of them is passed over, and no node is left without one. In a build that
succeeds each component was asked for once.
-/

namespace Telemetry

/-- The signals of a node: that of the batches it is about, and for a connector that of what it hands on. -/
def NodeId.signals : NodeId → List Signal
  | .connector _ source target => [source, target]
  | n => [n.signal]

/-! ## What validation vouches for -/

namespace Blueprint

variable {σ κ φ : Type} {b : Blueprint σ κ} {ps : Pipelines} {pipeline : PipelineId} {p : PipelineConfig}
  {n : NodeId}

/-- There is a factory for the component of a node. -/
def HasFactory (b : Blueprint σ κ) : NodeId → Prop
  | .receiver id _ => ∃ f, b.factories.receivers.get? id.type = some f
  | .processor _ id => ∃ f, b.factories.processors.get? id.type = some f
  | .exporter id _ => ∃ f, b.factories.exporters.get? id.type = some f
  | .connector id _ _ => ∃ f, b.factories.connectors.get? id.type = some f
  | .capabilities _ | .fanOut _ => True

theorem exists_of_checkReference {kind : Kind} {table : ComponentTable} {r : Registry φ}
    {id : ComponentId} (h : checkReference pipeline kind table r id = .ok ()) :
    ∃ f, r.get? id.type = some f := by
  rw [checkReference] at h
  split at h
  · cases h
  · split at h
    · cases h
    · rename_i hSome
      exact Option.ne_none_iff_exists'.mp (by simpa using hSome)

theorem exists_of_checkProcessors {seen ids : List ComponentId}
    (h : b.checkProcessors pipeline seen ids = .ok ()) :
    ∀ id ∈ ids, ∃ f, b.factories.processors.get? id.type = some f := by
  induction ids generalizing seen with
  | nil => exact List.forall_mem_nil _
  | cons id ids ih =>
      rw [checkProcessors] at h
      split at h
      · cases h
      split at h
      · cases h
      split at h
      · cases h
      · rename_i hSome
        exact List.forall_mem_cons.mpr ⟨Option.ne_none_iff_exists'.mp (by simpa using hSome), ih h⟩

/-- A pipeline without fault leads somewhere, and what it lists can be made. -/
structure Supplied (b : Blueprint σ κ) (p : PipelineConfig) : Prop where
  exporters_ne_nil : p.exporters ≠ []
  receivers : ∀ id ∈ p.receivers, b.isConnector id = false →
    ∃ f, b.factories.receivers.get? id.type = some f
  processors : ∀ id ∈ p.processors, ∃ f, b.factories.processors.get? id.type = some f
  exporters : ∀ id ∈ p.exporters, b.isConnector id = false →
    ∃ f, b.factories.exporters.get? id.type = some f

theorem supplied_of_checkPipeline (h : b.checkPipeline pipeline p = .ok ()) : b.Supplied p := by
  rw [checkPipeline] at h
  split at h
  · cases h
  simp only at h
  split at h
  · cases h
  rename_i hExporters
  obtain ⟨⟨⟩, hReceivers, h⟩ := bind_eq_ok_iff.mp h
  obtain ⟨⟨⟩, hProcessors, h⟩ := bind_eq_ok_iff.mp h
  refine ⟨by simpa using hExporters, fun id hId hPlain => ?receivers,
    exists_of_checkProcessors hProcessors, fun id hId hPlain => ?exporters⟩
  case receivers =>
    refine exists_of_checkReference (forM_eq_ok_iff.mp hReceivers id ?_)
    exact List.mem_filter.mpr ⟨hId, by simpa using hPlain⟩
  case exporters =>
    refine exists_of_checkReference (forM_eq_ok_iff.mp h id ?_)
    exact List.mem_filter.mpr ⟨hId, by simpa using hPlain⟩

theorem supplied_of_mem (hValid : b.validate = .ok ps) (hMem : (pipeline, p) ∈ ps) : b.Supplied p :=
  supplied_of_checkPipeline ((validate_eq_ok_iff.mp hValid).2.1 _ hMem)

theorem HasNode.hasFactory (hValid : b.validate = .ok ps) (h : b.HasNode ps n) : b.HasFactory n := by
  cases h with
  | head | tail => trivial
  | processor hMem hId => exact (supplied_of_mem hValid hMem).processors _ hId
  | receiver hMem hId hPlain => exact (supplied_of_mem hValid hMem).receivers _ hId hPlain
  | exporter hMem hId hPlain => exact (supplied_of_mem hValid hMem).exporters _ hId hPlain
  | connector hFeeds =>
      obtain ⟨f, hFactory, -⟩ := (Option.any_eq_true _ _).mp hFeeds.joins
      exact ⟨f, hFactory⟩

theorem exists_edge_stations (hMem : (pipeline, p) ∈ ps) (before after : List NodeId)
    (hStations : stations pipeline p.processors = before ++ n :: after) (hAfter : after ≠ []) :
    ∃ m, b.HasEdge ps n m := by
  obtain ⟨m, after, rfl⟩ := List.exists_cons_of_ne_nil hAfter
  exact ⟨m, .chain hMem ⟨before, after, by simp [hStations]⟩⟩

/-- A pipeline leads to an exporter or into a connector. -/
theorem exists_edge_tail (hValid : b.validate = .ok ps) (hMem : (pipeline, p) ∈ ps) :
    ∃ m, b.HasEdge ps (.fanOut pipeline) m ∧
      ((∃ id, m = .exporter id pipeline.signal) ∨ ∃ id t, m = .connector id pipeline.signal t) := by
  obtain ⟨id, rest, hExporters⟩ :=
    List.exists_cons_of_ne_nil (supplied_of_mem hValid hMem).exporters_ne_nil
  have hId : id ∈ p.exporters := by simp [hExporters]
  cases hConnector : b.isConnector id with
  | false => exact ⟨_, .exporter hMem hId hConnector, .inl ⟨id, rfl⟩⟩
  | true =>
      obtain ⟨target, hFeeds⟩ := exists_feeds_from hValid hMem hId hConnector
      exact ⟨_, .intoConnector hFeeds, .inr ⟨id, _, rfl⟩⟩

/-- Only exporters lead nowhere. -/
theorem HasNode.exists_edge (hValid : b.validate = .ok ps) (h : b.HasNode ps n)
    (hNot : n.kind? ≠ some .exporter) : ∃ m, b.HasEdge ps n m := by
  cases h with
  | head hMem => exact exists_edge_stations hMem [] _ rfl (by simp)
  | @processor pipeline p id hMem hId =>
      obtain ⟨first, last, hIds⟩ := List.append_of_mem hId
      refine exists_edge_stations hMem (.capabilities pipeline :: first.map (.processor pipeline))
        (last.map (.processor pipeline) ++ [.fanOut pipeline]) ?_ (by simp)
      simp [stations, hIds]
  | tail hMem =>
      obtain ⟨m, hEdge, -⟩ := exists_edge_tail hValid hMem
      exact ⟨m, hEdge⟩
  | receiver hMem hId hPlain => exact ⟨_, .receiver hMem hId hPlain⟩
  | exporter => exact absurd rfl hNot
  | connector hFeeds => exact ⟨_, .fromConnector hFeeds⟩

end Blueprint

namespace Graph

variable {σ κ : Type} {b : Blueprint σ κ} {ps : Pipelines} {g g' : Graph κ} {n m : NodeId}
  {nodes : List NodeId} {s s' : σ} {type : BatchType} {i : Instance κ} {v : Visit σ κ}
  {before after : List (Visit σ κ)}

/-! ## Coming to a node -/

/-- When a node is come to, those before it have been made, and are all that was come to. -/
theorem visitsOf_split (h : visitsOf b nodes g s = before ++ v :: after) :
    (∃ rest, nodes = before.map Visit.node ++ v.node :: rest) ∧
      makeAll b (before.map Visit.node) g s = (.ok v.graph, v.state) ∧
      visitsOf b (before.map Visit.node) g s = before := by
  induction before generalizing nodes g s with
  | nil =>
      cases nodes with
      | nil => cases h
      | cons n nodes =>
          rw [visitsOf] at h
          obtain ⟨rfl, -⟩ := List.cons.inj h
          exact ⟨⟨nodes, rfl⟩, rfl, rfl⟩
  | cons w before ih =>
      cases nodes with
      | nil => cases h
      | cons n nodes =>
          rw [visitsOf] at h
          obtain ⟨rfl, hRest⟩ := List.cons.inj h
          rw [List.map_cons, makeAll, visitsOf]
          split at hRest
          · simp at hRest
          · rename_i i s' hMake
            obtain ⟨⟨rest, hNodes⟩, hAll, hVisits⟩ := ih hRest
            simp only [hMake]
            exact ⟨⟨rest, congrArg (n :: ·) hNodes⟩, hAll, congrArg _ hVisits⟩

theorem map_node_visitsOf (h : (makeAll b nodes g s).1 = .ok g') :
    (visitsOf b nodes g s).map Visit.node = nodes := by
  induction nodes generalizing g s with
  | nil => rfl
  | cons n nodes ih =>
      rw [makeAll] at h
      rw [visitsOf, List.map_cons]
      rcases hMake : g.make b n s with ⟨_ | i, s'⟩
      · rw [hMake] at h
        cases h
      · rw [hMake] at h
        exact congrArg (n :: ·) (ih h)

theorem exists_visit_of_makeAll_eq_error {e : GraphError} (h : (makeAll b nodes g s).1 = .error e) :
    ∃ v ∈ visitsOf b nodes g s, (v.graph.make b v.node v.state).1 = .error e := by
  induction nodes generalizing g s with
  | nil => cases h
  | cons n nodes ih =>
      rw [makeAll] at h
      rw [visitsOf]
      rcases hMake : g.make b n s with ⟨e' | i, s'⟩
      · rw [hMake] at h
        cases h
        exact ⟨⟨n, g, s⟩, List.mem_cons_self, by rw [hMake]⟩
      · rw [hMake] at h
        obtain ⟨v, hv, hFail⟩ := ih h
        exact ⟨v, List.mem_cons_of_mem _ hv, hFail⟩

/-- What was made for a node is what its visit made, if nodes are made once and none was there before. -/
def Visit.Made (b : Blueprint σ κ) (g : Graph κ) (v : Visit σ κ) : Prop :=
  ∃ i, (v.graph.make b v.node v.state).1 = .ok i ∧ g.components.get? v.node = i.component ∧
    g.consumers.get? v.node = i.consumer

theorem made_of_mem_visitsOf (hAll : (makeAll b nodes g s).1 = .ok g') (hNodup : nodes.Nodup)
    (hFresh : ∀ n ∈ nodes, g.components.get? n = none ∧ g.consumers.get? n = none) :
    ∀ v ∈ visitsOf b nodes g s, v.Made b g' := by
  induction nodes generalizing g s with
  | nil => exact List.forall_mem_nil _
  | cons n nodes ih =>
      obtain ⟨hNew, hNodup⟩ := List.nodup_cons.mp hNodup
      obtain ⟨⟨hNoComponent, hNoConsumer⟩, hFresh⟩ := List.forall_mem_cons.mp hFresh
      rw [makeAll] at hAll
      rw [visitsOf]
      rcases hMake : g.make b n s with ⟨e | i, s'⟩
      · rw [hMake] at hAll
        cases hAll
      · rw [hMake] at hAll
        have hRest := extends_of_makeAll hAll
        refine List.forall_mem_cons.mpr ⟨⟨i, by rw [hMake], ?_, ?_⟩, ih hAll hNodup fun m hm => ?_⟩
        · rw [hRest.components n hNew]
          exact get?_elim_insert _ _ hNoComponent
        · rw [hRest.consumers n hNew]
          exact get?_elim_insert _ _ hNoConsumer
        · have hNe : m ∉ [n] := by
            rw [List.mem_singleton]
            rintro rfl
            exact hNew hm
          rw [(extends_put g n i).components m hNe, (extends_put g n i).consumers m hNe]
          exact hFresh m hm

/-! ## What is there -/

theorem Makes.exists_consumer (h : g.Makes b n i) (hType : BatchType.ofSignal? n.signal = some type)
    (hNot : ∀ id signal, n ≠ .receiver id signal) : ∃ c, i.consumer = some (type, c) := by
  cases h with
  | receiver => exact absurd rfl (hNot _ _)
  | untyped hNone => cases hNone.symm.trans hType
  | exporter hType' | fanOut hType' | processor hType' | capabilities hType' | connector hType' =>
      cases hType'.symm.trans hType
      exact ⟨_, rfl⟩

/-- When a build comes to a node, what the node leads to has been made before. Each of these takes batches
of the type that the node hands on, and so none of them is passed over. -/
structure Visit.Ready (b : Blueprint σ κ) (ps : Pipelines) (done : List NodeId) (v : Visit σ κ) :
    Prop where
  earlier : ∀ m ∈ (b.wiring ps).successors v.node, m ∈ done
  components : ∀ m ∈ (b.wiring ps).successors v.node, m.componentId?.isSome = true →
    (v.graph.components.get? m).isSome = true
  consumers : ∀ type, BatchType.ofSignal? v.node.output = some type →
    ((b.wiring ps).successors v.node).map (fun m => v.graph.consumers.get? m) =
      (v.graph.nextConsumers type v.node).map fun c => some (type, c)

theorem map_get?_eq_map_nextConsumers
    (h : ∀ m ∈ g.wiring.successors n, ∃ c, g.consumers.get? m = some (type, c)) :
    (g.wiring.successors n).map (fun m => g.consumers.get? m) =
      (g.nextConsumers type n).map fun c => some (type, c) := by
  rw [nextConsumers]
  generalize g.wiring.successors n = nodes at h ⊢
  induction nodes with
  | nil => rfl
  | cons m nodes ih =>
      obtain ⟨⟨c, hConsumer⟩, hNodes⟩ := List.forall_mem_cons.mp h
      simp [hConsumer, ih hNodes]

theorem build_of_plan (hValid : b.validate = .ok ps) (hPlan : plan b ps = .ok g) (s : σ) :
    build b s = makeAll b g.order.reverse g s := by
  rw [build, hValid]
  simp only [Except.bind, hPlan]

theorem visits_of_plan (hValid : b.validate = .ok ps) (hPlan : plan b ps = .ok g) (s : σ) :
    visits b s = visitsOf b g.order.reverse g s := by
  rw [visits, hValid]
  simp only [Except.bind, hPlan]

/-- Without a plan there is a cycle. -/
theorem plan_eq_error {e : GraphError} (h : plan (κ := κ) b ps = .error e) :
    ∃ path, e = .cycle path := by
  rw [plan] at h
  split at h
  · cases h
  · cases h
    exact ⟨_, rfl⟩

theorem exists_plan_of_build (hValid : b.validate = .ok ps) (hBuild : (build b s).1 = .ok g) :
    ∃ g₀ : Graph κ, plan b ps = .ok g₀ := by
  cases hPlan : plan (κ := κ) b ps with
  | error e => simp [build, hValid, Except.bind, hPlan] at hBuild
  | ok g₀ => exact ⟨g₀, rfl⟩

/-- A build that comes to nodes has made a plan. -/
theorem exists_plan_of_visits (hValid : b.validate = .ok ps) (h : visits b s = before ++ v :: after) :
    ∃ order, (b.wiring ps).Topological order ∧ order.Perm (b.wiring ps).nodes ∧
      visitsOf b order.reverse ⟨ps, b.wiring ps, order, [], []⟩ s = before ++ v :: after := by
  cases hPlan : plan (κ := κ) b ps with
  | error e => simp [visits, hValid, Except.bind, hPlan] at h
  | ok g =>
      rw [visits_of_plan hValid hPlan] at h
      obtain ⟨hStart, hTopological, hPerm⟩ := plan_eq_ok hPlan
      refine ⟨g.order, hTopological, hPerm, ?_⟩
      rwa [← hStart]

theorem Visit.wiring_eq (hValid : b.validate = .ok ps) (h : visits b s = before ++ v :: after) :
    v.graph.wiring = b.wiring ps ∧ b.HasNode ps v.node := by
  obtain ⟨order, hTopological, hPerm, hVisits⟩ := exists_plan_of_visits hValid h
  obtain ⟨⟨rest, hNodes⟩, hAll, -⟩ := visitsOf_split hVisits
  refine ⟨(extends_of_makeAll (by rw [hAll])).wiring, ?_⟩
  rw [← Blueprint.mem_nodes_wiring_iff, ← hPerm.mem_iff, ← List.mem_reverse, hNodes]
  simp

theorem Visit.ready (hValid : b.validate = .ok ps) (h : visits b s = before ++ v :: after) :
    v.Ready b ps (before.map Visit.node) := by
  obtain ⟨hWiring, -⟩ := Visit.wiring_eq hValid h
  obtain ⟨order, hTopological, hPerm, hVisits⟩ := exists_plan_of_visits hValid h
  obtain ⟨⟨rest, hNodes⟩, hAll, hBefore⟩ := visitsOf_split hVisits
  have hOrder : order = rest.reverse ++ v.node :: (before.map Visit.node).reverse := by
    rw [← List.reverse_reverse order, hNodes]
    simp
  have hNodup : (before.map Visit.node).Nodup := by
    have hReverse := List.nodup_reverse.mpr hTopological.nodup
    rw [hNodes] at hReverse
    exact (List.nodup_append.mp hReverse).1
  have hEarlier : ∀ m ∈ (b.wiring ps).successors v.node, m ∈ before.map Visit.node := by
    intro m hEdge
    have hMem : m ∈ order := hPerm.mem_iff.mpr (Blueprint.isProper_wiring.target_mem hEdge)
    rw [hOrder] at hTopological hMem
    -- What a node leads to is behind it in the order, and a build goes from the back.
    exact List.mem_reverse.mp (hTopological.mem_after_of_transGen hMem (.single hEdge))
  have hMade : ∀ m ∈ (b.wiring ps).successors v.node, ∃ (g : Graph κ) (i : Instance κ),
      g.Makes b m i ∧ v.graph.components.get? m = i.component ∧
        v.graph.consumers.get? m = i.consumer := by
    intro m hEdge
    obtain ⟨w, hMem, rfl⟩ := List.mem_map.mp (hEarlier m hEdge)
    rw [← hBefore] at hMem
    obtain ⟨i, hMake, hComponent, hConsumer⟩ :=
      made_of_mem_visitsOf (by rw [hAll]) hNodup (by simp) w hMem
    exact ⟨w.graph, i, makes_of_make hMake, hComponent, hConsumer⟩
  refine ⟨hEarlier, fun m hEdge hPart => ?components, fun type hType => ?consumers⟩
  case components =>
    obtain ⟨g, i, hMakes, hComponent, -⟩ := hMade m hEdge
    rw [hComponent, hMakes.isSome_component]
    exact hPart
  case consumers =>
    rw [← hWiring]
    refine map_get?_eq_map_nextConsumers fun m hm => ?_
    rw [hWiring] at hm
    obtain ⟨g, i, hMakes, -, hConsumer⟩ := hMade m hm
    have hEdge := Blueprint.edge_wiring_iff.mp hm
    rw [hConsumer]
    exact hMakes.exists_consumer (hEdge.signal_eq ▸ hType) hEdge.ne_receiver

theorem Visit.Ready.nextConsumers_ne_nil {done : List NodeId} (h : v.Ready b ps done)
    (hValid : b.validate = .ok ps) (hNode : b.HasNode ps v.node) (type : BatchType)
    (hNot : v.node.kind? ≠ some .exporter) (hType : BatchType.ofSignal? v.node.output = some type) :
    v.graph.nextConsumers type v.node ≠ [] := by
  obtain ⟨m, hEdge⟩ := hNode.exists_edge hValid hNot
  intro hNil
  have hNone := h.consumers type hType
  rw [hNil, List.map_nil, List.map_eq_nil_iff] at hNone
  have hMem : m ∈ (b.wiring ps).successors v.node := Blueprint.edge_wiring_iff.mpr hEdge
  rw [hNone] at hMem
  cases hMem

theorem exists_ofBranches? {cs : List Consumer} (h : cs ≠ []) :
    ∃ c, Consumer.ofBranches? cs = some c := by
  rcases cs with _ | ⟨c, _ | ⟨d, cs⟩⟩
  · exact absurd rfl h
  · exact ⟨c, rfl⟩
  · exact ⟨_, rfl⟩

theorem created_eq_error {α : Type} {f : α → Instance κ} {r : Except ComponentError α × σ}
    {e : GraphError} (h : (created n f r).1 = .error e) : ∃ source, e = .create (.node n) source := by
  obtain ⟨source | a, s⟩ := r
  · cases h
    exact ⟨source, rfl⟩
  · cases h

/-- A node that is come to can fail in the constructor of its component only, or for a signal that there
are no batches of. -/
theorem Visit.Ready.create_of_error {done : List NodeId} (h : v.Ready b ps done)
    (hValid : b.validate = .ok ps) (hNode : b.HasNode ps v.node) {e : GraphError}
    (hMake : (v.graph.make b v.node v.state).1 = .error e) :
    ∃ source, e = .create (.node v.node) source := by
  have hFactory := hNode.hasFactory hValid
  have hNext := h.nextConsumers_ne_nil hValid hNode
  obtain ⟨n, g, s⟩ := v
  rw [make] at hMake
  split at hMake
  · rename_i type hType
    cases n with
    | exporter id signal =>
        obtain ⟨f, hFactory⟩ := hFactory
        simp only [instantiate, hFactory] at hMake
        exact created_eq_error hMake
    | fanOut pipeline =>
        obtain ⟨c, hFeed⟩ := exists_ofBranches? (hNext type (by simp [NodeId.kind?]) hType)
        simp only [instantiate, feed?, hFeed] at hMake
        cases hMake
    | processor pipeline id =>
        obtain ⟨f, hFactory⟩ := hFactory
        obtain ⟨next, rest, hNext⟩ := List.exists_cons_of_ne_nil (hNext type (by simp [NodeId.kind?]) hType)
        simp only [instantiate, hFactory, hNext, List.head?_cons] at hMake
        exact created_eq_error hMake
    | capabilities pipeline =>
        obtain ⟨next, rest, hNext⟩ := List.exists_cons_of_ne_nil (hNext type (by simp [NodeId.kind?]) hType)
        simp only [instantiate, hNext, List.head?_cons] at hMake
        cases hMake
    | receiver id signal =>
        obtain ⟨f, hFactory⟩ := hFactory
        obtain ⟨c, hFeed⟩ := exists_ofBranches? (hNext type (by simp [NodeId.kind?]) hType)
        simp only [instantiate, hFactory, feed?, hFeed] at hMake
        exact created_eq_error hMake
    | connector id source target =>
        obtain ⟨f, hFactory⟩ := hFactory
        simp only [instantiate, hFactory] at hMake
        split at hMake
        -- There are batches of what comes in, but maybe none of what is handed on.
        · cases hMake
          exact ⟨_, rfl⟩
        · rename_i targetType hTarget
          obtain ⟨c, hFeed⟩ := exists_ofBranches? (hNext targetType (by simp [NodeId.kind?]) hTarget)
          simp only [feed?, hFeed] at hMake
          exact created_eq_error hMake
  · split at hMake
    · cases hMake
      exact ⟨_, rfl⟩
    · cases hMake

/-! ## The calls -/

/-- A call asks for the component of a node and hands it the consumer that leads to all that follow. -/
structure Fits (g : Graph κ) (n : NodeId) (call : Creation) : Prop where
  kind : n.kind? = some call.kind
  id : n.componentId? = some call.id
  types : n.signals.map BatchType.ofSignal? = call.types.map some
  next : call.next = (BatchType.ofSignal? n.output).bind fun type => g.feed? type n

/-- What was made for a node that stands for a component was made by one call. -/
theorem Makes.exists_creation (h : g.Makes b n i) (hValid : b.validate = .ok ps)
    (hWiring : g.wiring = b.wiring ps) (hPart : n.componentId?.isSome = true) :
    ∃ call, creation? b g n = some call ∧ g.Fits n call := by
  cases h with
  | @exporter id signal type f made s hType hFactory hCreate =>
      have hNone : g.feed? type (.exporter id signal) = none := by
        rw [feed?, nextConsumers, hWiring, Blueprint.successors_exporter]
        rfl
      refine ⟨⟨.exporter, id, [type], none⟩, by simp [creation?, NodeId.signal, hType, hFactory],
        rfl, rfl, congrArg (fun t => [t]) hType, ?_⟩
      simp [NodeId.output, NodeId.signal, hType, hNone]
  | @processor pipeline id type f next made s hType hFactory hNext hCreate =>
      refine ⟨⟨.processor, id, [type], some next⟩,
        by simp [creation?, NodeId.signal, hType, hFactory, hNext], rfl, rfl,
        congrArg (fun t => [t]) hType, ?_⟩
      simp [NodeId.output, NodeId.signal, hType, feed?_of_head? hValid hWiring (.inr ⟨id, rfl⟩) hNext]
  | @receiver id signal type f next made s hType hFactory hNext hCreate =>
      refine ⟨⟨.receiver, id, [type], some next⟩,
        by simp [creation?, NodeId.signal, hType, hFactory, hNext], rfl, rfl,
        congrArg (fun t => [t]) hType, ?_⟩
      simp [NodeId.output, NodeId.signal, hType, hNext]
  | @connector id source target type targetType f next made s hType hTarget hFactory hNext hCreate =>
      refine ⟨⟨.connector, id, [type, targetType], some next⟩,
        by simp [creation?, NodeId.signal, hType, hTarget, hFactory, hNext], rfl, rfl,
        by simp [NodeId.signals, hType, hTarget], ?_⟩
      simp [NodeId.output, hTarget, hNext]
  | fanOut | capabilities => cases hPart
  | untyped hType hNone => simp [hNone] at hPart

theorem creation?_eq_none (hPart : n.componentId? = none) : creation? b g n = none := by
  cases n with
  | fanOut pipeline | capabilities pipeline =>
      cases hType : BatchType.ofSignal? pipeline.signal <;> simp [creation?, NodeId.signal, hType]
  | _ => cases hPart

/-- What a build made of a node: what the visit made is what the graph has, and a constructor was called
once if the node stands for a component, and else not at all. -/
structure Visit.Creates (b : Blueprint σ κ) (g : Graph κ) (v : Visit σ κ) : Prop where
  made : v.Made b g
  once : v.node.componentId?.isSome = true → ∃ call, v.creations b = [call] ∧ v.graph.Fits v.node call
  never : v.node.componentId? = none → v.creations b = []

theorem outcome_of_build (hValid : b.validate = .ok ps) (s : σ) :
    (∃ g, (build b s).1 = .ok g) ∨ (∃ path, (build b s).1 = .error (.cycle path)) ∨
      ∃ n source, (build b s).1 = .error (.create (.node n) source) := by
  cases hPlan : plan (κ := κ) b ps with
  | error e =>
      obtain ⟨path, rfl⟩ := plan_eq_error hPlan
      exact .inr (.inl ⟨path, by simp [build, hValid, Except.bind, hPlan]⟩)
  | ok g =>
      rw [build_of_plan hValid hPlan]
      cases hAll : (makeAll b g.order.reverse g s).1 with
      | ok g' => exact .inl ⟨g', rfl⟩
      | error e =>
          obtain ⟨v, hMem, hMake⟩ := exists_visit_of_makeAll_eq_error hAll
          rw [← visits_of_plan hValid hPlan] at hMem
          obtain ⟨before, after, hSplit⟩ := List.append_of_mem hMem
          obtain ⟨source, rfl⟩ := (Visit.ready hValid hSplit).create_of_error hValid
            (Visit.wiring_eq hValid hSplit).2 hMake
          exact .inr (.inr ⟨v.node, source, rfl⟩)

theorem Visit.creates_of_build (hValid : b.validate = .ok ps) (hBuild : (build b s).1 = .ok g)
    (hMem : v ∈ visits b s) : v.Creates b g := by
  obtain ⟨before, after, hSplit⟩ := List.append_of_mem hMem
  obtain ⟨hWiring, -⟩ := Visit.wiring_eq hValid hSplit
  obtain ⟨g₀, hPlan⟩ := exists_plan_of_build hValid hBuild
  obtain ⟨hStart, hTopological, -⟩ := plan_eq_ok hPlan
  rw [build_of_plan hValid hPlan] at hBuild
  rw [visits_of_plan hValid hPlan] at hMem
  have hFresh : ∀ n ∈ g₀.order.reverse, g₀.components.get? n = none ∧ g₀.consumers.get? n = none := by
    rw [hStart]
    exact fun _ _ => ⟨rfl, rfl⟩
  have hMade := made_of_mem_visitsOf hBuild (List.nodup_reverse.mpr hTopological.nodup) hFresh v hMem
  refine ⟨hMade, fun hPart => ?_, fun hPart => ?_⟩
  · obtain ⟨i, hMake, -⟩ := hMade
    obtain ⟨call, hCall, hFits⟩ := (makes_of_make hMake).exists_creation hValid hWiring hPart
    exact ⟨call, by rw [v.creations_eq, hCall]; rfl, hFits⟩
  · rw [v.creations_eq, creation?_eq_none hPart]
    rfl

theorem map_node_visits (hValid : b.validate = .ok ps) (hBuild : (build b s).1 = .ok g) :
    ((visits b s).map Visit.node).Perm (b.wiring ps).nodes := by
  obtain ⟨g₀, hPlan⟩ := exists_plan_of_build hValid hBuild
  obtain ⟨-, -, hPerm⟩ := plan_eq_ok hPlan
  rw [build_of_plan hValid hPlan] at hBuild
  rw [visits_of_plan hValid hPlan, map_node_visitsOf hBuild]
  exact (List.reverse_perm _).trans hPerm

/-- A build of pipelines that are without fault succeeds, or reports a cycle or a component that could not
be created. When it comes to a node, all that the node leads to has been made, and takes batches of the
type that the node hands on. If the build succeeds, every node was come to once, and for each component a
constructor was called once; there were no other calls. -/
theorem build_creates_every_component_once (hValid : b.validate = .ok ps) (s : σ) :
    ((∃ g, (build b s).1 = .ok g) ∨ (∃ path, (build b s).1 = .error (.cycle path)) ∨
      ∃ n source, (build b s).1 = .error (.create (.node n) source)) ∧
    (∀ before v after, visits b s = before ++ v :: after → v.Ready b ps (before.map Visit.node)) ∧
    build b.noting (s, []) =
      ((build b s).1, (build b s).2, (visits b s).flatMap (Visit.creations b)) ∧
    ∀ g, (build b s).1 = .ok g →
      ((visits b s).map Visit.node).Perm (b.wiring ps).nodes ∧ (b.wiring ps).nodes.Nodup ∧
      ∀ v ∈ visits b s, v.Creates b g := by
  refine ⟨outcome_of_build hValid s, fun before v after h => Visit.ready hValid h, build_noting b s,
    fun g hBuild => ⟨map_node_visits hValid hBuild, ?_, fun v => Visit.creates_of_build hValid hBuild⟩⟩
  exact Blueprint.isProper_wiring.ascending.nodup_keys

theorem build_creates_every_component_once_relay :
    Relay.blueprint.validate = .ok Relay.pipelines ∧ ∃ g, (build Relay.blueprint 0).1 = .ok g ∧
      ((visits Relay.blueprint 0).map Visit.node).Perm (Relay.blueprint.wiring Relay.pipelines).nodes ∧
      (∀ v ∈ visits Relay.blueprint 0, v.Creates Relay.blueprint g) ∧
      ((build Relay.blueprint.noting (0, [])).2.2.map fun c => (c.kind, c.types)) =
        [(.exporter, [.logs]), (.connector, [.traces, .logs]), (.exporter, [.traces]),
          (.processor, [.traces]), (.receiver, [.traces])] := by
  obtain ⟨-, -, -, hSuccess⟩ := build_creates_every_component_once Relay.validate_blueprint 0
  obtain ⟨g, hBuild⟩ : ∃ g, (build Relay.blueprint 0).1 = .ok g := ⟨_, rfl⟩
  obtain ⟨hNodes, -, hCreates⟩ := hSuccess g hBuild
  exact ⟨Relay.validate_blueprint, g, hBuild, hNodes, hCreates, by decide +kernel⟩

end Graph

end Telemetry

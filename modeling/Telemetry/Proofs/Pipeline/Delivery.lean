import Telemetry.Proofs.Agent.Custody
import Telemetry.Proofs.Pipeline.Forwarding
import Telemetry.Proofs.Pipeline.Ways

/-!
# Delivery

A batch that a receiver hands on arrives at every node once on each way that leads there, changed by the
nodes on the way, whatever the ends of the pipelines do with what they get.
-/

namespace Telemetry

namespace Graph

variable {σ κ : Type} {b : Blueprint σ κ} {ps : Pipelines} {g : Graph κ} {n : NodeId}
  {type : BatchType} {c : Consumer} {s₀ : σ}

/-- A node takes batches of the type of its signal. -/
theorem Makes.type_of_consumer {i : Instance κ} (h : g.Makes b n i)
    (hConsumer : i.consumer = some (type, c)) : BatchType.ofSignal? n.signal = some type := by
  cases h with
  | receiver | untyped => cases hConsumer
  | exporter hType | fanOut hType | processor hType | capabilities hType | connector hType =>
      cases hConsumer
      exact hType

/-- A node hands what it gets through layers to those that follow it; only processors and connectors
change it. -/
structure Relays (g : Graph κ) (n : NodeId) (layers : List Layer) : Prop where
  consumer : ∃ type next, BatchType.ofSignal? n.output = some type ∧ g.feed? type n = some next ∧
    g.consumer? n = some (Layer.wrapAll layers next)
  plain : n.kind? ≠ some .processor → n.kind? ≠ some .connector → Layer.changeAll layers = id

/-- Every node relays what it gets that takes batches and is no exporter. -/
def RelaysBy (g : Graph κ) (layers : NodeId → List Layer) : Prop :=
  ∀ n ∈ g.wiring.nodes, (BatchType.ofSignal? n.signal).isSome = true → n.kind? ≠ some .exporter →
    g.Relays n (layers n)

theorem consumer?_of_ne_receiver (hNot : ∀ id signal, n ≠ .receiver id signal) :
    g.consumer? n = (g.consumers.get? n).map Prod.snd := by
  cases n with
  | receiver id signal => exact absurd rfl (hNot id signal)
  | _ => rfl

theorem Built.exists_relays (h : g.Built b ps) (hBuild : (build b s₀).1 = .ok g)
    (hForward : g.Forwards b s₀) (hMem : n ∈ g.order) (hSome : BatchType.ofSignal? n.signal = some type)
    (hNot : n.kind? ≠ some .exporter) : ∃ layers, g.Relays n layers := by
  obtain ⟨i, hMakes, -, hConsumer⟩ := h.made n hMem
  cases hMakes with
  | exporter => exact absurd rfl hNot
  | @fanOut pipeline type c hType hNext =>
      refine ⟨[], ⟨type, c, hType, hNext, ?_⟩, fun _ _ => rfl⟩
      rw [consumer?_of_ne_receiver (by simp), hConsumer]
      rfl
  | @processor pipeline id type f next made s hType hFactory hNext hCreate =>
      have hFeed := feed?_of_head? h.valid h.wiring (.inr ⟨id, rfl⟩) hNext
      obtain ⟨layers, hLayers⟩ := h.forwards hBuild hForward hMem (.inl rfl) hType hFeed hConsumer
      refine ⟨layers, ⟨type, next, hType, hFeed, ?_⟩, fun hNot => absurd rfl hNot⟩
      rw [consumer?_of_ne_receiver (by simp), hConsumer, ← hLayers]
      rfl
  | @capabilities pipeline type next hType hNext =>
      have hFeed := feed?_of_head? h.valid h.wiring (.inl rfl) hNext
      refine ⟨[.pass (g.chainMutates pipeline)], ⟨type, next, hType, hFeed, ?_⟩, fun _ _ => rfl⟩
      rw [consumer?_of_ne_receiver (by simp), hConsumer]
      rfl
  | @receiver id signal type f next made s hType hFactory hNext hCreate =>
      refine ⟨[], ⟨type, next, hType, hNext, ?_⟩, fun _ _ => rfl⟩
      rw [consumer?, hType]
      exact hNext
  | @connector id source target type targetType f next made s hType hTarget hFactory hNext hCreate =>
      obtain ⟨layers, hLayers⟩ := h.forwards hBuild hForward hMem (.inr rfl) hTarget hNext hConsumer
      refine ⟨layers, ⟨targetType, next, hTarget, hNext, ?_⟩, fun _ hNot => absurd rfl hNot⟩
      rw [consumer?_of_ne_receiver (by simp), hConsumer, ← hLayers]
      rfl
  | untyped hNone => simp [hSome] at hNone

/-- What follows a node takes batches of the type that the node hands on. -/
theorem Built.consumers_of_edge (h : g.Built b ps) {m : NodeId}
    (hType : BatchType.ofSignal? n.output = some type) (hEdge : g.wiring.Edge n m)
    (hConsumer : g.consumer? m = some c) : g.consumers.get? m = some (type, c) := by
  have hMem : m ∈ g.order := by
    rw [h.perm.mem_iff, h.wiring]
    exact Blueprint.isProper_wiring.target_mem (h.wiring ▸ hEdge)
  have hEdge := Blueprint.edge_wiring_iff.mp (h.wiring ▸ hEdge)
  rw [consumer?_of_ne_receiver hEdge.ne_receiver] at hConsumer
  obtain ⟨⟨type', c'⟩, hGet, rfl⟩ := Option.map_eq_some_iff.mp hConsumer
  obtain ⟨i, hMakes, -, hMade⟩ := h.made m hMem
  have hSame := hMakes.type_of_consumer (hMade ▸ hGet)
  rw [hEdge.signal_eq, hType] at hSame
  cases hSame
  exact hGet

/-- The consumers of the nodes that follow a node, if each has a route. -/
theorem Built.nextConsumers_eq (h : g.Built b ps) {layers : NodeId → List Layer} {branches : List Route}
    (hType : BatchType.ofSignal? n.output = some type)
    (hNext : g.wiring.successors n = branches.map Route.node)
    (hBranches : ∀ r ∈ branches, r.Follows g layers) :
    g.nextConsumers type n = branches.map Route.erase := by
  rw [nextConsumers, hNext, List.filterMap_map, ← List.filterMap_eq_map]
  refine List.filterMap_congr fun r hr => ?_
  have hEdge : g.wiring.Edge n r.node := by
    rw [Digraph.Edge, hNext]
    exact List.mem_map_of_mem hr
  simp [h.consumers_of_edge hType hEdge (hBranches r hr).consumer?]

theorem exists_routes {layers : NodeId → List Layer} {nodes : List NodeId}
    (hRoute : ∀ m ∈ nodes, ∃ r : Route, r.Follows g layers ∧ r.node = m) :
    ∃ rs : List Route, (∀ r ∈ rs, r.Follows g layers) ∧ nodes = rs.map Route.node := by
  induction nodes with
  | nil => exact ⟨[], by simp⟩
  | cons m nodes ih =>
      rw [List.forall_mem_cons] at hRoute
      obtain ⟨⟨r, hFollows, rfl⟩, hRest⟩ := hRoute
      obtain ⟨rs, hAll, rfl⟩ := ih hRest
      exact ⟨r :: rs, List.forall_mem_cons.mpr ⟨hFollows, hAll⟩, rfl⟩

/-- A node has a route if those that follow it have routes. -/
theorem Built.exists_route_step (h : g.Built b ps) {layers : NodeId → List Layer}
    (hRelays : n.kind? ≠ some .exporter → g.Relays n (layers n)) (hMem : n ∈ g.order)
    (hSome : BatchType.ofSignal? n.signal = some type)
    (hRoute : ∀ m ∈ g.wiring.successors n, (BatchType.ofSignal? m.signal).isSome = true →
      ∃ r : Route, r.Follows g layers ∧ r.node = m) :
    ∃ r : Route, r.Follows g layers ∧ r.node = n := by
  by_cases hExporter : n.kind? = some .exporter
  · obtain ⟨i, hMakes, -, hConsumer⟩ := h.made n hMem
    cases hMakes with
    | @exporter id signal type f made s hType hFactory hCreate =>
        refine ⟨.stop _ made.consumer, .stop hExporter ?_ ?_, rfl⟩
        · rw [consumer?_of_ne_receiver (by simp), hConsumer]
          rfl
        · rw [h.wiring]
          exact Blueprint.successors_exporter id signal
    | untyped hNone => simp [hSome] at hNone
    | _ => cases hExporter
  · obtain ⟨type', next, hType, hFeed, hConsumer⟩ := (hRelays hExporter).consumer
    have hSuccessors : ∀ m ∈ g.wiring.successors n, ∃ r : Route, r.Follows g layers ∧ r.node = m := by
      intro m hm
      refine hRoute m hm ?_
      have hEdge : (b.wiring ps).Edge n m := h.wiring ▸ hm
      rw [(Blueprint.edge_wiring_iff.mp hEdge).signal_eq, hType]
      rfl
    obtain ⟨branches, hBranches, hNext⟩ := exists_routes hSuccessors
    rw [feed?, h.nextConsumers_eq hType hNext hBranches, ← Route.eraseAll_eq_map] at hFeed
    obtain ⟨-, rfl⟩ := Route.ofBranches?_eq_some_iff.mp hFeed
    exact ⟨.relay n (layers n) branches, .relay hExporter hConsumer hNext hBranches, rfl⟩

theorem Built.exists_route (h : g.Built b ps) {layers : NodeId → List Layer}
    (hRelays : g.RelaysBy layers) :
    ∀ n ∈ g.order, (BatchType.ofSignal? n.signal).isSome = true →
      ∃ r : Route, r.Follows g layers ∧ r.node = n := by
  refine h.topological.downward_induction fun n hn ih hSome => ?_
  obtain ⟨type, hType⟩ := Option.isSome_iff_exists.mp hSome
  refine h.exists_route_step (hRelays n (h.perm.mem_iff.mp hn) hSome) hn hType fun m hm => ih m ?_ hm
  rw [h.perm.mem_iff, h.wiring]
  exact Blueprint.isProper_wiring.target_mem (h.wiring ▸ hm)

/-- What becomes of a batch: it arrives once on each way from a node, changed by the nodes it came
through, and so as often at a node as there are ways to it. -/
structure Delivers (g : Graph κ) (layers : NodeId → List Layer) (start : NodeId) (content : Request)
    (log : List Arrival) : Prop where
  nodup : (log.map Arrival.path).Nodup
  mem_iff : ∀ a, a ∈ log ↔ g.IsWay start a.path ∧ a.content = carried layers a.path content
  calls : ∀ n, (log.filter fun a => a.path.getLast? = some n).length =
    {way | g.IsWay start way ∧ way.getLast? = some n}.ncard

theorem length_filter_arrivals {log : List Arrival} {start : NodeId}
    (hNodup : (log.map Arrival.path).Nodup)
    (hMem : ∀ way, way ∈ log.map Arrival.path ↔ g.IsWay start way) (n : NodeId) :
    (log.filter fun a => a.path.getLast? = some n).length =
      {way | g.IsWay start way ∧ way.getLast? = some n}.ncard := by
  have hWays : {way | g.IsWay start way ∧ way.getLast? = some n} =
      ↑((log.map Arrival.path).filter fun way => way.getLast? = some n).toFinset := by
    ext way
    simp [← hMem]
  rw [hWays, Set.ncard_coe_finset, List.toFinset_card_of_nodup (hNodup.filter _), List.filter_map,
    List.length_map]
  rfl

theorem Built.delivers_arrivals (h : g.Built b ps) {layers : NodeId → List Layer} {r : Route}
    (hFollows : r.Follows g layers) (content : Request) :
    g.Delivers layers r.node content (r.arrivals [] content) := by
  have hNodup : ∀ n, (g.wiring.successors n).Nodup := by
    rw [h.wiring]
    exact Blueprint.isProper_wiring.nodup
  have hMem : ∀ a, a ∈ r.arrivals [] content ↔
      g.IsWay r.node a.path ∧ a.content = carried layers a.path content := by
    intro a
    rw [hFollows.mem_arrivals_iff]
    constructor
    · rintro ⟨way, hWay, rfl⟩
      exact ⟨hWay, rfl⟩
    · rintro ⟨hWay, hContent⟩
      exact ⟨a.path, hWay, by rw [← hContent]; rfl⟩
  have hPaths : ∀ way, way ∈ (r.arrivals [] content).map Arrival.path ↔ g.IsWay r.node way := by
    intro way
    rw [List.mem_map]
    constructor
    · rintro ⟨a, ha, rfl⟩
      exact ((hMem a).mp ha).1
    · exact fun hWay => ⟨⟨way, carried layers way content⟩, (hMem _).mpr ⟨hWay, rfl⟩, rfl⟩
  exact ⟨hFollows.nodup_arrivals hNodup, hMem,
    length_filter_arrivals (hFollows.nodup_arrivals hNodup) hPaths⟩

/-- The component of a receiver was created with a consumer for its batches. -/
def HandedTo (b : Blueprint σ κ) (g : Graph κ) (id : ComponentId) (signal : Signal) (next : Consumer) :
    Prop :=
  ∃ type f made s, BatchType.ofSignal? signal = some type ∧
    b.factories.receivers.get? id.type = some f ∧
    (f.create id type (settingsOver f.defaults b.config.receivers id) next s).1 = .ok made ∧
    g.components.get? (.receiver id signal) = some made

theorem Built.exists_handedTo (h : g.Built b ps) {id : ComponentId} {signal : Signal}
    (hMem : .receiver id signal ∈ g.order) :
    ∃ next, g.consumer? (.receiver id signal) = some next ∧ HandedTo b g id signal next := by
  obtain ⟨i, hMakes, hComponent, -⟩ := h.made _ hMem
  cases hMakes with
  | @receiver id signal type f next made s hType hFactory hNext hCreate =>
      refine ⟨next, ?_, type, f, made, s, hType, hFactory, hCreate, hComponent⟩
      rw [consumer?, hType]
      exact hNext
  | untyped hNone hPart => cases hPart

theorem Built.exists_layers (h : g.Built b ps) (hBuild : (build b s₀).1 = .ok g)
    (hForward : g.Forwards b s₀) : ∃ layers, g.RelaysBy layers := by
  have hRelays : ∀ n, ∃ layers, n ∈ g.wiring.nodes → (BatchType.ofSignal? n.signal).isSome = true →
      n.kind? ≠ some .exporter → g.Relays n layers := by
    intro n
    by_cases hNode : n ∈ g.wiring.nodes ∧ (BatchType.ofSignal? n.signal).isSome = true ∧
      n.kind? ≠ some .exporter
    · obtain ⟨hMem, hSome, hNot⟩ := hNode
      obtain ⟨type, hType⟩ := Option.isSome_iff_exists.mp hSome
      obtain ⟨layers, hLayers⟩ :=
        h.exists_relays hBuild hForward (h.perm.mem_iff.mpr hMem) hType hNot
      exact ⟨layers, fun _ _ _ => hLayers⟩
    · exact ⟨[], fun hMem hSome hNot => absurd ⟨hMem, hSome, hNot⟩ hNode⟩
  choose layers hLayers using hRelays
  exact ⟨layers, hLayers⟩

/-- The consumer that a receiver was handed has a route. -/
theorem Built.exists_handedTo_route (h : g.Built b ps) {layers : NodeId → List Layer}
    (hRelays : g.RelaysBy layers) {id : ComponentId} {signal : Signal}
    (hMem : .receiver id signal ∈ g.order) :
    ∃ (next : Consumer) (route : Route), HandedTo b g id signal next ∧ route.Follows g layers ∧
      route.node = .receiver id signal ∧ route.erase = next := by
  obtain ⟨next, hConsumer, hHanded⟩ := h.exists_handedTo hMem
  have hSome : (BatchType.ofSignal? (NodeId.receiver id signal).signal).isSome = true := by
    obtain ⟨type, -, -, -, hType, -⟩ := hHanded
    exact Option.isSome_iff_exists.mpr ⟨type, hType⟩
  obtain ⟨route, hFollows, hRoot⟩ := h.exists_route hRelays _ hMem hSome
  exact ⟨next, route, hHanded, hFollows, hRoot,
    Option.some.inj (hFollows.consumer?.symm.trans (hRoot ▸ hConsumer))⟩

/-- Where the processors and connectors of a graph forward, a batch that is handed to the consumer of a
receiver comes to every node as often as ways lead there from the receiver, changed by the nodes on each
way. So it is whatever the ends of the pipelines answer and do to what they get, and those who hold other
handles see no change. -/
theorem delivers_on_every_way (hBuild : (build b s₀).1 = .ok g) (hForward : g.Forwards b s₀) :
    ∃ layers, g.RelaysBy layers ∧
      ∀ id signal, .receiver id signal ∈ g.wiring.nodes →
        ∃ (next : Consumer) (route : Route), HandedTo b g id signal next ∧ route.Follows g layers ∧
          route.node = .receiver id signal ∧ route.erase = next ∧
          ∀ {τ : Type} {outlets : Outlets τ} {held : τ → List Nat}, outlets.Custody held →
            ∀ {batch h s refs}, h.Covers (batch.ref :: (refs ++ held s)) →
              ∃ log, route.consume outlets [] batch h (s, []) =
                  ((next.consume outlets batch h s).1, (next.consume outlets batch h s).2.1,
                    (next.consume outlets batch h s).2.2, log) ∧
                g.Delivers layers (.receiver id signal) (h.read batch) log ∧
                Settles held refs h (next.consume outlets batch h s) := by
  obtain ⟨ps, hBuilt⟩ := built_of_build hBuild
  obtain ⟨layers, hLayers⟩ := hBuilt.exists_layers hBuild hForward
  refine ⟨layers, hLayers, fun id signal hNode => ?_⟩
  obtain ⟨next, route, hHanded, hFollows, hRoot, hErase⟩ :=
    hBuilt.exists_handedTo_route hLayers (hBuilt.perm.mem_iff.mpr hNode)
  refine ⟨next, route, hHanded, hFollows, hRoot, hErase, fun hCustody batch h s refs hCovers => ?_⟩
  refine ⟨route.arrivals [] (h.read batch), ?recorded, ?delivered, ?settled⟩
  case recorded =>
    rw [Route.records hCustody route [] batch h s [] refs hCovers, hErase, List.nil_append]
  case delivered =>
    rw [← hRoot]
    exact hBuilt.delivers_arrivals hFollows _
  case settled => exact next.settles_consume hCustody hCovers

/-- A batch comes to one exporter on two ways, whether the exporters are sinks, one of which refuses it and
one of which changes it, or those that the agent has. -/
theorem delivers_on_every_way_detour :
    let sinks : Sinks := [⟨some .cancelled, false, []⟩, ⟨none, true, []⟩]
    let (batch, h) := Heap.empty.new (.blank .traces)
    ∃ g x, build Agent.Detour.blueprint (.empty none) = (.ok g, x) ∧
      g.Forwards Agent.Detour.blueprint (.empty none) ∧
      .receiver Agent.Detour.source .traces ∈ g.wiring.nodes ∧
      Sinks.outlets.Custody Sinks.held ∧ h.Covers (batch.ref :: ([] ++ Sinks.held sinks)) ∧
      Agent.outlets.Custody Agent.Installation.held ∧ h.Covers (batch.ref :: ([] ++ x.held)) ∧
      ∃ (layers : NodeId → List Layer) (route : Route) (log log' : List Arrival),
        (route.consume Sinks.outlets [] batch h (sinks, [])).2.2.2 = log ∧
        g.Delivers layers (.receiver Agent.Detour.source .traces) (.blank .traces) log ∧
        (route.consume Agent.outlets [] batch h (x, [])).2.2.2 = log' ∧
        g.Delivers layers (.receiver Agent.Detour.source .traces) (.blank .traces) log' ∧
        ⟨Agent.Detour.direct, carried layers Agent.Detour.direct (.blank .traces)⟩ ∈ log' ∧
        ⟨Agent.Detour.round, carried layers Agent.Detour.round (.blank .traces)⟩ ∈ log' := by
  intro sinks
  have hSinks : (Heap.empty.new (.blank .traces)).2.Covers
      ((Heap.empty.new (.blank .traces)).1.ref :: ([] ++ Sinks.held sinks)) :=
    Heap.Covers.new (fun k => Nat.zero_le _) _
  obtain ⟨g, x, hAll, hHeld, hHandsOn, hReceiver, hDirect, hRound⟩ :
      ∃ g x, build Agent.Detour.blueprint (.empty none) = (.ok g, x) ∧ x.held = [] ∧
        (∀ n ∈ g.wiring.nodes, Agent.HandsOn n) ∧
        .receiver Agent.Detour.source .traces ∈ g.wiring.nodes ∧
        Agent.Detour.direct.IsChain g.wiring.Edge ∧ Agent.Detour.round.IsChain g.wiring.Edge :=
    ⟨_, _, rfl, rfl, by decide +kernel, by decide +kernel, by decide +kernel, by decide +kernel⟩
  have hBuild : (build Agent.Detour.blueprint (.empty none)).1 = .ok g := congrArg Prod.fst hAll
  have hForward := Agent.forwards_of_handsOn hBuild hHandsOn
  have hCovers : (Heap.empty.new (.blank .traces)).2.Covers
      ((Heap.empty.new (.blank .traces)).1.ref :: ([] ++ x.held)) := by
    rw [hHeld]
    exact hSinks
  obtain ⟨layers, -, hDelivers⟩ := delivers_on_every_way hBuild hForward
  obtain ⟨next, route, -, -, -, -, hRun⟩ := hDelivers _ _ hReceiver
  obtain ⟨log, hLog, hArrivals, -⟩ := hRun Sinks.custody hSinks
  obtain ⟨log', hLog', hArrivals', -⟩ := hRun Agent.custody hCovers
  refine ⟨g, x, hAll, hForward, hReceiver, Sinks.custody, hSinks, Agent.custody, hCovers, layers, route,
    log, log', congrArg (fun r => r.2.2.2) hLog, hArrivals, congrArg (fun r => r.2.2.2) hLog', hArrivals',
    (hArrivals'.mem_iff _).mpr ⟨⟨rfl, hDirect⟩, rfl⟩, (hArrivals'.mem_iff _).mpr ⟨⟨rfl, hRound⟩, rfl⟩⟩

end Graph

end Telemetry

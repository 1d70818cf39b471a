import Telemetry.Proofs.Agent.AttributeEdits
import Telemetry.Proofs.Flow.Layers
import Telemetry.Proofs.Pipeline.Instantiation

/-!
# Graphs that forward

What a build made of the processors and connectors of a configuration may hand every batch on to the
consumer that their constructors were handed. That consumer leads to all that follows the node in the
graph, also when the build is over.
-/

namespace Telemetry

namespace Graph

variable {σ κ : Type} {b : Blueprint σ κ} {ps : Pipelines} {g g' : Graph κ} {n : NodeId}
  {nodes rest : List NodeId} {s s' : σ} {type : BatchType} {c next : Consumer} {v : Visit σ κ}
  {before after : List (Visit σ κ)}

/-- The processors and connectors that a build made forward what they get to the consumer that they were
made with. -/
def Forwards (b : Blueprint σ κ) (s : σ) (g : Graph κ) : Prop :=
  ∀ v ∈ visits b s, v.node.kind? = some .processor ∨ v.node.kind? = some .connector →
    ∀ call ∈ v.creations b, ∀ {type next c}, call.next = some next →
      g.consumers.get? v.node = some (type, c) → c.Forwards next

/-! ## What was handed to a constructor -/

theorem makeAll_append (h : makeAll b nodes g s = (.ok g', s')) :
    makeAll b (nodes ++ rest) g s = makeAll b rest g' s' := by
  induction nodes generalizing g s with
  | nil =>
      cases h
      rfl
  | cons n nodes ih =>
      rw [makeAll] at h
      rw [List.cons_append, makeAll]
      rcases hMake : g.make b n s with ⟨e | i, s₁⟩
      · rw [hMake] at h
        cases h
      · rw [hMake] at h
        exact ih h

/-- What a build does from a node on changes nothing that it made before. -/
theorem Visit.extends_of_build (hValid : b.validate = .ok ps) (hBuild : (build b s).1 = .ok g)
    (h : visits b s = before ++ v :: after) :
    ∃ later, v.graph.Extends later g ∧ ∀ w ∈ before, w.node ∉ later := by
  obtain ⟨g₀, hPlan⟩ := exists_plan_of_build hValid hBuild
  obtain ⟨-, hTopological, -⟩ := plan_eq_ok hPlan
  rw [build_of_plan hValid hPlan] at hBuild
  rw [visits_of_plan hValid hPlan] at h
  obtain ⟨⟨later, hNodes⟩, hAll, -⟩ := visitsOf_split h
  have hNodup := List.nodup_reverse.mpr hTopological.nodup
  rw [hNodes] at hBuild hNodup
  rw [makeAll_append hAll] at hBuild
  refine ⟨v.node :: later, extends_of_makeAll hBuild, fun w hw => ?_⟩
  exact List.disjoint_left.mp (List.disjoint_of_nodup_append hNodup) (List.mem_map_of_mem hw)

/-- A node leads to the same consumer when it is made and when the build is over. -/
theorem Visit.feed?_eq (hValid : b.validate = .ok ps) (hBuild : (build b s).1 = .ok g)
    (hMem : v ∈ visits b s) (type : BatchType) : v.graph.feed? type v.node = g.feed? type v.node := by
  obtain ⟨before, after, hSplit⟩ := List.append_of_mem hMem
  obtain ⟨later, hExtends, hApart⟩ := Visit.extends_of_build hValid hBuild hSplit
  obtain ⟨hWiring, -⟩ := Visit.wiring_eq hValid hSplit
  rw [feed?, feed?, nextConsumers_congr hExtends.wiring fun m hm => ?_]
  -- What the node leads to was made before it, and what is made later are other nodes.
  obtain ⟨w, hw, rfl⟩ := List.mem_map.mp ((Visit.ready hValid hSplit).earlier m (hWiring ▸ hm))
  exact hExtends.consumers _ (hApart w hw)

/-- In a graph that forwards, a processor or connector forwards to what it leads to. -/
theorem Built.forwards (h : g.Built b ps) (hBuild : (build b s).1 = .ok g) (hForward : g.Forwards b s)
    (hMem : n ∈ g.order) (hKind : n.kind? = some .processor ∨ n.kind? = some .connector)
    (hType : BatchType.ofSignal? n.output = some type) (hNext : g.feed? type n = some next)
    {taken : BatchType} (hConsumer : g.consumers.get? n = some (taken, c)) : c.Forwards next := by
  have hNode : n ∈ (visits b s).map Visit.node := by
    rw [(map_node_visits h.valid hBuild).mem_iff, ← h.wiring]
    exact h.perm.mem_iff.mp hMem
  obtain ⟨v, hVisit, rfl⟩ := List.mem_map.mp hNode
  have hPart : v.node.componentId?.isSome = true := by
    cases hNode : v.node <;> simp [hNode, NodeId.kind?, NodeId.componentId?] at hKind ⊢
  obtain ⟨call, hCall, hFits⟩ := (Visit.creates_of_build h.valid hBuild hVisit).once hPart
  refine hForward v hVisit hKind call (by simp [hCall]) ?_ hConsumer
  rw [hFits.next, hType, Option.bind_some, Visit.feed?_eq h.valid hBuild hVisit, hNext]

/-! ## Factories that forward -/

/-- A graph forwards if the factories make, for its processors and connectors, consumers that do. -/
theorem forwards_of_factories (hBuild : (build b s).1 = .ok g)
    (hProcessors : ∀ {pipeline id f type next s made}, .processor pipeline id ∈ g.wiring.nodes →
      b.factories.processors.get? id.type = some f →
      (f.create id type (settingsOver f.defaults b.config.processors id) next s).1 = .ok made →
      made.consumer.Forwards next)
    (hConnectors : ∀ {id source target f type targetType next s made},
      .connector id source target ∈ g.wiring.nodes →
      b.factories.connectors.get? id.type = some f →
      (f.create id type targetType (settingsOver f.defaults b.config.connectors id) next s).1 =
        .ok made → made.consumer.Forwards next) : g.Forwards b s := by
  obtain ⟨ps, hBuilt⟩ := built_of_build hBuild
  intro v hVisit hKind call hCall type next c hNext hConsumer
  have hNode : v.node ∈ g.wiring.nodes := by
    rw [hBuilt.wiring, ← (map_node_visits hBuilt.valid hBuild).mem_iff]
    exact List.mem_map_of_mem hVisit
  obtain ⟨i, hMake, -, hMade⟩ := (Visit.creates_of_build hBuilt.valid hBuild hVisit).made
  rw [v.creations_eq, Option.mem_toList] at hCall
  rw [hMade] at hConsumer
  obtain ⟨n, graph, s'⟩ := v
  cases makes_of_make hMake with
  | processor hType hFactory hHead hCreate =>
      obtain rfl := by simpa [creation?, NodeId.signal, hType, hFactory, hHead] using hCall
      cases hNext
      cases hConsumer
      exact hProcessors hNode hFactory hCreate
  | connector hType hTarget hFactory hFeed hCreate =>
      obtain rfl := by simpa [creation?, NodeId.signal, hType, hTarget, hFactory, hFeed] using hCall
      cases hNext
      cases hConsumer
      exact hConnectors hNode hFactory hCreate
  | untyped hType hPart => cases n <;> simp [NodeId.kind?, NodeId.componentId?] at hKind hPart
  | _ => simp [NodeId.kind?] at hKind

end Graph

/-! ## Agents that forward -/

namespace Agent

variable {id : ComponentId} {type target : BatchType} {v : Json} {next : Consumer}
  {made : Inlet Component} {x : Installation} {c : ServiceConfig} {g : Graph Component}

theorem forwards_of_resourceProcessors
    (h : (resourceProcessors.create id type v next x).1 = .ok made) : made.consumer.Forwards next := by
  obtain ⟨-, edits, -, -, hConsumer⟩ := resourceProcessors_create_eq_ok h
  exact ⟨[.edit (Request.editResources edits)], hConsumer⟩

theorem forwards_of_forwardConnectors
    (h : (forwardConnectors.create id type target v next x).1 = .ok made) :
    made.consumer.Forwards next := by
  by_cases hSame : type = target
  · simp only [forwardConnectors, if_pos hSame] at h
    cases h
    exact ⟨[.pass false], rfl⟩
  · simp only [forwardConnectors, if_neg hSame] at h
    cases h

/-- Processors that edit resources and connectors that pass batches on. Others hold batches back, or make
others of them. -/
def HandsOn : NodeId → Prop
  | .processor _ id => id.type.text = "resource"
  | .connector id _ _ => id.type.text = "forward"
  | _ => True

instance : DecidablePred HandsOn
  | .processor .. | .connector .. => inferInstanceAs (Decidable (_ = _))
  | .receiver .. | .exporter .. | .capabilities _ | .fanOut _ => .isTrue trivial

theorem isTypeName_resource : isTypeName "resource".toList = true := by decide

theorem isTypeName_forward : isTypeName "forward".toList = true := by decide

/-- A graph of an agent forwards if all its processors and connectors are such. -/
theorem forwards_of_handsOn (hBuild : (Graph.build ⟨c, factories⟩ x).1 = .ok g)
    (hNodes : ∀ n ∈ g.wiring.nodes, HandsOn n) : g.Forwards ⟨c, factories⟩ x := by
  refine Graph.forwards_of_factories hBuild ?processors ?connectors
  case processors =>
    intro pipeline id f type next s made hNode hFactory hCreate
    obtain ⟨⟨text, hText⟩, name⟩ := id
    obtain rfl : text = "resource" := hNodes _ hNode
    -- With a proof that the text is a name of a type in it, the registry can be computed.
    change factories.processors.get? ⟨"resource", isTypeName_resource⟩ = some f at hFactory
    cases hFactory
    exact forwards_of_resourceProcessors hCreate
  case connectors =>
    intro id source target f type targetType next s made hNode hFactory hCreate
    obtain ⟨⟨text, hText⟩, name⟩ := id
    obtain rfl : text = "forward" := hNodes _ hNode
    change factories.connectors.get? ⟨"forward", isTypeName_forward⟩ = some f at hFactory
    cases hFactory
    exact forwards_of_forwardConnectors hCreate

namespace Detour

theorem isTypeName_otlp : isTypeName "otlp".toList = true := by decide

theorem isTypeName_debug : isTypeName "debug".toList = true := by decide

theorem isIdName_detour : isIdName "detour".toList = true := by decide

def source : ComponentId := ⟨⟨"otlp", isTypeName_otlp⟩, none⟩
def editor : ComponentId := ⟨⟨"resource", isTypeName_resource⟩, none⟩
def marker : ComponentId := ⟨⟨"resource", isTypeName_resource⟩, some ⟨"detour", isIdName_detour⟩⟩
def bridge : ComponentId := ⟨⟨"forward", isTypeName_forward⟩, none⟩
def near : ComponentId := ⟨⟨"debug", isTypeName_debug⟩, some ⟨"near", by decide⟩⟩
def far : ComponentId := ⟨⟨"debug", isTypeName_debug⟩, some ⟨"far", by decide⟩⟩

/-- The settings of a processor that sets an attribute. -/
def setting (key : String) : Json :=
  .object [("attributes", .array [.object
    [("action", .string "upsert"), ("key", .string key), ("value", .bool true)]])]

/-- An agent whose batches come to one exporter directly and once more through a second pipeline, which
leads to another exporter as well. -/
def blueprint : Blueprint Installation Component :=
  ⟨{ ServiceConfig.empty with
      receivers := [(source, .null)]
      processors := [(editor, setting "seen"), (marker, setting "detour")]
      exporters := [(near, .null), (far, .null)]
      connectors := [(bridge, .null)]
      service := ⟨[], [("traces", ⟨[source], [editor], [near, bridge]⟩),
        ("traces/detour", ⟨[bridge], [marker], [near, far]⟩)]⟩ }, factories⟩

/-- The way on which a batch comes to the first exporter directly. -/
def direct : List NodeId :=
  let pipeline : PipelineId := ⟨.traces, none⟩
  [.receiver source .traces, .capabilities pipeline, .processor pipeline editor, .fanOut pipeline,
    .exporter near .traces]

/-- The way on which it comes there through the second pipeline. -/
def round : List NodeId :=
  let pipeline : PipelineId := ⟨.traces, some ⟨"detour", isIdName_detour⟩⟩
  direct.dropLast ++ [.connector bridge .traces .traces, .capabilities pipeline,
    .processor pipeline marker, .fanOut pipeline, .exporter near .traces]

end Detour

end Agent

end Telemetry

import Telemetry.Proofs.Pipeline.Instantiation

/-!
# Pipelines of profiles

There are no batches of profiles. The head and the tail of a pipeline of profiles need none and are passed
without being made; but such a pipeline leads to an exporter or into a connector, which is come to before
and cannot be made, whatever its factory says that it supports.
-/

namespace Telemetry

theorem BatchType.ofSignal?_eq_none_iff {signal : Signal} : ofSignal? signal = none ↔ signal = .profiles := by
  cases signal <;> simp [ofSignal?]

namespace Blueprint

variable {σ κ : Type} {b : Blueprint σ κ} {ps : Pipelines} {n : NodeId}

/-- A node has the signal of some pipeline. -/
theorem HasNode.exists_pipeline (h : b.HasNode ps n) : ∃ e ∈ ps, e.1.signal = n.signal := by
  cases h with
  | head hMem | tail hMem | processor hMem | receiver hMem | exporter hMem => exact ⟨_, hMem, rfl⟩
  | connector hFeeds =>
      obtain ⟨p, hMem, -⟩ := hFeeds.exports
      exact ⟨_, hMem, rfl⟩

end Blueprint

namespace Graph

variable {σ κ : Type} {b : Blueprint σ κ} {ps : Pipelines} {g : Graph κ} {n : NodeId}
  {i : Instance κ} {s : σ} {v : Visit σ κ}

/-- What stands for a component can be made only if there are batches of its signal. -/
theorem Makes.signal_ne_profiles (h : g.Makes b n i) (hPart : n.componentId?.isSome = true) :
    n.signal ≠ .profiles := by
  rw [Ne, ← BatchType.ofSignal?_eq_none_iff]
  cases h with
  | exporter hType | processor hType | receiver hType | connector hType =>
      exact Option.ne_none_iff_exists'.mpr ⟨_, hType⟩
  | fanOut | capabilities => cases hPart
  | untyped hType hNone => simp [hNone] at hPart

theorem Built.signal_ne_profiles (h : g.Built b ps) : ∀ e ∈ ps, e.1.signal ≠ .profiles := by
  rintro ⟨pipeline, p⟩ hMem hSignal
  -- The head and the tail can be passed over, but what the tail leads to has to be made.
  obtain ⟨m, hEdge, hEnd⟩ := Blueprint.exists_edge_tail h.valid hMem
  have hNode : m ∈ g.order := by
    rw [h.perm.mem_iff, h.wiring, Blueprint.mem_nodes_wiring_iff]
    exact hEdge.ends.2
  obtain ⟨i, hMakes, -⟩ := h.made m hNode
  obtain ⟨id, rfl⟩ | ⟨id, t, rfl⟩ := hEnd <;> exact hMakes.signal_ne_profiles rfl hSignal

theorem Visit.creations_of_profiles (hSignal : v.node.signal = .profiles) : v.creations b = [] := by
  have hType := BatchType.ofSignal?_eq_none_iff.mpr hSignal
  simp [v.creations_eq, creation?, hType]

end Graph

namespace Relay

/-- Profiles that a connector hands on as logs. -/
def profiled : Blueprint Nat Nat where
  config := { config with
    service := ⟨[], [("profiles", ⟨[source], [stamp], [relay]⟩), ("logs", ⟨[relay], [], [store]⟩)]⟩ }
  factories := looped.factories

end Relay

namespace Graph

variable {σ κ : Type}

/-- Nothing is built from a configuration with a pipeline of profiles, whatever its factories support. A
build that succeeds comes to no node of that signal; and no constructor is called for such a node in any
build. -/
theorem profiles_never_build (b : Blueprint σ κ) (s : σ) :
    (∀ e ∈ b.config.service.pipelines, ∀ id, PipelineId.parse e.1 = .ok id → id.signal = .profiles →
      ∃ error, (build b s).1 = .error error) ∧
    (∀ g, (build b s).1 = .ok g → ∀ v ∈ visits b s, v.node.signal ≠ .profiles) ∧
    (∀ v ∈ visits b s, v.node.signal = .profiles → v.creations b = []) ∧
    build b.noting (s, []) =
      ((build b s).1, (build b s).2, (visits b s).flatMap (Visit.creations b)) := by
  refine ⟨?refused, ?passed, fun _ _ => Visit.creations_of_profiles, build_noting b s⟩
  case refused =>
    intro e hEntry id hParse hSignal
    cases hBuild : (build b s).1 with
    | error error => exact ⟨error, rfl⟩
    | ok g =>
        obtain ⟨ps, hBuilt⟩ := built_of_build hBuild
        obtain ⟨p, hMem⟩ := Pipelines.exists_mem_of_parse hBuilt.ofConfig hEntry hParse
        exact absurd hSignal (hBuilt.signal_ne_profiles _ hMem)
  case passed =>
    intro g hBuild v hMem hSignal
    obtain ⟨ps, hBuilt⟩ := built_of_build hBuild
    obtain ⟨before, after, hSplit⟩ := List.append_of_mem hMem
    obtain ⟨e, hPipeline, hSame⟩ := (Visit.wiring_eq hBuilt.valid hSplit).2.exists_pipeline
    exact hBuilt.signal_ne_profiles e hPipeline (hSame.trans hSignal)

theorem profiles_never_build_profiled :
    (∃ ps, Relay.profiled.validate = .ok ps) ∧
      Relay.profiled.factories.connects Relay.relay .profiles .logs = true ∧
      (∃ error, (build Relay.profiled 0).1 = .error error) ∧
      ∃ v ∈ visits Relay.profiled 0, v.node = .connector Relay.relay .profiles .logs ∧
        v.creations Relay.profiled = [] := by
  obtain ⟨hRefused, -, hUncalled, -⟩ := profiles_never_build Relay.profiled 0
  have hConnector : NodeId.connector Relay.relay .profiles .logs ∈
      (visits Relay.profiled 0).map Visit.node := by decide +kernel
  obtain ⟨v, hMem, hNode⟩ := List.mem_map.mp hConnector
  exact ⟨⟨_, rfl⟩, rfl, hRefused _ List.mem_cons_self ⟨.profiles, none⟩ rfl rfl, v, hMem, hNode,
    hUncalled v hMem (by rw [hNode]; rfl)⟩

end Graph

end Telemetry

import Mathlib.Data.List.Dedup
import Telemetry.Proofs.Pipeline.Building

/-!
# What is built from each entry

Keys with blanks around their parts are read as one id. The table of pipelines then has the last of their
entries, and the others are neither checked nor built. A graph has a head for every entry just if no two
keys are read as one id.
-/

namespace Telemetry

/-- Whether a node is the head of a pipeline. -/
def NodeId.isHead : NodeId → Bool
  | .capabilities _ => true
  | _ => false

namespace NodeId

variable {n : NodeId}

theorem isHead_iff : n.isHead = true ↔ ∃ id, n = .capabilities id := by
  cases n <;> simp [isHead]

end NodeId

namespace Blueprint

variable {σ κ : Type} {b : Blueprint σ κ} {ps : Pipelines} {id : PipelineId} {p : PipelineConfig}
  {a : ComponentId}

theorem checkUses_eq_ok_iff {joins : Signal → Signal → Bool} {usedAs missingAs : Kind}
    {users counterparts : Pipelines} :
    checkUses joins a usedAs missingAs users counterparts = .ok () ↔
      ∀ u ∈ users, ∃ e ∈ counterparts, joins u.1.signal e.1.signal = true := by
  rw [checkUses, forM_eq_ok_iff]
  refine forall₂_congr fun ⟨user, _⟩ _ => ?_
  dsimp only
  split
  · rename_i hAny
    exact iff_of_true rfl (List.any_eq_true.mp hAny)
  · rename_i hNone
    exact iff_of_false nofun fun hAny => hNone (List.any_eq_true.mpr hAny)

theorem isReferenced_of_mem (hValid : b.validate = .ok ps) (hMem : (id, p) ∈ ps)
    (hUse : a ∈ p.receivers ∨ a ∈ p.exporters) : b.config.isReferenced a = true := by
  obtain ⟨key, hKey, -⟩ := Pipelines.declares_of_mem (validate_eq_ok_iff.mp hValid).1 hMem
  refine List.any_eq_true.mpr ⟨(key, p), hKey, ?_⟩
  rcases hUse with hUse | hUse <;> simp [hUse]

/-- A connector that a pipeline lists joins the pipelines of every use with those of another. -/
theorem uses_of_validate (hValid : b.validate = .ok ps) (hMem : (id, p) ∈ ps)
    (hUse : a ∈ p.receivers ∨ a ∈ p.exporters) (hConnector : b.isConnector a = true) :
    (∀ u ∈ ps.exportingTo a, ∃ e ∈ ps.receivingFrom a,
      b.factories.connects a u.1.signal e.1.signal = true) ∧
    ∀ u ∈ ps.receivingFrom a, ∃ e ∈ ps.exportingTo a,
      b.factories.connects a e.1.signal u.1.signal = true := by
  obtain ⟨e, hEntry, rfl⟩ := List.mem_map.mp (Table.contains_iff.mp hConnector)
  have hCheck := (validate_eq_ok_iff.mp hValid).2.2 e hEntry
  rw [checkConnector] at hCheck
  split at hCheck
  · rw [isReferenced_of_mem hValid hMem hUse] at hCheck
    cases hCheck
  · obtain ⟨⟨⟩, hSources, hTargets⟩ := bind_eq_ok_iff.mp hCheck
    exact ⟨checkUses_eq_ok_iff.mp hSources, checkUses_eq_ok_iff.mp hTargets⟩

theorem exists_feeds_into (hValid : b.validate = .ok ps) (hMem : (id, p) ∈ ps) (hUse : a ∈ p.receivers)
    (hConnector : b.isConnector a = true) : ∃ source, b.Feeds ps a source id := by
  obtain ⟨-, hTargets⟩ := uses_of_validate hValid hMem (.inl hUse) hConnector
  obtain ⟨e, hSource, hJoins⟩ := hTargets (id, p) (List.mem_filter.mpr ⟨hMem, by simpa using hUse⟩)
  obtain ⟨hSource, hExports⟩ := List.mem_filter.mp hSource
  exact ⟨e.1, hConnector, ⟨e.2, hSource, by simpa using hExports⟩, ⟨p, hMem, hUse⟩, hJoins⟩

theorem exists_feeds_from (hValid : b.validate = .ok ps) (hMem : (id, p) ∈ ps) (hUse : a ∈ p.exporters)
    (hConnector : b.isConnector a = true) : ∃ target, b.Feeds ps a id target := by
  obtain ⟨hSources, -⟩ := uses_of_validate hValid hMem (.inr hUse) hConnector
  obtain ⟨e, hTarget, hJoins⟩ := hSources (id, p) (List.mem_filter.mpr ⟨hMem, by simpa using hUse⟩)
  obtain ⟨hTarget, hReceives⟩ := List.mem_filter.mp hTarget
  exact ⟨e.1, hConnector, ⟨p, hMem, hUse⟩, ⟨e.2, hTarget, by simpa using hReceives⟩, hJoins⟩

end Blueprint

namespace Graph

variable {σ κ : Type} {b : Blueprint σ κ} {ps : Pipelines} {g : Graph κ} {id : PipelineId}
  {p : PipelineConfig} {n : NodeId} {s : σ}

/-- The heads of the pipelines. -/
def heads (g : Graph κ) : List NodeId := g.wiring.nodes.filter NodeId.isHead

/-- A pipeline is wired: each component that it lists is there, those it receives from lead to its head,
its tail leads to those it exports to, and its processors stand in a row between the two. -/
structure Wired (g : Graph κ) (id : PipelineId) (p : PipelineConfig) : Prop where
  receivers : ∀ a ∈ p.receivers, ∃ n, n.componentId? = some a ∧ (g.components.get? n).isSome = true ∧
    g.wiring.Edge n (.capabilities id)
  processors : ∀ a ∈ p.processors, (g.components.get? (.processor id a)).isSome = true
  row : ∀ m n, [m, n] <:+: Blueprint.stations id p.processors → g.wiring.Edge m n
  exporters : ∀ a ∈ p.exporters, ∃ n, n.componentId? = some a ∧ (g.components.get? n).isSome = true ∧
    g.wiring.Edge (.fanOut id) n

/-- Every entry of a configuration has a head of its own, and is checked and wired. -/
structure Complete (b : Blueprint σ κ) (g : Graph κ) : Prop where
  heads : g.heads.length = b.config.service.pipelines.length
  entries : ∀ e ∈ b.config.service.pipelines, ∃ id, PipelineId.parse e.1 = .ok id ∧
    .capabilities id ∈ g.heads ∧ b.checkPipeline id e.2 = .ok () ∧ g.Wired id e.2

namespace Built

theorem edge_iff (h : g.Built b ps) {m : NodeId} : g.wiring.Edge m n ↔ b.HasEdge ps m n := by
  rw [h.wiring, Blueprint.edge_wiring_iff]

theorem isSome_of_hasNode (h : g.Built b ps) (hNode : b.HasNode ps n) {a : ComponentId}
    (hPart : n.componentId? = some a) : (g.components.get? n).isSome = true := by
  rw [h.isSome_components, h.wiring, Blueprint.mem_nodes_wiring_iff, hPart]
  exact ⟨hNode, rfl⟩

theorem wired_of_mem (h : g.Built b ps) (hMem : (id, p) ∈ ps) : g.Wired id p where
  receivers a hUse := by
    cases hConnector : b.isConnector a with
    | false =>
        have hEdge : b.HasEdge ps _ _ := .receiver hMem hUse hConnector
        exact ⟨_, rfl, h.isSome_of_hasNode hEdge.ends.1 rfl, h.edge_iff.mpr hEdge⟩
    | true =>
        obtain ⟨source, hFeeds⟩ := Blueprint.exists_feeds_into h.valid hMem hUse hConnector
        have hEdge : b.HasEdge ps _ _ := .fromConnector hFeeds
        exact ⟨_, rfl, h.isSome_of_hasNode hEdge.ends.1 rfl, h.edge_iff.mpr hEdge⟩
  processors a hUse := h.isSome_of_hasNode (.processor hMem hUse) rfl
  row m n hNext := h.edge_iff.mpr (.chain hMem hNext)
  exporters a hUse := by
    cases hConnector : b.isConnector a with
    | false =>
        have hEdge : b.HasEdge ps _ _ := .exporter hMem hUse hConnector
        exact ⟨_, rfl, h.isSome_of_hasNode hEdge.ends.2 rfl, h.edge_iff.mpr hEdge⟩
    | true =>
        obtain ⟨target, hFeeds⟩ := Blueprint.exists_feeds_from h.valid hMem hUse hConnector
        have hEdge : b.HasEdge ps _ _ := .intoConnector hFeeds
        exact ⟨_, rfl, h.isSome_of_hasNode hEdge.ends.2 rfl, h.edge_iff.mpr hEdge⟩

theorem checked_of_mem (h : g.Built b ps) (hMem : (id, p) ∈ ps) : b.checkPipeline id p = .ok () :=
  (Blueprint.validate_eq_ok_iff.mp h.valid).2.1 _ hMem

theorem ofConfig (h : g.Built b ps) : Pipelines.ofConfig b.config = .ok ps :=
  (Blueprint.validate_eq_ok_iff.mp h.valid).1

/-! ## The heads -/

theorem nodup_heads (h : g.Built b ps) : g.heads.Nodup := by
  rw [heads, h.wiring]
  exact Blueprint.isProper_wiring.ascending.nodup_keys.filter _

theorem mem_heads_iff (h : g.Built b ps) : n ∈ g.heads ↔ ∃ id p, (id, p) ∈ ps ∧ n = .capabilities id := by
  rw [heads, List.mem_filter, h.wiring, Blueprint.mem_nodes_wiring_iff, NodeId.isHead_iff]
  constructor
  · rintro ⟨hNode, id, rfl⟩
    cases hNode with
    | head hMem => exact ⟨id, _, hMem, rfl⟩
  · rintro ⟨id, p, hMem, rfl⟩
    exact ⟨.head hMem, id, rfl⟩

theorem mem_heads_iff_parse (h : g.Built b ps) : n ∈ g.heads ↔
    ∃ e ∈ b.config.service.pipelines, ∃ id, PipelineId.parse e.1 = .ok id ∧ n = .capabilities id := by
  rw [h.mem_heads_iff]
  constructor
  · rintro ⟨id, p, hMem, rfl⟩
    obtain ⟨key, hKey, hParse⟩ := Pipelines.declares_of_mem h.ofConfig hMem
    exact ⟨_, hKey, id, hParse, rfl⟩
  · rintro ⟨e, hEntry, id, hParse, rfl⟩
    obtain ⟨p, hMem⟩ := Pipelines.exists_mem_of_parse h.ofConfig hEntry hParse
    exact ⟨id, p, hMem, rfl⟩

theorem mem_keys_iff_parse (h : g.Built b ps) :
    id ∈ ps.keys ↔ .ok id ∈ b.config.service.pipelines.map fun e => PipelineId.parse e.1 := by
  rw [Table.keys, List.mem_map, List.mem_map]
  constructor
  · rintro ⟨⟨id, p⟩, hMem, rfl⟩
    obtain ⟨key, hKey, hParse⟩ := Pipelines.declares_of_mem h.ofConfig hMem
    exact ⟨_, hKey, hParse⟩
  · rintro ⟨e, hEntry, hParse⟩
    obtain ⟨p, hMem⟩ := Pipelines.exists_mem_of_parse h.ofConfig hEntry hParse
    exact ⟨_, hMem, rfl⟩

/-- There are as many heads as there are ids that keys are read as. -/
theorem length_heads (h : g.Built b ps) : g.heads.length =
    (b.config.service.pipelines.map fun e => PipelineId.parse e.1).dedup.length := by
  have hKeys := (Pipelines.ascending_of_ofConfig h.ofConfig).nodup_keys
  have hHeads : g.heads.Perm (ps.keys.map .capabilities) := by
    refine (List.perm_ext_iff_of_nodup h.nodup_heads
      (hKeys.map fun _ _ => NodeId.capabilities.inj)).mpr fun n => ?_
    rw [h.mem_heads_iff, Table.keys]
    simp [eq_comm]
  have hIds : (b.config.service.pipelines.map fun e => PipelineId.parse e.1).dedup.Perm
      (ps.keys.map .ok) := by
    refine (List.perm_ext_iff_of_nodup (List.nodup_dedup _)
      (hKeys.map fun _ _ => Except.ok.inj)).mpr fun r => ?_
    rw [List.mem_dedup]
    cases r with
    | error e =>
        have hNot : .error e ∉ b.config.service.pipelines.map fun e => PipelineId.parse e.1 := by
          intro hMem
          obtain ⟨entry, hEntry, hError⟩ := List.mem_map.mp hMem
          obtain ⟨id, hParse⟩ :=
            Pipelines.exists_parse_of_enter (Pipelines.enter_of_ofConfig h.ofConfig) entry hEntry
          rw [hParse] at hError
          cases hError
        simp [hNot]
    | ok id => simp [← h.mem_keys_iff_parse]
  rw [hHeads.length_eq, hIds.length_eq, List.length_map, List.length_map]

theorem complete_iff (h : g.Built b ps) : g.Complete b ↔ b.config.HasDistinctPipelines := by
  constructor
  · intro hComplete
    have hLength := h.length_heads.symm.trans hComplete.heads
    have hEntries : b.config.service.pipelines.length =
        (b.config.service.pipelines.map fun e => PipelineId.parse e.1).length := (List.length_map _).symm
    exact List.dedup_eq_self.mp ((List.dedup_sublist _).eq_of_length (hLength.trans hEntries))
  · intro hDistinct
    refine ⟨?heads, ?entries⟩
    case heads => rw [h.length_heads, List.Nodup.dedup hDistinct, List.length_map]
    case entries =>
      intro e hEntry
      obtain ⟨id, hParse⟩ :=
        Pipelines.exists_parse_of_enter (Pipelines.enter_of_ofConfig h.ofConfig) e hEntry
      have hMem : (id, e.2) ∈ ps :=
        (Pipelines.mem_iff_declares h.ofConfig hDistinct).mpr ⟨e.1, hEntry, hParse⟩
      exact ⟨id, hParse, h.mem_heads_iff.mpr ⟨id, e.2, hMem, rfl⟩, h.checked_of_mem hMem,
        h.wired_of_mem hMem⟩

end Built

/-- A graph that could be built has one head for each id that a key is read as. What is checked and wired
under an id is the last entry that is read as it, so every entry is in the graph just if no two are read as
one id. -/
theorem complete_iff_hasDistinctPipelines (hBuild : (build b s).1 = .ok g) :
    (∀ e ∈ b.config.service.pipelines, ∃ id, PipelineId.parse e.1 = .ok id) ∧
    g.heads.Nodup ∧
    (∀ n, n ∈ g.heads ↔ ∃ e ∈ b.config.service.pipelines, ∃ id,
      PipelineId.parse e.1 = .ok id ∧ n = .capabilities id) ∧
    (∀ id p, (id, p) ∈ g.pipelines ↔ b.config.last? id = some p) ∧
    (∀ id p, (id, p) ∈ g.pipelines → b.checkPipeline id p = .ok () ∧ g.Wired id p) ∧
    (g.Complete b ↔ b.config.HasDistinctPipelines) := by
  obtain ⟨ps, h⟩ := built_of_build hBuild
  rw [h.pipelines]
  refine ⟨?keys, h.nodup_heads, fun _ => h.mem_heads_iff_parse, ?last, ?wired, h.complete_iff⟩
  case keys => exact Pipelines.exists_parse_of_enter (Pipelines.enter_of_ofConfig h.ofConfig)
  case last => exact fun _ _ => Pipelines.mem_iff_last? h.ofConfig
  case wired => exact fun _ _ hMem => ⟨h.checked_of_mem hMem, h.wired_of_mem hMem⟩

theorem complete_iff_hasDistinctPipelines_relay :
    ∃ g, (build Relay.blueprint 0).1 = .ok g ∧ g.Complete Relay.blueprint := by
  obtain ⟨g, hBuild⟩ : ∃ g, (build Relay.blueprint 0).1 = .ok g := ⟨_, rfl⟩
  obtain ⟨-, -, -, -, -, hComplete⟩ := complete_iff_hasDistinctPipelines hBuild
  exact ⟨g, hBuild, hComplete.mpr Relay.hasDistinctPipelines⟩

/-! ## Two keys that are read as one id -/

/-- An id without a configured component. -/
def lost : ComponentId := { Relay.store with name := some ⟨"lost", by decide⟩ }

/-- A pipeline from the source to an exporter. -/
def logsTo (a : ComponentId) : PipelineConfig := ⟨[Relay.source], [], [a]⟩

/-- Logs go from the source to the store or to what is not configured. -/
def loggingTo (pipelines : Table String PipelineConfig) : Blueprint Nat Nat :=
  { Relay.blueprint with
    config := { Relay.blueprint.config with
      connectors := []
      service := ⟨[], pipelines⟩ } }

/-- The entry that exports to what is not configured makes the build fail when it stands alone. Before one
whose key is the same but for a blank it is left out, and the build succeeds. -/
theorem entry_left_out :
    (build (loggingTo [("logs", logsTo lost)]) 0).1 =
      .error (.notConfigured (.pipeline Relay.logs) .exporter lost) ∧
    ∃ g, (build (loggingTo [("logs", logsTo lost), ("logs ", logsTo Relay.store)]) 0).1 = .ok g ∧
      g.heads = [.capabilities Relay.logs] ∧
      ¬ g.Complete (loggingTo [("logs", logsTo lost), ("logs ", logsTo Relay.store)]) := by
  refine ⟨rfl, ?_⟩
  obtain ⟨g, hBuild, hHeads⟩ : ∃ g, (build (loggingTo [("logs", logsTo lost),
      ("logs ", logsTo Relay.store)]) 0).1 = .ok g ∧ g.heads = [.capabilities Relay.logs] :=
    ⟨_, rfl, rfl⟩
  refine ⟨g, hBuild, hHeads, fun hComplete => ?_⟩
  have hLength := hComplete.heads
  rw [hHeads] at hLength
  cases hLength

end Graph

end Telemetry

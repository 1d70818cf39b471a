import Telemetry.Proofs.Pipeline.Building

/-!
# What no pipeline lists

A graph depends on the entries that pipelines list and on no others. Two configurations that agree on what
is listed are checked alike, wired alike and built alike, apart from what the checks of connectors say about
the others; and these say nothing about a connector that no pipeline lists at all.
-/

namespace Telemetry

section Checks

variable {ε α κ : Type}

/-- Without the entries of one key the checks of a table say the same, unless it is the first of these at
which they fail. -/
theorem forM_erase [Ord κ] [Std.LawfulEqOrd κ] (f : κ → Except ε Unit) (k : κ) (t : Table κ α) :
    (t.erase k).forM (fun e => f e.1) = t.forM (fun e => f e.1) ∨
      ∃ before v after e, t = before ++ (k, v) :: after ∧ (∀ x ∈ before, f x.1 = .ok ()) ∧
        f k = .error e := by
  induction t with
  | nil => exact .inl rfl
  | cons x t ih =>
      obtain ⟨j, v⟩ := x
      by_cases hKey : k = j
      · subst hKey
        cases hCheck : f k with
        | error e => exact .inr ⟨[], v, t, e, rfl, List.forall_mem_nil _, rfl⟩
        | ok =>
            have hDrop : Table.erase k ((k, v) :: t) = Table.erase k t := by simp [Table.erase]
            have hPass : List.forM ((k, v) :: t) (fun e => f e.1) = t.forM fun e => f e.1 := by
              change (f k >>= fun _ => t.forM fun e => f e.1) = _
              rw [hCheck]
              rfl
            rw [hDrop, hPass]
            refine ih.imp_right ?_
            rintro ⟨_, _, _, e, -, -, hFail⟩
            cases hCheck.symm.trans hFail
      · rw [Table.erase_cons_of_ne hKey]
        change (f j >>= fun _ => (Table.erase k t).forM fun e => f e.1) =
          (f j >>= fun _ => t.forM fun e => f e.1) ∨ _
        cases hCheck : f j with
        | error e => exact .inl rfl
        | ok =>
            refine ih.imp id ?_
            rintro ⟨before, w, after, e, rfl, hBefore, hFail⟩
            exact ⟨(j, v) :: before, w, after, e, rfl,
              List.forall_mem_cons.mpr ⟨hCheck, hBefore⟩, hFail⟩

end Checks

/-! ## Entries and what lists them -/

/-- A pipeline lists an id in the role of a kind. Connectors stand among receivers and exporters. -/
def PipelineConfig.Lists (p : PipelineConfig) (id : ComponentId) : Kind → Prop
  | .receiver => id ∈ p.receivers
  | .processor => id ∈ p.processors
  | .exporter => id ∈ p.exporters
  | .connector => id ∈ p.receivers ∨ id ∈ p.exporters
  | .extension => False

instance (p : PipelineConfig) (id : ComponentId) : (kind : Kind) → Decidable (p.Lists id kind)
  | .receiver => inferInstanceAs (Decidable (id ∈ p.receivers))
  | .processor => inferInstanceAs (Decidable (id ∈ p.processors))
  | .exporter => inferInstanceAs (Decidable (id ∈ p.exporters))
  | .connector => inferInstanceAs (Decidable (id ∈ p.receivers ∨ id ∈ p.exporters))
  | .extension => inferInstanceAs (Decidable False)

namespace ServiceConfig

/-- The entries of a kind. -/
def table (c : ServiceConfig) : Kind → ComponentTable
  | .receiver => c.receivers
  | .processor => c.processors
  | .exporter => c.exporters
  | .connector => c.connectors
  | .extension => c.extensions

/-- Some pipeline lists an id in the role of a kind. -/
def Lists (c : ServiceConfig) (id : ComponentId) (kind : Kind) : Prop :=
  ∃ e ∈ c.service.pipelines, e.2.Lists id kind

instance (c : ServiceConfig) (id : ComponentId) (kind : Kind) : Decidable (c.Lists id kind) :=
  inferInstanceAs (Decidable (∃ e ∈ c.service.pipelines, e.2.Lists id kind))

/-- The configuration without an entry. -/
def without (c : ServiceConfig) (id : ComponentId) : Kind → ServiceConfig
  | .receiver => { c with receivers := c.receivers.erase id }
  | .processor => { c with processors := c.processors.erase id }
  | .exporter => { c with exporters := c.exporters.erase id }
  | .connector => { c with connectors := c.connectors.erase id }
  | .extension => { c with extensions := c.extensions.erase id }

variable {c : ServiceConfig} {id : ComponentId} {kind : Kind}

theorem without_service : (c.without id kind).service = c.service := by
  cases kind <;> rfl

theorem table_without_self : (c.without id kind).table kind = (c.table kind).erase id := by
  cases kind <;> rfl

theorem table_without_of_ne {k : Kind} (h : k ≠ kind) : (c.without id kind).table k = c.table k := by
  cases kind <;> cases k <;> first | rfl | exact absurd rfl h

/-- An entry that is not listed is not among those that are. -/
theorem get?_table_without {j : ComponentId} {k : Kind} (hUnlisted : ¬ c.Lists id kind)
    (hListed : c.Lists j k) : ((c.without id kind).table k).get? j = (c.table k).get? j := by
  by_cases hKind : k = kind
  · subst hKind
    have hNe : j ≠ id := fun hSame => hUnlisted (hSame ▸ hListed)
    rw [table_without_self, Table.get?_erase_of_ne hNe]
  · rw [table_without_of_ne hKind]

theorem lists_of_mem {ps : Pipelines} {pipeline : PipelineId} {p : PipelineConfig}
    (hPipelines : Pipelines.ofConfig c = .ok ps) (hMem : (pipeline, p) ∈ ps) (hId : p.Lists id kind) :
    c.Lists id kind := by
  obtain ⟨key, hEntry, -⟩ := Pipelines.declares_of_mem hPipelines hMem
  exact ⟨_, hEntry, hId⟩

end ServiceConfig

namespace Blueprint

variable {σ κ : Type} {b b' : Blueprint σ κ} {ps : Pipelines} {pipeline : PipelineId}
  {p : PipelineConfig} {id : ComponentId} {kind : Kind}

/-- The blueprint without an entry. -/
def without (b : Blueprint σ κ) (id : ComponentId) (kind : Kind) : Blueprint σ κ :=
  { b with config := b.config.without id kind }

/-! ## Blueprints that agree on what is listed -/

/-- Two blueprints have the same factories and the same pipelines, and agree on what these list. -/
structure Agrees (b b' : Blueprint σ κ) : Prop where
  factories : b'.factories = b.factories
  service : b'.config.service = b.config.service
  entries : ∀ id kind, b.config.Lists id kind →
    (b'.config.table kind).get? id = (b.config.table kind).get? id

theorem agrees_without (hUnlisted : ¬ b.config.Lists id kind) : b.Agrees (b.without id kind) where
  factories := rfl
  service := ServiceConfig.without_service
  entries _ _ hListed := ServiceConfig.get?_table_without hUnlisted hListed

namespace Agrees

theorem ofConfig_eq (h : b.Agrees b') :
    Pipelines.ofConfig b'.config = Pipelines.ofConfig b.config := by
  rw [Pipelines.ofConfig, Pipelines.ofConfig, h.service]

theorem isReferenced_eq (h : b.Agrees b') (id : ComponentId) :
    b'.config.isReferenced id = b.config.isReferenced id := by
  rw [ServiceConfig.isReferenced, ServiceConfig.isReferenced, h.service]

theorem checkConnector_eq (h : b.Agrees b') : b'.checkConnector = b.checkConnector := by
  funext ps id
  rw [checkConnector, checkConnector, h.factories, h.isReferenced_eq]

section Declared

variable (h : b.Agrees b') (hPipelines : Pipelines.ofConfig b.config = .ok ps)
  (hMem : (pipeline, p) ∈ ps)

include h hPipelines hMem

theorem get?_eq (kind : Kind) (hId : p.Lists id kind) :
    (b'.config.table kind).get? id = (b.config.table kind).get? id :=
  h.entries id kind (ServiceConfig.lists_of_mem hPipelines hMem hId)

theorem isConnector_eq (hId : id ∈ p.receivers ∨ id ∈ p.exporters) :
    b'.isConnector id = b.isConnector id :=
  congrArg Option.isSome (h.get?_eq hPipelines hMem .connector hId)

theorem checkReferences_eq {φ : Type} (kind : Kind) (r : Registry φ) {ids : List ComponentId}
    (hIds : ∀ id ∈ ids, p.Lists id kind ∧ p.Lists id .connector) :
    (ids.filter (!b'.isConnector ·)).forM (checkReference pipeline kind (b'.config.table kind) r) =
      (ids.filter (!b.isConnector ·)).forM (checkReference pipeline kind (b.config.table kind) r) := by
  have hPlain : ids.filter (!b'.isConnector ·) = ids.filter (!b.isConnector ·) :=
    List.filter_congr fun id hId => by rw [h.isConnector_eq hPipelines hMem (hIds id hId).2]
  rw [hPlain]
  refine forM_congr fun id hId => ?_
  have hEntry := h.get?_eq hPipelines hMem kind (hIds id (List.mem_of_mem_filter hId)).1
  rw [checkReference, checkReference, Table.contains, hEntry, Table.contains]

theorem checkProcessors_eq {seen ids : List ComponentId} (hIds : ∀ id ∈ ids, id ∈ p.processors) :
    b'.checkProcessors pipeline seen ids = b.checkProcessors pipeline seen ids := by
  induction ids generalizing seen with
  | nil => rfl
  | cons id ids ih =>
      obtain ⟨hId, hIds⟩ := List.forall_mem_cons.mp hIds
      have hEntry : b'.config.processors.contains id = b.config.processors.contains id :=
        congrArg Option.isSome (h.get?_eq hPipelines hMem .processor hId)
      rw [checkProcessors, checkProcessors, hEntry, h.factories, ih hIds]

theorem checkPipeline_eq : b'.checkPipeline pipeline p = b.checkPipeline pipeline p := by
  have hReceivers := h.checkReferences_eq hPipelines hMem .receiver b.factories.receivers
    fun _ hId => ⟨hId, .inl hId⟩
  have hExporters := h.checkReferences_eq hPipelines hMem .exporter b.factories.exporters
    fun _ hId => ⟨hId, .inr hId⟩
  simp only [ServiceConfig.table] at hReceivers hExporters
  simp only [checkPipeline, h.factories, hReceivers, hExporters,
    h.checkProcessors_eq hPipelines hMem fun _ hId => hId]

theorem pipelineEdges_eq : b'.pipelineEdges ps pipeline p = b.pipelineEdges ps pipeline p := by
  have hFrom : ∀ id ∈ p.receivers, b'.edgesFrom ps pipeline id = b.edgesFrom ps pipeline id := by
    intro id hId
    rw [edgesFrom, edgesFrom, h.isConnector_eq hPipelines hMem (.inl hId), h.factories]
  have hTo : ∀ id ∈ p.exporters, b'.edgesTo ps pipeline id = b.edgesTo ps pipeline id := by
    intro id hId
    rw [edgesTo, edgesTo, h.isConnector_eq hPipelines hMem (.inr hId), h.factories]
  rw [pipelineEdges, pipelineEdges, List.flatMap_congr hFrom, List.flatMap_congr hTo]

end Declared

theorem wiring_eq (h : b.Agrees b') (hPipelines : Pipelines.ofConfig b.config = .ok ps) :
    b'.wiring ps = b.wiring ps := by
  rw [wiring, wiring, List.flatMap_congr fun _ hMem => h.pipelineEdges_eq hPipelines hMem]

/-- What agrees is checked alike if the connectors are. -/
theorem validate_eq (h : b.Agrees b') (hConnectors : ∀ ps, Pipelines.ofConfig b.config = .ok ps →
    (∀ e ∈ ps, b.checkPipeline e.1 e.2 = .ok ()) →
      (b'.config.connectors.forM fun e => b.checkConnector ps e.1) =
        b.config.connectors.forM fun e => b.checkConnector ps e.1) : b'.validate = b.validate := by
  rw [validate, validate, h.ofConfig_eq, h.checkConnector_eq]
  cases hPipelines : Pipelines.ofConfig b.config with
  | error e => rfl
  | ok ps =>
      have hChecks : (ps.forM fun e => b'.checkPipeline e.1 e.2) =
          ps.forM fun e => b.checkPipeline e.1 e.2 :=
        forM_congr fun _ hMem => h.checkPipeline_eq hPipelines hMem
      change (do ps.forM fun e => b'.checkPipeline e.1 e.2
                 b'.config.connectors.forM fun e => b.checkConnector ps e.1
                 return ps) = (do ps.forM fun e => b.checkPipeline e.1 e.2
                                  b.config.connectors.forM fun e => b.checkConnector ps e.1
                                  return ps)
      rw [hChecks]
      cases hPassed : ps.forM fun e => b.checkPipeline e.1 e.2 with
      | error e => rfl
      | ok => rw [hConnectors ps hPipelines (forM_eq_ok_iff.mp hPassed)]

end Agrees

/-! ## Connectors that are not listed -/

/-- Validation gets as far as a connector that no factory makes, and some pipeline lists the id as that of
a processor. -/
structure Blames (b : Blueprint σ κ) (id : ComponentId) : Prop where
  unmade : b.factories.connectors.get? id.type = none
  processor : b.config.Lists id .processor
  reached : ∃ ps before settings after, Pipelines.ofConfig b.config = .ok ps ∧
    (∀ e ∈ ps, b.checkPipeline e.1 e.2 = .ok ()) ∧
    b.config.connectors = before ++ (id, settings) :: after ∧
    ∀ e ∈ before, b.checkConnector ps e.1 = .ok ()

theorem isReferenced_iff (hUnlisted : ¬ b.config.Lists id .connector) :
    b.config.isReferenced id = true ↔ b.config.Lists id .processor := by
  simp only [ServiceConfig.isReferenced, List.any_eq_true, Bool.or_eq_true, List.contains_iff_mem]
  refine exists_congr fun e => and_congr_right fun hEntry => ⟨?_, fun hId => .inl (.inr hId)⟩
  rintro ((hId | hId) | hId)
  · exact absurd ⟨e, hEntry, .inl hId⟩ hUnlisted
  · exact hId
  · exact absurd ⟨e, hEntry, .inr hId⟩ hUnlisted

/-- Of a connector that no pipeline lists nothing is checked but whether it has a factory, and this only
if some pipeline lists its id as that of a processor. -/
theorem checkConnector_of_unlisted (hPipelines : Pipelines.ofConfig b.config = .ok ps)
    (hUnlisted : ¬ b.config.Lists id .connector) : b.checkConnector ps id =
      if (b.factories.connectors.get? id.type).isNone ∧ b.config.isReferenced id then
        .error (.factoryNotFound .connector id)
      else .ok () := by
  have hSources : ps.exportingTo id = [] := List.filter_eq_nil_iff.mpr fun e hMem hId =>
    hUnlisted (ServiceConfig.lists_of_mem hPipelines hMem (.inr (List.contains_iff_mem.mp hId)))
  have hTargets : ps.receivingFrom id = [] := List.filter_eq_nil_iff.mpr fun e hMem hId =>
    hUnlisted (ServiceConfig.lists_of_mem hPipelines hMem (.inl (List.contains_iff_mem.mp hId)))
  rw [checkConnector, hSources, hTargets]
  cases b.factories.connectors.get? id.type <;> cases b.config.isReferenced id <;> rfl

/-- The checks of a connector name no other connector that has no factory. -/
theorem eq_of_checkConnector_eq_error {j : ComponentId}
    (h : b.checkConnector ps j = .error (.factoryNotFound .connector id)) : j = id := by
  have hUses : ∀ joins usedAs missingAs (users counterparts : Pipelines),
      checkUses joins j usedAs missingAs users counterparts ≠
        .error (.factoryNotFound .connector id) := by
    intro joins usedAs missingAs users counterparts hFail
    obtain ⟨-, ⟨user, p⟩, -, -, -, hUser⟩ := forM_eq_error_iff.mp hFail
    dsimp only at hUser
    split at hUser <;> cases hUser
  rw [checkConnector] at h
  split at h
  · split at h <;> cases h
    rfl
  · rcases bind_eq_error_iff.mp h with hFirst | ⟨-, -, hSecond⟩
    · exact absurd hFirst (hUses _ _ _ _ _)
    · exact absurd hSecond (hUses _ _ _ _ _)

theorem Blames.validate_eq (h : b.Blames id) (hUnlisted : ¬ b.config.Lists id .connector) :
    b.validate = .error (.factoryNotFound .connector id) := by
  obtain ⟨ps, before, settings, after, hPipelines, hPassed, hEntries, hBefore⟩ := h.reached
  have hCheck : b.checkConnector ps id = .error (.factoryNotFound .connector id) := by
    rw [checkConnector_of_unlisted hPipelines hUnlisted, h.unmade,
      (isReferenced_iff hUnlisted).mpr h.processor]
    rfl
  have hFail : (b.config.connectors.forM fun e => b.checkConnector ps e.1) =
      .error (.factoryNotFound .connector id) :=
    forM_eq_error_iff.mpr ⟨before, (id, settings), after, hEntries, hBefore, hCheck⟩
  rw [validate, bind_eq_error_iff]
  refine .inr ⟨ps, hPipelines, bind_eq_error_iff.mpr (.inr ⟨(), forM_eq_ok_iff.mpr hPassed, ?_⟩)⟩
  exact bind_eq_error_iff.mpr (.inl hFail)

/-- Where no connector is blamed, the checks of connectors say the same without one that is not listed. -/
theorem forM_checkConnector_erase (hUnlisted : ¬ b.config.Lists id .connector) (hNot : ¬ b.Blames id)
    (hPipelines : Pipelines.ofConfig b.config = .ok ps)
    (hPassed : ∀ e ∈ ps, b.checkPipeline e.1 e.2 = .ok ()) :
    ((b.config.connectors.erase id).forM fun e => b.checkConnector ps e.1) =
      b.config.connectors.forM fun e => b.checkConnector ps e.1 := by
  rcases forM_erase (b.checkConnector ps) id b.config.connectors with hSame |
    ⟨before, settings, after, e, hEntries, hBefore, hFail⟩
  · exact hSame
  · rw [checkConnector_of_unlisted hPipelines hUnlisted] at hFail
    split at hFail
    · rename_i hUnmade
      exact absurd ⟨Option.isNone_iff_eq_none.mp hUnmade.1, (isReferenced_iff hUnlisted).mp hUnmade.2,
        ps, before, settings, after, hPipelines, hPassed, hEntries, hBefore⟩ hNot
    · cases hFail

theorem validate_without (hUnlisted : ¬ b.config.Lists id kind)
    (hNot : ¬ (kind = .connector ∧ b.Blames id)) : (b.without id kind).validate = b.validate := by
  refine (agrees_without hUnlisted).validate_eq fun ps hPipelines hPassed => ?_
  by_cases hKind : kind = .connector
  · subst hKind
    exact forM_checkConnector_erase hUnlisted (fun hBlames => hNot ⟨rfl, hBlames⟩) hPipelines hPassed
  · have hTable : (b.without id kind).config.connectors = b.config.connectors :=
      ServiceConfig.table_without_of_ne (Ne.symm hKind)
    rw [hTable]

/-- Nothing that is left is blamed for the entry that was removed. -/
theorem validate_without_ne (hUnlisted : ¬ b.config.Lists id .connector) (hBlames : b.Blames id) :
    (b.without id .connector).validate ≠ .error (.factoryNotFound .connector id) := by
  obtain ⟨ps, -, -, -, hPipelines, hPassed, -, -⟩ := hBlames.reached
  have hAgrees : b.Agrees (b.without id .connector) := agrees_without hUnlisted
  have hPassed' : (ps.forM fun e => (b.without id .connector).checkPipeline e.1 e.2) = .ok () :=
    forM_eq_ok_iff.mpr fun e hMem => by
      rw [hAgrees.checkPipeline_eq hPipelines hMem]
      exact hPassed e hMem
  intro hFail
  rw [validate, hAgrees.ofConfig_eq, hPipelines] at hFail
  rcases bind_eq_error_iff.mp hFail with ⟨⟨⟩⟩ | ⟨_, ⟨⟩, hFail⟩
  rcases bind_eq_error_iff.mp hFail with hFail | ⟨_, -, hFail⟩
  · cases hPassed'.symm.trans hFail
  rcases bind_eq_error_iff.mp hFail with hFail | ⟨_, -, ⟨⟩⟩
  obtain ⟨before, e, after, hEntries, -, hCheck⟩ := forM_eq_error_iff.mp hFail
  have hMem : e ∈ b.config.connectors.erase id := by
    change b.config.connectors.erase id = _ at hEntries
    rw [hEntries]
    simp
  have hSame := eq_of_checkConnector_eq_error hCheck
  simpa [hSame] using (List.mem_filter.mp hMem).2

end Blueprint

namespace Graph

variable {σ κ : Type} {b b' : Blueprint σ κ} {ps : Pipelines} {g : Graph κ} {node : NodeId}
  {nodes : List NodeId} {id : ComponentId} {kind : Kind}

/-! ## Building -/

section Agreeing

variable (h : b.Agrees b') (hPipelines : Pipelines.ofConfig b.config = .ok ps)

include h hPipelines

theorem make_eq_of_agrees (hNode : b.HasNode ps node) (s : σ) : g.make b' node s = g.make b node s := by
  have hInstantiate : ∀ type, g.instantiate b' type node s = g.instantiate b type node s := by
    intro type
    cases hNode with
    | head | tail => rfl
    | receiver hMem hId hPlain =>
        have hEntry : b'.config.receivers.get? _ = b.config.receivers.get? _ :=
          h.get?_eq hPipelines hMem .receiver hId
        simp only [instantiate, settingsOver, h.factories, hEntry]
    | processor hMem hId =>
        have hEntry : b'.config.processors.get? _ = b.config.processors.get? _ :=
          h.get?_eq hPipelines hMem .processor hId
        simp only [instantiate, settingsOver, h.factories, hEntry]
    | exporter hMem hId hPlain =>
        have hEntry : b'.config.exporters.get? _ = b.config.exporters.get? _ :=
          h.get?_eq hPipelines hMem .exporter hId
        simp only [instantiate, settingsOver, h.factories, hEntry]
    | connector hFeeds =>
        obtain ⟨p, hMem, hId⟩ := hFeeds.exports
        have hEntry : b'.config.connectors.get? _ = b.config.connectors.get? _ :=
          h.get?_eq hPipelines hMem .connector (.inr hId)
        simp only [instantiate, settingsOver, h.factories, hEntry]
  rw [make, make]
  simp only [hInstantiate]

theorem makeAll_eq_of_agrees (hNodes : ∀ n ∈ nodes, b.HasNode ps n) (s : σ) :
    makeAll b' nodes g s = makeAll b nodes g s := by
  induction nodes generalizing g s with
  | nil => rfl
  | cons n nodes ih =>
      obtain ⟨hNode, hNodes⟩ := List.forall_mem_cons.mp hNodes
      rw [makeAll, makeAll, make_eq_of_agrees h hPipelines hNode]
      split
      · rfl
      · exact ih hNodes _

end Agreeing

theorem hasNode_of_plan (h : plan b ps = .ok g) : ∀ n ∈ g.order.reverse, b.HasNode ps n := by
  intro n hn
  rw [List.mem_reverse, (plan_eq_ok h).2.2.mem_iff] at hn
  exact Blueprint.mem_nodes_wiring_iff.mp hn

/-- What agrees, and is without fault alike, is built alike. -/
theorem build_eq_of_agrees (h : b.Agrees b') (hValid : b'.validate = b.validate) (s : σ) :
    build b' s = build b s := by
  rw [build, build, hValid]
  cases hPipelines : b.validate with
  | error e => rfl
  | ok ps =>
      have hConfig := (Blueprint.validate_eq_ok_iff.mp hPipelines).1
      have hPlan : plan b' ps = plan b ps := by rw [plan, plan, h.wiring_eq hConfig]
      rw [Except.bind, Except.bind, hPlan]
      cases hPlan : plan b ps with
      | error e => rfl
      | ok g => exact makeAll_eq_of_agrees h hConfig (hasNode_of_plan hPlan) s

/-- A node of a connector is there only if a factory joins its signals. -/
theorem make_ne_unmade_connector (hNode : b.HasNode ps node) (s : σ) :
    (g.make b node s).1 ≠ .error (.factoryNotFound .connector id) := by
  have hCreated : ∀ {α : Type} (f : α → Instance κ) (r : Except ComponentError α × σ),
      (created node f r).1 ≠ .error (.factoryNotFound .connector id) := by
    rintro α f ⟨_ | _, s⟩ <;> simp [created]
  have hInstantiate : ∀ type,
      (g.instantiate b type node s).1 ≠ .error (.factoryNotFound .connector id) := by
    intro type
    cases hNode with
    | head | tail | receiver | processor | exporter =>
        rw [instantiate]
        repeat' split
        all_goals simp [hCreated]
    | @connector source target j hFeeds =>
        have hJoins := hFeeds.joins
        rw [Factories.connects] at hJoins
        rw [instantiate]
        cases hFactory : b.factories.connectors.get? j.type with
        | none => simp [hFactory] at hJoins
        | some f =>
            dsimp only
            repeat' split
            all_goals simp [hCreated]
  rw [make]
  split
  · exact hInstantiate _
  · split <;> simp

/-- No factory is missed for a connector but in validation. -/
theorem build_ne_unmade_connector (hValid : b.validate ≠ .error (.factoryNotFound .connector id))
    (s : σ) : (build b s).1 ≠ .error (.factoryNotFound .connector id) := by
  rw [build]
  cases hPipelines : b.validate with
  | error e =>
      rintro ⟨⟩
      exact hValid hPipelines
  | ok ps =>
      rw [Except.bind]
      cases hPlan : plan b ps with
      | error e =>
          rintro ⟨⟩
          rw [plan] at hPlan
          split at hPlan <;> cases hPlan
      | ok g =>
          intro hFail
          obtain ⟨node, hMem, g', s', hMake⟩ := exists_make_of_makeAll_eq_error hFail
          exact make_ne_unmade_connector (hasNode_of_plan hPlan node hMem) s' hMake

/-- An entry that no pipeline lists in its role can be removed, and the outcome of a build is the same, with
one exception: a connector that has no factory is blamed if some pipeline lists its id as that of a processor
and no other fault was found before. -/
theorem build_without_eq_iff (hUnlisted : ¬ b.config.Lists id kind) (s : σ) :
    build (b.without id kind) s = build b s ↔ ¬ (kind = .connector ∧ b.Blames id) := by
  constructor
  · rintro hSame ⟨rfl, hBlames⟩
    have hBuild : (build b s).1 = .error (.factoryNotFound .connector id) := by
      rw [build, hBlames.validate_eq hUnlisted]
      rfl
    refine build_ne_unmade_connector (Blueprint.validate_without_ne hUnlisted hBlames) s ?_
    rw [hSame, hBuild]
  · intro hNot
    exact build_eq_of_agrees (Blueprint.agrees_without hUnlisted)
      (Blueprint.validate_without hUnlisted hNot) s

end Graph

namespace Relay

/-- The service with one more connector. -/
def withConnector (id : ComponentId) : Blueprint Nat Nat :=
  { blueprint with config := { config with connectors := config.connectors.insert id (.object []) } }

end Relay

namespace Graph

theorem build_without_eq_iff_clock :
    ¬ (Relay.withConnector Relay.clock).config.Lists Relay.clock .connector ∧
      (Relay.withConnector Relay.clock).isConnector Relay.clock = true ∧
      build ((Relay.withConnector Relay.clock).without Relay.clock .connector) 0 =
        build (Relay.withConnector Relay.clock) 0 := by
  have hUnlisted : ¬ (Relay.withConnector Relay.clock).config.Lists Relay.clock .connector := by decide
  have hNot : ¬ (Relay.withConnector Relay.clock).Blames Relay.clock :=
    fun h => absurd h.processor (by decide)
  exact ⟨hUnlisted, rfl, (build_without_eq_iff hUnlisted 0).mpr fun h => hNot h.2⟩

/-- A connector with the id of a processor makes a build fail that succeeds without it. -/
theorem connector_named_like_processor :
    ¬ (Relay.withConnector Relay.stamp).config.Lists Relay.stamp .connector ∧
    (build (Relay.withConnector Relay.stamp) 0).1 = .error (.factoryNotFound .connector Relay.stamp) ∧
    ∃ g, (build ((Relay.withConnector Relay.stamp).without Relay.stamp .connector) 0).1 = .ok g :=
  ⟨by decide, rfl, _, rfl⟩

end Graph

end Telemetry

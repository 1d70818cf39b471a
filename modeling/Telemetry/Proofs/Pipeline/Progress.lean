import Telemetry.Proofs.Pipeline.Service

/-!
# How far a build gets

A build makes its nodes one after the other and stops at the first that cannot be made. Those before it
have been made, and nothing takes them back.
-/

namespace Telemetry

namespace Graph

variable {σ κ : Type} {b : Blueprint σ κ} {g g' : Graph κ} {n : NodeId} {s s' : σ}

/-! ## One node -/

/-- What making a node can do to the state, and whether the node is made: at most one factory is asked for
one component. A receiver is never made without. -/
inductive Takes (b : Blueprint σ κ) (s : σ) : NodeId → Bool → σ → Prop
  | nothing {n : NodeId} {made : Bool} (hReceiver : made = true → ∀ id signal, n ≠ .receiver id signal) :
      Takes b s n made s
  | exporter {id : ComponentId} {signal : Signal} {type : BatchType} {f : ExporterFactory σ κ}
      {r : Except ComponentError (Inlet κ)} {s' : σ}
      (hFactory : b.factories.exporters.get? id.type = some f)
      (hCreate : f.create id type (settingsOver f.defaults b.config.exporters id) s = (r, s')) :
      Takes b s (.exporter id signal) r.isOk s'
  | processor {pipeline : PipelineId} {id : ComponentId} {type : BatchType} {f : ProcessorFactory σ κ}
      {next : Consumer} {r : Except ComponentError (Inlet κ)} {s' : σ}
      (hFactory : b.factories.processors.get? id.type = some f)
      (hCreate : f.create id type (settingsOver f.defaults b.config.processors id) next s = (r, s')) :
      Takes b s (.processor pipeline id) r.isOk s'
  | receiver {id : ComponentId} {signal : Signal} {type : BatchType} {f : ReceiverFactory σ κ}
      {next : Consumer} {r : Except ComponentError κ} {s' : σ}
      (hType : BatchType.ofSignal? signal = some type)
      (hFactory : b.factories.receivers.get? id.type = some f)
      (hCreate : f.create id type (settingsOver f.defaults b.config.receivers id) next s = (r, s')) :
      Takes b s (.receiver id signal) r.isOk s'
  | connector {id : ComponentId} {source target : Signal} {type targetType : BatchType}
      {f : ConnectorFactory σ κ} {next : Consumer} {r : Except ComponentError (Inlet κ)} {s' : σ}
      (hFactory : b.factories.connectors.get? id.type = some f)
      (hCreate : f.create id type targetType (settingsOver f.defaults b.config.connectors id) next s =
        (r, s')) :
      Takes b s (.connector id source target) r.isOk s'

theorem isOk_created {α : Type} (n : NodeId) (f : α → Instance κ) (r : Except ComponentError α × σ) :
    (created n f r).1.isOk = r.1.isOk := by
  obtain ⟨_ | _, s⟩ := r <;> rfl

theorem snd_created {α : Type} (n : NodeId) (f : α → Instance κ) (r : Except ComponentError α × σ) :
    (created n f r).2 = r.2 := by
  obtain ⟨_ | _, s⟩ := r <;> rfl

/-- A node that could not be made, and for which no factory was asked, leaves the state as it is. -/
theorem Takes.refused : Takes b s n false s := .nothing (by simp)

theorem takes_instantiate {type : BatchType} (hType : BatchType.ofSignal? n.signal = some type) :
    Takes b s n (g.instantiate b type n s).1.isOk (g.instantiate b type n s).2 := by
  cases n with
  | exporter id signal =>
      rw [instantiate]
      split
      · exact .refused
      · rename_i f hFactory
        rw [isOk_created, snd_created]
        exact .exporter hFactory rfl
  | fanOut pipeline =>
      rw [instantiate]
      split
      · exact .refused
      · exact .nothing (by simp)
  | processor pipeline id =>
      rw [instantiate]
      split
      · exact .refused
      · rename_i f hFactory
        split
        · exact .refused
        · rw [isOk_created, snd_created]
          exact .processor hFactory rfl
  | capabilities pipeline =>
      rw [instantiate]
      split
      · exact .refused
      · exact .nothing (by simp)
  | receiver id signal =>
      rw [instantiate]
      split
      · exact .refused
      · rename_i f hFactory
        split
        · exact .refused
        · rw [isOk_created, snd_created]
          exact .receiver hType hFactory rfl
  | connector id source target =>
      rw [instantiate]
      split
      · exact .refused
      · rename_i f hFactory
        split
        · exact .refused
        · split
          · exact .refused
          · rw [isOk_created, snd_created]
            exact .connector hFactory rfl

theorem takes_make (b : Blueprint σ κ) (g : Graph κ) (n : NodeId) (s : σ) :
    Takes b s n (g.make b n s).1.isOk (g.make b n s).2 := by
  rw [make]
  split
  · rename_i type hType
    exact takes_instantiate hType
  · split
    · exact .refused
    · rename_i hPart
      refine .nothing fun _ id signal hReceiver => ?_
      subst hReceiver
      exact hPart _ _ rfl rfl

/-! ## All nodes -/

/-- The nodes that are made one after the other, up to the first that cannot be. -/
def madeOf (b : Blueprint σ κ) : List NodeId → Graph κ → σ → List NodeId
  | [], _, _ => []
  | node :: rest, g, s =>
    match g.make b node s with
    | (.error _, _) => []
    | (.ok i, s) => node :: madeOf b rest (g.put node i) s

/-- The nodes that are made when a graph is built, also when the build fails. -/
def made (b : Blueprint σ κ) (s : σ) : List NodeId :=
  match b.validate.bind (plan b) with
  | .error _ => []
  | .ok g => madeOf b g.order.reverse g s

/-- What is said of the nodes made so far and of the state stays true, whatever becomes of a node. -/
def Tracks (b : Blueprint σ κ) (L : List NodeId → σ → Prop) : Prop :=
  ∀ {done n s made s'}, L done s → Takes b s n made s' → L (if made then done ++ [n] else done) s'

theorem Tracks.makeAll {L : List NodeId → σ → Prop} (hTracks : Tracks b L) (nodes : List NodeId)
    {done : List NodeId} (hDone : L done s) :
    L (done ++ madeOf b nodes g s) (makeAll b nodes g s).2 := by
  induction nodes generalizing g s done with
  | nil =>
      rw [madeOf, List.append_nil]
      exact hDone
  | cons n nodes ih =>
      have hTakes := takes_make b g n s
      rw [madeOf, Graph.makeAll]
      generalize g.make b n s = r at hTakes
      obtain ⟨_ | i, s'⟩ := r
      -- A node that fails ends the run: what was made before it is all that is made.
      · rw [List.append_nil]
        exact hTracks hDone hTakes
      · have hMade : L (done ++ [n]) s' := hTracks hDone hTakes
        have hRest := ih (g := g.put n i) hMade
        rwa [List.append_assoc] at hRest

theorem Tracks.build {L : List NodeId → σ → Prop} (hTracks : Tracks b L) (hStart : L [] s) :
    L (Graph.made b s) (Graph.build b s).2 := by
  rw [Graph.made, Graph.build]
  cases b.validate.bind (plan b) with
  | error e => exact hStart
  | ok g => exact hTracks.makeAll _ hStart

theorem madeOf_eq_of_makeAll {nodes : List NodeId} (h : (makeAll b nodes g s).1 = .ok g') :
    madeOf b nodes g s = nodes := by
  induction nodes generalizing g s with
  | nil => rfl
  | cons n nodes ih =>
      rw [makeAll] at h
      rw [madeOf]
      rcases hMake : g.make b n s with ⟨_ | i, s'⟩
      · rw [hMake] at h
        cases h
      · rw [hMake] at h
        exact congrArg (n :: ·) (ih h)

/-- A build that succeeds makes every node. -/
theorem mem_made_iff (h : (build b s).1 = .ok g) : n ∈ made b s ↔ n ∈ g.wiring.nodes := by
  obtain ⟨ps, hBuilt⟩ := built_of_build h
  rw [← hBuilt.perm.mem_iff]
  rw [build] at h
  rw [made]
  rcases hPlan : b.validate.bind (plan b) with _ | g₀
  · rw [hPlan] at h
    cases h
  · rw [hPlan] at h
    have hOrder : g.order = g₀.order := (extends_of_makeAll h).order
    dsimp only
    rw [madeOf_eq_of_makeAll h, hOrder, List.mem_reverse]

end Graph

namespace Service

variable {σ κ : Type} {b : Blueprint σ κ} {x : Service κ} {s : σ} {n : NodeId}

/-- The nodes that are made when a service is built, also when the build fails. -/
def made (b : Blueprint σ κ) (s : σ) : List NodeId :=
  match createExtensions b b.config.service.extensions [] s with
  | (.error _, _) => []
  | (.ok _, s) => Graph.made b s

theorem createExtensions_induct {P : σ → Prop}
    (hStep : ∀ id {s}, P s → P (createExtension b id s).2) (ids : List ComponentId)
    (made : Table ComponentId κ) (hStart : P s) : P (createExtensions b ids made s).2 := by
  induction ids generalizing made s with
  | nil => exact hStart
  | cons id ids ih =>
      have hNext := hStep id hStart
      rw [createExtensions]
      generalize createExtension b id s = r at hNext
      obtain ⟨_ | c, s'⟩ := r
      · exact hNext
      · exact ih _ hNext

theorem tracks_build {L : List NodeId → σ → Prop} (hTracks : Graph.Tracks b L)
    (hExtension : ∀ id {s}, L [] s → L [] (createExtension b id s).2) (hStart : L [] s) :
    L (made b s) (build b s).2 := by
  have hExtensions := createExtensions_induct hExtension b.config.service.extensions [] hStart
  rw [made, build]
  generalize createExtensions b b.config.service.extensions [] s = r at hExtensions
  obtain ⟨_ | extensions, s'⟩ := r
  · exact hExtensions
  · have hGraph := hTracks.build hExtensions
    dsimp only at hGraph ⊢
    generalize Graph.build b s' = r at hGraph
    obtain ⟨_ | g, s''⟩ := r <;> exact hGraph

theorem mem_made_iff (h : (build b s).1 = .ok x) : n ∈ made b s ↔ n ∈ x.graph.wiring.nodes := by
  rw [build] at h
  rw [made]
  rcases hExtensions : createExtensions b b.config.service.extensions [] s with ⟨_ | extensions, s'⟩
  · rw [hExtensions] at h
    cases h
  · rw [hExtensions] at h
    dsimp only at h ⊢
    rcases hGraph : Graph.build b s' with ⟨_ | g, s''⟩
    · rw [hGraph] at h
      cases h
    · rw [hGraph] at h
      cases h
      exact Graph.mem_made_iff (by rw [hGraph])

end Service

end Telemetry

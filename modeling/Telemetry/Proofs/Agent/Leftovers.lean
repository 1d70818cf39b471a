import Telemetry.Proofs.Agent.Listeners

/-!
# What a build leaves behind

A build leaves the listeners of all receivers it made, whether it succeeds or not. Each has the settings of
the build that made it first, and serves every signal a receiver was made for since.
-/

namespace Telemetry

theorem Registry.mem_of_get?_ofList {φ : Type} {kind : Kind} {entries : List (ComponentType × φ)}
    {type : ComponentType} {f : φ} (h : (Registry.ofList kind entries).get? type = some f) :
    (type, f) ∈ entries :=
  Table.mem_of_mem_ofList (Table.mem_of_get? h)

theorem Registry.eq_or_eq_of_get?_ofList {φ : Type} {kind : Kind} {a b : ComponentType × φ}
    {type : ComponentType} {f : φ} (h : (Registry.ofList kind [a, b]).get? type = some f) :
    f = a.2 ∨ f = b.2 := by
  have hMem := Registry.mem_of_get?_ofList h
  simp only [List.mem_cons, List.not_mem_nil, or_false] at hMem
  exact hMem.imp (congrArg Prod.snd) (congrArg Prod.snd)

namespace Agent

variable {type : ComponentType} {id : ComponentId} {batch : BatchType} {v : Json} {next : Consumer}
  {x x' x'' : Installation}

/-! ## The factories of an agent -/

theorem eq_otlpReceivers {f : ReceiverFactory Installation Component}
    (h : factories.receivers.get? type = some f) : f = otlpReceivers := by
  have hMem := Registry.mem_of_get?_ofList h
  simp only [List.mem_singleton, Prod.mk.injEq] at hMem
  exact hMem.2

theorem processor_cases {f : ProcessorFactory Installation Component}
    (h : factories.processors.get? type = some f) : f = batchProcessors ∨ f = resourceProcessors :=
  Registry.eq_or_eq_of_get?_ofList h

theorem exporter_cases {f : ExporterFactory Installation Component}
    (h : factories.exporters.get? type = some f) : f = httpExporters ∨ f = debugExporters :=
  Registry.eq_or_eq_of_get?_ofList h

theorem connector_cases {f : ConnectorFactory Installation Component}
    (h : factories.connectors.get? type = some f) : f = forwardConnectors ∨ f = countConnectors :=
  Registry.eq_or_eq_of_get?_ofList h

theorem extension_cases {f : ExtensionFactory Installation Component}
    (h : factories.extensions.get? type = some f) : f = fileStorage ∨ f = memoryStorage :=
  Registry.eq_or_eq_of_get?_ofList h

namespace Installation

theorem Spares.of_eq {α : Type} {a : α} {r : α × Installation} (h : x.Spares r.2) (hEq : r = (a, x')) :
    x.Spares x' := by
  rwa [hEq] at h

theorem spares_making {α β : Type} {make : α → Installation → β × Installation}
    (hMake : ∀ s, x.Spares (make s x).2) (settings : Except ComponentError α) :
    x.Spares (making settings make x).2 := by
  cases settings with
  | error e => exact .refl
  | ok s => exact hMake s

theorem spares_processor {f : ProcessorFactory Installation Component}
    (h : factories.processors.get? type = some f) : x.Spares (f.create id batch v next x).2 := by
  rcases processor_cases h with rfl | rfl
  · exact spares_making (fun s => spares_addGatherer s next) _
  · exact spares_making (fun _ => .refl) _

theorem spares_exporter {f : ExporterFactory Installation Component}
    (h : factories.exporters.get? type = some f) : x.Spares (f.create id batch v x).2 := by
  rcases exporter_cases h with rfl | rfl
  · exact spares_making (fun _ => spares_addExporter _ _) _
  · exact spares_making (fun _ => spares_addExporter _ _) _

theorem spares_connector {f : ConnectorFactory Installation Component} {target : BatchType}
    (h : factories.connectors.get? type = some f) :
    x.Spares (f.create id batch target v next x).2 := by
  rcases connector_cases h with rfl | rfl
  · rw [forwardConnectors]
    dsimp only
    split <;> exact .refl
  · rw [countConnectors]
    dsimp only
    split
    · exact spares_making (fun _ => .refl) _
    · exact .refl

theorem spares_extension {f : ExtensionFactory Installation Component}
    (h : factories.extensions.get? type = some f) : x.Spares (f.create id v x).2 := by
  rcases extension_cases h with rfl | rfl
  · exact spares_making (fun _ => .refl) _
  · exact spares_storeFor id x

/-- The settings that a configuration has for a receiver. -/
def receiverSettings (c : ServiceConfig) (id : ComponentId) : Except ComponentError ReceiverSettings :=
  settingsOf id ReceiverSettings.read (settingsOver otlpReceivers.defaults c.receivers id)

/-! ## The entries -/

/-- What a build of a configuration has made of an installation, given the nodes made so far. -/
structure Leaves (c : ServiceConfig) (x : Installation) (done : List NodeId) (x' : Installation) :
    Prop where
  grows : x.Grows x'
  entry : ∀ {id}, (x'.listener? id).isSome = true ↔
    (x.listener? id).isSome = true ∨ ∃ type : BatchType, .receiver id type.signal ∈ done
  settings : ∀ {id l'}, x'.listener? id = some l' →
    (∃ l, x.listener? id = some l ∧ l'.settings = l.settings) ∨
      x.listener? id = none ∧ receiverSettings c id = .ok l'.settings
  served : ∀ {id type}, (x'.route? id type).isSome = true ↔
    (x.route? id type).isSome = true ∨ .receiver id type.signal ∈ done

variable {c : ServiceConfig} {done : List NodeId} {n : NodeId}

theorem Leaves.congr {done' : List NodeId} (h : Leaves c x done x') (hSame : ∀ n, n ∈ done ↔ n ∈ done') :
    Leaves c x done' x' where
  grows := h.grows
  entry {id} := by
    rw [h.entry]
    simp only [hSame]
  settings := h.settings
  served {id type} := by rw [h.served, hSame]

theorem Leaves.refl : Leaves c x [] x where
  grows := .refl
  entry := by simp
  settings hGet := .inl ⟨_, hGet, rfl⟩
  served := by simp

theorem Leaves.spares (h : Leaves c x done x') (hSpares : x'.Spares x'') : Leaves c x done x'' where
  grows := h.grows.trans hSpares.grows
  entry {id} := by
    rw [hSpares.listener?_eq]
    exact h.entry
  settings hGet := by
    rw [hSpares.listener?_eq] at hGet
    exact h.settings hGet
  served {id type} := by
    rw [hSpares.route?_eq]
    exact h.served

/-- A node that is no receiver adds nothing. -/
theorem Leaves.skip (h : Leaves c x done x') (hNode : ∀ id signal, n ≠ .receiver id signal) :
    Leaves c x (done ++ [n]) x' := by
  have hMem : ∀ {id signal}, NodeId.receiver id signal ∈ done ++ [n] ↔ .receiver id signal ∈ done := by
    intro id signal
    rw [List.mem_append, List.mem_singleton, or_iff_left (hNode id signal).symm]
  refine ⟨h.grows, ?_, h.settings, ?_⟩
  · simp only [hMem]
    exact h.entry
  · simp only [hMem]
    exact h.served

theorem AddsReceiver.route?_eq {s : ReceiverSettings} {k : Nat} (h : x.AddsReceiver id batch s next k x')
    (id' : ComponentId) (batch' : BatchType) :
    x'.route? id' batch' = if id' = id ∧ batch' = batch then some next else x.route? id' batch' := by
  by_cases hId : id' = id
  · subst hId
    rw [route?, h.listener, route?, Option.bind_some]
    cases x.listener? id' <;> simp [Listener.feed, Routes.set, Routes.none]
  · rw [if_neg (fun hBoth => hId hBoth.1), route?, route?, h.others hId]

theorem Leaves.receiver {s : ReceiverSettings} {k : Nat} (h : Leaves c x done x')
    (hSettings : receiverSettings c id = .ok s) (hAdds : x'.AddsReceiver id batch s next k x'') :
    Leaves c x (done ++ [.receiver id batch.signal]) x'' := by
  refine ⟨h.grows.trans hAdds.grows, ?entry, ?settings, ?served⟩
  case entry =>
    intro id'
    by_cases hId : id' = id
    · subst hId
      rw [hAdds.listener]
      exact ⟨fun _ => .inr ⟨batch, List.mem_append_right _ (List.mem_singleton.mpr rfl)⟩, fun _ => rfl⟩
    · rw [hAdds.others hId, h.entry]
      simp [hId]
  case settings =>
    intro id' l' hGet
    by_cases hId : id' = id
    · subst hId
      rw [hAdds.listener] at hGet
      rcases hBefore : x'.listener? id' with _ | l
      -- The first receiver of its id makes the listener, with its own settings.
      · have hFresh : x.listener? id' = none := by
          refine Option.not_isSome_iff_eq_none.mp fun hSome => ?_
          have hEntry := h.entry.mpr (.inl hSome)
          rw [hBefore] at hEntry
          cases hEntry
        rw [hBefore] at hGet
        cases hGet
        exact .inr ⟨hFresh, hSettings⟩
      · rw [hBefore] at hGet
        cases hGet
        have hSame := h.settings hBefore
        exact hSame
    · rw [hAdds.others hId] at hGet
      exact h.settings hGet
  case served =>
    intro id' batch'
    rw [hAdds.route?_eq]
    split
    · rename_i hBoth
      obtain ⟨rfl, rfl⟩ := hBoth
      simp
    · rename_i hNot
      rw [h.served, List.mem_append, List.mem_singleton, NodeId.receiver.injEq,
        BatchType.signal_inj, or_iff_left hNot]

theorem Leaves.other {made : Bool} (h : Leaves c x done x') (hSpares : x'.Spares x'')
    (hNode : ∀ id signal, n ≠ .receiver id signal) :
    Leaves c x (if made then done ++ [n] else done) x'' := by
  cases made with
  | false => exact h.spares hSpares
  | true => exact (h.spares hSpares).skip hNode

/-- One node. -/
theorem tracks_leaves (c : ServiceConfig) (hStep : x.InStep) :
    Graph.Tracks ⟨c, factories⟩ (Leaves c x) := by
  rw [Graph.Tracks]
  intro done n x' made x'' h hTakes
  cases hTakes with
  | nothing hReceiver =>
      cases made with
      | false => exact h
      | true => exact h.skip (hReceiver rfl)
  | exporter hFactory hCreate =>
      exact h.other ((spares_exporter hFactory).of_eq hCreate) (by simp)
  | processor hFactory hCreate =>
      exact h.other ((spares_processor hFactory).of_eq hCreate) (by simp)
  | connector hFactory hCreate =>
      exact h.other ((spares_connector hFactory).of_eq hCreate) (by simp)
  | @receiver id signal type f next r _ hType hFactory hCreate =>
      cases eq_otlpReceivers hFactory
      cases BatchType.ofSignal?_eq_some_iff.mp hType
      cases hSettings : receiverSettings c id with
      | error e =>
          cases (create_of_error hSettings).symm.trans hCreate
          exact h
      | ok s =>
          obtain ⟨k, y, hAdd, hAdds⟩ := addsReceiver (h.grows.inStep hStep) id type s next
          cases hAdd.symm.trans ((create_of_ok hSettings).symm.trans hCreate)
          exact h.receiver hSettings hAdds

theorem spares_createExtension (c : ServiceConfig) (id : ComponentId) (x : Installation) :
    x.Spares (Service.createExtension ⟨c, factories⟩ id x).2 := by
  rw [Service.createExtension]
  split
  · exact .refl
  · split
    · exact .refl
    · rename_i user _ _ f hFactory
      have hSpares : x.Spares (f.create id (Json.overlay f.defaults user) x).2 := spares_extension hFactory
      generalize f.create id (Json.overlay f.defaults user) x = r at hSpares
      obtain ⟨_ | c, x'⟩ := r <;> exact hSpares

/-- A whole build, whether it succeeds or not. -/
theorem leaves_build (c : ServiceConfig) (hStep : x.InStep) :
    Leaves c x (Service.made ⟨c, factories⟩ x) (Service.build ⟨c, factories⟩ x).2 :=
  Service.tracks_build (tracks_leaves c hStep) (fun id x' h => h.spares (spares_createExtension c id x'))
    .refl

end Installation

end Agent

end Telemetry

import Telemetry.Proofs.Agent.Leftovers
import Telemetry.Proofs.Pipeline.Lockstep

/-!
# Agents that are alike

Components are numbers into tables, so two installations that give one component different numbers may
still have the same component. Here they are compared by what the numbers stand for. The factories of an
agent cannot tell such installations apart, except that a listener which is there already keeps its settings
and its signals.
-/

namespace Telemetry.Agent

namespace Installation

variable {x y x' y' : Installation} {n m : Nat} {id : ComponentId} {type : BatchType} {c d : Consumer}

/-! ## What numbers stand for -/

theorem getElem?_later {α : Type} {l l' : List α} {a : α} (h : l <+: l') (hGet : l[n]? = some a) :
    l'[n]? = some a := by
  obtain ⟨hLt, rfl⟩ := List.getElem?_eq_some_iff.mp hGet
  exact List.prefix_iff_getElem?.mp h n hLt

/-- Exporters that differ at most in the token they work under: they have the same settings, accounts,
target and queue. -/
structure SameExporter (x y : Installation) (n m : Nat) : Prop where
  exporter : ∃ e context, x.exporting.state.outside.exporters[n]? = some e ∧
    y.exporting.state.outside.exporters[m]? = some { e with context := context }
  station : ∃ s, x.exporting.state.outside.outside.stations[n]? = some s ∧
    y.exporting.state.outside.outside.stations[m]? = some s
  line : ∃ l, x.exporting.state.lines[n]? = some l ∧ y.exporting.state.lines[m]? = some l

/-- Ends of the pipelines that lead to the same exporter. -/
def SamePort (x y : Installation) (n m : Nat) : Prop :=
  ∃ e e', x.ports[n]? = some (.exporter e) ∧ y.ports[m]? = some (.exporter e') ∧ x.SameExporter y e e'

/-- Processors that hold batches back and differ at most in where they pass them on. -/
def SameGatherer (x y : Installation) (n m : Nat) : Prop :=
  ∃ g next, x.gatherers[n]? = some g ∧ y.gatherers[m]? = some { g with next := next }

/-- Consumers that do the same at the same ends. -/
def Alike (x y : Installation) : Consumer → Consumer → Prop :=
  Consumer.Alike (x.SamePort y) (x.SameGatherer y)

/-- Components that are the same, given which listeners are. -/
inductive SameComponent (x y : Installation) (listeners : Nat → Nat → Prop) :
    Component → Component → Prop
  | idle : SameComponent x y listeners .idle .idle
  | gatherer {n m : Nat} {g h : Gatherer} (hLeft : x.gatherers[n]? = some g)
      (hRight : y.gatherers[m]? = some h) (hSame : h = { g with next := h.next })
      (hNext : x.Alike y g.next h.next) : SameComponent x y listeners (.gatherer n) (.gatherer m)
  | exporter {n m : Nat} (hSame : x.SameExporter y n m) :
      SameComponent x y listeners (.exporter n) (.exporter m)
  | listener {n m : Nat} (hSame : listeners n m) :
      SameComponent x y listeners (.listener n) (.listener m)
  | memory {n m : Nat} (hSame : x.memory n = y.memory m) :
      SameComponent x y listeners (.memory n) (.memory m)
  | files (settings : FileStorageSettings) :
      SameComponent x y listeners (.files settings) (.files settings)

/-- Listeners that are shared under an id. -/
def SharedUnder (x y : Installation) (id : ComponentId) (n m : Nat) : Prop :=
  x.shared.get? id = some n ∧ y.shared.get? id = some m

theorem SameExporter.later (h : x.SameExporter y n m) (hLeft : x.Grows x') (hRight : y.Grows y') :
    x'.SameExporter y' n m := by
  obtain ⟨⟨e, context, he, he'⟩, ⟨s, hs, hs'⟩, ⟨l, hl, hl'⟩⟩ := h
  exact ⟨⟨e, context, getElem?_later hLeft.exporters he, getElem?_later hRight.exporters he'⟩,
    ⟨s, getElem?_later hLeft.stations hs, getElem?_later hRight.stations hs'⟩,
    ⟨l, getElem?_later hLeft.lines hl, getElem?_later hRight.lines hl'⟩⟩

theorem SamePort.later (h : x.SamePort y n m) (hLeft : x.Grows x') (hRight : y.Grows y') :
    x'.SamePort y' n m := by
  obtain ⟨e, e', he, he', hSame⟩ := h
  exact ⟨e, e', getElem?_later hLeft.ports he, getElem?_later hRight.ports he',
    hSame.later hLeft hRight⟩

theorem SameGatherer.later (h : x.SameGatherer y n m) (hLeft : x.Grows x') (hRight : y.Grows y') :
    x'.SameGatherer y' n m := by
  obtain ⟨g, next, hg, hg'⟩ := h
  exact ⟨g, next, getElem?_later hLeft.gatherers hg, getElem?_later hRight.gatherers hg'⟩

theorem Alike.later (h : x.Alike y c d) (hLeft : x.Grows x') (hRight : y.Grows y') : x'.Alike y' c d :=
  h.mono (fun hSame => SamePort.later hSame hLeft hRight)
    (fun hSame => SameGatherer.later hSame hLeft hRight)

theorem SameComponent.later {listeners listeners' : Nat → Nat → Prop} {k k' : Component}
    (h : x.SameComponent y listeners k k') (hLeft : x.Grows x') (hRight : y.Grows y')
    (hListeners : ∀ {n m}, listeners n m → listeners' n m) : x'.SameComponent y' listeners' k k' := by
  cases h with
  | idle => exact .idle
  | gatherer hg hg' hSame hNext =>
      exact .gatherer (getElem?_later hLeft.gatherers hg) (getElem?_later hRight.gatherers hg')
        hSame (hNext.later hLeft hRight)
  | exporter hSame => exact .exporter (hSame.later hLeft hRight)
  | listener hSame => exact .listener (hListeners hSame)
  | memory hSame => exact .memory (by rw [hLeft.memory, hRight.memory, hSame])
  | files settings => exact .files settings

/-! ## Installations that look alike to the factories -/

/-- Two installations keep the same in memory, and whatever the first serves the second serves alike. -/
structure Level (x y : Installation) : Prop where
  left : x.InStep
  right : y.InStep
  memoryOf : ∀ id, x.memoryOf id = y.memoryOf id
  routes : ∀ {id type c}, x.route? id type = some c → ∃ d, y.route? id type = some d ∧ x.Alike y c d

/-- Components are the same but for what listeners that are shared under one id do. -/
def likeness : Likeness Installation Component where
  states := Level
  leaves := SamePort
  holds := SameGatherer
  components x y id := x.SameComponent y (x.SharedUnder y id)

theorem leads (hLeft : x.Grows x') (hRight : y.Grows y') (hLevel : x'.Level y') :
    likeness.Leads x y x' y' where
  states := hLevel
  leaves hSame := hSame.later hLeft hRight
  holds hSame := hSame.later hLeft hRight
  components hSame := hSame.later hLeft hRight
    fun hShared => ⟨hLeft.shared hShared.1, hRight.shared hShared.2⟩

theorem leads_of_spares (hLevel : x.Level y) (hLeft : x.Spares x') (hRight : y.Spares y') :
    likeness.Leads x y x' y' := by
  refine leads hLeft.grows hRight.grows ⟨hLeft.grows.inStep hLevel.left,
    hRight.grows.inStep hLevel.right, fun id => ?_, fun {id type c} hRoute => ?_⟩
  · rw [hLeft.grows.memoryOf, hRight.grows.memoryOf]
    exact hLevel.memoryOf id
  · rw [hLeft.route?_eq] at hRoute
    obtain ⟨d, hRoute', hAlike⟩ := hLevel.routes hRoute
    exact ⟨d, by rw [hRight.route?_eq, hRoute'], hAlike.later hLeft.grows hRight.grows⟩

/-! ## The factories -/

theorem ends_making {α β : Type} {R : Installation → Installation → β → β → Prop}
    {make make' : α → Installation → β × Installation} (hLevel : x.Level y)
    (hMake : ∀ s, likeness.Leads x y (make s x).2 (make' s y).2 ∧
      R (make s x).2 (make' s y).2 (make s x).1 (make' s y).1) (settings : Except ComponentError α) :
    likeness.Ends R x y (making settings make x) (making settings make' y) := by
  cases settings with
  | error e => exact Likeness.Leads.error (.refl hLevel) e
  | ok s => exact (hMake s).1.ok (hMake s).2

theorem inlets_addGatherer (s : BatchSettings) (hAlike : x.Alike y c d) :
    likeness.inlets id (x.addGatherer s c).2 (y.addGatherer s d).2 (x.addGatherer s c).1
      (y.addGatherer s d).1 := by
  have hLater := hAlike.later (spares_addGatherer s c).grows (spares_addGatherer s d).grows
  have hLeft : (x.addGatherer s c).2.gatherers[x.gatherers.length]? = some ⟨s, .empty, c, [], false⟩ :=
    List.getElem?_concat_length
  have hRight : (y.addGatherer s d).2.gatherers[y.gatherers.length]? = some ⟨s, .empty, d, [], false⟩ :=
    List.getElem?_concat_length
  exact ⟨.gatherer hLeft hRight rfl hLater, .gather ⟨_, d, hLeft, hRight⟩ hLater⟩

theorem getElem?_addExporter (h : x.InStep) (s : ExportSettings) (station : Station) :
    let w := (x.addExporter s station).2.exporting.state
    let n := x.exporting.state.lines.length
    w.outside.exporters[n]? = some ⟨s, x.exporting.state.outside.tokens.root.1, false, .zero⟩ ∧
      w.outside.outside.stations[n]? = some station ∧
      w.lines[n]? = some ⟨Queue.SendingQueue.ofSettings? s.queue, [], [], 0⟩ := by
  refine ⟨?_, ?_, List.getElem?_concat_length⟩
  · rw [← h.exporters]
    exact List.getElem?_concat_length
  · rw [← h.stations]
    exact List.getElem?_concat_length

theorem sameExporter_addExporter (hLevel : x.Level y) (s : ExportSettings) (station : Station) :
    (x.addExporter s station).2.SameExporter (y.addExporter s station).2
      x.exporting.state.lines.length y.exporting.state.lines.length := by
  obtain ⟨hExporter, hStation, hLine⟩ := getElem?_addExporter hLevel.left s station
  obtain ⟨hExporter', hStation', hLine'⟩ := getElem?_addExporter hLevel.right s station
  exact ⟨⟨_, _, hExporter, hExporter'⟩, ⟨_, hStation, hStation'⟩, ⟨_, hLine, hLine'⟩⟩

theorem inlets_addExporter (hLevel : x.Level y) (s : ExportSettings) (station : Station) :
    likeness.inlets id (x.addExporter s station).2 (y.addExporter s station).2
      (x.addExporter s station).1 (y.addExporter s station).1 := by
  have hSame := sameExporter_addExporter hLevel s station
  exact ⟨.exporter hSame,
    .leaf ⟨_, _, List.getElem?_concat_length, List.getElem?_concat_length, hSame⟩⟩

theorem ends_addExporter (hLevel : x.Level y) (s : ExportSettings) (station : Station) :
    likeness.Leads x y (x.addExporter s station).2 (y.addExporter s station).2 ∧
      likeness.inlets id (x.addExporter s station).2 (y.addExporter s station).2
        (x.addExporter s station).1 (y.addExporter s station).1 :=
  ⟨leads_of_spares hLevel (spares_addExporter s station) (spares_addExporter s station),
    inlets_addExporter hLevel s station⟩

theorem ends_addListener (hLevel : x.Level y) (s : ReceiverSettings) (hAlike : x.Alike y c d) :
    likeness.Ends (likeness.components · · id) x y (x.addListener id type s c)
      (y.addListener id type s d) := by
  obtain ⟨n, x', hAdd, hAdds⟩ := addsReceiver hLevel.left id type s c
  obtain ⟨m, y', hAdd', hAdds'⟩ := addsReceiver hLevel.right id type s d
  rw [hAdd, hAdd']
  refine (leads hAdds.grows hAdds'.grows ⟨hAdds.grows.inStep hLevel.left,
    hAdds'.grows.inStep hLevel.right, fun id' => ?_, fun {id' type' c'} hRoute => ?_⟩).ok ?_
  · rw [hAdds.grows.memoryOf, hAdds'.grows.memoryOf]
    exact hLevel.memoryOf id'
  · rw [hAdds.route?_eq] at hRoute
    rw [hAdds'.route?_eq]
    split at hRoute
    · rename_i hBoth
      cases hRoute
      exact ⟨d, if_pos hBoth, hAlike.later hAdds.grows hAdds'.grows⟩
    · rename_i hNot
      obtain ⟨d', hRoute', hSame⟩ := hLevel.routes hRoute
      exact ⟨d', by rw [if_neg hNot, hRoute'], hSame.later hAdds.grows hAdds'.grows⟩
  · exact .listener ⟨hAdds.shared, hAdds'.shared⟩

/-- The factories of an agent cannot tell installations apart that look alike to them. -/
theorem respects : likeness.Respects factories where
  receivers {_ f} hFactory id type v {c d x y} hLevel hAlike := by
    cases eq_otlpReceivers hFactory
    cases hSettings : settingsOf id ReceiverSettings.read v with
    | error e =>
        rw [create_of_error hSettings, create_of_error hSettings]
        exact Likeness.Leads.error (.refl hLevel) e
    | ok s =>
        rw [create_of_ok hSettings, create_of_ok hSettings]
        exact ends_addListener hLevel s hAlike
  processors {_ f} hFactory id type v {c d x y} hLevel hAlike := by
    rcases processor_cases hFactory with rfl | rfl
    · exact ends_making hLevel (fun s => ⟨leads_of_spares hLevel (spares_addGatherer s c)
        (spares_addGatherer s d), inlets_addGatherer s hAlike⟩) _
    · rw [resourceProcessors]
      dsimp only
      refine ends_making hLevel (fun edits => ?_) _
      exact ⟨.refl hLevel, .idle, .edit hAlike⟩
  exporters {_ f} hFactory id type v {x y} hLevel := by
    rcases exporter_cases hFactory with rfl | rfl
    · exact ends_making hLevel (fun s => ends_addExporter hLevel _ _) _
    · exact ends_making hLevel (fun s => ends_addExporter hLevel _ _) _
  connectors {_ f} hFactory id source target v {c d x y} hLevel hAlike := by
    rcases connector_cases hFactory with rfl | rfl
    · rw [forwardConnectors]
      dsimp only
      split
      · exact Likeness.Leads.ok (.refl hLevel) ⟨.idle, .pass hAlike⟩
      · exact Likeness.Leads.error (.refl hLevel) _
    · rw [countConnectors]
      dsimp only
      split
      · exact ends_making hLevel (fun s => ⟨.refl hLevel, .idle, .convert hAlike⟩) _
      · exact Likeness.Leads.error (.refl hLevel) _
  extensions {_ f} hFactory id v {x y} hLevel := by
    rcases extension_cases hFactory with rfl | rfl
    · rw [fileStorage]
      dsimp only
      refine ends_making hLevel (fun s => ?_) _
      exact ⟨.refl hLevel, .files s⟩
    · have hSame : (x.storeFor id).2.memory (x.storeFor id).1 = (y.storeFor id).2.memory (y.storeFor id).1 := by
        rw [memory_storeFor, memory_storeFor, hLevel.memoryOf]
      exact (leads_of_spares hLevel (spares_storeFor id x) (spares_storeFor id y)).ok (.memory hSame)

end Installation

end Telemetry.Agent

import Telemetry.Proofs.Agent.Likeness

/-!
# The traces of a failed build

A build that fails leaves the listeners of the receivers it had made. A later build with the same factories
finds them: a receiver of such an id gets the settings of the failed build, and serves its signals too.
Everything else that the later build makes is as if the failed one had never been tried.
-/

namespace Telemetry.Agent

namespace Installation

variable {x y x' y' : Installation} {n m : Nat} {id : ComponentId} {type : BatchType}
  {c₁ c₂ : ServiceConfig} {made wired : List NodeId}

/-- Listeners with the same settings that send the same signals to the same ends. -/
def SameListener (x y : Installation) (n m : Nat) : Prop :=
  ∃ l k, x.listeners[n]? = some l ∧ y.listeners[m]? = some k ∧ l.settings = k.settings ∧
    ∀ type, Option.Rel (x.Alike y) (l.routes type) (k.routes type)

/-- Components that are the same, listeners included. -/
def sameness : Likeness Installation Component where
  states _ _ := True
  leaves := SamePort
  holds := SameGatherer
  components x y _ := x.SameComponent y (x.SameListener y)

/-- No listener is shared, as when the factories are new. -/
structure Quiet (x : Installation) : Prop where
  inStep : x.InStep
  unshared : ∀ id, x.shared.get? id = none

theorem quiet_empty (network : Http.Network) : (empty network).Quiet := ⟨inStep_empty network, fun _ => rfl⟩

theorem Quiet.listener? (h : x.Quiet) (id : ComponentId) : x.listener? id = none := by
  rw [Installation.listener?, h.unshared, Option.bind_none]

theorem Quiet.route? (h : x.Quiet) (id : ComponentId) (type : BatchType) :
    x.route? id type = none := by
  rw [Installation.route?, h.listener?, Option.bind_none]

/-- Receivers that were made from one configuration do no harm to a service of another: where the service
has a receiver of the same id, it has it with the same settings, and for each signal that it was made for. -/
def Harmless (c₁ c₂ : ServiceConfig) (made wired : List NodeId) : Prop :=
  ∀ id (type other : BatchType), .receiver id type.signal ∈ made → .receiver id other.signal ∈ wired →
    receiverSettings c₁ id = receiverSettings c₂ id ∧ .receiver id type.signal ∈ wired

/-! ## What a build leaves of the first -/

theorem level_of_leaves (hQuiet : x.Quiet) (hFirst : Leaves c₁ x made y) : x.Level y where
  left := hQuiet.inStep
  right := hFirst.grows.inStep hQuiet.inStep
  memoryOf id := (hFirst.grows.memoryOf id).symm
  routes hRoute := by
    rw [hQuiet.route?] at hRoute
    cases hRoute

/-- The entries are those from before just if no receiver was made. -/
theorem entries_eq_iff (hQuiet : x.Quiet) (hFirst : Leaves c₁ x made y) :
    (∀ id, y.shared.get? id = x.shared.get? id) ↔
      ∀ id (type : BatchType), .receiver id type.signal ∉ made := by
  have hStep := hFirst.grows.inStep hQuiet.inStep
  have hEntry : ∀ id, (y.shared.get? id).isSome = true ↔
      ∃ type : BatchType, .receiver id type.signal ∈ made := by
    intro id
    rw [← hStep.isSome_listener?, hFirst.entry, hQuiet.listener?]
    simp
  constructor
  · intro hSame id type hMade
    have hSome := (hEntry id).mpr ⟨type, hMade⟩
    rw [hSame, hQuiet.unshared] at hSome
    cases hSome
  · intro hNothing id
    rw [hQuiet.unshared]
    refine Option.not_isSome_iff_eq_none.mp fun hSome => ?_
    obtain ⟨type, hMade⟩ := (hEntry id).mp hSome
    exact hNothing id type hMade

/-! ## Two builds of the second -/

/-- Two installations that one configuration was built in: one that was quiet, and one that had what the
build of another configuration left there. -/
structure Rebuilt (c₁ c₂ : ServiceConfig) (made wired : List NodeId) (x y x' y' : Installation) : Prop where
  quiet : x.Quiet
  first : Leaves c₁ x made y
  left : Leaves c₂ x wired x'
  right : Leaves c₂ y wired y'
  level : x'.Level y'

theorem Rebuilt.exists_listeners (h : Rebuilt c₁ c₂ made wired x y x' y')
    (hShared : x'.SharedUnder y' id n m) :
    ∃ l k, x'.listener? id = some l ∧ y'.listener? id = some k ∧ x'.listeners[n]? = some l ∧
      y'.listeners[m]? = some k := by
  have hLeft := List.getElem?_eq_getElem (h.level.left.lt_of_get? hShared.1)
  have hRight := List.getElem?_eq_getElem (h.level.right.lt_of_get? hShared.2)
  exact ⟨_, _, (listener?_of_get? hShared.1).trans hLeft, (listener?_of_get? hShared.2).trans hRight,
    hLeft, hRight⟩

/-- In the quiet installation a listener has the settings of the second configuration. -/
theorem Rebuilt.settings_left {l : Listener} (h : Rebuilt c₁ c₂ made wired x y x' y')
    (hListener : x'.listener? id = some l) : receiverSettings c₂ id = .ok l.settings := by
  rcases h.left.settings hListener with ⟨l₀, hOld, -⟩ | ⟨-, hSettings⟩
  · rw [h.quiet.listener?] at hOld
    cases hOld
  · exact hSettings

/-- In the other one it has those of the first configuration, if that had made it. -/
theorem Rebuilt.settings_right {k : Listener} (h : Rebuilt c₁ c₂ made wired x y x' y')
    (hListener : y'.listener? id = some k) :
    (∃ type : BatchType, .receiver id type.signal ∈ made) ∧ receiverSettings c₁ id = .ok k.settings ∨
      (∀ type : BatchType, .receiver id type.signal ∉ made) ∧ receiverSettings c₂ id = .ok k.settings := by
  rcases h.right.settings hListener with ⟨k₀, hOld, hSame⟩ | ⟨hNew, hSettings⟩
  · have hMade := h.first.entry.mp (by rw [hOld]; rfl)
    rcases h.first.settings hOld with ⟨l₀, hOlder, -⟩ | ⟨-, hSettings⟩
    · rw [h.quiet.listener?] at hOlder
      cases hOlder
    · rw [h.quiet.listener?] at hMade
      exact .inl ⟨hMade.resolve_left (by simp), by rw [hSettings, hSame]⟩
  · refine .inr ⟨fun type hMade => ?_, hSettings⟩
    have hSome := h.first.entry.mpr (.inr ⟨type, hMade⟩)
    rw [hNew] at hSome
    cases hSome

theorem Rebuilt.served_left (h : Rebuilt c₁ c₂ made wired x y x' y') :
    (x'.route? id type).isSome = true ↔ .receiver id type.signal ∈ wired := by
  rw [h.left.served, h.quiet.route?]
  simp

theorem Rebuilt.served_right (h : Rebuilt c₁ c₂ made wired x y x' y') :
    (y'.route? id type).isSome = true ↔
      .receiver id type.signal ∈ made ∨ .receiver id type.signal ∈ wired := by
  rw [h.right.served, h.first.served, h.quiet.route?]
  simp

theorem Rebuilt.sameListener (h : Rebuilt c₁ c₂ made wired x y x' y')
    (hHarmless : Harmless c₁ c₂ made wired) (hShared : x'.SharedUnder y' id n m) :
    x'.SameListener y' n m := by
  obtain ⟨l, k, hLeft, hRight, hl, hk⟩ := h.exists_listeners hShared
  have hWired := h.left.entry.mp (by rw [hLeft]; rfl)
  rw [h.quiet.listener?] at hWired
  obtain ⟨other, hWired⟩ := hWired.resolve_left (by simp)
  refine ⟨l, k, hl, hk, ?settings, fun type => ?routes⟩
  case settings =>
    have hSettings : receiverSettings c₂ id = .ok k.settings := by
      rcases h.settings_right hRight with ⟨⟨type, hMade⟩, hSettings⟩ | ⟨-, hSettings⟩
      · rw [← (hHarmless id type other hMade hWired).1, hSettings]
      · exact hSettings
    exact Except.ok.inj ((h.settings_left hLeft).symm.trans hSettings)
  case routes =>
    have hLeftRoute : x'.route? id type = l.routes type := by rw [route?, hLeft, Option.bind_some]
    have hRightRoute : y'.route? id type = k.routes type := by rw [route?, hRight, Option.bind_some]
    rw [← hLeftRoute, ← hRightRoute]
    rcases hServed : x'.route? id type with _ | c
    -- A signal that the service does not ask for could only come from the failed build.
    · have hNot : ¬ (x'.route? id type).isSome = true := by rw [hServed]; simp
      have hNone : y'.route? id type = none := by
        refine Option.not_isSome_iff_eq_none.mp fun hSome => hNot (h.served_left.mpr ?_)
        rcases h.served_right.mp hSome with hMade | hAlso
        · exact (hHarmless id type other hMade hWired).2
        · exact hAlso
      rw [hNone]
      exact .none
    · obtain ⟨d, hRoute, hAlike⟩ := h.level.routes hServed
      rw [hRoute]
      exact .some hAlike

theorem Rebuilt.harmless_at (h : Rebuilt c₁ c₂ made wired x y x' y')
    (hShared : x'.SharedUnder y' id n m) (hSame : x'.SameListener y' n m)
    (hMade : .receiver id type.signal ∈ made) :
    receiverSettings c₁ id = receiverSettings c₂ id ∧ .receiver id type.signal ∈ wired := by
  obtain ⟨l, k, hLeft, hRight, hl, hk⟩ := h.exists_listeners hShared
  obtain ⟨l', k', hl', hk', hSettings, hRoutes⟩ := hSame
  cases hl.symm.trans hl'
  cases hk.symm.trans hk'
  constructor
  · rcases h.settings_right hRight with ⟨-, hOld⟩ | ⟨hNothing, -⟩
    · rw [hOld, h.settings_left hLeft, hSettings]
    · exact absurd hMade (hNothing type)
  · have hServed := h.served_right.mpr (.inl hMade)
    rw [route?, hRight, Option.bind_some] at hServed
    rw [← h.served_left, route?, hLeft, Option.bind_some]
    have hRoute := hRoutes type
    generalize l.routes type = a at hRoute ⊢
    generalize k.routes type = b at hRoute hServed
    cases hRoute with
    | none => exact hServed
    | some hAlike => rfl

/-! ## Services -/

variable {v w : Service Component}

theorem sameness_of_likeness (h : likeness.Services x y v w)
    (hListeners : ∀ {id n m}, x.SharedUnder y id n m → x.SameListener y n m) :
    sameness.Services x y v w where
  extensions id := Likeness.rel_mono
    (fun hAlike => SameComponent.later hAlike .refl .refl hListeners) (h.extensions id)
  order := h.order
  graph :=
    { pipelines := h.graph.pipelines
      wiring := h.graph.wiring
      order := h.graph.order
      consumers := h.graph.consumers
      components := fun n => Likeness.rel_mono
        (fun hAlike id hId => SameComponent.later (hAlike id hId) .refl .refl hListeners)
        (h.graph.components n) }

/-- A receiver of a service is a listener. -/
theorem exists_listener (hBuild : (Service.build ⟨c₂, factories⟩ x).1 = .ok v)
    (hNode : .receiver id type.signal ∈ v.graph.wiring.nodes) :
    ∃ n, v.graph.components.get? (.receiver id type.signal) = some (.listener n) := by
  obtain ⟨-, -, s', hGraph⟩ := Service.build_eq_ok hBuild
  obtain ⟨ps, hBuilt⟩ := Graph.built_of_build hGraph
  obtain ⟨i, hMakes, hComponent, -⟩ := hBuilt.made _ (hBuilt.perm.mem_iff.mpr hNode)
  cases hMakes with
  | @receiver _ _ batch f next made x hType hFactory hNext hCreate =>
      cases eq_otlpReceivers hFactory
      cases hSettings : receiverSettings c₂ id with
      | error e =>
          rw [create_of_error hSettings] at hCreate
          cases hCreate
      | ok s =>
          obtain ⟨n, hListener⟩ := exists_fst_addListener x id batch s next
          rw [create_of_ok hSettings, hListener] at hCreate
          cases hCreate
          exact ⟨n, hComponent⟩
  | untyped hType hPart => cases hPart

theorem Rebuilt.sameness_iff (h : Rebuilt c₁ c₂ made v.graph.wiring.nodes x y x' y')
    (hBuild : (Service.build ⟨c₂, factories⟩ x).1 = .ok v) (hLike : likeness.Services x' y' v w) :
    sameness.Services x' y' v w ↔ Harmless c₁ c₂ made v.graph.wiring.nodes := by
  refine ⟨fun hSame id type other hMade hWired => ?_,
    fun hHarmless => sameness_of_likeness hLike (h.sameListener hHarmless)⟩
  obtain ⟨n, hLeft⟩ := exists_listener hBuild hWired
  obtain ⟨hNone, -⟩ | ⟨k, k', hk, hk', hAlike⟩ :=
    Likeness.rel_cases (hLike.graph.components (.receiver id other.signal))
  · cases hLeft.symm.trans hNone
  · cases hLeft.symm.trans hk
    cases hAlike id rfl with
    | @listener _ m hShared =>
        obtain ⟨hNone, -⟩ | ⟨k, k', hk, hk'', hAlso⟩ :=
          Likeness.rel_cases (hSame.graph.components (.receiver id other.signal))
        · cases hLeft.symm.trans hNone
        · cases hLeft.symm.trans hk
          cases hk'.symm.trans hk''
          cases hAlso id rfl with
          | listener hListener => exact h.harmless_at hShared hListener hMade

/-- A build that fails leaves the listeners of the receivers it made, so the entries are those from before
just if it made none. A later build fails or succeeds as if the failed one had never been tried, and all that
it makes is the same, but for the listeners. These are the same too just if every receiver that the failed
build made and whose id the later service uses has the same settings in both configurations, and the service
has it for every signal that it was made for. -/
theorem failed_build_leaves_no_trace_iff {e : GraphError} (hQuiet : x.Quiet)
    (hFail : Service.build ⟨c₁, factories⟩ x = (.error e, y)) :
    ((∀ id, y.shared.get? id = x.shared.get? id) ↔
      ∀ id (type : BatchType), .receiver id type.signal ∉ Service.made ⟨c₁, factories⟩ x) ∧
    ∀ c₂,
      (∃ e' x' y', Service.build ⟨c₂, factories⟩ x = (.error e', x') ∧
        Service.build ⟨c₂, factories⟩ y = (.error e', y')) ∨
      ∃ v w x' y', Service.build ⟨c₂, factories⟩ x = (.ok v, x') ∧
        Service.build ⟨c₂, factories⟩ y = (.ok w, y') ∧ likeness.Services x' y' v w ∧
        (sameness.Services x' y' v w ↔
          Harmless c₁ c₂ (Service.made ⟨c₁, factories⟩ x) v.graph.wiring.nodes) := by
  have hFirst := leaves_build c₁ hQuiet.inStep
  rw [hFail] at hFirst
  refine ⟨entries_eq_iff hQuiet hFirst, fun c₂ => ?_⟩
  have hEnds := respects.build (b := ⟨c₂, factories⟩) (level_of_leaves hQuiet hFirst)
  have hLeft := leaves_build c₂ hQuiet.inStep
  have hRight := leaves_build c₂ (hFirst.grows.inStep hQuiet.inStep)
  obtain ⟨e', x', y', hx, hy, -⟩ | ⟨v, w, x', y', hx, hy, hLeads, hLike⟩ := hEnds.cases
  · exact .inl ⟨e', x', y', hx, hy⟩
  · refine .inr ⟨v, w, x', y', hx, hy, hLike, ?_⟩
    rw [hx] at hLeft
    rw [hy] at hRight
    have hLeftMade := hLeft.congr fun n => Service.mem_made_iff (by rw [hx])
    have hRightMade := hRight.congr fun n => Service.mem_made_iff (x := w) (by rw [hy])
    rw [← hLike.graph.wiring] at hRightMade
    exact Rebuilt.sameness_iff ⟨hQuiet, hFirst, hLeftMade, hRightMade, hLeads.states⟩ (by rw [hx]) hLike

/-! ## A receiver that stays -/

namespace Relic

def faulty : ComponentId := ⟨⟨"otlp", rfl⟩, none⟩
def kept : ComponentId := ⟨⟨"otlp", rfl⟩, some ⟨"b", rfl⟩⟩
def log : ComponentId := ⟨⟨"debug", rfl⟩, none⟩

/-- A receiver with a limit on request bodies feeds one pipeline. -/
def config (pipeline : String) (limit : Nat) : ServiceConfig :=
  { ServiceConfig.empty with
    receivers := [(kept, .object [("max_request_body_size", .ofNat limit)])]
    exporters := [(log, .null)]
    service := ⟨[], [(pipeline, ⟨[kept], [], [log]⟩)]⟩ }

/-- The pipeline has a second receiver, with a member that is no field. -/
def broken : ServiceConfig :=
  { config "logs" 1 with
    receivers := [(faulty, .object [("port", .ofNat 4318)]),
      (kept, .object [("max_request_body_size", .ofNat 1)])]
    service := ⟨[], [("logs", ⟨[faulty, kept], [], [log]⟩)]⟩ }

/-- What the failed build leaves. -/
def leftover : Installation := (Service.build ⟨broken, factories⟩ (empty none)).2

/-- The limit of the listener and what it serves. -/
def view (x : Installation) : Option (Nat × List BatchType) :=
  (x.listener? kept).map fun l => (l.settings.maxRequestBodySize,
    [.traces, .metrics, .logs].filter fun type => (l.routes type).isSome)

theorem made_broken : Service.made ⟨broken, factories⟩ (empty none) =
    [.exporter log .logs, .fanOut ⟨.logs, none⟩, .capabilities ⟨.logs, none⟩,
      .receiver kept .logs] := by decide +kernel

theorem settings_broken : receiverSettings broken kept =
    .ok { ReceiverSettings.default with maxRequestBodySize := 1 } := by rfl

theorem settings_config : receiverSettings (config "traces" 2) kept =
    .ok { ReceiverSettings.default with maxRequestBodySize := 2 } := by rfl

end Relic

theorem failed_build_leaves_no_trace_iff_relic :
    ∃ e, Service.build ⟨Relic.broken, factories⟩ (empty none) = (.error e, Relic.leftover) ∧
      (∃ id, Relic.leftover.shared.get? id ≠ (empty none).shared.get? id) ∧
      (∃ v w x' y', Service.build ⟨Relic.config "logs" 1, factories⟩ (empty none) = (.ok v, x') ∧
        Service.build ⟨Relic.config "logs" 1, factories⟩ Relic.leftover = (.ok w, y') ∧
        sameness.Services x' y' v w) ∧
      ∃ v w x' y', Service.build ⟨Relic.config "traces" 2, factories⟩ (empty none) = (.ok v, x') ∧
        Service.build ⟨Relic.config "traces" 2, factories⟩ Relic.leftover = (.ok w, y') ∧
        ¬ sameness.Services x' y' v w := by
  obtain ⟨e, hFail⟩ : ∃ e, Service.build ⟨Relic.broken, factories⟩ (empty none) =
    (.error e, Relic.leftover) := ⟨_, rfl⟩
  obtain ⟨hEntries, hServices⟩ := failed_build_leaves_no_trace_iff (quiet_empty none) hFail
  rw [Relic.made_broken] at hEntries hServices
  refine ⟨e, hFail, ?trace, ?harmless, ?harmful⟩
  case trace =>
    refine not_forall.mp fun hSame => ?_
    exact hEntries.mp hSame Relic.kept .logs (by simp [BatchType.signal])
  case harmless =>
    rcases hServices (Relic.config "logs" 1) with ⟨e', x', y', hx, -⟩ | ⟨v, w, x', y', hx, hy, -, hIff⟩
    · cases hx
    · refine ⟨v, w, x', y', hx, hy, hIff.mpr fun id type other hMade _ => ?_⟩
      have hNode : NodeId.receiver id type.signal = .receiver Relic.kept .logs := by simpa using hMade
      obtain ⟨rfl, hSignal⟩ := NodeId.receiver.inj hNode
      rw [hSignal, ← Service.mem_made_iff (by rw [hx])]
      exact ⟨rfl, by decide +kernel⟩
  case harmful =>
    rcases hServices (Relic.config "traces" 2) with ⟨e', x', y', hx, -⟩ | ⟨v, w, x', y', hx, hy, -, hIff⟩
    · cases hx
    · refine ⟨v, w, x', y', hx, hy, fun hSame => ?_⟩
      have hWired : NodeId.receiver Relic.kept BatchType.traces.signal ∈ v.graph.wiring.nodes := by
        rw [← Service.mem_made_iff (by rw [hx])]
        decide +kernel
      have hSettings := (hIff.mp hSame Relic.kept .logs .traces (by simp [BatchType.signal]) hWired).1
      rw [Relic.settings_broken, Relic.settings_config] at hSettings
      cases hSettings

/-- The failed build leaves the receiver that was made before the faulty one. A later service that has this
receiver with another limit, for traces only, gets the old limit, and logs are still served. -/
theorem receiver_of_failed_build_stays :
    (Service.build ⟨Relic.broken, factories⟩ (empty none)).1.isOk = false ∧
      (empty none).shared.get? Relic.kept = none ∧
      Relic.leftover.shared.get? Relic.kept = some 0 ∧
      (Service.build ⟨Relic.config "traces" 2, factories⟩ (empty none)).1.isOk = true ∧
      (Service.build ⟨Relic.config "traces" 2, factories⟩ Relic.leftover).1.isOk = true ∧
      Relic.view (Service.build ⟨Relic.config "traces" 2, factories⟩ (empty none)).2 =
        some (2, [.traces]) ∧
      Relic.view (Service.build ⟨Relic.config "traces" 2, factories⟩ Relic.leftover).2 =
        some (1, [.traces, .logs]) :=
  ⟨rfl, rfl, rfl, rfl, rfl, rfl, rfl⟩

end Installation

end Telemetry.Agent

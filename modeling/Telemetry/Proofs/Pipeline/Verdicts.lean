import Telemetry.Proofs.Failure.Leaves
import Telemetry.Proofs.Flow.Dispatch
import Telemetry.Proofs.Pipeline.Delivery

/-!
# What a receiver hears

The consumer of a receiver answers once for all exporters that its batch comes to. A run that writes down
what each of them answered shows that nothing is lost on the way up: every fan-out asks all of its
branches, and however deep the errors are joined, the leaves of the answer are the leaves of what the
exporters said, in the order in which they were asked.
-/

namespace Telemetry

/-- What an exporter answered. -/
structure Verdict where
  /-- The nodes on the way of the batch, the last of which is the exporter. -/
  path : List NodeId
  outcome : Outcome

/-- The leaves of the error that an exporter answered with. -/
def Verdict.leaves (v : Verdict) : List ConsumeError :=
  (Outcome.errors v.outcome).flatMap ConsumeError.leaves

/-- An outcome stands for what several exporters answered. -/
structure Outcome.Reports (outcome : Outcome) (verdicts : List Verdict) : Prop where
  ok_iff : outcome = .ok () ↔ ∀ v ∈ verdicts, v.outcome = .ok ()
  leaves : ∀ e, outcome = .error e → e.leaves = verdicts.flatMap Verdict.leaves

/-- The errors that a fan-out has collected stand for what several exporters answered. -/
structure Tally (errors : List ConsumeError) (verdicts : List Verdict) : Prop where
  nil_iff : errors = [] ↔ ∀ v ∈ verdicts, v.outcome = .ok ()
  leaves : errors.flatMap ConsumeError.leaves = verdicts.flatMap Verdict.leaves

namespace Tally

variable {es es' : List ConsumeError} {vs vs' : List Verdict} {outcome : Outcome}

theorem nil : Tally [] [] := ⟨by simp, rfl⟩

theorem append (h : Tally es vs) (h' : Tally es' vs') : Tally (es ++ es') (vs ++ vs') where
  nil_iff := by rw [List.append_eq_nil_iff, h.nil_iff, h'.nil_iff, List.forall_mem_append]
  leaves := by rw [List.flatMap_append, List.flatMap_append, h.leaves, h'.leaves]

/-- A branch that fails adds its error to the others. -/
theorem of_reports (h : outcome.Reports vs) : Tally (Outcome.errors outcome) vs := by
  rcases outcome with e | _
  · refine ⟨?_, ?_⟩
    · simpa [Outcome.errors] using h.ok_iff
    · simpa [Outcome.errors] using h.leaves e rfl
  · have hOk := h.ok_iff.mp rfl
    have hNone : ∀ v ∈ vs, v.leaves = [] := fun v hv => by
      rw [Verdict.leaves, hOk v hv]
      rfl
    exact ⟨by simpa [Outcome.errors] using hOk, (List.flatMap_eq_nil_iff.mpr hNone).symm⟩

/-- What is collected is joined, whether it is nothing, one error or several. -/
theorem join (h : Tally es vs) : Outcome.Reports (ConsumeError.join es) vs where
  ok_iff := ConsumeError.join_eq_ok_iff.trans h.nil_iff
  leaves := fun _ hError => (ConsumeError.leaves_of_join hError).trans h.leaves

end Tally

namespace Outcome.Reports

variable {outcome : Outcome} {verdicts : List Verdict} {e : ConsumeError}

/-- An answer that an exporter gave is the whole answer where there is no other. -/
theorem single (path : List NodeId) (outcome : Outcome) : outcome.Reports [⟨path, outcome⟩] where
  ok_iff := by simp
  leaves := by
    rintro e rfl
    simp [Verdict.leaves, Outcome.errors]

theorem any_leaves (h : outcome.Reports verdicts) (hError : outcome = .error e)
    (p : ConsumeError → Bool) :
    e.leaves.any p = true ↔ ∃ v ∈ verdicts, ∃ e', v.outcome = .error e' ∧ e'.leaves.any p = true := by
  have hVerdict : ∀ v : Verdict, v.leaves.any p = true ↔
      ∃ e', v.outcome = .error e' ∧ e'.leaves.any p = true := by
    intro v
    rw [Verdict.leaves]
    rcases v.outcome with e' | _ <;> simp [Outcome.errors]
  rw [h.leaves e hError, List.any_flatMap, List.any_eq_true]
  simp only [hVerdict]

theorem isPermanent_iff (h : outcome.Reports verdicts) (hError : outcome = .error e) :
    e.isPermanent = true ↔ ∃ v ∈ verdicts, ∃ e', v.outcome = .error e' ∧ e'.isPermanent = true :=
  h.any_leaves hError _

theorem isQueueFull_iff (h : outcome.Reports verdicts) (hError : outcome = .error e) :
    e.isQueueFull = true ↔ ∃ v ∈ verdicts, ∃ e', v.outcome = .error e' ∧ e'.isQueueFull = true :=
  h.any_leaves hError _

end Outcome.Reports

/-! ## The run that writes the answers down -/

namespace Route

variable {σ : Type} {outlets : Outlets σ} {b : Handle} {h : Heap} {s : σ} {path : List NodeId}

mutual

/-- Consumes a batch and writes down what the exporters answer, given the way so far. -/
def consult (outlets : Outlets σ) :
    Route → List NodeId → Handle → Heap → σ → (Outcome × Heap × σ) × List Verdict
  | stop node consumer, path, b, h, s =>
    let answer := consumer.consume outlets b h s
    (answer, [⟨path ++ [node], answer.1⟩])
  | relay node layers [r], path, b, h, s =>
    let (b, h) := Layer.carryAll layers b h
    consult outlets r (path ++ [node]) b h s
  | relay node layers branches, path, b, h, s =>
    let (b, h) := Layer.carryAll layers b h
    let given := (eraseAll branches).all Consumer.mutates
    let ((errors, h, s), verdicts) := consultAll outlets given branches (path ++ [node]) b h s
    ((ConsumeError.join errors, h, s), verdicts)

/-- Hands a batch to consumers in turn and writes down what the exporters answer. -/
def consultAll (outlets : Outlets σ) (given : Bool) :
    List Route → List NodeId → Handle → Heap → σ → (List ConsumeError × Heap × σ) × List Verdict
  | [], _, b, h, s => (([], h.release b, s), [])
  | r :: rest, path, b, h, s =>
    if given && rest.isEmpty then
      let ((outcome, h, s), verdicts) := consult outlets r path b h s
      ((Outcome.errors outcome, h, s), verdicts)
    else
      let ((b, own), h) := if r.erase.mutates then h.duplicate b else h.share b
      let ((outcome, h, s), verdicts) := consult outlets r path own h s
      let ((errors, h, s), later) := consultAll outlets given rest path b h s
      ((Outcome.errors outcome ++ errors, h, s), verdicts ++ later)

end

mutual

/-- The ways on which a batch comes to exporters, in the order in which they are asked. -/
def exits : Route → List NodeId → List (List NodeId)
  | stop node _, path => [path ++ [node]]
  | relay node _ branches, path => exitsAll branches (path ++ [node])

/-- The ways on which a batch comes to exporters that is handed to several consumers. -/
def exitsAll : List Route → List NodeId → List (List NodeId)
  | [], _ => []
  | r :: rest, path => exits r path ++ exitsAll rest path

end

theorem exitsAll_eq_flatMap (rs : List Route) (path : List NodeId) :
    exitsAll rs path = rs.flatMap fun r => r.exits path := by
  induction rs with
  | nil => rfl
  | cons r rs ih => rw [exitsAll, ih, List.flatMap_cons]

/-- A run that writes answers down is the run of the consumer without labels. It asks the exporters on
the ways that lead to them, and its outcome stands for what they answer. -/
def Consults (outlets : Outlets σ) (r : Route) : Prop :=
  ∀ path b h s, ∃ verdicts,
    r.consult outlets path b h s = (r.erase.consume outlets b h s, verdicts) ∧
      verdicts.map Verdict.path = r.exits path ∧ (r.erase.consume outlets b h s).1.Reports verdicts

theorem exists_verdicts {given : Bool} {rs : List Route} (hBranches : ∀ r ∈ rs, r.Consults outlets) :
    ∃ verdicts, consultAll outlets given rs path b h s =
        (Consumer.dispatch outlets given (eraseAll rs) b h s, verdicts) ∧
      verdicts.map Verdict.path = exitsAll rs path ∧
      Tally (Consumer.dispatch outlets given (eraseAll rs) b h s).1 verdicts := by
  induction rs generalizing b h s with
  | nil => exact ⟨[], rfl, rfl, .nil⟩
  | cons r rest ih =>
      have hEmpty : (eraseAll rest).isEmpty = rest.isEmpty := by simp [eraseAll_eq_map]
      rw [consultAll, eraseAll, Consumer.dispatch, hEmpty, exitsAll]
      split
      · rename_i hLast
        have hNil : rest = [] := by simpa using (Bool.and_eq_true_iff.mp hLast).2
        obtain ⟨verdicts, hRun, hPaths, hReports⟩ := hBranches r List.mem_cons_self path b h s
        rw [hRun, hNil, exitsAll, List.append_nil]
        exact ⟨verdicts, rfl, hPaths, .of_reports hReports⟩
      · generalize (if r.erase.mutates then h.duplicate b else h.share b) = branch
        obtain ⟨⟨left, own⟩, h'⟩ := branch
        obtain ⟨verdicts, hRun, hPaths, hReports⟩ := hBranches r List.mem_cons_self path own h' s
        simp only
        rw [hRun]
        generalize r.erase.consume outlets own h' s = answer at hReports ⊢
        obtain ⟨outcome, h', s⟩ := answer
        obtain ⟨later, hRest, hLater, hTally⟩ := @ih left h' s fun r hr =>
          hBranches r (List.mem_cons_of_mem _ hr)
        simp only
        rw [hRest]
        refine ⟨verdicts ++ later, rfl, ?_, (Tally.of_reports hReports).append hTally⟩
        rw [List.map_append, hPaths, hLater]

theorem consults (outlets : Outlets σ) (r : Route) : r.Consults outlets := by
  induction r using Route.induction with
  | stop node consumer =>
      intro path b h s
      exact ⟨_, rfl, rfl, .single _ _⟩
  | relay node layers branches ih =>
      intro path b h s
      rw [erase, exits, Layer.consume_wrapAll]
      generalize hHandle : Layer.carryAll layers b h = carried
      obtain ⟨b', h'⟩ := carried
      by_cases hOne : ∃ r, branches = [r]
      · obtain ⟨r, rfl⟩ := hOne
        have hRun := ih r List.mem_cons_self (path ++ [node]) b' h' s
        rw [consult, hHandle]
        simpa [eraseAll, joined, exitsAll] using hRun
      · obtain ⟨verdicts, hRun, hPaths, hTally⟩ :=
          @exists_verdicts _ _ b' h' s (path ++ [node]) ((eraseAll branches).all Consumer.mutates)
            branches ih
        rw [consult, hHandle, joined_eraseAll hOne, Consumer.consume]
        · simp only
          rw [hRun]
          exact ⟨verdicts, rfl, hPaths, hTally.join⟩
        · exact fun r hr => hOne ⟨r, hr⟩

end Route

/-! ## The order in which exporters are asked -/

namespace Graph

variable {σ κ : Type} {b : Blueprint σ κ} {ps : Pipelines} {g : Graph κ} {n : NodeId}
  {way way' : List NodeId}

/-- One way is taken before another: where they part, it goes on to a node that gets the batch
earlier. -/
def Before (g : Graph κ) (way way' : List NodeId) : Prop :=
  ∃ shared n m m' rest rest', [m, m'].Sublist (g.wiring.successors n) ∧
    way = shared ++ n :: m :: rest ∧ way' = shared ++ n :: m' :: rest'

theorem Before.ne (hNodup : ∀ n, (g.wiring.successors n).Nodup) (h : g.Before way way') :
    way ≠ way' := by
  obtain ⟨shared, n, m, m', rest, rest', hOrder, rfl, rfl⟩ := h
  have hApart : m ≠ m' := by simpa using (hNodup n).sublist hOrder
  intro hSame
  have hTails := List.append_cancel_left hSame
  simp only [List.cons.injEq, true_and] at hTails
  exact hApart hTails.1

/-- A way that ends at an exporter. -/
def Exits (way : List NodeId) : Prop := way.getLast?.bind NodeId.kind? = some .exporter

instance : DecidablePred Exits := fun _ => inferInstanceAs (Decidable (_ = _))

theorem exits_append_iff (shared : List NodeId) (hWay : way ≠ []) :
    Exits (shared ++ way) ↔ Exits way := by
  rw [Exits, Exits, List.getLast?_append_of_ne_nil _ hWay]

/-- The exporters that a batch comes to: on every way that leads to one, once, and in the order in which
the nodes hand it on. -/
structure Asks (g : Graph κ) (start : NodeId) (ways : List (List NodeId)) : Prop where
  ordered : ways.Pairwise g.Before
  nodup : ways.Nodup
  mem_iff : ∀ way, way ∈ ways ↔ g.IsWay start way ∧ Exits way

end Graph

namespace Route

variable {κ : Type} {g : Graph κ} {layers : NodeId → List Layer} {r : Route} {path : List NodeId}

/-- A batch is answered where it arrives and goes no further. -/
theorem Follows.exits_eq (h : Follows g layers r) (content : Request) :
    r.exits path = ((r.arrivals path content).map Arrival.path).filter Graph.Exits := by
  induction h generalizing path content with
  | stop hKind hConsumer hNext => simp [exits, arrivals, Graph.Exits, hKind]
  | @relay n branches hKind hConsumer hNext hBranches ih =>
      rw [exits, arrivals, exitsAll_eq_flatMap, arrivalsAll_eq_flatMap, List.map_cons,
        List.filter_cons_of_neg (by simpa [Graph.Exits] using hKind), List.map_flatMap,
        List.filter_flatMap]
      exact List.flatMap_congr fun branch hBranch => ih branch hBranch _

theorem Follows.mem_exits_iff (h : Follows g layers r) {p : List NodeId} :
    p ∈ r.exits path ↔ ∃ way, g.IsWay r.node way ∧ Graph.Exits way ∧ p = path ++ way := by
  rw [h.exits_eq (.blank .traces), List.mem_filter, List.mem_map, decide_eq_true_iff]
  constructor
  · rintro ⟨⟨a, hArrival, rfl⟩, hExit⟩
    obtain ⟨way, hWay, rfl⟩ := h.mem_arrivals_iff.mp hArrival
    exact ⟨way, hWay, (Graph.exits_append_iff path hWay.ne_nil).mp hExit, rfl⟩
  · rintro ⟨way, hWay, hExit, rfl⟩
    exact ⟨⟨_, h.mem_arrivals_iff.mpr ⟨way, hWay, rfl⟩, rfl⟩,
      (Graph.exits_append_iff path hWay.ne_nil).mpr hExit⟩

/-- The exporters behind a branch are asked before those behind the next one. -/
theorem Follows.ordered_exits (h : Follows g layers r) : (r.exits path).Pairwise g.Before := by
  induction h generalizing path with
  | stop hKind hConsumer hNext => simp [exits]
  | @relay n branches hKind hConsumer hNext hBranches ih =>
      rw [exits, exitsAll_eq_flatMap, List.pairwise_flatMap, List.pairwise_iff_forall_sublist]
      refine ⟨fun branch hBranch => ih branch hBranch, fun {r r'} hOrder p hp p' hp' => ?_⟩
      have hMem : r ∈ branches ∧ r' ∈ branches := by
        constructor <;> exact hOrder.subset (by simp)
      obtain ⟨way, hWay, -, rfl⟩ := (hBranches r hMem.1).mem_exits_iff.mp hp
      obtain ⟨way', hWay', -, rfl⟩ := (hBranches r' hMem.2).mem_exits_iff.mp hp'
      obtain ⟨rest, rfl⟩ := List.head?_eq_some_iff.mp hWay.start
      obtain ⟨rest', rfl⟩ := List.head?_eq_some_iff.mp hWay'.start
      refine ⟨path, n, r.node, r'.node, rest, rest', ?_, by simp, by simp⟩
      rw [hNext]
      exact hOrder.map node

theorem Follows.asks (hNodup : ∀ n, (g.wiring.successors n).Nodup) (h : Follows g layers r) :
    g.Asks r.node (r.exits []) where
  ordered := h.ordered_exits
  nodup := h.ordered_exits.imp fun hBefore => hBefore.ne hNodup
  mem_iff way := by simpa using @Follows.mem_exits_iff _ _ _ _ [] h way

end Route

namespace Graph

variable {σ κ : Type} {b : Blueprint σ κ} {g : Graph κ} {id : ComponentId} {signal : Signal}

/-- Where the processors and connectors of a graph forward, a batch that is handed to the consumer of a
receiver is offered to the exporter at the end of each way, one after the other, whatever the exporters
answer. It is delivered if all of them take it. If not, the leaves of the error are those of what they
answered, and the error is permanent, or says that a queue is full, if one of theirs does. -/
theorem receiver_hears_every_exporter {s₀ : σ} (hBuild : (build b s₀).1 = .ok g)
    (hForward : g.Forwards b s₀) (hNode : .receiver id signal ∈ g.wiring.nodes) :
    ∃ (layers : NodeId → List Layer) (next : Consumer) (route : Route), HandedTo b g id signal next ∧
      route.Follows g layers ∧ route.node = .receiver id signal ∧ route.erase = next ∧
      ∀ {τ : Type} (outlets : Outlets τ) (batch : Handle) (h : Heap) (s : τ), ∃ verdicts,
        route.consult outlets [] batch h s = (next.consume outlets batch h s, verdicts) ∧
        g.Asks (.receiver id signal) (verdicts.map Verdict.path) ∧
        ((next.consume outlets batch h s).1 = .ok () ↔ ∀ v ∈ verdicts, v.outcome = .ok ()) ∧
        ∀ e, (next.consume outlets batch h s).1 = .error e →
          e.leaves = verdicts.flatMap Verdict.leaves ∧
          (e.isPermanent = true ↔
            ∃ v ∈ verdicts, ∃ e', v.outcome = .error e' ∧ e'.isPermanent = true) ∧
          (e.isQueueFull = true ↔
            ∃ v ∈ verdicts, ∃ e', v.outcome = .error e' ∧ e'.isQueueFull = true) := by
  obtain ⟨ps, hBuilt⟩ := built_of_build hBuild
  obtain ⟨layers, hLayers⟩ := hBuilt.exists_layers hBuild hForward
  obtain ⟨next, route, hHanded, hFollows, hRoot, hErase⟩ :=
    hBuilt.exists_handedTo_route hLayers (hBuilt.perm.mem_iff.mpr hNode)
  have hNodup : ∀ n, (g.wiring.successors n).Nodup := by
    rw [hBuilt.wiring]
    exact Blueprint.isProper_wiring.nodup
  refine ⟨layers, next, route, hHanded, hFollows, hRoot, hErase, fun outlets batch h s => ?_⟩
  obtain ⟨verdicts, hRun, hPaths, hReports⟩ := route.consults outlets [] batch h s
  rw [hErase] at hRun hReports
  refine ⟨verdicts, hRun, ?_, hReports.ok_iff, fun e hError => ⟨hReports.leaves e hError,
    hReports.isPermanent_iff hError, hReports.isQueueFull_iff hError⟩⟩
  rw [hPaths, ← hRoot]
  exact hFollows.asks hNodup

/-- Exporters that answer as they are told, one call after the other. -/
def Script.outlets : Outlets (List Outcome) where
  deliver _ _ h answers := (answers.head?.getD (.ok ()), h, answers.tail)
  hold _ b h answers := (some b, h, answers)
  clock _ := 0

/-- Of three calls of two exporters the first is answered with errors that are joined, the second one
with success, and the last one finds no room. -/
theorem receiver_hears_every_exporter_detour :
    let answers : List Outcome :=
      [.error (.joined [.cancelled, .joined [.permanent "refused"]]), .ok (), .error .queueFull]
    let (batch, h) := Heap.empty.new (.blank .traces)
    ∃ g next e, (build Agent.Detour.blueprint (.empty none)).1 = .ok g ∧
      g.Forwards Agent.Detour.blueprint (.empty none) ∧
      .receiver Agent.Detour.source .traces ∈ g.wiring.nodes ∧
      g.consumer? (.receiver Agent.Detour.source .traces) = some next ∧
      (next.consume Script.outlets batch h answers).1 = .error e ∧
      e.leaves = [.cancelled, .permanent "refused", .queueFull] ∧
      ∃ verdicts : List Verdict,
        g.Asks (.receiver Agent.Detour.source .traces) (verdicts.map Verdict.path) ∧
        verdicts.flatMap Verdict.leaves = e.leaves ∧
        (∃ v ∈ verdicts, ∃ e', v.outcome = .error e' ∧ e'.isPermanent = true) ∧
        ∃ v ∈ verdicts, ∃ e', v.outcome = .error e' ∧ e'.isQueueFull = true := by
  intro answers
  obtain ⟨g, next, e, hBuild, hHandsOn, hReceiver, hConsumer, hError, hLeaves⟩ :
      ∃ g next e, (build Agent.Detour.blueprint (.empty none)).1 = .ok g ∧
        (∀ n ∈ g.wiring.nodes, Agent.HandsOn n) ∧
        .receiver Agent.Detour.source .traces ∈ g.wiring.nodes ∧
        g.consumer? (.receiver Agent.Detour.source .traces) = some next ∧
        (next.consume Script.outlets (Heap.empty.new (.blank .traces)).1
          (Heap.empty.new (.blank .traces)).2 answers).1 = .error e ∧
        e.leaves = [.cancelled, .permanent "refused", .queueFull] :=
    ⟨_, _, _, rfl, by decide +kernel, by decide +kernel, rfl, rfl, rfl⟩
  have hForward := Agent.forwards_of_handsOn hBuild hHandsOn
  obtain ⟨layers, next', route, -, hFollows, hRoot, hErase, hRun⟩ :=
    receiver_hears_every_exporter hBuild hForward hReceiver
  have hSame : next' = next := by
    rw [← hRoot, hFollows.consumer?, hErase] at hConsumer
    exact Option.some.inj hConsumer
  subst hSame
  obtain ⟨verdicts, -, hAsks, -, hReport⟩ := hRun Script.outlets _ _ answers
  obtain ⟨hSays, hPermanent, hFull⟩ := hReport e hError
  refine ⟨g, next', e, hBuild, hForward, hReceiver, hConsumer, hError, hLeaves, verdicts, hAsks,
    hSays.symm, hPermanent.mp ?_, hFull.mp ?_⟩
  · rw [ConsumeError.isPermanent, hLeaves]
    rfl
  · rw [ConsumeError.isQueueFull, hLeaves]
    rfl

end Graph

end Telemetry

import Mathlib.Algebra.BigOperators.Ring.Finset
import Mathlib.Algebra.Order.BigOperators.Group.List
import Mathlib.Algebra.Order.Group.Nat
import Mathlib.Data.List.Forall2
import Telemetry.Agent.Factories
import Telemetry.Flow.Sink
import Telemetry.Proofs.Batch.Heap
import Telemetry.Proofs.Pipeline.Validation

/-!
# Counts of items

The items of a batch are counted twice: all of them, and those of each resource. Both counts are of the same
items, so that the points that are reported for the resources add up to the number of items of the batch, and
nothing is reported just if there are none.
-/

namespace Telemetry

open Wire (Message MessageType Value)

/-! ## The items of a batch -/

/-- The items in some groups of one scope: of metrics the points of whatever kind, otherwise the spans or log
records themselves. -/
def itemsOf (type : BatchType) (scopes : List ScopeGroup) : List Message :=
  match type with
  | .metrics => (scopes.flatMap ScopeGroup.items).flatMap metricPoints
  | .traces | .logs => scopes.flatMap ScopeGroup.items

/-- The items of a group of one resource. -/
def ResourceGroup.items (type : BatchType) (g : ResourceGroup) : List Message := itemsOf type g.scopes

/-- The items of a batch. -/
def Request.items (r : Request) : List Message := itemsOf r.type (r.groups.flatMap ResourceGroup.scopes)

theorem itemsOf_append (type : BatchType) (scopes others : List ScopeGroup) :
    itemsOf type (scopes ++ others) = itemsOf type scopes ++ itemsOf type others := by
  cases type <;> simp [itemsOf]

theorem length_itemsOf_cons (type : BatchType) (s : ScopeGroup) (scopes : List ScopeGroup) :
    (itemsOf type (s :: scopes)).length = s.itemCount type + (itemsOf type scopes).length := by
  cases type with
  | metrics =>
      rw [itemsOf, itemsOf, List.flatMap_cons, List.flatMap_append, List.length_append,
        List.length_flatMap, ScopeGroup.itemCount, pointCount]
      rfl
  | traces => exact (congrArg List.length List.flatMap_cons).trans List.length_append
  | logs => exact (congrArg List.length List.flatMap_cons).trans List.length_append

/-- The number of items of a group is that of its items. -/
theorem ResourceGroup.itemCount_eq_length (type : BatchType) (g : ResourceGroup) :
    g.itemCount type = (g.items type).length := by
  rw [itemCount, items]
  induction g.scopes with
  | nil => cases type <;> rfl
  | cons s scopes ih => rw [length_itemsOf_cons, ← ih, List.map_cons, List.foldr_cons]

namespace Request

variable {r : Request}

/-- The items of a batch are those of its groups. -/
theorem items_eq_flatMap (r : Request) : r.items = r.groups.flatMap (ResourceGroup.items r.type) := by
  rw [items]
  induction r.groups with
  | nil => cases r.type <;> rfl
  | cons g groups ih =>
      rw [List.flatMap_cons, itemsOf_append, ih, List.flatMap_cons]
      rfl

/-- The counts of the resources add up to the number of items. -/
theorem sum_countsPerResource (r : Request) : (r.countsPerResource.map Prod.snd).sum = r.itemCount := by
  rw [countsPerResource, List.map_map]
  rfl

/-- The number of items of a batch is that of its items. -/
theorem itemCount_eq_length (r : Request) : r.itemCount = r.items.length := by
  rw [items_eq_flatMap, List.length_flatMap, ← sum_countsPerResource, countsPerResource, List.map_map]
  exact congrArg List.sum (List.map_congr_left fun g _ => g.itemCount_eq_length r.type)

theorem itemCount_eq_zero_iff : r.itemCount = 0 ↔ ∀ g ∈ r.groups, g.items r.type = [] := by
  rw [itemCount_eq_length, List.length_eq_zero_iff, items_eq_flatMap, List.flatMap_eq_nil_iff]

end Request

/-! ## What is reported -/

namespace ItemCounts

variable {label : MetricLabel} {time : UInt64} {r : Request}

/-- The integer that a point holds. -/
def pointInteger (point : Message) : Int :=
  (point.wordAt (MessageType.numberPoint.indexOf "asInt")).toInt64.toInt

/-- The temporality of sums that hold what came since the last report. -/
def deltas : UInt64 := 1

/-- A metric that reports a count: it has no data but a sum, which holds what came since the last report and
does not fall, and the sum has one point, which has the count as its integer. -/
structure Tells (label : MetricLabel) (count : Nat) (metric : Message) : Prop where
  name : metric.textAt (MessageType.metric.indexOf "name") = label.name
  description : metric.textAt (MessageType.metric.indexOf "description") = label.description
  noOther : ∀ kind ∈ ["gauge", "histogram", "exponentialHistogram", "summary"],
    metric.slot (MessageType.metric.indexOf kind) = []
  sum : ∃ total point : Message, metric.slot (MessageType.metric.indexOf "sum") = [.message total] ∧
    total.slot (MessageType.sum.indexOf "aggregationTemporality") = [.word deltas] ∧
    total.slot (MessageType.sum.indexOf "isMonotonic") = [.word 1] ∧
    total.slot (MessageType.sum.indexOf "dataPoints") = [.message point] ∧
    metricPoints metric = [point] ∧
    point.slot (MessageType.numberPoint.indexOf "asDouble") = [] ∧
    point.slot (MessageType.numberPoint.indexOf "asInt") = [.word (.ofNat count)] ∧
    (count < 2 ^ 63 → pointInteger point = count)

theorem pointInteger_of_slot {point : Message} {count : Nat}
    (hSlot : point.slot (MessageType.numberPoint.indexOf "asInt") = [.word (.ofNat count)])
    (hBound : count < 2 ^ 63) : pointInteger point = count := by
  rw [pointInteger, Message.wordAt, hSlot]
  exact Int64.toInt_ofNat_of_lt hBound

theorem tells_metric (label : MetricLabel) (time : UInt64) (count : Nat) :
    Tells label count (metric label time count) where
  name := rfl
  description := rfl
  noOther kind hKind := by
    simp only [List.mem_cons, List.not_mem_nil, or_false] at hKind
    rcases hKind with rfl | rfl | rfl | rfl <;> rfl
  sum := ⟨_, _, rfl, rfl, rfl, rfl, rfl, rfl, rfl, pointInteger_of_slot rfl⟩

/-- A group that reports the number of items of another one, for the same resource. -/
structure Accounts (label : MetricLabel) (type : BatchType) (g report : ResourceGroup) : Prop where
  resource : report.resource = g.resource
  metric : ∃ metric, report.scopes = [⟨some scope, [metric], ""⟩] ∧
    Tells label (g.items type).length metric

theorem accounts_group (label : MetricLabel) (time : UInt64) (type : BatchType) (g : ResourceGroup) :
    Accounts label type g (group label time g.resource (g.itemCount type)) where
  resource := rfl
  metric := ⟨_, rfl, g.itemCount_eq_length type ▸ tells_metric label time _⟩

/-- The groups that have items are accounted for, in their order, and no others. -/
theorem accounts_ofRequest (label : MetricLabel) (time : UInt64) (r : Request) :
    List.Forall₂ (Accounts label r.type) (r.groups.filter fun g => 0 < (g.items r.type).length)
      (ofRequest label time r).groups := by
  simp only [ofRequest, Request.countsPerResource, List.filter_map, List.map_map,
    ← ResourceGroup.itemCount_eq_length]
  exact List.forall₂_map_right_iff.mpr (List.forall₂_same.mpr fun g _ => accounts_group label time r.type g)

theorem Accounts.items_eq {type : BatchType} {g report : ResourceGroup}
    (h : Accounts label type g report) : ∃ point, report.items .metrics = [point] ∧
      ((g.items type).length < 2 ^ 63 → pointInteger point = (g.items type).length) := by
  obtain ⟨metric, hScopes, hTells⟩ := h.metric
  obtain ⟨_, point, -, -, -, -, hPoints, -, -, hInteger⟩ := hTells.sum
  refine ⟨point, ?_, hInteger⟩
  rw [ResourceGroup.items, hScopes]
  simp [itemsOf, hPoints]

theorem map_pointInteger_of_accounts {type : BatchType} {groups reports : List ResourceGroup}
    (h : List.Forall₂ (Accounts label type) groups reports)
    (hBound : ∀ g ∈ groups, (g.items type).length < 2 ^ 63) :
    (reports.flatMap (ResourceGroup.items .metrics)).map pointInteger =
      groups.map fun g => ((g.items type).length : Int) := by
  induction h with
  | nil => rfl
  | cons hFirst _ ih =>
      obtain ⟨hHead, hTail⟩ := List.forall_mem_cons.mp hBound
      obtain ⟨point, hItems, hInteger⟩ := hFirst.items_eq
      rw [List.flatMap_cons, hItems, List.map_append, ih hTail, List.map_cons, List.map_nil,
        hInteger hHead, List.map_cons, List.singleton_append]

theorem sum_filter_pos {α : Type} (f : α → Nat) (l : List α) :
    ((l.filter fun a => 0 < f a).map f).sum = (l.map f).sum := by
  induction l with
  | nil => rfl
  | cons a l ih =>
      by_cases hPos : 0 < f a
      · rw [List.filter_cons_of_pos (by simpa using hPos), List.map_cons, List.sum_cons, ih, List.map_cons,
          List.sum_cons]
      · rw [List.filter_cons_of_neg (by simpa using hPos), ih, List.map_cons, List.sum_cons]
        omega

/-- The points that are reported add up to the number of items. -/
theorem sum_pointInteger_ofRequest (label : MetricLabel) (time : UInt64) (hBound : r.itemCount < 2 ^ 63) :
    ((ofRequest label time r).items.map pointInteger).sum = r.itemCount := by
  have hTotal : (r.groups.map fun g => (g.items r.type).length).sum = r.itemCount := by
    rw [Request.itemCount_eq_length, Request.items_eq_flatMap, List.length_flatMap]
  have hEach : ∀ g ∈ r.groups.filter fun g => 0 < (g.items r.type).length,
      (g.items r.type).length < 2 ^ 63 := by
    intro g hMem
    refine Nat.lt_of_le_of_lt (List.le_sum_of_mem ?_) (hTotal ▸ hBound)
    exact List.mem_map_of_mem (f := fun g => (g.items r.type).length) (List.mem_filter.mp hMem).1
  have hPoints := map_pointInteger_of_accounts (accounts_ofRequest label time r) hEach
  rw [Request.items_eq_flatMap, ← hTotal, ← sum_filter_pos, Nat.cast_list_sum, List.map_map]
  exact congrArg List.sum hPoints

theorem isEmpty_ofRequest_iff (label : MetricLabel) (time : UInt64) (r : Request) :
    (ofRequest label time r).groups.isEmpty = true ↔ r.itemCount = 0 := by
  have hLength := (accounts_ofRequest label time r).length_eq
  rw [List.isEmpty_iff_length_eq_zero, ← hLength, List.length_eq_zero_iff, List.filter_eq_nil_iff,
    Request.itemCount_eq_zero_iff]
  simp

/-- A batch that reports the counts of another one: the groups that have items are accounted for in their order,
and the points add up to the number of items. -/
structure Reports (label : MetricLabel) (r counts : Request) : Prop where
  type : counts.type = .metrics
  groups : List.Forall₂ (Accounts label r.type)
    (r.groups.filter fun g => 0 < (g.items r.type).length) counts.groups
  total : r.itemCount < 2 ^ 63 → (counts.items.map pointInteger).sum = r.itemCount

theorem reports_ofRequest (label : MetricLabel) (time : UInt64) (r : Request) :
    Reports label r (ofRequest label time r) :=
  ⟨rfl, accounts_ofRequest label time r, sum_pointInteger_ofRequest label time⟩

theorem ofRequest?_of_eq_zero (hNone : r.itemCount = 0) : ofRequest? label time r = none := by
  rw [ofRequest?, if_pos ((isEmpty_ofRequest_iff label time r).mpr hNone)]

theorem ofRequest?_of_pos (hSome : 0 < r.itemCount) :
    ofRequest? label time r = some (ofRequest label time r) := by
  rw [ofRequest?, if_neg fun hEmpty => Nat.ne_of_gt hSome ((isEmpty_ofRequest_iff label time r).mp hEmpty)]

end ItemCounts

namespace Agent

variable {id : ComponentId} {source target : BatchType} {v : Json} {next : Consumer}
  {made : Inlet Component} {x : Installation}

/-- A connector that counts items takes the counts to the consumer it was given. -/
theorem countConnectors_create_eq_ok (h : (countConnectors.create id source target v next x).1 = .ok made) :
    target = .metrics ∧ ∃ settings, CountSettings.read v = .ok settings ∧
      made.consumer = .convert (ItemCounts.ofRequest? (ItemCounts.labelOf settings source)) next := by
  by_cases hTarget : target = .metrics
  · cases hRead : CountSettings.read v with
    | error e =>
        simp only [countConnectors, hTarget, if_pos, settingsOf, hRead] at h
        cases h
    | ok settings =>
        simp only [countConnectors, hTarget, if_pos, settingsOf, hRead] at h
        cases h
        exact ⟨hTarget, settings, rfl, rfl⟩
  · simp only [countConnectors, hTarget, if_false] at h
    cases h

namespace Census

/-- A connector that counts spans, before a sink. -/
def connector : Inlet Component :=
  ⟨.idle, .convert (ItemCounts.ofRequest? CountSettings.default.spans) (.leaf false 0)⟩

theorem create_connector :
    (countConnectors.create ⟨⟨"count", by decide⟩, none⟩ .traces .metrics (.object []) (.leaf false 0)
      (.empty none)).1 = .ok connector := rfl

/-- A batch of two spans of one resource, a group that is empty, and a span of no known resource. -/
def batch : Request :=
  ⟨.traces,
    [⟨some .blank, [⟨none, [MessageType.span.blank], ""⟩, ⟨none, [MessageType.span.blank], ""⟩], ""⟩,
      .blank, ⟨none, [⟨none, [MessageType.span.blank], ""⟩], ""⟩]⟩

end Census

/-- A connector that counts items hands on one report of each batch that has items, and nothing of one that has
none: one group for each group with items, in their order and of their resources, whose one point has the number
of its items. The points add up to the number of items of the batch. -/
theorem counts_are_conserved (hCreate : (countConnectors.create id source target v next x).1 = .ok made) :
    target = .metrics ∧ ∃ settings, CountSettings.read v = .ok settings ∧
      ∀ {σ : Type} (outlets : Outlets σ) (b : Handle) (h : Heap) (s : σ) (refs : List Nat),
        h.Covers (b.ref :: refs) →
          ((h.read b).countsPerResource.map Prod.snd).sum = (h.read b).itemCount ∧
          (h.read b).itemCount = (h.read b).items.length ∧
          ((h.read b).itemCount = 0 → ∃ h', made.consumer.consume outlets b h s = (.ok (), h', s) ∧
            Heap.Keeps refs h h') ∧
          (0 < (h.read b).itemCount → ∃ b' h',
            made.consumer.consume outlets b h s = next.consume outlets b' h' s ∧ Heap.Keeps refs h h' ∧
            ItemCounts.Reports (ItemCounts.labelOf settings source) (h.read b) (h'.read b')) := by
  obtain ⟨hTarget, settings, hRead, hConsumer⟩ := countConnectors_create_eq_ok hCreate
  refine ⟨hTarget, settings, hRead, fun outlets b h s refs hCovers => ?_⟩
  refine ⟨Request.sum_countsPerResource _, Request.itemCount_eq_length _, fun hNone => ?_, fun hSome => ?_⟩
  · refine ⟨h.release b, ?_, Heap.keeps_release⟩
    simp only [hConsumer, Consumer.consume, Heap.take, ItemCounts.ofRequest?_of_eq_zero hNone]
  · have hReport := hCovers.exchanges_take_new
      (ItemCounts.ofRequest (ItemCounts.labelOf settings source) (outlets.clock s))
    refine ⟨_, _, ?_, hReport.keeps, hReport.read ▸ ItemCounts.reports_ofRequest _ _ _⟩
    simp only [hConsumer, Consumer.consume, Heap.take, ItemCounts.ofRequest?_of_pos hSome]

theorem counts_are_conserved_census :
    (countConnectors.create ⟨⟨"count", by decide⟩, none⟩ .traces .metrics (.object []) (.leaf false 0)
      (.empty none)).1 = .ok Census.connector ∧
    (Heap.empty.new Census.batch).2.Covers [(Heap.empty.new Census.batch).1.ref] ∧
    0 < Census.batch.itemCount ∧ Census.batch.itemCount < 2 ^ 63 ∧
    ∃ b h, Census.connector.consumer.consume Sinks.outlets (Heap.empty.new Census.batch).1
        (Heap.empty.new Census.batch).2 [.blank] =
      Consumer.consume Sinks.outlets (.leaf false 0) b h [.blank] ∧
      (h.read b).groups.length = 2 ∧ ((h.read b).items.map ItemCounts.pointInteger).sum = 3 := by
  have hCovers : (Heap.empty.new Census.batch).2.Covers [(Heap.empty.new Census.batch).1.ref] :=
    Heap.Covers.new (fun _ => Nat.zero_le _) _
  have hBound : Census.batch.itemCount < 2 ^ 63 := by decide
  refine ⟨Census.create_connector, hCovers, by decide, hBound, ?_⟩
  obtain ⟨-, settings, -, hCounts⟩ := counts_are_conserved Census.create_connector
  obtain ⟨-, -, -, hSome⟩ := hCounts Sinks.outlets _ _ [.blank] [] hCovers
  rw [Heap.read_new] at hSome
  obtain ⟨b, h, hRun, -, hReports⟩ := hSome (by decide)
  exact ⟨b, h, hRun, hReports.groups.length_eq.symm, hReports.total hBound⟩

end Agent

end Telemetry

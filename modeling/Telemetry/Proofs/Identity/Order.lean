import Telemetry.Identity.Node

/-!
# The orders of ids and nodes

Tables of ids and of nodes are kept by linear orders: each compares keys, one after the other, and the
keys of an id tell it apart from all others.
-/

namespace Telemetry

section Keys

variable {α β : Type}

theorem transCmp_on (cmp : β → β → Ordering) [Std.TransCmp cmp] (key : α → β) :
    Std.TransCmp fun a b => cmp (key a) (key b) where
  eq_swap := Std.OrientedCmp.eq_swap
  isLE_trans := Std.TransCmp.isLE_trans

theorem transCmp_then {first second : α → α → Ordering} (hFirst : Std.TransCmp first)
    (hSecond : Std.TransCmp second) : Std.TransCmp fun a b => (first a b).then (second a b) :=
  inferInstanceAs (Std.TransCmp (compareLex first second))

theorem lawfulEqCmp_of_eq {cmp : α → α → Ordering} (hSelf : ∀ a, cmp a a = .eq)
    (hEq : ∀ a b, cmp a b = .eq → a = b) : Std.LawfulEqCmp cmp where
  compare_self := hSelf _
  eq_of_compare := hEq _ _

end Keys

instance : Std.TransOrd Signal := transCmp_on compare Signal.rank

instance : Std.LawfulEqOrd Signal :=
  lawfulEqCmp_of_eq (fun a => by cases a <;> rfl) fun a b => by cases a <;> cases b <;> decide

instance : Std.TransOrd ComponentType := transCmp_on compare ComponentType.text

instance : Std.LawfulEqOrd ComponentType := by
  refine lawfulEqCmp_of_eq (fun a => ?_) ?_
  · exact (Std.ReflCmp.compare_self : compare a.text a.text = .eq)
  · intro ⟨a, _⟩ ⟨b, _⟩ h
    cases (Std.LawfulEqOrd.eq_of_compare h : a = b)
    rfl

/-- Names are compared as texts, of which none may be there. -/
theorem compareNames_eq :
    compareNames = fun a b => compare (a.map IdName.text) (b.map IdName.text) := by
  funext a b
  cases a <;> cases b <;> rfl

instance : Std.TransCmp compareNames := by
  rw [compareNames_eq]
  exact transCmp_on compare (Option.map IdName.text)

instance : Std.LawfulEqCmp compareNames := by
  rw [compareNames_eq]
  refine lawfulEqCmp_of_eq (fun a => Std.ReflCmp.compare_self) ?_
  intro a b h
  have hTexts := Std.LawfulEqOrd.eq_of_compare h
  rcases a with _ | ⟨a, _⟩ <;> rcases b with _ | ⟨b, _⟩ <;> simp_all

instance : Std.TransOrd ComponentId :=
  transCmp_then (transCmp_on compare ComponentId.type) (transCmp_on compareNames ComponentId.name)

instance : Std.LawfulEqOrd ComponentId := by
  refine lawfulEqCmp_of_eq (fun a => ?_) ?_
  · exact Ordering.then_eq_eq.mpr ⟨Std.ReflCmp.compare_self, Std.ReflCmp.compare_self⟩
  · intro ⟨a, m⟩ ⟨b, n⟩ h
    obtain ⟨hType, hName⟩ := Ordering.then_eq_eq.mp h
    cases (Std.LawfulEqOrd.eq_of_compare hType : a = b)
    cases (Std.LawfulEqCmp.eq_of_compare hName : m = n)
    rfl

instance : Std.TransOrd PipelineId :=
  transCmp_then (transCmp_on compare PipelineId.signal) (transCmp_on compareNames PipelineId.name)

instance : Std.LawfulEqOrd PipelineId := by
  refine lawfulEqCmp_of_eq (fun a => ?_) ?_
  · exact Ordering.then_eq_eq.mpr ⟨Std.ReflCmp.compare_self, Std.ReflCmp.compare_self⟩
  · intro ⟨a, m⟩ ⟨b, n⟩ h
    obtain ⟨hSignal, hName⟩ := Ordering.then_eq_eq.mp h
    cases (Std.LawfulEqOrd.eq_of_compare hSignal : a = b)
    cases (Std.LawfulEqCmp.eq_of_compare hName : m = n)
    rfl

namespace NodeId

/-- The pipeline that a node belongs to, if it belongs to one. -/
def pipeline? : NodeId → Option PipelineId
  | capabilities p | processor p _ | fanOut p => some p
  | receiver .. | exporter .. | connector .. => none

/-- The first of the signals that tell nodes of one component apart. -/
def source? : NodeId → Option Signal
  | receiver _ s | exporter _ s | connector _ s _ => some s
  | capabilities _ | processor .. | fanOut _ => none

/-- The signal that a connector leads to. -/
def target? : NodeId → Option Signal
  | connector _ _ t => some t
  | receiver .. | capabilities _ | processor .. | fanOut _ | exporter .. => none

/-- The parts of two nodes that tell them apart are compared one after the other. -/
theorem order_eq : order = fun m n =>
    ((((compare m.rank n.rank).then (compare m.pipeline? n.pipeline?)).then
      (compare m.componentId? n.componentId?)).then (compare m.source? n.source?)).then
        (compare m.target? n.target?) := by
  funext m n
  cases m <;> cases n <;>
    simp [order, rank, pipeline?, componentId?, source?, target?, Ordering.then_assoc] <;> rfl

theorem eq_of_parts_eq {m n : NodeId} (hRank : m.rank = n.rank) (hPipeline : m.pipeline? = n.pipeline?)
    (hId : m.componentId? = n.componentId?) (hSource : m.source? = n.source?)
    (hTarget : m.target? = n.target?) : m = n := by
  cases m <;> cases n <;> simp_all [rank, pipeline?, componentId?, source?, target?]

instance : Std.TransOrd NodeId := by
  change Std.TransCmp order
  rw [order_eq]
  exact transCmp_then (transCmp_then (transCmp_then (transCmp_then (transCmp_on compare rank)
    (transCmp_on compare pipeline?)) (transCmp_on compare componentId?))
      (transCmp_on compare source?)) (transCmp_on compare target?)

instance : Std.LawfulEqOrd NodeId := by
  change Std.LawfulEqCmp order
  rw [order_eq]
  refine lawfulEqCmp_of_eq (fun m => ?_) fun m n h => ?_
  · simp only [Std.ReflCmp.compare_self, Ordering.eq_then]
  · simp only [Ordering.then_eq_eq] at h
    obtain ⟨⟨⟨⟨hRank, hPipeline⟩, hId⟩, hSource⟩, hTarget⟩ := h
    exact eq_of_parts_eq (Std.LawfulEqOrd.eq_of_compare hRank)
      (Std.LawfulEqOrd.eq_of_compare hPipeline) (Std.LawfulEqOrd.eq_of_compare hId)
      (Std.LawfulEqOrd.eq_of_compare hSource) (Std.LawfulEqOrd.eq_of_compare hTarget)

end NodeId

end Telemetry

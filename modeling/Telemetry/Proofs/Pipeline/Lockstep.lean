import Mathlib.Data.List.Forall2
import Telemetry.Pipeline.Service
import Telemetry.Proofs.Pipeline.Building

/-!
# One configuration, built twice

A build starts from a state that the factories share. Two states may differ and still look alike to every
factory. Then the two builds either fail with one error or give services that are alike, part by part: the
builds are run side by side, node by node.
-/

namespace Telemetry

/-! ## What is alike -/

/-- Consumers of one form, at places that are alike. -/
inductive Consumer.Alike (leaves holds : Nat → Nat → Prop) : Consumer → Consumer → Prop
  | leaf {mutates : Bool} {n m : Nat} (hPlace : leaves n m) :
      Alike leaves holds (.leaf mutates n) (.leaf mutates m)
  | pass {mutates : Bool} {c d : Consumer} (hNext : Alike leaves holds c d) :
      Alike leaves holds (.pass mutates c) (.pass mutates d)
  | edit {change : Request → Request} {c d : Consumer} (hNext : Alike leaves holds c d) :
      Alike leaves holds (.edit change c) (.edit change d)
  | convert {derived : UInt64 → Request → Option Request} {c d : Consumer}
      (hNext : Alike leaves holds c d) : Alike leaves holds (.convert derived c) (.convert derived d)
  | gather {n m : Nat} {c d : Consumer} (hPlace : holds n m) (hNext : Alike leaves holds c d) :
      Alike leaves holds (.gather n c) (.gather m d)
  -- Branches are compared by position: induction does not go through a relation of lists.
  | fanOut {cs ds : List Consumer} (hLength : cs.length = ds.length)
      (hEach : ∀ i (h : i < cs.length) (h' : i < ds.length),
        Alike leaves holds (cs.get ⟨i, h⟩) (ds.get ⟨i, h'⟩)) :
      Alike leaves holds (.fanOut cs) (.fanOut ds)

namespace Consumer

variable {leaves holds leaves' holds' : Nat → Nat → Prop} {c d : Consumer} {cs ds : List Consumer}

theorem Alike.mono (hLeaves : ∀ {n m}, leaves n m → leaves' n m)
    (hHolds : ∀ {n m}, holds n m → holds' n m) (h : Alike leaves holds c d) :
    Alike leaves' holds' c d := by
  induction h with
  | leaf hPlace => exact .leaf (hLeaves hPlace)
  | pass _ ih => exact .pass ih
  | edit _ ih => exact .edit ih
  | convert _ ih => exact .convert ih
  | gather hPlace _ ih => exact .gather (hHolds hPlace) ih
  | fanOut hLength _ ih => exact .fanOut hLength ih

theorem Alike.mutates_eq (h : Alike leaves holds c d) : c.mutates = d.mutates := by
  cases h <;> rfl

theorem Alike.ofBranches? (h : List.Forall₂ (Alike leaves holds) cs ds) :
    Option.Rel (Alike leaves holds) (ofBranches? cs) (ofBranches? ds) := by
  cases h with
  | nil => exact .none
  | cons hFirst hRest =>
      cases hRest with
      | nil => exact .some hFirst
      | cons hSecond hRest =>
          obtain ⟨hLength, hEach⟩ := List.forall₂_iff_get.mp (.cons hFirst (.cons hSecond hRest))
          exact .some (.fanOut hLength hEach)

end Consumer

/-- Outcomes that are alike: one error, or results that are alike. -/
inductive Concur {ε α β : Type} (R : α → β → Prop) : Except ε α → Except ε β → Prop
  | ok {a : α} {b : β} (h : R a b) : Concur R (.ok a) (.ok b)
  | error (e : ε) : Concur R (.error e) (.error e)

/-- What counts as alike, given the states that two builds have reached. -/
structure Likeness (σ κ : Type) where
  /-- The states themselves. -/
  states : σ → σ → Prop
  /-- Ends of the pipelines, by number. -/
  leaves : σ → σ → Nat → Nat → Prop
  /-- Places where batches are held back, by number. -/
  holds : σ → σ → Nat → Nat → Prop
  /-- Components of an id. -/
  components : σ → σ → ComponentId → κ → κ → Prop

namespace Likeness

variable {σ κ ε α β : Type} {K : Likeness σ κ} {b : Blueprint σ κ} {g h : Graph κ} {n : NodeId}
  {s t s' t' s'' t'' : σ}

/-- Consumers that are alike. -/
def consumers (K : Likeness σ κ) (s t : σ) : Consumer → Consumer → Prop :=
  Consumer.Alike (K.leaves s t) (K.holds s t)

/-- Two builds go on: their states are alike again, and so is all that was alike before. -/
structure Leads (K : Likeness σ κ) (s t s' t' : σ) : Prop where
  states : K.states s' t'
  leaves : ∀ {n m}, K.leaves s t n m → K.leaves s' t' n m
  holds : ∀ {n m}, K.holds s t n m → K.holds s' t' n m
  components : ∀ {id c d}, K.components s t id c d → K.components s' t' id c d

theorem Leads.refl (hStates : K.states s t) : K.Leads s t s t := ⟨hStates, id, id, id⟩

theorem Leads.trans (hFirst : K.Leads s t s' t') (hSecond : K.Leads s' t' s'' t'') :
    K.Leads s t s'' t'' where
  states := hSecond.states
  leaves hPlace := hSecond.leaves (hFirst.leaves hPlace)
  holds hPlace := hSecond.holds (hFirst.holds hPlace)
  components hSame := hSecond.components (hFirst.components hSame)

theorem Leads.consumers {c d : Consumer} (hLeads : K.Leads s t s' t') (hAlike : K.consumers s t c d) :
    K.consumers s' t' c d :=
  hAlike.mono hLeads.leaves hLeads.holds

/-- Two builds take one step each, and the outcomes are alike. -/
structure Ends (K : Likeness σ κ) (R : σ → σ → α → α → Prop) (s t : σ) (r q : Except ε α × σ) :
    Prop where
  leads : K.Leads s t r.2 q.2
  concur : Concur (R r.2 q.2) r.1 q.1

variable {R : σ → σ → α → α → Prop}

theorem Ends.cases {r q : Except ε α × σ} (hEnds : K.Ends R s t r q) :
    (∃ e s' t', r = (.error e, s') ∧ q = (.error e, t') ∧ K.Leads s t s' t') ∨
      ∃ a a' s' t', r = (.ok a, s') ∧ q = (.ok a', t') ∧ K.Leads s t s' t' ∧ R s' t' a a' := by
  obtain ⟨r, s'⟩ := r
  obtain ⟨q, t'⟩ := q
  obtain ⟨hLeads, hConcur⟩ := hEnds
  cases hConcur with
  | error e => exact .inl ⟨e, s', t', rfl, rfl, hLeads⟩
  | ok hAlike => exact .inr ⟨_, _, s', t', rfl, rfl, hLeads, hAlike⟩

theorem Leads.error (hLeads : K.Leads s t s' t') (e : ε) :
    K.Ends R s t (.error e, s') (.error e, t') :=
  ⟨hLeads, .error e⟩

theorem Leads.ok {a a' : α} (hLeads : K.Leads s t s' t') (hAlike : R s' t' a a') :
    K.Ends (ε := ε) R s t (.ok a, s') (.ok a', t') :=
  ⟨hLeads, .ok hAlike⟩

theorem Ends.after {r q : Except ε α × σ} (hLeads : K.Leads s t s' t') (hEnds : K.Ends R s' t' r q) :
    K.Ends R s t r q :=
  ⟨hLeads.trans hEnds.leads, hEnds.concur⟩

/-- Components with the consumers that lead to them. -/
def inlets (K : Likeness σ κ) (id : ComponentId) (s t : σ) (i j : Inlet κ) : Prop :=
  K.components s t id i.component j.component ∧ K.consumers s t i.consumer j.consumer

/-- No factory can tell states apart that are alike. -/
structure Respects (K : Likeness σ κ) (f : Factories σ κ) : Prop where
  receivers : ∀ {type r}, f.receivers.get? type = some r → ∀ id batch v {c d s t}, K.states s t →
    K.consumers s t c d →
      K.Ends (K.components · · id) s t (r.create id batch v c s) (r.create id batch v d t)
  processors : ∀ {type p}, f.processors.get? type = some p → ∀ id batch v {c d s t}, K.states s t →
    K.consumers s t c d →
      K.Ends (K.inlets id) s t (p.create id batch v c s) (p.create id batch v d t)
  exporters : ∀ {type e}, f.exporters.get? type = some e → ∀ id batch v {s t}, K.states s t →
    K.Ends (K.inlets id) s t (e.create id batch v s) (e.create id batch v t)
  connectors : ∀ {type k}, f.connectors.get? type = some k → ∀ id source target v {c d s t},
    K.states s t → K.consumers s t c d →
      K.Ends (K.inlets id) s t (k.create id source target v c s) (k.create id source target v d t)
  extensions : ∀ {type x}, f.extensions.get? type = some x → ∀ id v {s t}, K.states s t →
    K.Ends (K.components · · id) s t (x.create id v s) (x.create id v t)

/-- Components of a node. -/
def parts (K : Likeness σ κ) (s t : σ) (n : NodeId) (c d : κ) : Prop :=
  ∀ id, n.componentId? = some id → K.components s t id c d

/-- Consumers with the type of their batches. -/
def inputs (K : Likeness σ κ) (s t : σ) (a b : BatchType × Consumer) : Prop :=
  a.1 = b.1 ∧ K.consumers s t a.2 b.2

theorem Leads.parts {c d : κ} (hLeads : K.Leads s t s' t') (hAlike : K.parts s t n c d) :
    K.parts s' t' n c d :=
  fun id hId => hLeads.components (hAlike id hId)

theorem Leads.inputs {a c : BatchType × Consumer} (hLeads : K.Leads s t s' t')
    (hAlike : K.inputs s t a c) : K.inputs s' t' a c :=
  ⟨hAlike.1, hLeads.consumers hAlike.2⟩

/-- What was made for one node. -/
structure Instances (K : Likeness σ κ) (n : NodeId) (s t : σ) (i j : Instance κ) : Prop where
  component : Option.Rel (K.parts s t n) i.component j.component
  consumer : Option.Rel (K.inputs s t) i.consumer j.consumer

/-- Graphs of one configuration, as far as they are built. -/
structure Graphs (K : Likeness σ κ) (s t : σ) (g h : Graph κ) : Prop where
  pipelines : g.pipelines = h.pipelines
  wiring : g.wiring = h.wiring
  order : g.order = h.order
  consumers : ∀ n, Option.Rel (K.inputs s t) (g.consumers.get? n) (h.consumers.get? n)
  components : ∀ n, Option.Rel (K.parts s t n) (g.components.get? n) (h.components.get? n)

theorem rel_cases {P : α → β → Prop} {a : Option α} {b : Option β} (hRel : Option.Rel P a b) :
    (a = none ∧ b = none) ∨ ∃ x y, a = some x ∧ b = some y ∧ P x y := by
  cases hRel with
  | none => exact .inl ⟨rfl, rfl⟩
  | some hSame => exact .inr ⟨_, _, rfl, rfl, hSame⟩

theorem rel_mono {P Q : α → β → Prop} {a : Option α} {b : Option β}
    (hMono : ∀ {x y}, P x y → Q x y) (hRel : Option.Rel P a b) : Option.Rel Q a b := by
  cases hRel with
  | none => exact .none
  | some hSame => exact .some (hMono hSame)

theorem Graphs.leads (hGraphs : K.Graphs s t g h) (hLeads : K.Leads s t s' t') : K.Graphs s' t' g h where
  pipelines := hGraphs.pipelines
  wiring := hGraphs.wiring
  order := hGraphs.order
  consumers n := rel_mono hLeads.inputs (hGraphs.consumers n)
  components n := rel_mono hLeads.parts (hGraphs.components n)

/-! ## One node -/

theorem Graphs.nextConsumers (hGraphs : K.Graphs s t g h) (type : BatchType) (n : NodeId) :
    List.Forall₂ (K.consumers s t) (g.nextConsumers type n) (h.nextConsumers type n) := by
  rw [Graph.nextConsumers, Graph.nextConsumers, hGraphs.wiring]
  refine List.rel_filterMap (R := Eq) ?_ (List.forall₂_eq_eq_eq ▸ rfl)
  rintro m _ rfl
  dsimp only
  obtain ⟨hLeft, hRight⟩ | ⟨a, c, hLeft, hRight, hType, hAlike⟩ := rel_cases (hGraphs.consumers m)
  · rw [hLeft, hRight]
    exact .none
  · rw [hLeft, hRight]
    dsimp only
    rw [hType]
    split
    · exact .some hAlike
    · exact .none

theorem Graphs.feed? (hGraphs : K.Graphs s t g h) (type : BatchType) (n : NodeId) :
    Option.Rel (K.consumers s t) (g.feed? type n) (h.feed? type n) :=
  Consumer.Alike.ofBranches? (hGraphs.nextConsumers type n)

theorem Graphs.head_nextConsumers (hGraphs : K.Graphs s t g h) (type : BatchType) (n : NodeId) :
    Option.Rel (K.consumers s t) (g.nextConsumers type n).head? (h.nextConsumers type n).head? := by
  have hNext := hGraphs.nextConsumers type n
  generalize g.nextConsumers type n = cs at hNext
  generalize h.nextConsumers type n = ds at hNext
  cases hNext with
  | nil => exact .none
  | cons hFirst _ => exact .some hFirst

theorem Graphs.chainMutates_eq (hGraphs : K.Graphs s t g h) (pipeline : PipelineId) :
    g.chainMutates pipeline = h.chainMutates pipeline := by
  rw [Graph.chainMutates, Graph.chainMutates, hGraphs.pipelines]
  congr 1
  funext n
  obtain ⟨hLeft, hRight⟩ | ⟨a, c, hLeft, hRight, -, hAlike⟩ := rel_cases (hGraphs.consumers n)
  · rw [hLeft, hRight]
  · rw [hLeft, hRight]
    exact hAlike.mutates_eq

theorem Ends.created {r q : Except ComponentError α × σ} {f f' : α → Instance κ}
    (hEnds : K.Ends R s t r q)
    (hMade : ∀ {s' t' a a'}, R s' t' a a' → K.Instances n s' t' (f a) (f' a')) :
    K.Ends (K.Instances n) s t (Graph.created n f r) (Graph.created n f' q) := by
  obtain ⟨e, s', t', rfl, rfl, hLeads⟩ | ⟨a, a', s', t', rfl, rfl, hLeads, hAlike⟩ := hEnds.cases
  · exact hLeads.error _
  · exact hLeads.ok (hMade hAlike)

theorem instances_ofInlet {id : ComponentId} {i j : Inlet κ} (type : BatchType)
    (hId : n.componentId? = some id) (hInlets : K.inlets id s t i j) :
    K.Instances n s t (.ofInlet type i) (.ofInlet type j) where
  component := .some fun id' hId' => by
    cases hId.symm.trans hId'
    exact hInlets.1
  consumer := .some ⟨rfl, hInlets.2⟩

theorem instances_through {c d : Consumer} (type : BatchType) (hAlike : K.consumers s t c d) :
    K.Instances n s t ⟨none, some (type, c)⟩ ⟨none, some (type, d)⟩ :=
  ⟨.none, .some ⟨rfl, hAlike⟩⟩

theorem Respects.instantiate (hRespects : K.Respects b.factories) (hStates : K.states s t)
    (hGraphs : K.Graphs s t g h) (type : BatchType) (n : NodeId) :
    K.Ends (K.Instances n) s t (g.instantiate b type n s) (h.instantiate b type n t) := by
  cases n with
  | exporter id signal =>
      rw [Graph.instantiate, Graph.instantiate]
      split
      · exact Leads.error (.refl hStates) _
      · rename_i f hFactory
        exact (hRespects.exporters hFactory id type _ hStates).created (instances_ofInlet type rfl)
  | fanOut pipeline =>
      rw [Graph.instantiate, Graph.instantiate]
      obtain ⟨hLeft, hRight⟩ | ⟨c, d, hLeft, hRight, hAlike⟩ :=
        rel_cases (hGraphs.feed? type (.fanOut pipeline))
      · rw [hLeft, hRight]
        exact Leads.error (.refl hStates) _
      · rw [hLeft, hRight]
        exact Leads.ok (.refl hStates) (instances_through type hAlike)
  | processor pipeline id =>
      rw [Graph.instantiate, Graph.instantiate]
      split
      · exact Leads.error (.refl hStates) _
      · rename_i f hFactory
        obtain ⟨hLeft, hRight⟩ | ⟨c, d, hLeft, hRight, hAlike⟩ :=
          rel_cases (hGraphs.head_nextConsumers type (.processor pipeline id))
        · rw [hLeft, hRight]
          exact Leads.error (.refl hStates) _
        · rw [hLeft, hRight]
          exact (hRespects.processors hFactory id type _ hStates hAlike).created
            (instances_ofInlet type rfl)
  | capabilities pipeline =>
      rw [Graph.instantiate, Graph.instantiate, hGraphs.chainMutates_eq]
      obtain ⟨hLeft, hRight⟩ | ⟨c, d, hLeft, hRight, hAlike⟩ :=
        rel_cases (hGraphs.head_nextConsumers type (.capabilities pipeline))
      · rw [hLeft, hRight]
        exact Leads.error (.refl hStates) _
      · rw [hLeft, hRight]
        exact Leads.ok (.refl hStates) (instances_through type (.pass hAlike))
  | receiver id signal =>
      rw [Graph.instantiate, Graph.instantiate]
      split
      · exact Leads.error (.refl hStates) _
      · rename_i f hFactory
        obtain ⟨hLeft, hRight⟩ | ⟨c, d, hLeft, hRight, hAlike⟩ :=
          rel_cases (hGraphs.feed? type (.receiver id signal))
        · rw [hLeft, hRight]
          exact Leads.error (.refl hStates) _
        · rw [hLeft, hRight]
          refine (hRespects.receivers hFactory id type _ hStates hAlike).created fun hSame => ?_
          refine ⟨.some fun id' hId => ?_, .none⟩
          cases hId
          exact hSame
  | connector id source target =>
      rw [Graph.instantiate, Graph.instantiate]
      split
      · exact Leads.error (.refl hStates) _
      · rename_i f hFactory
        split
        · exact Leads.error (.refl hStates) _
        · rename_i targetType hTarget
          obtain ⟨hLeft, hRight⟩ | ⟨c, d, hLeft, hRight, hAlike⟩ :=
            rel_cases (hGraphs.feed? targetType (.connector id source target))
          · rw [hLeft, hRight]
            exact Leads.error (.refl hStates) _
          · rw [hLeft, hRight]
            exact (hRespects.connectors hFactory id type targetType _ hStates hAlike).created
              (instances_ofInlet type rfl)

theorem Respects.make (hRespects : K.Respects b.factories) (hStates : K.states s t)
    (hGraphs : K.Graphs s t g h) (n : NodeId) :
    K.Ends (K.Instances n) s t (g.make b n s) (h.make b n t) := by
  rw [Graph.make, Graph.make]
  split
  · exact hRespects.instantiate hStates hGraphs _ n
  · split
    · exact Leads.error (.refl hStates) _
    · exact Leads.ok (.refl hStates) ⟨.none, .none⟩

/-! ## All nodes -/

theorem rel_get?_insert {ι : Type} [Ord ι] [Std.LawfulEqOrd ι] {P : ι → α → α → Prop}
    {a a' : Table ι α} {k : ι} {c c' : α} (hSame : P k c c')
    (hRest : ∀ m, Option.Rel (P m) (a.get? m) (a'.get? m)) (m : ι) :
    Option.Rel (P m) ((a.insert k c).get? m) ((a'.insert k c').get? m) := by
  by_cases hKey : m = k
  · subst hKey
    rw [Table.get?_insert_self, Table.get?_insert_self]
    exact .some hSame
  · rw [Table.get?_insert_of_ne hKey, Table.get?_insert_of_ne hKey]
    exact hRest m

theorem Graphs.put {i j : Instance κ} (hGraphs : K.Graphs s t g h)
    (hInstances : K.Instances n s t i j) : K.Graphs s t (g.put n i) (h.put n j) := by
  obtain ⟨component, consumer⟩ := i
  obtain ⟨component', consumer'⟩ := j
  obtain ⟨hComponent, hConsumer⟩ := hInstances
  refine ⟨hGraphs.pipelines, hGraphs.wiring, hGraphs.order, ?consumers, ?components⟩
  case consumers =>
    cases hConsumer with
    | none => exact hGraphs.consumers
    | some hSame => exact rel_get?_insert (P := fun _ => K.inputs s t) hSame hGraphs.consumers
  case components =>
    cases hComponent with
    | none => exact hGraphs.components
    | some hSame => exact rel_get?_insert (P := K.parts s t) hSame hGraphs.components

theorem Respects.makeAll (hRespects : K.Respects b.factories) (nodes : List NodeId)
    (hStates : K.states s t) (hGraphs : K.Graphs s t g h) :
    K.Ends K.Graphs s t (Graph.makeAll b nodes g s) (Graph.makeAll b nodes h t) := by
  -- Both graphs and both states move on together, so the induction is for all of them.
  induction nodes generalizing g h s t with
  | nil => exact Leads.ok (.refl hStates) hGraphs
  | cons n nodes ih =>
      rw [Graph.makeAll, Graph.makeAll]
      obtain ⟨e, s', t', hLeft, hRight, hLeads⟩ | ⟨i, j, s', t', hLeft, hRight, hLeads, hSame⟩ :=
        (hRespects.make hStates hGraphs n).cases
      · rw [hLeft, hRight]
        exact hLeads.error e
      · rw [hLeft, hRight]
        exact (ih hLeads.states ((hGraphs.leads hLeads).put hSame)).after hLeads

/-- Two builds of one graph. -/
theorem Respects.buildGraph (hRespects : K.Respects b.factories) (hStates : K.states s t) :
    K.Ends K.Graphs s t (Graph.build b s) (Graph.build b t) := by
  rw [Graph.build, Graph.build]
  split
  · exact Leads.error (.refl hStates) _
  · rename_i g hPlan
    obtain ⟨ps, -, hPlan⟩ := bind_eq_ok_iff.mp hPlan
    obtain ⟨hStart, -⟩ := Graph.plan_eq_ok hPlan
    refine hRespects.makeAll _ hStates ⟨rfl, rfl, rfl, fun n => ?_, fun n => ?_⟩
    · rw [hStart]
      exact .none
    · rw [hStart]
      exact .none

/-! ## Services -/

/-- Extensions by id. -/
def tables (K : Likeness σ κ) (s t : σ) (a c : Table ComponentId κ) : Prop :=
  ∀ id, Option.Rel (K.components s t id) (a.get? id) (c.get? id)

/-- Services of one configuration. -/
structure Services (K : Likeness σ κ) (s t : σ) (x y : Service κ) : Prop where
  extensions : K.tables s t x.extensions y.extensions
  order : x.order = y.order
  graph : K.Graphs s t x.graph y.graph

theorem Leads.tables {a c : Table ComponentId κ} (hLeads : K.Leads s t s' t')
    (hTables : K.tables s t a c) : K.tables s' t' a c :=
  fun id => rel_mono hLeads.components (hTables id)

theorem Respects.createExtension (hRespects : K.Respects b.factories) (hStates : K.states s t)
    (id : ComponentId) :
    K.Ends (K.components · · id) s t (Service.createExtension b id s)
      (Service.createExtension b id t) := by
  rw [Service.createExtension, Service.createExtension]
  split
  · exact Leads.error (.refl hStates) _
  · rename_i user hUser
    split
    · exact Leads.error (.refl hStates) _
    · rename_i f hFactory
      obtain ⟨e, s', t', hLeft, hRight, hLeads⟩ | ⟨c, d, s', t', hLeft, hRight, hLeads, hSame⟩ :=
        (hRespects.extensions hFactory id (Json.overlay f.defaults user) hStates).cases
      · rw [hLeft, hRight]
        exact hLeads.error _
      · rw [hLeft, hRight]
        exact hLeads.ok hSame

theorem Respects.createExtensions (hRespects : K.Respects b.factories) (ids : List ComponentId)
    {a c : Table ComponentId κ} (hStates : K.states s t) (hTables : K.tables s t a c) :
    K.Ends K.tables s t (Service.createExtensions b ids a s) (Service.createExtensions b ids c t) := by
  induction ids generalizing a c s t with
  | nil => exact Leads.ok (.refl hStates) hTables
  | cons id ids ih =>
      rw [Service.createExtensions, Service.createExtensions]
      obtain ⟨e, s', t', hLeft, hRight, hLeads⟩ | ⟨x, y, s', t', hLeft, hRight, hLeads, hSame⟩ :=
        (hRespects.createExtension hStates id).cases
      · rw [hLeft, hRight]
        exact hLeads.error e
      · rw [hLeft, hRight]
        exact (ih hLeads.states (rel_get?_insert hSame (hLeads.tables hTables))).after hLeads

/-- Two builds of one service: when no factory can tell the states apart, both fail with one error or give
services that are alike. -/
theorem Respects.build (hRespects : K.Respects b.factories) (hStates : K.states s t) :
    K.Ends K.Services s t (Service.build b s) (Service.build b t) := by
  rw [Service.build, Service.build]
  obtain ⟨e, s', t', hLeft, hRight, hLeads⟩ | ⟨a, c, s', t', hLeft, hRight, hLeads, hTables⟩ :=
    (hRespects.createExtensions b.config.service.extensions hStates (a := []) (c := [])
      fun _ => .none).cases
  · rw [hLeft, hRight]
    exact hLeads.error e
  · rw [hLeft, hRight]
    dsimp only
    obtain ⟨e, s'', t'', hLeft, hRight, hRest⟩ | ⟨g, h, s'', t'', hLeft, hRight, hRest, hGraphs⟩ :=
      (hRespects.buildGraph hLeads.states).cases
    · rw [hLeft, hRight]
      exact (hLeads.trans hRest).error e
    · rw [hLeft, hRight]
      exact (hLeads.trans hRest).ok ⟨hRest.tables hTables, rfl, hGraphs⟩

end Likeness

end Telemetry

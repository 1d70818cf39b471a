import Telemetry.Agent.Factories
import Telemetry.Agent.Running
import Telemetry.Proofs.Flow.Custody
import Telemetry.Proofs.Http.Receptions
import Telemetry.Proofs.Pipeline.Progress

/-!
# How listeners are made and serve

The receivers that listen for requests are shared under their ids. The first receiver that is made for an
id makes the listener, with its settings; each receiver after that only adds a signal. Nothing else that
is made touches a listener, and what is there already stays as it is, whatever is added.

To consume a batch touches no listener either, so that each of them tells, however many requests it gets,
how many of its own batches were delivered.
-/

namespace Telemetry

theorem BatchType.ofSignal?_eq_some_iff {signal : Signal} {type : BatchType} :
    ofSignal? signal = some type ↔ signal = type.signal := by
  cases signal <;> cases type <;> simp [ofSignal?, BatchType.signal]

theorem BatchType.signal_inj {type type' : BatchType} : type.signal = type'.signal ↔ type = type' := by
  cases type <;> cases type' <;> simp [BatchType.signal]

namespace Agent

open Storage (MemoryStore)

/-- A listener that sends the batches of a type to a consumer. -/
def Listener.feed (type : BatchType) (next : Consumer) (l : Listener) : Listener :=
  { l with routes := l.routes.set type next }

namespace Installation

variable {x x' x'' : Installation} {id : ComponentId} {type : BatchType} {n : Nat}

/-! ## States in which the numbers fit -/

/-- The parts of an exporter have one number, and so have the parts of a listener. -/
structure InStep (x : Installation) : Prop where
  exporters : x.exporting.state.outside.exporters.length = x.exporting.state.lines.length
  stations : x.exporting.state.outside.outside.stations.length = x.exporting.state.lines.length
  made : x.shared.made.map SharedComponent.inner = List.range x.listeners.length
  live : ∀ {id n}, x.shared.get? id = some n → x.shared.made[n]?.map SharedComponent.id = some id

theorem inStep_empty (network : Http.Network) : (empty network).InStep where
  exporters := rfl
  stations := rfl
  made := rfl
  live h := by cases h

theorem InStep.length_made (h : x.InStep) : x.shared.made.length = x.listeners.length := by
  have hLength := congrArg List.length h.made
  rwa [List.length_map, List.length_range] at hLength

theorem InStep.lt_of_get? (h : x.InStep) (hGet : x.shared.get? id = some n) : n < x.listeners.length := by
  obtain ⟨c, hMade, -⟩ := Option.map_eq_some_iff.mp (h.live hGet)
  rw [← h.length_made]
  exact (List.getElem?_eq_some_iff.mp hMade).1

theorem InStep.inner?_eq (h : x.InStep) (hGet : x.shared.get? id = some n) :
    x.shared.inner? n = some n := by
  rw [SharedComponents.inner?, ← List.getElem?_map, h.made,
    List.getElem?_range (h.lt_of_get? hGet)]

/-- Ids do not share a listener. -/
theorem InStep.id_eq {id' : ComponentId} (h : x.InStep) (hGet : x.shared.get? id = some n)
    (hGet' : x.shared.get? id' = some n) : id = id' :=
  Option.some_inj.mp ((h.live hGet).symm.trans (h.live hGet'))

/-- The listener that is shared under an id. -/
def listener? (x : Installation) (id : ComponentId) : Option Listener :=
  (x.shared.get? id).bind fun n => x.listeners[n]?

/-- Where the listener of an id sends the batches of a type. -/
def route? (x : Installation) (id : ComponentId) (type : BatchType) : Option Consumer :=
  (x.listener? id).bind fun l => l.routes type

theorem listener?_of_get? (hGet : x.shared.get? id = some n) : x.listener? id = x.listeners[n]? := by
  rw [listener?, hGet, Option.bind_some]

theorem InStep.isSome_listener? (h : x.InStep) :
    (x.listener? id).isSome = (x.shared.get? id).isSome := by
  cases hGet : x.shared.get? id with
  | none =>
      rw [listener?, hGet]
      rfl
  | some n =>
      rw [listener?_of_get? hGet, List.getElem?_eq_getElem (h.lt_of_get? hGet)]
      rfl

/-! ## What stays -/

/-- The store in memory with a number. -/
def memory (x : Installation) (store : Nat) : MemoryStore := x.exporting.state.storage.memory store

/-- What the store in memory of an id keeps; an id without a store has nothing kept. -/
def memoryOf (x : Installation) (id : ComponentId) : MemoryStore :=
  (x.stores.get? id).elim [] x.memory

/-- What an installation has, it still has later, under the same numbers. -/
structure Grows (x x' : Installation) : Prop where
  inStep : x.InStep → x'.InStep
  ports : x.ports <+: x'.ports
  gatherers : x.gatherers <+: x'.gatherers
  exporters : x.exporting.state.outside.exporters <+: x'.exporting.state.outside.exporters
  stations : x.exporting.state.outside.outside.stations <+: x'.exporting.state.outside.outside.stations
  lines : x.exporting.state.lines <+: x'.exporting.state.lines
  memory : ∀ store, x'.memory store = x.memory store
  memoryOf : ∀ id, x'.memoryOf id = x.memoryOf id
  shared : ∀ {id n}, x.shared.get? id = some n → x'.shared.get? id = some n

theorem Grows.refl : x.Grows x :=
  ⟨id, List.prefix_refl _, List.prefix_refl _, List.prefix_refl _, List.prefix_refl _,
    List.prefix_refl _, fun _ => rfl, fun _ => rfl, id⟩

theorem Grows.trans (h : x.Grows x') (h' : x'.Grows x'') : x.Grows x'' where
  inStep hStep := h'.inStep (h.inStep hStep)
  ports := h.ports.trans h'.ports
  gatherers := h.gatherers.trans h'.gatherers
  exporters := h.exporters.trans h'.exporters
  stations := h.stations.trans h'.stations
  lines := h.lines.trans h'.lines
  memory store := (h'.memory store).trans (h.memory store)
  memoryOf id := (h'.memoryOf id).trans (h.memoryOf id)
  shared hGet := h'.shared (h.shared hGet)

/-- An installation grows and its listeners stay as they are. -/
structure Spares (x x' : Installation) : Prop where
  grows : x.Grows x'
  listeners : x'.listeners = x.listeners
  shared : x'.shared = x.shared

theorem Spares.refl : x.Spares x := ⟨.refl, rfl, rfl⟩

theorem Spares.listener?_eq (h : x.Spares x') : x'.listener? id = x.listener? id := by
  rw [listener?, listener?, h.shared, h.listeners]

theorem Spares.route?_eq (h : x.Spares x') : x'.route? id type = x.route? id type := by
  rw [route?, route?, h.listener?_eq]

theorem spares_addGatherer (s : BatchSettings) (next : Consumer) : x.Spares (x.addGatherer s next).2 where
  grows := { Grows.refl (x := x) with
    inStep := fun h => ⟨h.exporters, h.stations, h.made, h.live⟩
    gatherers := List.prefix_append _ _ }
  listeners := rfl
  shared := rfl

theorem spares_addExporter (s : ExportSettings) (station : Station) :
    x.Spares (x.addExporter s station).2 where
  grows := { Grows.refl (x := x) with
    inStep := fun h => by
      refine ⟨?_, ?_, h.made, h.live⟩
      · change (_ ++ [_]).length = (_ ++ [_]).length
        rw [List.length_append, List.length_append, h.exporters]
        rfl
      · change (x.exporting.state.outside.outside.stations ++ [_]).length = (_ ++ [_]).length
        rw [List.length_append, List.length_append, h.stations]
        rfl
    ports := List.prefix_append _ _
    exporters := List.prefix_append _ _
    stations := List.prefix_append _ _
    lines := List.prefix_append _ _ }
  listeners := rfl
  shared := rfl

/-- A store that was just made keeps nothing, and so does one that was never made. -/
theorem memory_newMemory (v : Storage.Vault) (store : Nat) : v.newMemory.2.memory store = v.memory store := by
  change (v.memories ++ [[]]).getD store [] = v.memories.getD store []
  rw [List.getD_eq_getElem?_getD, List.getD_eq_getElem?_getD, List.getElem?_append]
  split
  · rfl
  · rename_i hLe
    rw [List.getElem?_eq_none (by omega : v.memories.length ≤ store)]
    cases store - v.memories.length <;> rfl

theorem memory_newMemory_self (v : Storage.Vault) : v.memory v.newMemory.1 = [] := by
  change v.memories.getD v.memories.length [] = []
  rw [List.getD_eq_getElem?_getD, List.getElem?_eq_none (Nat.le_refl _)]
  rfl

theorem memory_storeFor (id : ComponentId) (x : Installation) :
    (x.storeFor id).2.memory (x.storeFor id).1 = x.memoryOf id := by
  rw [storeFor, memoryOf]
  cases hGet : x.stores.get? id with
  | some store => rfl
  | none =>
      change (x.exporting.state.storage.newMemory.2).memory x.exporting.state.storage.newMemory.1 = []
      rw [memory_newMemory, memory_newMemory_self]

theorem spares_storeFor (id : ComponentId) (x : Installation) : x.Spares (x.storeFor id).2 := by
  rw [storeFor]
  cases hGet : x.stores.get? id with
  | some store => exact .refl
  | none =>
      refine ⟨{ Grows.refl (x := x) with
        inStep := fun h => ⟨h.exporters, h.stations, h.made, h.live⟩
        memory := memory_newMemory _
        memoryOf := fun id' => ?_ }, rfl, rfl⟩
      change ((x.stores.insert id x.exporting.state.storage.newMemory.1).get? id').elim []
        x.exporting.state.storage.newMemory.2.memory = (x.stores.get? id').elim []
        x.exporting.state.storage.memory
      by_cases hId : id' = id
      · subst hId
        rw [Table.get?_insert_self, hGet, Option.elim_some, memory_newMemory, memory_newMemory_self]
        rfl
      · rw [Table.get?_insert_of_ne hId]
        cases x.stores.get? id' with
        | none => rfl
        | some store => exact memory_newMemory _ store

/-! ## A receiver -/

theorem create_of_error {v : Json} {next : Consumer} {e : ComponentError}
    (h : settingsOf id ReceiverSettings.read v = .error e) :
    otlpReceivers.create id type v next x = (.error e, x) := by
  rw [otlpReceivers]
  dsimp only
  rw [h]

theorem create_of_ok {v : Json} {next : Consumer} {s : ReceiverSettings}
    (h : settingsOf id ReceiverSettings.read v = .ok s) :
    otlpReceivers.create id type v next x = x.addListener id type s next := by
  rw [otlpReceivers]
  dsimp only
  rw [h]

theorem exists_fst_addListener (x : Installation) (id : ComponentId) (type : BatchType)
    (s : ReceiverSettings) (next : Consumer) :
    ∃ n, (x.addListener id type s next).1 = .ok (.listener n) := by
  rw [addListener, SharedComponents.getOrAdd]
  cases x.shared.get? id with
  | none => exact ⟨_, rfl⟩
  | some n => exact ⟨n, rfl⟩

/-- What comes of making a receiver of an id for a signal. -/
structure AddsReceiver (x : Installation) (id : ComponentId) (type : BatchType) (s : ReceiverSettings)
    (next : Consumer) (n : Nat) (x' : Installation) : Prop where
  grows : x.Grows x'
  shared : x'.shared.get? id = some n
  listener : x'.listener? id = some (((x.listener? id).getD ⟨s, .none, none, 0⟩).feed type next)
  others : ∀ {id'}, id' ≠ id → x'.listener? id' = x.listener? id'

theorem addsReceiver_of_some {s : ReceiverSettings} {next : Consumer} (h : x.InStep)
    (hGet : x.shared.get? id = some n) :
    x.addListener id type s next =
        (.ok (.listener n), { x with listeners := x.listeners.modify n (Listener.feed type next) }) ∧
      x.AddsReceiver id type s next n { x with listeners := x.listeners.modify n (Listener.feed type next) } := by
  have hLt := h.lt_of_get? hGet
  refine ⟨?_, ⟨{ Grows.refl (x := x) with inStep := fun _ => ?_ }, hGet, ?_, fun {id'} hId => ?_⟩⟩
  · rw [addListener, SharedComponents.getOrAdd, hGet]
    dsimp only
    rw [h.inner?_eq hGet]
    rfl
  · exact ⟨h.exporters, h.stations, by rw [List.length_modify]; exact h.made, h.live⟩
  · change (x.shared.get? id).bind (fun m => (x.listeners.modify n (Listener.feed type next))[m]?) = _
    rw [listener?_of_get? hGet, hGet, Option.bind_some, List.getElem?_modify_eq,
      List.getElem?_eq_getElem hLt]
    rfl
  · change (x.shared.get? id').bind (fun m => (x.listeners.modify n (Listener.feed type next))[m]?) = _
    rw [listener?]
    -- Another id has another number, so its listener is not the one that changes.
    refine Option.bind_congr fun m hOther => List.getElem?_modify_ne _ _ ?_
    rintro rfl
    exact hId (h.id_eq hOther hGet)

/-- What is there when a receiver is the first one of its id. -/
def withListener (x : Installation) (id : ComponentId) (l : Listener) : Installation :=
  { x with
    shared := ⟨x.shared.made ++ [⟨id, x.listeners.length, .created⟩],
      x.shared.live.insert id x.listeners.length⟩
    listeners := x.listeners ++ [l] }

theorem get?_withListener (l : Listener) :
    (x.withListener id l).shared.get? id = some x.listeners.length :=
  Table.get?_insert_self _ _ _

theorem get?_withListener_of_ne {id' : ComponentId} (hId : id' ≠ id) (l : Listener) :
    (x.withListener id l).shared.get? id' = x.shared.get? id' :=
  Table.get?_insert_of_ne hId _ _

theorem InStep.withListener (h : x.InStep) (l : Listener) : (x.withListener id l).InStep where
  exporters := h.exporters
  stations := h.stations
  made := by
    rw [Installation.withListener, List.map_append, h.made, List.length_append, List.length_singleton,
      List.range_succ]
    rfl
  live {id' n} hGet := by
    change (x.shared.made ++ [⟨id, x.listeners.length, .created⟩])[n]?.map _ = _
    by_cases hId : id' = id
    · subst hId
      cases (get?_withListener l).symm.trans hGet
      rw [← h.length_made, List.getElem?_concat_length]
      rfl
    · rw [get?_withListener_of_ne hId] at hGet
      rw [List.getElem?_append_left (h.length_made ▸ h.lt_of_get? hGet)]
      exact h.live hGet

theorem addsReceiver_of_none {s : ReceiverSettings} {next : Consumer} (h : x.InStep)
    (hGet : x.shared.get? id = none) :
    let l := Listener.feed type next ⟨s, .none, none, 0⟩
    x.addListener id type s next = (.ok (.listener x.listeners.length), x.withListener id l) ∧
      x.AddsReceiver id type s next x.listeners.length (x.withListener id l) := by
  intro l
  refine ⟨?_, ⟨{ Grows.refl (x := x) with
    inStep := fun _ => h.withListener l
    shared := fun {id' n} hOther => ?_ }, get?_withListener l, ?_, fun {id'} hId => ?_⟩⟩
  · rw [addListener, SharedComponents.getOrAdd, hGet]
    dsimp only
    rw [SharedComponents.inner?, List.getElem?_concat_length, h.length_made, Option.map_some,
      Option.getD_some, List.modify_eq_take_drop, List.take_left, List.drop_left]
    rfl
  · rw [get?_withListener_of_ne, hOther]
    rintro rfl
    cases hGet.symm.trans hOther
  · have hNone : x.listener? id = none := by rw [listener?, hGet, Option.bind_none]
    rw [listener?_of_get? (get?_withListener l), hNone]
    exact List.getElem?_concat_length
  · rw [listener?, listener?, get?_withListener_of_ne hId]
    exact Option.bind_congr fun m hOther => List.getElem?_append_left (h.lt_of_get? hOther)

theorem addsReceiver (h : x.InStep) (id : ComponentId) (type : BatchType) (s : ReceiverSettings)
    (next : Consumer) :
    ∃ n x', x.addListener id type s next = (.ok (.listener n), x') ∧
      x.AddsReceiver id type s next n x' := by
  cases hGet : x.shared.get? id with
  | none => exact ⟨_, _, addsReceiver_of_none h hGet⟩
  | some n => exact ⟨n, _, addsReceiver_of_some h hGet⟩

end Installation

/-! ## Listeners that serve -/

theorem spares_listeners : outlets.Spares Installation.listeners where
  deliver place b h x := by
    change (x.deliver place b h).2.2.listeners = x.listeners
    rw [Installation.deliver]
    split
    · rfl
    · rfl
    · next n hPort =>
        change (x.sendTo n (h.take b).1).2.listeners = x.listeners
        rw [Installation.sendTo]
        split <;> rfl
  hold place b h x := by
    change (x.hold place b h).2.2.listeners = x.listeners
    rw [Installation.hold]
    split <;> rfl

theorem listeners_receive (c : Consumer) (r : Request) (s : State) :
    (State.receive c r s).2.installed.listeners = s.installed.listeners :=
  c.spares_consume spares_listeners _ _ _

namespace State

/-- Lets a listener answer requests one after the other. -/
def serveAll (number : Nat) : List Http.Request → State → List (Option Http.Reply) × State
  | [], s => ([], s)
  | r :: rest, s =>
    let (reply, s) := s.serve number r
    let (replies, s) := serveAll number rest s
    (reply :: replies, s)

variable {s : State} {number : Nat} {l : Listener} {routes : Routes}

/-- A listener that was started answers as its reception does, and counts what it delivers. -/
theorem serve_of_serving (hListener : s.installed.listeners[number]? = some l)
    (hServing : l.serving = some routes) (r : Http.Request) :
    (s.serve number r).1 = some ((l.reception routes).answer .standard r s).1 ∧
      (s.serve number r).2.installed.listeners[number]? = some { l with
        accepted := ((l.reception routes).answer .standard r s).2.1.delivered } := by
  have hSpares : ∀ type, ∀ consume ∈ (l.reception routes).next type, ∀ batch t,
      (consume batch t).2.installed.listeners = t.installed.listeners := by
    intro type consume hMem batch t
    obtain ⟨c, -, rfl⟩ := Option.map_eq_some_iff.mp hMem
    exact listeners_receive c batch t
  have hSame := Http.Reception.spares_answer (f := fun t : State => t.installed.listeners) hSpares
    .standard r s
  obtain ⟨settings, wired, serving, accepted⟩ := l
  obtain rfl : serving = some routes := hServing
  rw [serve, hListener]
  refine ⟨rfl, ?_⟩
  dsimp only
  rw [hSame, List.getElem?_modify, hListener]
  simp

/-- Whatever requests a listener answers, the number it tells grows by one with each answer of 200 to the
path of a signal. -/
theorem accepted_serveAll (hListener : s.installed.listeners[number]? = some l)
    (hServing : l.serving = some routes) (requests : List Http.Request) :
    ∃ replies : List Http.Reply, (s.serveAll number requests).1 = replies.map some ∧
      (s.serveAll number requests).2.installed.listeners[number]? = some { l with
        accepted := l.accepted + Http.Reception.successes requests replies } := by
  induction requests generalizing s l with
  | nil => exact ⟨[], rfl, hListener⟩
  | cons r rest ih =>
      obtain ⟨hReply, hNext⟩ := serve_of_serving hListener hServing r
      obtain ⟨replies, hReplies, hLast⟩ := ih hNext hServing
      refine ⟨((l.reception routes).answer .standard r s).1 :: replies, ?_, ?_⟩
      · rw [serveAll]
        dsimp only
        rw [hReply, hReplies]
        rfl
      · rw [serveAll]
        dsimp only
        rw [hLast, Http.Reception.delivered_answer, Http.Reception.successes_cons, Nat.add_assoc]
        rfl

end State

end Agent

end Telemetry

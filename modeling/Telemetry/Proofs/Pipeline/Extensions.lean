import Telemetry.Proofs.Pipeline.Service

/-!
# The life of extensions

A service creates an extension for every entry of its list, keeps one for each id, and starts and stops
what it keeps as often as the list says. So each extension lives once just if the list names none twice.
-/

namespace Telemetry

namespace Service

variable {σ τ κ : Type} {b : Blueprint σ κ} {x : Service κ} {ids : List ComponentId} {n k : Nat}
  {made held : Table ComponentId (Nat × κ)} {id : ComponentId} {c : κ} {s : σ}

/-! ## What is created and what is kept -/

/-- Creates extensions in turn, and numbers what is created. -/
def createNumbered (b : Blueprint σ κ) :
    List ComponentId → Nat → Table ComponentId (Nat × κ) → σ →
      Except GraphError (Table ComponentId (Nat × κ)) × σ
  | [], _, made, s => (.ok made, s)
  | id :: rest, n, made, s =>
    match createExtension b id s with
    | (.error e, s) => (.error e, s)
    | (.ok c, s) => createNumbered b rest (n + 1) (made.insert id (n, c)) s

/-- But for the numbers it is how a service creates its extensions. -/
theorem createExtensions_eq_createNumbered (b : Blueprint σ κ) (ids : List ComponentId) (n : Nat)
    (made : Table ComponentId (Nat × κ)) (s : σ) :
    createExtensions b ids (made.mapValues Prod.snd) s =
      ((createNumbered b ids n made s).1.map (Table.mapValues Prod.snd),
        (createNumbered b ids n made s).2) := by
  induction ids generalizing n made s with
  | nil => rfl
  | cons id ids ih =>
      rw [createExtensions, createNumbered]
      rcases createExtension b id s with ⟨e | c, s'⟩
      · rfl
      · rw [← ih, Table.mapValues_insert]

/-- What is kept under an id was created for an entry of the list that names it. -/
theorem getElem?_of_createNumbered (h : (createNumbered b ids n made s).1 = .ok held)
    (hHeld : held.get? id = some (k, c)) :
    made.get? id = some (k, c) ∨ n ≤ k ∧ ids[k - n]? = some id := by
  induction ids generalizing n made s with
  | nil =>
      cases h
      exact .inl hHeld
  | cons a ids ih =>
      rw [createNumbered] at h
      rcases hCreate : createExtension b a s with ⟨e | c', s'⟩
      · rw [hCreate] at h
        cases h
      · rw [hCreate] at h
        rcases ih h with hMade | ⟨hLe, hLater⟩
        · by_cases hSame : id = a
          · subst hSame
            rw [Table.get?_insert_self] at hMade
            cases hMade
            exact .inr ⟨Nat.le_refl _, by simp⟩
          · rw [Table.get?_insert_of_ne hSame] at hMade
            exact .inl hMade
        · have hNext : k - n = k - (n + 1) + 1 := by omega
          exact .inr ⟨by omega, by rw [hNext, List.getElem?_cons_succ, hLater]⟩

/-- What is created for an entry is kept under its id if no other entry names it. -/
theorem exists_held (hDistinct : ids.Nodup) (h : (createNumbered b ids 0 [] s).1 = .ok held)
    (hLt : n < ids.length) : ∃ id c, held.get? id = some (n, c) := by
  have hCreate := createExtensions_eq_createNumbered b ids 0 [] s
  rw [h] at hCreate
  have hKeys : (held.mapValues Prod.snd).contains ids[n] = true :=
    Table.contains_iff.mpr ((keys_createExtensions (congrArg Prod.fst hCreate)).mpr
      (.inr (List.getElem_mem hLt)))
  rw [Table.contains, Table.get?_mapValues, Option.isSome_map] at hKeys
  obtain ⟨⟨k, c⟩, hHeld⟩ := Option.isSome_iff_exists.mp hKeys
  rcases getElem?_of_createNumbered h hHeld with hNone | ⟨-, hEntry⟩
  · cases hNone
  · obtain ⟨hBound, hSame⟩ := List.getElem?_eq_some_iff.mp hEntry
    have hIndex : k = n := hDistinct.getElem_inj_iff.mp hSame
    exact ⟨ids[n], c, hIndex ▸ hHeld⟩

/-- If all that is created is kept no id is named twice. -/
theorem nodup_of_held (h : (createNumbered b ids 0 [] s).1 = .ok held)
    (hHeld : ∀ n < ids.length, ∃ id c, held.get? id = some (n, c)) : ids.Nodup := by
  have hEntry : ∀ {n id c}, held.get? id = some (n, c) → ids[n]? = some id := by
    intro n id c hGet
    rcases getElem?_of_createNumbered h hGet with hNone | ⟨-, hEntry⟩
    · cases hNone
    · exact hEntry
  refine List.nodup_iff_injective_getElem.mpr fun ⟨i, hi⟩ ⟨j, hj⟩ hSame => ?_
  obtain ⟨id, c, hFirst⟩ := hHeld i hi
  obtain ⟨id', c', hSecond⟩ := hHeld j hj
  have hId : id = id' := by
    rw [← Option.some_inj, ← hEntry hFirst, ← hEntry hSecond, List.getElem?_eq_getElem hi,
      List.getElem?_eq_getElem hj]
    exact congrArg some hSame
  subst hId
  cases hFirst.symm.trans hSecond
  rfl

/-! ## What is started and stopped -/

/-- The calls by which a service is started, with their outcomes. -/
def startCalls (l : Lifecycle τ κ) (x : Service κ) (t : τ) : List Call :=
  (x.labelled.start l.recorded (t, [])).2.2

/-- The calls by which a service is shut down, with their outcomes. -/
def shutdownCalls (l : Lifecycle τ κ) (x : Service κ) (t : τ) : List Call :=
  (x.labelled.shutdown l.recorded (t, [])).2.2

/-- Some extensions, and then all that belongs to the pipelines. -/
def partsAfter (x : Service κ) (ids : List ComponentId) : List ServicePart :=
  ids.map ServicePart.extension ++ x.graph.startOrder.map ServicePart.node

theorem map_fst_parts (hBuild : (build b s).1 = .ok x) :
    (x.extensionParts ++ x.graphParts.reverse).map Prod.fst =
      x.partsAfter b.config.service.extensions := by
  obtain ⟨hOrder, hSome, -⟩ := build_eq_ok hBuild
  rw [partsAfter, List.map_append, map_fst_extensionParts hSome, hOrder, List.map_reverse,
    map_fst_graphParts, Graph.startOrder_eq_reverse, List.map_reverse]

/-- A start that succeeds goes through the list of extensions as it is, and then through the graph. -/
theorem startCalls_eq (hBuild : (build b s).1 = .ok x) {l : Lifecycle τ κ} {t : τ}
    (hStart : (x.start l t).1 = .ok ()) :
    x.startCalls l t = (x.partsAfter b.config.service.extensions).map fun p => ⟨.start, p, .ok ()⟩ := by
  obtain ⟨calls, hCalls, hStartup⟩ := start_recorded l x t
  rw [map_fst_parts hBuild, hStart] at hStartup
  rw [startCalls, hCalls]
  cases hStartup
  rfl

theorem asked_shutdownCalls (hBuild : (build b s).1 = .ok x) (l : Lifecycle τ κ) (t : τ) :
    (x.shutdownCalls l t).map Call.asked =
      (x.partsAfter b.config.service.extensions).reverse.map fun p => (.shutdown, p) := by
  obtain ⟨calls, hCalls, hAsked, -⟩ := shutdown_recorded l x t
  rw [shutdownCalls, hCalls, ← map_fst_parts hBuild, ← List.map_reverse, List.reverse_append,
    List.reverse_reverse]
  exact hAsked

/-- The extensions of a service are called as they should be: a start that succeeds starts each one once,
before all that belongs to the pipelines, and a shutdown shuts it down once, after all that. -/
structure CalledOnce (x : Service κ) (ids : List ComponentId) : Prop where
  nodup : ids.Nodup
  mem_iff : ∀ id, id ∈ ids ↔ id ∈ x.extensions.keys
  started : ∀ {τ : Type} (l : Lifecycle τ κ) (t : τ), (x.start l t).1 = .ok () →
    x.startCalls l t = (x.partsAfter ids).map fun p => ⟨.start, p, .ok ()⟩
  stopped : ∀ {τ : Type} (l : Lifecycle τ κ) (t : τ),
    (x.shutdownCalls l t).map Call.asked = (x.partsAfter ids).reverse.map fun p => (.shutdown, p)

/-- Every extension that was created for a service is the one that the host finds under its id. -/
def KeepsExtensions (b : Blueprint σ κ) (s : σ) (x : Service κ) : Prop :=
  ∃ held, (createNumbered b b.config.service.extensions 0 [] s).1 = .ok held ∧
    x.extensions = held.mapValues Prod.snd ∧
    ∀ n < b.config.service.extensions.length, ∃ id c, held.get? id = some (n, c)

theorem extensions_of_build (hBuild : (build b s).1 = .ok x) :
    ∃ held, (createNumbered b b.config.service.extensions 0 [] s).1 = .ok held ∧
      x.extensions = held.mapValues Prod.snd := by
  have hCreate := createExtensions_eq_createNumbered b b.config.service.extensions 0 [] s
  rw [build] at hBuild
  split at hBuild
  · cases hBuild
  · next extensions s' hExtensions =>
    split at hBuild
    · cases hBuild
    · cases hBuild
      have hSame := congrArg Prod.fst (hExtensions.symm.trans hCreate)
      cases hNumbered : (createNumbered b b.config.service.extensions 0 [] s).1 with
      | error e =>
          rw [hNumbered] at hSame
          cases hSame
      | ok held =>
          rw [hNumbered] at hSame
          cases hSame
          exact ⟨held, rfl, rfl⟩

theorem mem_extensions_iff (hBuild : (build b s).1 = .ok x) :
    id ∈ b.config.service.extensions ↔ id ∈ x.extensions.keys := by
  obtain ⟨held, hHeld, hExtensions⟩ := extensions_of_build hBuild
  have hCreate := createExtensions_eq_createNumbered b b.config.service.extensions 0 [] s
  rw [hHeld] at hCreate
  rw [hExtensions, keys_createExtensions (congrArg Prod.fst hCreate)]
  simp [Table.mapValues, Table.keys]

/-- What a start calls tells which extensions it names, and in which order. -/
theorem partsAfter_inj {ids ids' : List ComponentId} (h : x.partsAfter ids = x.partsAfter ids') :
    ids = ids' :=
  List.map_injective_iff.mpr (fun _ _ => ServicePart.extension.inj) (List.append_cancel_right h)

theorem keepsExtensions_iff (hBuild : (build b s).1 = .ok x) :
    KeepsExtensions b s x ↔ b.config.service.extensions.Nodup := by
  constructor
  · rintro ⟨held, hHeld, -, hKept⟩
    exact nodup_of_held hHeld hKept
  · intro hDistinct
    obtain ⟨held, hHeld, hExtensions⟩ := extensions_of_build hBuild
    exact ⟨held, hHeld, hExtensions, fun n hLt => exists_held hDistinct hHeld hLt⟩

theorem calledOnce_iff (hBuild : (build b s).1 = .ok x) :
    x.CalledOnce ids ↔ ids = b.config.service.extensions ∧ ids.Nodup := by
  constructor
  · intro h
    let l : Lifecycle Unit κ := ⟨fun _ t => (.ok (), t), fun _ t => (.ok (), t)⟩
    have hAsked := (h.stopped l ()).symm.trans (asked_shutdownCalls hBuild l ())
    have hParts := List.map_injective_iff.mpr (fun _ _ => congrArg Prod.snd) hAsked
    exact ⟨partsAfter_inj (List.reverse_injective hParts), h.nodup⟩
  · rintro ⟨rfl, hDistinct⟩
    exact ⟨hDistinct, fun id => mem_extensions_iff hBuild, fun l t => startCalls_eq hBuild,
      asked_shutdownCalls hBuild⟩

/-- An extension is called once for every time the list names it, but of those that are created for one id
only the last is kept, and it gets all the calls. So every extension that is created is kept, and each is
started and shut down once, just if the list names none twice. -/
theorem extensions_live_once_iff (hBuild : (build b s).1 = .ok x) :
    (∀ {τ : Type} (l : Lifecycle τ κ) (t : τ), (x.start l t).1 = .ok () → x.startCalls l t =
      (x.partsAfter b.config.service.extensions).map fun p => ⟨.start, p, .ok ()⟩) ∧
    (∀ {τ : Type} (l : Lifecycle τ κ) (t : τ), (x.shutdownCalls l t).map Call.asked =
      (x.partsAfter b.config.service.extensions).reverse.map fun p => (.shutdown, p)) ∧
    (KeepsExtensions b s x ↔ b.config.service.extensions.Nodup) ∧
    ((∃ ids, x.CalledOnce ids) ↔ b.config.service.extensions.Nodup) := by
  refine ⟨fun l t => startCalls_eq hBuild, asked_shutdownCalls hBuild, keepsExtensions_iff hBuild, ?_, ?_⟩
  · rintro ⟨ids, hOnce⟩
    obtain ⟨rfl, hDistinct⟩ := (calledOnce_iff hBuild).mp hOnce
    exact hDistinct
  · intro hDistinct
    exact ⟨b.config.service.extensions, (calledOnce_iff hBuild).mpr ⟨rfl, hDistinct⟩⟩

theorem extensions_live_once_relay : ∃ x, (build Relay.blueprint 0).1 = .ok x ∧
    KeepsExtensions Relay.blueprint 0 x ∧ ∃ ids, x.CalledOnce ids := by
  obtain ⟨x, hBuild⟩ : ∃ x, (build Relay.blueprint 0).1 = .ok x := ⟨_, rfl⟩
  have hDistinct : Relay.blueprint.config.service.extensions.Nodup := by decide
  obtain ⟨-, -, hKept, hCalled⟩ := extensions_live_once_iff hBuild
  exact ⟨x, hBuild, hKept.mpr hDistinct, hCalled.mpr hDistinct⟩

/-! ## An extension that is named twice -/

/-- The service lists its one extension twice. -/
def twice : Blueprint Nat Nat :=
  { Relay.blueprint with
    config := { Relay.blueprint.config with
      service := { Relay.blueprint.config.service with extensions := [Relay.clock, Relay.clock] } } }

/-- Two extensions are created, 0 and 1. Number 0 is never called; number 1 is started twice, one time
after the other, and shut down twice. -/
theorem extension_named_twice :
    ∃ x, (build twice 0).1 = .ok x ∧ (createExtension twice Relay.clock 0).1 = .ok 0 ∧
      (createExtension twice Relay.clock 1).1 = .ok 1 ∧ x.extensions = [(Relay.clock, 1)] ∧
      (∀ (l : Lifecycle Unit Nat), (x.start l ()).1 = .ok () → (x.startCalls l ()).take 2 =
        [⟨.start, .extension Relay.clock, .ok ()⟩, ⟨.start, .extension Relay.clock, .ok ()⟩]) ∧
      (∀ (l : Lifecycle Unit Nat), ((x.shutdownCalls l ()).map Call.asked).reverse.take 2 =
        [(.shutdown, .extension Relay.clock), (.shutdown, .extension Relay.clock)]) ∧
      ¬ KeepsExtensions twice 0 x ∧ ¬ ∃ ids, x.CalledOnce ids := by
  obtain ⟨x, hBuild, hExtensions⟩ : ∃ x, (build twice 0).1 = .ok x ∧ x.extensions = [(Relay.clock, 1)] :=
    ⟨_, rfl, rfl⟩
  have hTwice : ¬ twice.config.service.extensions.Nodup := by decide
  refine ⟨x, hBuild, rfl, rfl, hExtensions, fun l hStart => ?_, fun l => ?_, ?_, ?_⟩
  · rw [startCalls_eq hBuild hStart]
    rfl
  · rw [asked_shutdownCalls hBuild, List.map_reverse, List.reverse_reverse]
    rfl
  · exact fun hKept => hTwice ((keepsExtensions_iff hBuild).mp hKept)
  · rintro ⟨ids, hOnce⟩
    obtain ⟨rfl, hDistinct⟩ := (calledOnce_iff hBuild).mp hOnce
    exact hTwice hDistinct

end Service

end Telemetry

import Telemetry.Agent.Factories
import Telemetry.Proofs.Configuration.Decode

/-!
# Keys that name no setting

The settings of an exporter are one table with a table for retries and one for the queue inside. A key of the outer
table that names no setting is refused, whatever else the table holds. The tables inside are read without a look
at such keys: they change nothing, and an exporter is made as if they were not there.
-/

namespace Telemetry

theorem RetryPolicy.tolerant_fields : ∀ f ∈ fields, f.Tolerant := by
  have hMilliseconds := Settings.tolerant_word "u64"
  refine List.forall_mem_cons.mpr ⟨Settings.tolerant_field Settings.tolerant_bool, ?_⟩
  refine List.forall_mem_cons.mpr ⟨Settings.tolerant_field hMilliseconds, ?_⟩
  refine List.forall_mem_cons.mpr ⟨Settings.tolerant_field Settings.tolerant_double, ?_⟩
  refine List.forall_mem_cons.mpr ⟨Settings.tolerant_field Settings.tolerant_double, ?_⟩
  refine List.forall_mem_cons.mpr ⟨Settings.tolerant_field hMilliseconds, ?_⟩
  exact List.forall_mem_singleton.mpr (Settings.tolerant_field hMilliseconds)

theorem QueueSettings.tolerant_fields : ∀ f ∈ fields, f.Tolerant := by
  have hCount := Settings.tolerant_word "usize"
  refine List.forall_mem_cons.mpr ⟨Settings.tolerant_field Settings.tolerant_bool, ?_⟩
  refine List.forall_mem_cons.mpr ⟨Settings.tolerant_field hCount, ?_⟩
  refine List.forall_mem_cons.mpr ⟨Settings.tolerant_field hCount, ?_⟩
  exact List.forall_mem_singleton.mpr
    (Settings.tolerant_field (Settings.tolerant_optional Settings.tolerant_componentId))

namespace ExportSettings

/-- The names of the settings every exporter has. -/
def names : List String := ["timeout", "retry_on_failure", "sending_queue"]

/-- The names of the settings in the table that is the setting of a given name, if that one is a table. -/
def namesIn : String → Option (List String)
  | "retry_on_failure" => some ["enabled", "initial_interval", "randomization_factor", "multiplier", "max_interval",
      "max_elapsed_time"]
  | "sending_queue" => some ["enabled", "num_consumers", "queue_size", "storage"]
  | _ => none

/-- The value of a setting, where it is a table without the keys that name nothing in it. -/
def prune (key : String) (v : Json) : Json := (namesIn key).elim v v.restrict

/-- The members of a table, those that are tables without the keys that name nothing in them. -/
def pruneAll (members : Table String Json) : Table String Json := members.map fun m => (m.1, prune m.1 m.2)

theorem normal_members (s : ExportSettings) : ∀ m ∈ s.members, m.2.Normal := by
  have hRetry : s.retry.toJson.Normal := by
    refine Json.normal_ofMembers ?_
    simp only [List.forall_mem_cons]
    exact ⟨.bool _, .number _, .number _, .number _, .number _, .number _, nofun⟩
  have hQueue : s.queue.toJson.Normal := by
    refine Json.normal_ofMembers ?_
    simp only [List.forall_mem_cons]
    refine ⟨.bool _, .number _, .number _, ?_, nofun⟩
    cases s.queue.storage with
    | none => exact .null
    | some id => exact .string _
  simp only [members, List.forall_mem_cons]
  exact ⟨.number _, hRetry, hQueue, nofun⟩

theorem prune_of_not_mem {key : String} (hOther : key ∉ names) (v : Json) : prune key v = v := by
  rw [prune, namesIn]
  · rfl
  · rintro rfl
    exact hOther (by decide)
  · rintro rfl
    exact hOther (by decide)

theorem prune_overlay {d u : Json} (hDefaults : d.Normal) (hUser : u.Normal) (key : String) :
    prune key (Json.overlay d u) = Json.overlay (prune key d) (prune key u) := by
  rw [prune, prune, prune]
  cases namesIn key with
  | none => rfl
  | some names => exact Json.restrict_overlay hDefaults hUser names

/-- The settings every exporter has are stored alike with and without the keys that name nothing. -/
theorem store_prune : ∀ f ∈ fields true, ∀ v s, f.store (prune f.name v) s = f.store v s := by
  have hRetry : ∀ v, RetryPolicy.read true (prune "retry_on_failure" v) = RetryPolicy.read true v :=
    Settings.record_restrict "RetryConfig" true RetryPolicy.fields .default
  have hQueue : ∀ v, QueueSettings.read true (prune "sending_queue" v) = QueueSettings.read true v :=
    Settings.record_restrict "QueueConfig" true QueueSettings.fields .default
  refine List.forall_mem_cons.mpr ⟨fun _ _ => rfl, List.forall_mem_cons.mpr ⟨fun v s => ?_, ?_⟩⟩
  · exact congrArg (Except.map _) (hRetry v)
  · refine List.forall_mem_singleton.mpr fun v s => ?_
    exact congrArg (Except.map _) (hQueue v)

theorem tolerant_fields (gathered : Bool) : ∀ f ∈ fields gathered, f.Tolerant := by
  have hRetry := Settings.tolerant_record RetryPolicy.tolerant_fields
  have hQueue := Settings.tolerant_record QueueSettings.tolerant_fields
  refine List.forall_mem_cons.mpr ⟨Settings.tolerant_field (Settings.tolerant_word "u64"), ?_⟩
  refine List.forall_mem_cons.mpr ⟨Settings.tolerant_field (hRetry _ _ _), ?_⟩
  exact List.forall_mem_singleton.mpr (Settings.tolerant_field (hQueue _ _ _))

end ExportSettings

namespace Agent

/-! ## Strays -/

/-- A key of a table names no setting of an exporter with the given settings of its own. -/
def HasStray (own : List String) (user : Table String Json) : Prop :=
  ∃ key ∈ user.keys, key ∉ own ++ ExportSettings.names

/-- A key of a table inside a table names no setting of the inner one. -/
def HasNestedStray (user : Table String Json) : Prop :=
  ∃ table names members key, ExportSettings.namesIn table = some names ∧
    user.get? table = some (.object members) ∧ key ∈ Table.keys members ∧ key ∉ names

/-- A table without the members that name no setting of an exporter with the given settings of its own, and without
those that name no setting in the tables inside. -/
def tidy (own : List String) (user : Table String Json) : Table String Json :=
  ExportSettings.pruneAll (user.filter fun m => decide (m.1 ∈ own ++ ExportSettings.names))

variable {own : List String} {base members user : Table String Json}

theorem tidy_of_not_hasStray (hNone : ¬HasStray own user) : tidy own user = ExportSettings.pruneAll user := by
  refine congrArg _ (List.filter_eq_self.mpr fun m hMem => decide_eq_true ?_)
  by_contra hOther
  exact hNone ⟨m.1, List.mem_map_of_mem hMem, hOther⟩

theorem not_hasStray_tidy (own : List String) (user : Table String Json) : ¬HasStray own (tidy own user) := by
  rintro ⟨key, hKey, hOther⟩
  rw [tidy, ExportSettings.pruneAll, Table.keys, List.map_map] at hKey
  obtain ⟨m, hMem, rfl⟩ := List.mem_map.mp hKey
  exact hOther (of_decide_eq_true (List.mem_filter.mp hMem).2)

theorem not_hasNestedStray_tidy (own : List String) (user : Table String Json) :
    ¬HasNestedStray (tidy own user) := by
  rintro ⟨table, names, members, key, hNames, hGet, hKey, hOther⟩
  rw [tidy, ExportSettings.pruneAll, Table.get?_map] at hGet
  obtain ⟨v, -, hPruned⟩ := Option.map_eq_some_iff.mp hGet
  rw [ExportSettings.prune, hNames, Option.elim_some] at hPruned
  cases v with
  | null | bool | number | string | array => cases hPruned
  | object given =>
      cases hPruned
      obtain ⟨m, hMem, rfl⟩ := List.mem_map.mp hKey
      exact hOther (of_decide_eq_true (List.mem_filter.mp hMem).2)

theorem hasStray_layMembersOver_iff (hUser : (Json.object user).Normal) :
    HasStray own (Json.layMembersOver false base user) ↔ HasStray own base ∨ HasStray own user := by
  simp only [HasStray, Json.mem_keys_layMembersOver_iff hUser.ascending, or_and_right, exists_or]

/-- The members of a table that are no settings of an exporter with the given settings of its own. -/
def strays (own : List String) (members : List (String × Json)) : List (String × Json) :=
  members.filter fun m => decide (m.1 ∉ own ++ ExportSettings.names)

theorem strays_eq_nil_iff : strays own members = [] ↔ ¬HasStray own members := by
  rw [strays, List.filter_eq_nil_iff, HasStray, not_exists]
  simp only [decide_eq_true_iff, not_and, Table.keys, List.forall_mem_map]

/-! ## Readers -/

/-- A reader of an exporter's settings: it reads the exporter's own settings and those every exporter has, refuses
the members that are neither, and goes on with what was read. -/
structure ExporterReader {α : Type} (σ : Type) (read : Settings.Reader α) where
  /-- The exporter's own settings. -/
  own : List (Settings.Field σ)
  /-- Their values when they are left out. -/
  start : σ
  /-- What is done with what was read. -/
  finish : σ → ExportSettings → Leftover → Except SettingsError α
  /-- No setting has the name of one that every exporter has. -/
  disjoint : ∀ f ∈ own, f.name ∉ ExportSettings.names
  /-- The own settings are read without a word about the names of members. -/
  tolerant_own : ∀ f ∈ own, f.Tolerant
  /-- Nothing is said about the names of members afterwards. -/
  tolerant_finish : ∀ s e unknown, Settings.Tolerant (finish s e unknown)
  /-- How a table is read. -/
  read_object : ∀ members, read (.object members) = do
    let s ← Settings.storeMembers own false members start
    let e ← Settings.storeMembers (ExportSettings.fields true) false members .default
    Leftover.refuse (strays (own.map Settings.Field.name) members)
    finish s e (strays (own.map Settings.Field.name) members)

/-- The settings every exporter has are found behind the exporter's own, and what is left over is what is stray. -/
theorem readExporter_object {σ : Type} {own : List (Settings.Field σ)}
    (hDisjoint : ∀ f ∈ own, f.name ∉ ExportSettings.names) (name : String) (start : σ)
    (finish : σ → ExportSettings → Leftover → σ) (members : List (String × Json)) :
    readExporter name own start finish (.object members) = do
      let s ← Settings.storeMembers own false members start
      let e ← Settings.storeMembers (ExportSettings.fields true) false members .default
      return finish s e (strays (own.map Settings.Field.name) members) := by
  have hGathered : ∀ e, Settings.storeMembers (ExportSettings.fields true) false
        (members.filter fun m => !own.any fun f => f.name == m.1) e =
      Settings.storeMembers (ExportSettings.fields true) false members e := by
    refine Settings.storeMembers_filter (fun key => !own.any fun f => f.name == key) (fun f hField => ?_) members
    rw [Settings.any_name_eq_decide, Bool.not_eq_true', decide_eq_false_iff_not, List.mem_map]
    rintro ⟨g, hOwn, hSame⟩
    exact hDisjoint g hOwn (hSame ▸ List.mem_map_of_mem hField)
  have hLeft : ((members.filter fun m => !own.any fun f => f.name == m.1).filter fun m =>
        !(ExportSettings.fields true).any fun f => f.name == m.1) =
      strays (own.map Settings.Field.name) members := by
    rw [List.filter_filter, strays]
    refine List.filter_congr fun m _ => ?_
    rw [Settings.any_name_eq_decide, Settings.any_name_eq_decide, Bool.and_comm]
    simp only [List.mem_append, not_or, Bool.decide_and, decide_not]
    rfl
  rw [readExporter]
  dsimp only
  rw [hGathered, hLeft]

namespace ExporterReader

variable {α σ : Type} {read : Settings.Reader α}

/-- The names of the exporter's own settings. -/
abbrev names (r : ExporterReader σ read) : List String := r.own.map Settings.Field.name

theorem fails_of_hasStray (r : ExporterReader σ read) (hStray : HasStray r.names members) :
    ∃ e, read (.object members) = .error e := by
  have hLeft : strays r.names members ≠ [] := fun hNil => strays_eq_nil_iff.mp hNil hStray
  rw [r.read_object, Leftover.refuse, if_neg (by simpa using hLeft)]
  cases Settings.storeMembers r.own false members r.start with
  | error e => exact ⟨e, rfl⟩
  | ok s =>
      cases Settings.storeMembers (ExportSettings.fields true) false members .default with
      | error e => exact ⟨e, rfl⟩
      | ok e => exact ⟨_, rfl⟩

/-- Keys that name nothing in the tables inside make no difference. -/
theorem read_pruneAll (r : ExporterReader σ read) (members : Table String Json) :
    read (.object (ExportSettings.pruneAll members)) = read (.object members) := by
  have hOwn : ∀ f ∈ r.own, ∀ v s, f.store (ExportSettings.prune f.name v) s = f.store v s := fun f hMem v s => by
    rw [ExportSettings.prune_of_not_mem (r.disjoint f hMem)]
  have hStrays : strays r.names (ExportSettings.pruneAll members) = strays r.names members := by
    rw [strays, ExportSettings.pruneAll, List.filter_map]
    refine (List.map_congr_left fun m hMem => ?_).trans (List.map_id _)
    have hOther := of_decide_eq_true (List.mem_filter.mp hMem).2
    rw [ExportSettings.prune_of_not_mem fun hCommon => hOther (List.mem_append_right _ hCommon)]
    rfl
  rw [r.read_object, r.read_object, hStrays, ExportSettings.pruneAll, Settings.storeMembers_map hOwn,
    Settings.storeMembers_map ExportSettings.store_prune]

theorem tolerant (r : ExporterReader σ read) (hNone : ¬HasStray r.names members) :
    Settings.Tolerant (read (.object members)) := by
  rw [r.read_object, strays_eq_nil_iff.mpr hNone]
  refine (Settings.tolerant_storeMembers r.tolerant_own members _).bind fun s => ?_
  refine (Settings.tolerant_storeMembers (ExportSettings.tolerant_fields true) members _).bind fun e => ?_
  exact r.tolerant_finish s e []

/-- A reader that refuses what is left over and then looks at the settings. -/
def ofChecks {name : String} {own : List (Settings.Field σ)} {start : σ}
    {put : σ → ExportSettings → Leftover → σ} {check : σ → Except SettingsError α} (unknown : σ → Leftover)
    (hUnknown : ∀ s e u, unknown (put s e u) = u) (hDisjoint : ∀ f ∈ own, f.name ∉ ExportSettings.names)
    (hOwn : ∀ f ∈ own, f.Tolerant) (hCheck : ∀ s, Settings.Tolerant (check s)) :
    ExporterReader σ fun v => do
      let s ← readExporter name own start put v
      Leftover.refuse (unknown s)
      check s where
  own := own
  start := start
  finish s e u := check (put s e u)
  disjoint := hDisjoint
  tolerant_own := hOwn
  tolerant_finish s e u := hCheck (put s e u)
  read_object members := by
    rw [readExporter_object hDisjoint]
    simp only [bind_assoc, pure_bind, hUnknown]

theorem tolerant_checkExports (s : ExportSettings) : Settings.Tolerant (checkExports s) := by
  rw [checkExports]
  cases s.retry.fault? with
  | none => exact .ok ()
  | some fault =>
      rintro _ ⟨⟩
      unfold SettingsError.NamesField SettingsError.message RetryPolicy.Fault.message
      cases fault <;> simp [String.toList_append]

/-- The reader of the settings of an exporter that posts batches. -/
def post : ExporterReader HttpSettings postSettings :=
  .ofChecks HttpSettings.unknown (fun _ _ _ => rfl) (by decide)
    (List.forall_mem_cons.mpr ⟨Settings.tolerant_field (Settings.tolerant_optional Settings.tolerant_text),
      List.forall_mem_cons.mpr ⟨Settings.tolerant_field (Settings.tolerant_enumeration _),
        List.forall_mem_singleton.mpr
          (Settings.tolerant_field (Settings.tolerant_table Settings.Tolerant.ok Settings.tolerant_text))⟩⟩)
    (fun s => by
      split
      · rintro _ ⟨⟩
        unfold SettingsError.NamesField SettingsError.message
        simp
      · exact (tolerant_checkExports _).bind fun _ => .ok _)

/-- The reader of the settings of an exporter that describes batches. -/
def log : ExporterReader DebugSettings logSettings :=
  .ofChecks DebugSettings.unknown (fun _ _ _ => rfl) (by decide)
    (List.forall_mem_singleton.mpr (Settings.tolerant_field (Settings.tolerant_enumeration _)))
    (fun s => (tolerant_checkExports _).bind fun _ => .ok _)

end ExporterReader

/-! ## Tables laid over defaults -/

/-- Pruning a user's table is pruning what it makes of pruned defaults. -/
theorem layMembersOver_pruneAll (hBase : (Json.object base).Normal) (hUser : (Json.object user).Normal)
    (hPruned : ExportSettings.pruneAll base = base) :
    Json.layMembersOver false base (ExportSettings.pruneAll user) =
      ExportSettings.pruneAll (Json.layMembersOver false base user) := by
  have hOver := Json.ascending_layMembersOver hBase.ascending
  have hUserPruned := (Table.ascending_map_iff ExportSettings.prune user).mpr hUser.ascending
  refine (hOver _).ext ((Table.ascending_map_iff _ _).mpr (hOver user)) fun key => ?_
  have hBaseAt : (base.get? key).map (ExportSettings.prune key) = base.get? key := by
    rw [← Table.get?_map, ← ExportSettings.pruneAll, hPruned]
  rw [ExportSettings.pruneAll, ExportSettings.pruneAll, Json.get?_layMembersOver hUserPruned, Table.get?_map,
    Table.get?_map, Json.get?_layMembersOver hUser.ascending]
  cases hGiven : user.get? key with
  | none => exact hBaseAt.symm
  | some w =>
      cases hDefault : base.get? key with
      | none => rfl
      | some b =>
          have hSame : ExportSettings.prune key b = b := by simpa [hDefault] using hBaseAt
          have hOverlay := ExportSettings.prune_overlay (hBase.get? hDefault) (hUser.get? hGiven) key
          rw [hSame] at hOverlay
          exact congrArg some hOverlay.symm

/-! ## Exporters -/

/-- A factory of exporters whose settings have the given names, besides those that every exporter has. -/
inductive HasSettings : ExporterFactory Installation Component → List String → Prop
  | http : HasSettings httpExporters ["endpoint", "compression", "headers"]
  | debug : HasSettings debugExporters ["verbosity"]

/-- What comes of making an exporter from a user's table. -/
def creation (f : ExporterFactory Installation Component) (id : ComponentId) (type : BatchType)
    (user : Table String Json) (x : Installation) : Except ComponentError (Inlet Component) × Installation :=
  f.create id type (Json.overlay? f.defaults (some (.object user))) x

variable {f : ExporterFactory Installation Component}

/-- A factory makes exporters from what is read of tables that are laid over its defaults. -/
theorem HasSettings.exists_reader (h : HasSettings f own) :
    ∃ (α σ : Type) (read : Settings.Reader α) (r : ExporterReader σ read)
      (make : ComponentId → BatchType → α → Installation → Inlet Component × Installation)
      (base : Table String Json),
      r.names = own ∧ f.defaults = .object base ∧ ExportSettings.pruneAll base = base ∧ ¬HasStray own base ∧
      ∀ id type v x, f.create id type v x = making (settingsOf id read v) (make id type) x := by
  cases h with
  | http =>
      refine ⟨_, _, _, .post, fun id type s x => x.addExporter s.1.exports ⟨id, type, .server s.1 s.2⟩, _, rfl,
        rfl, rfl, ?_, fun _ _ _ _ => rfl⟩
      unfold HasStray
      decide
  | debug =>
      refine ⟨_, _, _, .log, fun id type s x => x.addExporter s.exports ⟨id, type, .log⟩, _, rfl, rfl, rfl, ?_,
        fun _ _ _ _ => rfl⟩
      unfold HasStray
      decide

theorem HasSettings.normal_defaults (h : HasSettings f own) : f.defaults.Normal := by
  have hMembers := ExportSettings.normal_members
  cases h with
  | http =>
      refine Json.normal_ofMembers (List.forall_mem_append.mpr ⟨List.forall_mem_append.mpr ⟨?_, hMembers _⟩, nofun⟩)
      simp only [List.forall_mem_cons]
      exact ⟨.null, .string _, .object [] .nil nofun, nofun⟩
  | debug =>
      refine Json.normal_ofMembers (List.forall_mem_append.mpr ⟨List.forall_mem_append.mpr ⟨?_, hMembers _⟩, nofun⟩)
      exact List.forall_mem_singleton.mpr (.string _)

theorem making_settingsOf_error {α β : Type} {read : Settings.Reader α} {v : Json} {e : SettingsError}
    (h : read v = .error e) (id : ComponentId) (make : α → Installation → β × Installation) (x : Installation) :
    making (settingsOf id read v) make x = (.error (.invalidConfig id e.message), x) := by
  rw [settingsOf, h]
  rfl

theorem exists_of_making_error {α β : Type} {read : Settings.Reader α} {v : Json} {id : ComponentId}
    {make : α → Installation → β × Installation} {x : Installation} {err : ComponentError}
    (h : (making (settingsOf id read v) make x).1 = .error err) :
    ∃ e, read v = .error e ∧ err = .invalidConfig id e.message := by
  rw [settingsOf] at h
  cases hRead : read v with
  | error e =>
      rw [hRead] at h
      cases h
      exact ⟨e, rfl, rfl⟩
  | ok s =>
      rw [hRead] at h
      cases h

/-- An exporter is refused just if a key of its own table names no setting, or if it would be refused without all
the keys that name no setting, at the top level and in the tables inside: those inside are never noticed. And no
table whose keys all name settings is refused for the name of a key. -/
theorem stray_keys_are_refused_iff (hFactory : HasSettings f own) (hUser : (Json.object user).Normal)
    (id : ComponentId) (type : BatchType) (x : Installation) :
    ((∃ reason, creation f id type user x = (.error (.invalidConfig id reason), x)) ↔
      HasStray own user ∨
        ∃ reason, creation f id type (tidy own user) x = (.error (.invalidConfig id reason), x)) ∧
    ¬HasStray own (tidy own user) ∧ ¬HasNestedStray (tidy own user) ∧
    (¬HasStray own user →
      creation f id type user x = creation f id type (tidy own user) x ∧
      ∀ e, (creation f id type user x).1 = .error e →
        ∃ reason, e = .invalidConfig id reason ∧ ¬"unknown field".toList <+: reason.toList) := by
  obtain ⟨α, σ, read, r, make, base, rfl, hBase, hPruned, hNamed, hCreate⟩ := hFactory.exists_reader
  have hNormal : (Json.object base).Normal := hBase ▸ hFactory.normal_defaults
  have hMade : ∀ user, creation f id type user x =
      making (settingsOf id read (.object (Json.layMembersOver false base user))) (make id type) x := fun user => by
    rw [creation, hBase, hCreate]
    rfl
  have hSame : ¬HasStray r.names user → creation f id type user x = creation f id type (tidy r.names user) x :=
    fun hNone => by
      rw [hMade, hMade, tidy_of_not_hasStray hNone, layMembersOver_pruneAll hNormal hUser hPruned, settingsOf,
        settingsOf, r.read_pruneAll]
  have hRefused : HasStray r.names user →
      ∃ reason, creation f id type user x = (.error (.invalidConfig id reason), x) := fun hStray => by
    have hThere : HasStray r.names (Json.layMembersOver false base user) :=
      (hasStray_layMembersOver_iff hUser).mpr (.inr hStray)
    obtain ⟨e, hRead⟩ := r.fails_of_hasStray hThere
    exact ⟨e.message, (hMade user).trans (making_settingsOf_error hRead id _ x)⟩
  refine ⟨?_, not_hasStray_tidy _ _, not_hasNestedStray_tidy _ _, fun hNone => ⟨hSame hNone, ?_⟩⟩
  · by_cases hStray : HasStray r.names user
    · exact ⟨fun _ => .inl hStray, fun _ => hRefused hStray⟩
    · rw [← hSame hStray, or_iff_right hStray]
  · intro e hError
    have hTolerant := r.tolerant (mt (hasStray_layMembersOver_iff hUser).mp (not_or.mpr ⟨hNamed, hNone⟩))
    rw [hMade] at hError
    obtain ⟨source, hRead, rfl⟩ := exists_of_making_error hError
    exact ⟨source.message, rfl, hTolerant source hRead⟩

namespace Misspelt

theorem isTypeName_debug : isTypeName "debug".toList = true := by decide

/-- The id of an exporter. -/
def id : ComponentId := ⟨⟨"debug", isTypeName_debug⟩, none⟩

/-- The name of the storage extension of a queue is misspelt. -/
def inside : Table String Json := [("sending_queue", .object [("storge", .string "file_storage")])]

/-- So is the verbosity of the exporter. -/
def outside : Table String Json := inside.insert "verbose" (.string "detailed")

end Misspelt

theorem stray_keys_are_refused_iff_misspelt :
    HasSettings debugExporters ["verbosity"] ∧ (Json.object Misspelt.inside).Normal ∧
    (Json.object Misspelt.outside).Normal ∧
    (∃ reason, creation debugExporters Misspelt.id .traces Misspelt.outside (.empty none) =
      (.error (.invalidConfig Misspelt.id reason), .empty none)) ∧
    creation debugExporters Misspelt.id .traces Misspelt.inside (.empty none) =
      creation debugExporters Misspelt.id .traces [("sending_queue", .object [])] (.empty none) := by
  have hInside : (Json.object Misspelt.inside).Normal := Json.normal_normalize (.object Misspelt.inside)
  have hOutside : (Json.object Misspelt.outside).Normal := Json.normal_normalize (.object Misspelt.outside)
  have hStray : HasStray ["verbosity"] Misspelt.outside := ⟨"verbose", by decide, by decide⟩
  have hNone : ¬HasStray ["verbosity"] Misspelt.inside := by
    rintro ⟨key, hKey, hOther⟩
    cases List.mem_singleton.mp hKey
    exact hOther (by decide)
  refine ⟨.debug, hInside, hOutside, ?_, ?_⟩
  · exact (stray_keys_are_refused_iff .debug hOutside _ _ _).1.mpr (.inl hStray)
  · exact ((stray_keys_are_refused_iff .debug hInside _ _ _).2.2.2 hNone).1

/-- A misspelt name in the table of the queue is passed over, and the exporter is made. -/
theorem nested_stray_is_passed_over :
    HasSettings debugExporters ["verbosity"] ∧ (Json.object Misspelt.inside).Normal ∧
    HasNestedStray Misspelt.inside ∧
    ∃ made, (creation debugExporters Misspelt.id .traces Misspelt.inside (.empty none)).1 = .ok made := by
  refine ⟨.debug, Json.normal_normalize (.object Misspelt.inside), ?_, ⟨_, rfl⟩⟩
  exact ⟨"sending_queue", _, _, "storge", rfl, rfl, by decide, by decide⟩

end Agent

end Telemetry

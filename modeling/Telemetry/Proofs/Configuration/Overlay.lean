import Telemetry.Configuration.Overlay
import Telemetry.Proofs.Table

/-!
# Settings laid over defaults

Settings are laid over defaults path by path: where both have a value, what is there is the user's value laid
over the default, and where only one has a value it is kept. Null gives way to the default everywhere.
-/

namespace Telemetry.Json

/-- The members of every object inside stand in ascending order of their keys, each key once. -/
inductive Normal : Json → Prop
  | null : Normal null
  | bool (b : Bool) : Normal (bool b)
  | number (n : JsonNumber) : Normal (number n)
  | string (s : String) : Normal (string s)
  | array (items : List Json) (hItems : ∀ v ∈ items, Normal v) : Normal (array items)
  | object (members : Table String Json) (hAscending : Table.Ascending members)
      (hMembers : ∀ m ∈ members, Normal m.2) : Normal (object members)

/-- The value at a path of keys. -/
def at? : Json → List String → Option Json
  | v, [] => some v
  | v, key :: path => (v.get? key).bind fun w => w.at? path

/-- A value that is neither null nor an object. -/
def IsLeaf : Json → Prop
  | null | object _ => False
  | bool _ | number _ | string _ | array _ => True

variable {d u w : Json} {key : String} {path rest : List String}
  {base members : Table String Json}

/-! ## Normalized values -/

theorem Normal.ascending (h : (Json.object members).Normal) : Table.Ascending members := by
  cases h
  assumption

theorem Normal.of_mem (h : (Json.object members).Normal) {m : String × Json} (hMem : m ∈ members) :
    m.2.Normal := by
  cases h with
  | object _ _ hMembers => exact hMembers m hMem

theorem Normal.get? (h : d.Normal) (hGet : d.get? key = some w) : w.Normal := by
  cases d with
  | object members => exact h.of_mem (Table.mem_of_get? hGet)
  | null | bool | number | string | array => cases hGet

theorem Normal.at? (h : d.Normal) (hAt : d.at? path = some w) : w.Normal := by
  induction path generalizing d with
  | nil =>
      cases hAt
      exact h
  | cons key path ih =>
      obtain ⟨v, hGet, hRest⟩ := Option.bind_eq_some_iff.mp hAt
      exact ih (h.get? hGet) hRest

theorem normal_ofMembers {members : List (String × Json)} (h : ∀ m ∈ members, m.2.Normal) :
    (ofMembers members).Normal :=
  .object _ (Table.ascending_ofList members) fun m hMem => h m (Table.mem_of_mem_ofList hMem)

mutual

/-- Putting the members into order makes a value normalized. -/
theorem normal_normalize : ∀ v : Json, v.normalize.Normal
  | null => .null
  | bool b => .bool b
  | number n => .number n
  | string s => .string s
  | array items => .array _ (normal_normalizeItems items)
  | object members => normal_normalizeMembers members .nil (by simp)

theorem normal_normalizeItems : ∀ items : List Json, ∀ v ∈ normalizeItems items, v.Normal
  | [] => by simp [normalizeItems]
  | v :: items => List.forall_mem_cons.mpr ⟨normal_normalize v, normal_normalizeItems items⟩

theorem normal_normalizeMembers : ∀ (members : List (String × Json)) {done : Table String Json},
    Table.Ascending done → (∀ m ∈ done, m.2.Normal) → (object (normalizeMembers members done)).Normal
  | [], done, hAscending, hDone => .object done hAscending hDone
  | (k, v) :: members, done, hAscending, hDone => by
      rw [normalizeMembers]
      refine normal_normalizeMembers members hAscending.insert fun m hMem => ?_
      rcases Table.mem_of_mem_insert hMem with rfl | hMem
      · exact normal_normalize v
      · exact hDone m hMem

end

/-! ## Members laid over members -/

theorem get?_layMembersOver (hMembers : Table.Ascending members) (base : Table String Json) (key : String) :
    Table.get? key (layMembersOver false base members) =
      (Table.get? key members).elim (Table.get? key base) fun w =>
        some ((Table.get? key base).elim w fun b => overlay b w) := by
  induction members generalizing base with
  | nil => rfl
  | cons m members ih =>
      obtain ⟨k, v⟩ := m
      rw [layMembersOver, ih hMembers.tail]
      by_cases hKey : key = k
      · subst hKey
        have hFresh : Table.get? key members = none := by
          rw [← Option.not_isSome_iff_eq_none, Table.isSome_get?_iff]
          exact (List.nodup_cons.mp hMembers.nodup_keys).1
        rw [hFresh, Table.get?_cons_self, Option.elim_none, Option.elim_some, Table.get?_insert_self]
        cases Table.get? key base <;> rfl
      · rw [Table.get?_cons_of_ne hKey, Table.get?_insert_of_ne hKey]

theorem ascending_layMembersOver (hBase : Table.Ascending base) (members : Table String Json) :
    Table.Ascending (layMembersOver false base members) := by
  induction members generalizing base with
  | nil => exact hBase
  | cons m members ih => exact ih hBase.insert

theorem mem_keys_layMembersOver_iff (hMembers : Table.Ascending members) (key : String) :
    key ∈ Table.keys (layMembersOver false base members) ↔ key ∈ base.keys ∨ key ∈ members.keys := by
  rw [← Table.isSome_get?_iff, ← Table.isSome_get?_iff, ← Table.isSome_get?_iff, get?_layMembersOver hMembers]
  cases Table.get? key members <;> simp

/-- Members that change nothing of the values they meet change nothing. -/
theorem layMembersOver_eq_self (hBase : Table.Ascending base)
    (hMembers : ∀ m ∈ members, ∃ b, Table.get? m.1 base = some b ∧ overlay b m.2 = b) :
    layMembersOver false base members = base := by
  induction members with
  | nil => rfl
  | cons m members ih =>
      obtain ⟨⟨b, hGet, hSame⟩, hRest⟩ := List.forall_mem_cons.mp hMembers
      obtain ⟨k, v⟩ := m
      rw [overlay] at hSame
      rw [layMembersOver, hGet]
      dsimp only
      rw [hSame, hBase.insert_of_get? hGet, ih hRest]

/-! ## Values laid over values -/

@[simp] theorem overlay_null (d : Json) : overlay d null = d := rfl

theorem overlay_objects (base members : Table String Json) :
    overlay (object base) (object members) = object (layMembersOver false base members) := rfl

theorem overlay_of_isLeaf (hLeaf : w.IsLeaf) (d : Json) : overlay d w = w := by
  cases w with
  | null | object => cases hLeaf
  | bool | number | string | array => rfl

/-- A member of a value laid over another one. -/
theorem get?_overlay (hUser : u.Normal) (hGet : u.get? key = some w) (d : Json) :
    (overlay d u).get? key = some ((d.get? key).elim w fun b => overlay b w) := by
  cases u with
  | object members =>
      cases d with
      | object base =>
          change Table.get? key (layMembersOver false base members) = _
          change Table.get? key members = some w at hGet
          rw [get?_layMembersOver hUser.ascending, hGet]
          rfl
      | null | bool | number | string | array => exact hGet
  | null | bool | number | string | array => cases hGet

/-- The value at a path that the user gives is what is given, laid over the default if there is one. -/
theorem at?_overlay (hUser : u.Normal) (hAt : u.at? path = some w) :
    (overlay d u).at? path = some ((d.at? path).elim w fun b => overlay b w) := by
  induction path generalizing d u with
  | nil =>
      cases hAt
      rfl
  | cons key path ih =>
      obtain ⟨v, hGet, hRest⟩ := Option.bind_eq_some_iff.mp hAt
      rw [at?, get?_overlay hUser hGet, Option.bind_some, at?]
      cases d.get? key with
      | none => exact hRest
      | some b => exact ih (hUser.get? hGet) hRest

theorem at?_append (d : Json) (path rest : List String) :
    d.at? (path ++ rest) = (d.at? path).bind fun w => w.at? rest := by
  induction path generalizing d with
  | nil => rfl
  | cons key path ih =>
      rw [List.cons_append, at?, at?, Option.bind_assoc]
      simp only [ih]

/-- What the user gives and is neither null nor an object stands. -/
theorem at?_overlay_of_isLeaf (hUser : u.Normal) (hAt : u.at? path = some w) (hLeaf : w.IsLeaf) (d : Json) :
    (overlay d u).at? path = some w := by
  rw [at?_overlay hUser hAt]
  cases d.at? path with
  | none => rfl
  | some b => exact congrArg some (overlay_of_isLeaf hLeaf b)

/-- The user leaves a default alone that stands at or below a null, or below a key that is missing. -/
theorem at?_overlay_of_default (hUser : u.Normal) (hDefault : d.at? (path ++ rest) = some w)
    (hAbsent : u.at? path = some null ∨ ∃ members key below,
      rest = key :: below ∧ u.at? path = some (object members) ∧ Table.get? key members = none) :
    (overlay d u).at? (path ++ rest) = some w := by
  rw [at?_append] at hDefault ⊢
  obtain ⟨b, hAt, hBelow⟩ := Option.bind_eq_some_iff.mp hDefault
  rcases hAbsent with hNull | ⟨members, key, below, rfl, hObject, hMissing⟩
  · rw [at?_overlay hUser hNull, hAt, Option.elim_some, overlay_null, Option.bind_some, hBelow]
  · rw [at?_overlay hUser hObject, hAt, Option.elim_some, Option.bind_some]
    obtain ⟨v, hGet, hRest⟩ := Option.bind_eq_some_iff.mp hBelow
    cases b with
    | object base =>
        rw [overlay_objects, at?, Json.get?, get?_layMembersOver (hUser.at? hObject).ascending, hMissing,
          Option.elim_none]
        exact hBelow
    | null | bool | number | string | array => cases hGet

/-- Normalized settings over normalized defaults are normalized. -/
theorem Normal.overlay (hDefaults : d.Normal) (hUser : u.Normal) : (overlay d u).Normal := by
  induction hUser generalizing d with
  | null => exact hDefaults
  | bool | number | string | array => constructor <;> assumption
  | object members hAscending hMembers ih =>
      cases d with
      | object base =>
          have hMerged := ascending_layMembersOver hDefaults.ascending members
          refine .object _ hMerged fun m hMem => ?_
          have hGet := hMerged.get?_of_mem hMem
          rw [get?_layMembersOver hAscending] at hGet
          cases hMember : Table.get? m.1 members with
          | none =>
              rw [hMember, Option.elim_none] at hGet
              exact hDefaults.get? hGet
          | some w =>
              rw [hMember, Option.elim_some, Option.some_inj] at hGet
              rw [← hGet]
              have hMem := Table.mem_of_get? hMember
              cases hBase : Table.get? m.1 base with
              | none => exact hMembers _ hMem
              | some b => exact ih _ hMem (hDefaults.get? hBase)
      | null | bool | number | string | array => exact .object members hAscending hMembers

/-- Where both have an object, the keys are those of either. -/
theorem at?_overlay_of_objects (hUser : u.Normal) (hDefault : d.at? path = some (object base))
    (hAt : u.at? path = some (object members)) : ∃ merged : Table String Json,
      (overlay d u).at? path = some (object merged) ∧
        ∀ key, key ∈ merged.keys ↔ key ∈ base.keys ∨ key ∈ members.keys := by
  refine ⟨layMembersOver false base members, ?_, mem_keys_layMembersOver_iff (hUser.at? hAt).ascending⟩
  rw [at?_overlay hUser hAt, hDefault]
  rfl

/-! ## Laying over again -/

theorem overlay_self (h : u.Normal) : overlay u u = u := by
  induction h with
  | null | bool | number | string | array => rfl
  | object members hAscending _ ih =>
      refine congrArg object (layMembersOver_eq_self hAscending fun m hMem => ?_)
      exact ⟨m.2, hAscending.get?_of_mem hMem, ih m hMem⟩

/-- Settings that were laid over defaults change nothing when they are laid over the result. -/
theorem overlay_overlay_self (hDefaults : d.Normal) (hUser : u.Normal) :
    overlay (overlay d u) u = overlay d u := by
  induction hUser generalizing d with
  | null | bool | number | string | array => rfl
  | object members hAscending hMembers ih =>
      cases d with
      | object base =>
          refine congrArg object (layMembersOver_eq_self
            (ascending_layMembersOver hDefaults.ascending members) fun m hMem => ?_)
          have hGet := hAscending.get?_of_mem hMem
          rw [get?_layMembersOver hAscending, hGet, Option.elim_some]
          cases hBase : Table.get? m.1 base with
          | none => exact ⟨m.2, rfl, overlay_self (hMembers m hMem)⟩
          | some b =>
              exact ⟨overlay b m.2, rfl, ih m hMem (hDefaults.of_mem (Table.mem_of_get? hBase))⟩
      | null | bool | number | string | array => exact overlay_self (.object members hAscending hMembers)

/-- An overlay of objects and nulls has nothing to say to some defaults: all its keys are there, and objects
meet objects only. -/
def IsIdle (u d : Json) : Prop :=
  ∀ path w, u.at? path = some w →
    w = null ∧ (d.at? path).isSome = true ∨
      ∃ members base, w = object members ∧ d.at? path = some (object base)

theorem isIdle_null (d : Json) : null.IsIdle d := by
  intro path w hAt
  cases path with
  | nil =>
      cases hAt
      exact .inl ⟨rfl, rfl⟩
  | cons key path => cases hAt

theorem at?_cons_of_get? (hGet : Table.get? key members = some w) (path : List String) :
    (object members).at? (key :: path) = w.at? path := by
  rw [at?, Json.get?, hGet, Option.bind_some]

theorem isIdle_object_iff (hAscending : Table.Ascending members) : (object members).IsIdle (object base) ↔
    ∀ m ∈ members, ∃ b, Table.get? m.1 base = some b ∧ m.2.IsIdle b := by
  constructor
  · intro hIdle m hMem
    have hGet := hAscending.get?_of_mem hMem
    obtain ⟨v, hThere⟩ : ∃ v, (object base).at? [m.1] = some v := by
      rcases hIdle [m.1] m.2 (at?_cons_of_get? hGet []) with ⟨-, hThere⟩ | ⟨_, _, -, hThere⟩
      · exact Option.isSome_iff_exists.mp hThere
      · exact ⟨_, hThere⟩
    obtain ⟨b, hBase, -⟩ := Option.bind_eq_some_iff.mp hThere
    refine ⟨b, hBase, fun path w hAt => ?_⟩
    rw [← at?_cons_of_get? hBase]
    exact hIdle (m.1 :: path) w ((at?_cons_of_get? hGet path).trans hAt)
  · intro hMembers path w hAt
    cases path with
    | nil =>
        cases hAt
        exact .inr ⟨_, _, rfl, rfl⟩
    | cons key path =>
        obtain ⟨v, hGet, hRest⟩ := Option.bind_eq_some_iff.mp hAt
        obtain ⟨b, hBase, hIdle⟩ := hMembers (key, v) (Table.mem_of_get? hGet)
        rw [at?_cons_of_get? hBase]
        exact hIdle path w hRest

theorem overlay_of_isIdle (hDefaults : d.Normal) (hUser : u.Normal) (hIdle : u.IsIdle d) :
    overlay d u = d := by
  induction hUser generalizing d with
  | null => rfl
  | bool | number | string | array =>
      rcases hIdle [] _ rfl with ⟨hNull, -⟩ | ⟨_, _, hObject, -⟩
      · cases hNull
      · cases hObject
  | object members hAscending hMembers ih =>
      rcases hIdle [] _ rfl with ⟨hNull, -⟩ | ⟨_, base, -, hBase⟩
      · cases hNull
      · cases hBase
        refine congrArg object (layMembersOver_eq_self hDefaults.ascending fun m hMem => ?_)
        obtain ⟨b, hGet, hBelow⟩ := (isIdle_object_iff hAscending).mp hIdle m hMem
        exact ⟨b, hGet, ih m hMem (hDefaults.get? hGet) hBelow⟩

/-- A user's settings over defaults are a deep merge: what the user sets stands, what the user leaves out or sets
to null is the default, objects have the keys of both, and neither laying the same settings over the result nor
settings that say nothing change it. -/
theorem overlay_is_deep_merge (hDefaults : d.Normal) (hUser : u.Normal) :
    (overlay? d (some u)).Normal ∧
    (∀ path w, u.at? path = some w → w.IsLeaf → (overlay? d (some u)).at? path = some w) ∧
    (∀ path rest w, d.at? (path ++ rest) = some w →
      (u.at? path = some null ∨ ∃ members key below, rest = key :: below ∧
        u.at? path = some (object members) ∧ Table.get? key members = none) →
      (overlay? d (some u)).at? (path ++ rest) = some w) ∧
    (∀ path base members, d.at? path = some (object base) → u.at? path = some (object members) →
      ∃ merged : Table String Json, (overlay? d (some u)).at? path = some (object merged) ∧
        ∀ key, key ∈ merged.keys ↔ key ∈ Table.keys base ∨ key ∈ Table.keys members) ∧
    overlay? (overlay? d (some u)) (some u) = overlay? d (some u) ∧
    ∀ idle : Json, idle.Normal → idle.IsIdle d → overlay? d (some idle) = d := by
  refine ⟨hDefaults.overlay hUser, fun _ _ hAt hLeaf => at?_overlay_of_isLeaf hUser hAt hLeaf d, ?_, ?_,
    overlay_overlay_self hDefaults hUser, fun _ => overlay_of_isIdle hDefaults⟩
  · exact fun _ _ _ => at?_overlay_of_default hUser
  · exact fun _ _ _ => at?_overlay_of_objects hUser

namespace Sample

/-- Defaults with a name and a table. -/
def defaults : Json :=
  object [("name", string "a"), ("queue", object [("size", ofNat 1000), ("storage", null)])]

/-- Settings that keep the name, change the size and add to the table. -/
def user : Json :=
  object [("name", null), ("queue", object [("kind", object [("of", null)]), ("size", ofNat 5)])]

/-- Settings that say nothing. -/
def idle : Json := object [("queue", object [("size", null)])]

end Sample

theorem overlay_is_deep_merge_sample :
    Sample.defaults.Normal ∧ Sample.user.Normal ∧ Sample.idle.Normal ∧ Sample.idle.IsIdle Sample.defaults ∧
    (overlay? Sample.defaults (some Sample.user)).at? ["queue", "size"] = some (ofNat 5) ∧
    (overlay? Sample.defaults (some Sample.user)).at? ["name"] = some (string "a") ∧
    (overlay? Sample.defaults (some Sample.user)).at? ["queue", "storage"] = some null ∧
    (∃ merged : Table String Json,
      (overlay? Sample.defaults (some Sample.user)).at? ["queue"] = some (object merged) ∧
        "kind" ∈ merged.keys ∧ "storage" ∈ merged.keys) ∧
    overlay? Sample.defaults (some Sample.idle) = Sample.defaults := by
  have hDefaults : Sample.defaults.Normal := normal_normalize Sample.defaults
  have hUser : Sample.user.Normal := normal_normalize Sample.user
  have hIdle : Sample.idle.Normal := normal_normalize Sample.idle
  have hSays : Sample.idle.IsIdle Sample.defaults := by
    refine (isIdle_object_iff hIdle.ascending).mpr (List.forall_mem_singleton.mpr ⟨_, rfl, ?_⟩)
    exact (isIdle_object_iff (hIdle.of_mem List.mem_cons_self).ascending).mpr
      (List.forall_mem_singleton.mpr ⟨_, rfl, isIdle_null _⟩)
  obtain ⟨-, hStands, hKept, hKeys, -, hNothing⟩ := overlay_is_deep_merge hDefaults hUser
  refine ⟨hDefaults, hUser, hIdle, hSays, hStands _ _ rfl trivial, ?_, ?_, ?_, hNothing _ hIdle hSays⟩
  · exact hKept ["name"] [] _ rfl (.inl rfl)
  · exact hKept ["queue"] ["storage"] _ rfl (.inr ⟨_, _, _, rfl, rfl, rfl⟩)
  · obtain ⟨merged, hAt, hEither⟩ := hKeys ["queue"] _ _ rfl rfl
    exact ⟨merged, hAt, (hEither _).mpr (.inr (by decide)), (hEither _).mpr (.inl (by decide))⟩

end Telemetry.Json

import Mathlib.Data.List.Find
import Telemetry.Configuration.Decode
import Telemetry.Proofs.Configuration.Overlay

/-!
# Readers of records and stray members

A reader that does not insist on the names of members reads an object as if the members that are no fields were
not there, and never says that some name is unknown. The members it passes over may be struck from settings before
or after these are laid over defaults.
-/

namespace Telemetry

/-- A value without the members other than the named ones; what is no object stays as it is. -/
def Json.restrict (names : List String) : Json → Json
  | .object members => .object (members.filter fun m => decide (m.1 ∈ names))
  | v => v

theorem Json.restrict_overlay {d u : Json} (hDefaults : d.Normal) (hUser : u.Normal) (names : List String) :
    (overlay d u).restrict names = overlay (d.restrict names) (u.restrict names) := by
  cases u with
  | null | bool | number | string | array => rfl
  | object members =>
      cases d with
      | null | bool | number | string | array => rfl
      | object base =>
          have hMembers := hUser.ascending
          have hBase := hDefaults.ascending
          refine congrArg object (((ascending_layMembersOver hBase members).filter _).ext
            (ascending_layMembersOver (hBase.filter _) _) fun key => ?_)
          rw [get?_layMembersOver (hMembers.filter _),
            Table.get?_filter_key (fun key => decide (key ∈ names)), get?_layMembersOver hMembers,
            Table.get?_filter_key (fun key => decide (key ∈ names)),
            Table.get?_filter_key (fun key => decide (key ∈ names))]
          by_cases hNamed : decide (key ∈ names) = true
          · simp only [if_pos hNamed]
          · simp only [if_neg hNamed, Option.elim_none]

/-- The text of an error says that the name of a member is unknown. -/
def SettingsError.NamesField (e : SettingsError) : Prop := "unknown field".toList <+: e.message.toList

/-- Besides the error made for it, only the breach of a rule can say that a name is unknown. -/
theorem SettingsError.eq_of_namesField {e : SettingsError} (h : e.NamesField) :
    (∃ name known, e = .unknownField name known) ∨ ∃ reason, e = .rule reason := by
  cases e with
  | unknownField name known => exact .inl ⟨name, known, rfl⟩
  | rule reason => exact .inr ⟨reason, rfl⟩
  | badId source =>
      refine absurd h ?_
      unfold NamesField message IdError.message
      cases source <;> simp [String.toList_append]
  | wrongType | belowZero | notOneMember | unknownVariant | missingField | tooShort | tooLong | badAddress =>
      refine absurd h ?_
      unfold NamesField message
      simp [String.toList_append]

namespace Settings

variable {α β σ : Type} {fields : List (Field σ)} {members : List (String × Json)}

/-! ## Members that are no fields -/

theorem any_name_eq_decide (fields : List (Field σ)) (key : String) :
    (fields.any fun f => f.name == key) = decide (key ∈ fields.map Field.name) := by
  rw [Bool.eq_iff_iff, List.any_eq_true, decide_eq_true_iff, List.mem_map]
  simp only [beq_iff_eq]

theorem storeMembers_filter (keep : String → Bool) (hKeep : ∀ f ∈ fields, keep f.name = true)
    (members : List (String × Json)) (s : σ) :
    storeMembers fields false (members.filter fun m => keep m.1) s = storeMembers fields false members s := by
  induction members generalizing s with
  | nil => rfl
  | cons m members ih =>
      obtain ⟨key, v⟩ := m
      cases hField : fields.find? fun f => f.name == key with
      | some f =>
          have hFound := List.find?_some hField
          have hSame : f.name = key := eq_of_beq hFound
          have hKept : keep key = true := hSame ▸ hKeep f (List.mem_of_find?_eq_some hField)
          rw [List.filter_cons, if_pos hKept, storeMembers, storeMembers, hField]
          exact congrArg _ (funext fun s => ih s)
      | none =>
          have hPassed : storeMembers fields false ((key, v) :: members) s = storeMembers fields false members s := by
            rw [storeMembers, hField]
            rfl
          rw [hPassed, List.filter_cons]
          split
          · rw [storeMembers, hField]
            exact ih s
          · exact ih s

/-- Values may be replaced that are stored alike. -/
theorem storeMembers_map {replace : String → Json → Json}
    (hStore : ∀ f ∈ fields, ∀ v s, f.store (replace f.name v) s = f.store v s) (strict : Bool)
    (members : List (String × Json)) (s : σ) :
    storeMembers fields strict (members.map fun m => (m.1, replace m.1 m.2)) s =
      storeMembers fields strict members s := by
  induction members generalizing s with
  | nil => rfl
  | cons m members ih =>
      obtain ⟨key, v⟩ := m
      rw [List.map_cons, storeMembers, storeMembers]
      cases hField : fields.find? fun f => f.name == key with
      | some f =>
          have hFound := List.find?_some hField
          have hSame : f.name = key := eq_of_beq hFound
          simp only [ih, ← hSame, hStore f (List.mem_of_find?_eq_some hField)]
      | none => simp only [ih]

/-- A record that is read without insisting on the names of its members does not depend on the others. -/
theorem record_restrict (name : String) (gathered : Bool) (fields : List (Field σ)) (start : σ) (v : Json) :
    record name ⟨false, gathered⟩ fields start (v.restrict (fields.map Field.name)) =
      record name ⟨false, gathered⟩ fields start v := by
  cases v with
  | null | bool | number | string | array => rfl
  | object members =>
      let isNamed : String → Bool := fun key => decide (key ∈ fields.map Field.name)
      have hNamed : ∀ f ∈ fields, isNamed f.name = true := fun f hMem =>
        decide_eq_true (List.mem_map_of_mem hMem)
      have hMissing : (fields.find? fun f => f.required && !Table.contains f.name
            (members.filter fun m => isNamed m.1)) =
          fields.find? fun f => f.required && !Table.contains f.name members := by
        refine List.find?_congr fun f hMem => ?_
        rw [Table.contains, Table.contains, Table.get?_filter_key isNamed, if_pos (hNamed f hMem)]
      rw [Json.restrict, record, record, storeMembers_filter isNamed hNamed, hMissing]

/-! ## What tolerant readers never say -/

/-- If a result is an error, its text does not say that the name of a member is unknown. -/
def Tolerant (r : Except SettingsError α) : Prop := ∀ e, r = .error e → ¬ e.NamesField

/-- A field that is stored without a word about the names of members. -/
def Field.Tolerant (f : Field σ) : Prop := ∀ v s, Settings.Tolerant (f.store v s)

theorem Tolerant.ok (a : α) : Tolerant (.ok a) := nofun

theorem Tolerant.error {e : SettingsError} (hField : ∀ name known, e ≠ .unknownField name known)
    (hRule : ∀ reason, e ≠ .rule reason) : Tolerant (α := α) (.error e) := by
  rintro _ ⟨⟩ hNames
  rcases SettingsError.eq_of_namesField hNames with ⟨name, known, hSame⟩ | ⟨reason, hSame⟩
  · exact hField name known hSame
  · exact hRule reason hSame

theorem Tolerant.bind {r : Except SettingsError α} {f : α → Except SettingsError β} (h : Tolerant r)
    (hNext : ∀ a, Tolerant (f a)) : Tolerant (r >>= f) := by
  cases r with
  | error e =>
      rintro _ ⟨⟩
      exact h e rfl
  | ok a => exact hNext a

theorem Tolerant.map {r : Except SettingsError α} (h : Tolerant r) (f : α → β) : Tolerant (r.map f) := by
  cases r with
  | error e =>
      rintro _ ⟨⟩
      exact h e rfl
  | ok a => exact .ok _

theorem tolerant_bool (v : Json) : Tolerant (bool v) := by
  cases v with
  | bool b => exact .ok b
  | null | number | string | array | object => exact .error nofun nofun

theorem tolerant_word (type : String) (v : Json) : Tolerant (word type v) := by
  cases v with
  | number n =>
      cases n with
      | natural n => exact .ok n
      | negative | double => exact .error nofun nofun
  | null | bool | string | array | object => exact .error nofun nofun

theorem tolerant_double (v : Json) : Tolerant (double v) := by
  cases v with
  | number n => cases n <;> exact .ok _
  | null | bool | string | array | object => exact .error nofun nofun

theorem tolerant_text (v : Json) : Tolerant (text v) := by
  cases v with
  | string s => exact .ok s
  | null | bool | number | array | object => exact .error nofun nofun

theorem tolerant_componentId (v : Json) : Tolerant (componentId v) := by
  cases v with
  | string s =>
      rw [componentId]
      cases ComponentId.parse s with
      | ok id => exact .ok id
      | error e => exact .error nofun nofun
  | null | bool | number | array | object => exact .error nofun nofun

theorem tolerant_optional {read : Reader α} (hRead : ∀ v, Tolerant (read v)) (v : Json) :
    Tolerant (optional read v) := by
  cases v with
  | null => exact .ok none
  | bool | number | string | array | object => exact (hRead _).map some

theorem tolerant_table {κ : Type} [Ord κ] {key : String → Except SettingsError κ} {read : Reader α}
    (hKey : ∀ s, Tolerant (key s)) (hRead : ∀ v, Tolerant (read v)) (v : Json) :
    Tolerant (table key read v) := by
  cases v with
  | null | bool | number | string | array => exact .error nofun nofun
  | object members =>
      rw [table]
      generalize ([] : Table κ α) = t
      induction members generalizing t with
      | nil => exact .ok t
      | cons m members ih =>
          rw [List.foldlM_cons]
          exact ((hKey m.1).bind fun k => (hRead m.2).bind fun a => .ok _).bind ih

theorem tolerant_enumeration (names : List (String × α)) (v : Json) : Tolerant (enumeration names v) := by
  have hChoose : ∀ s, Tolerant (enumeration.choose names s) := fun s => by
    rw [enumeration.choose]
    split
    · exact .ok _
    · exact .error nofun nofun
  cases v with
  | string s => exact hChoose s
  | object members =>
      match members with
      | [] | _ :: _ :: _ => exact .error nofun nofun
      | [(s, v)] =>
          refine (hChoose s).bind fun a => ?_
          cases v with
          | null => exact .ok a
          | bool | number | string | array | object => exact .error nofun nofun
  | null | bool | number | array => exact .error nofun nofun

theorem tolerant_field {name : String} {read : Reader α} {put : α → σ → σ}
    (hRead : ∀ v, Tolerant (read v)) : (field name read put).Tolerant :=
  fun v _ => (hRead v).map _

theorem tolerant_storeItems (hFields : ∀ f ∈ fields, f.Tolerant) {name : String} {size count : Nat}
    {expected : String} (items : List Json) (s : σ) :
    Tolerant (storeItems name size (.tooLong count expected) fields items s) := by
  induction fields generalizing items s with
  | nil =>
      cases items with
      | nil => exact .ok s
      | cons v items => exact .error nofun nofun
  | cons f fields ih =>
      obtain ⟨hField, hFields⟩ := List.forall_mem_cons.mp hFields
      cases items with
      | nil =>
          rw [storeItems]
          split
          · exact .error nofun nofun
          · exact .ok s
      | cons v items => exact (hField v s).bind fun s => ih hFields items s

theorem tolerant_storeMembers (hFields : ∀ f ∈ fields, f.Tolerant) (members : List (String × Json)) (s : σ) :
    Tolerant (storeMembers fields false members s) := by
  induction members generalizing s with
  | nil => exact .ok s
  | cons m members ih =>
      obtain ⟨key, v⟩ := m
      rw [storeMembers]
      cases hField : fields.find? fun f => f.name == key with
      | some f => exact (hFields f (List.mem_of_find?_eq_some hField) v s).bind ih
      | none => exact ih s

theorem tolerant_record (hFields : ∀ f ∈ fields, f.Tolerant) (name : String) (gathered : Bool) (start : σ)
    (v : Json) : Tolerant (record name ⟨false, gathered⟩ fields start v) := by
  cases v with
  | object members =>
      refine (tolerant_storeMembers hFields members start).bind fun s => ?_
      split
      · exact .error nofun nofun
      · exact .ok s
  | array items => exact tolerant_storeItems hFields items start
  | null | bool | number | string => exact .error nofun nofun

end Settings

end Telemetry

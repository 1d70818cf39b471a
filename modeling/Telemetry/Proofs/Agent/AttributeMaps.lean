import Mathlib.Data.List.Forall2
import Mathlib.Logic.Function.Basic
import Telemetry.Proofs.Agent.AttributeEdits

/-!
# Attributes as maps

Attributes with distinct keys are a map from keys to values. An edit sets or removes one key of it, and
keeps the keys distinct, so that edits in turn are a fold over the map. What no edit names stays as it is,
in its order.
-/

namespace Telemetry

/-- What keys are set to: nothing, or a value, which may be absent. -/
abbrev AttributeMap := String → Option (Option Wire.Message)

namespace AttributeMap

/-- Attributes as a map, the first one with a key counting. -/
def ofList (attributes : List Attribute) : AttributeMap :=
  fun key => (attributes.find? fun a => a.key = key).map Attribute.value

/-- Edits one key of a map. -/
def edit (m : AttributeMap) (action : EditAction) (key : String) (value : Option Wire.Message) :
    AttributeMap :=
  match action with
  | .upsert => Function.update m key (some value)
  | .insert => if m key = none then Function.update m key (some value) else m
  | .update => if m key = none then m else Function.update m key (some value)
  | .delete => Function.update m key none

/-- Edits a map as configured. -/
def editAll (settings : List EditSettings) (m : AttributeMap) : AttributeMap :=
  settings.foldl (fun m s => m.edit s.action s.key (s.value.bind attributeValue?)) m

variable {a : Attribute} {attributes : List Attribute} {key : String} {value : Option Wire.Message}

@[simp] theorem ofList_nil : ofList [] = fun _ => none := rfl

theorem ofList_cons (a : Attribute) (attributes : List Attribute) :
    ofList (a :: attributes) = Function.update (ofList attributes) a.key (some a.value) := by
  funext k
  by_cases hKey : a.key = k
  · subst hKey
    simp [ofList]
  · rw [Function.update_of_ne (Ne.symm hKey)]
    simp [ofList, hKey]

theorem ofList_eq_none_iff : ofList attributes key = none ↔ key ∉ attributes.map Attribute.key := by
  simp [ofList]

theorem ofList_append_singleton (hAbsent : key ∉ attributes.map Attribute.key) :
    ofList (attributes ++ [⟨key, value⟩]) = Function.update (ofList attributes) key (some value) := by
  induction attributes with
  | nil => exact ofList_cons _ _
  | cons a attributes ih =>
      rw [List.map_cons, List.mem_cons, not_or] at hAbsent
      rw [List.cons_append, ofList_cons, ih hAbsent.2, ofList_cons,
        Function.update_comm hAbsent.1]

theorem ofList_setFirst (hPresent : key ∈ attributes.map Attribute.key) :
    ofList (AttributeEdit.setFirst key value attributes) =
      Function.update (ofList attributes) key (some value) := by
  induction attributes with
  | nil => cases hPresent
  | cons a attributes ih =>
      rw [AttributeEdit.setFirst]
      split
      · rename_i hKey
        rw [ofList_cons, ofList_cons, hKey, Function.update_idem]
      · rename_i hKey
        rw [List.map_cons, List.mem_cons] at hPresent
        rw [ofList_cons, ih (hPresent.resolve_left (Ne.symm hKey)), ofList_cons,
          Function.update_comm hKey]

theorem ofList_eraseP (hDistinct : (attributes.map Attribute.key).Nodup) :
    ofList (attributes.eraseP fun a => a.key = key) = Function.update (ofList attributes) key none := by
  induction attributes with
  | nil => simp
  | cons a attributes ih =>
      obtain ⟨hFirst, hRest⟩ := List.nodup_cons.mp hDistinct
      by_cases hKey : a.key = key
      · subst hKey
        rw [List.eraseP_cons_of_pos (by simp), ofList_cons, Function.update_idem,
          ← ofList_eq_none_iff.mpr hFirst, Function.update_eq_self]
      · rw [List.eraseP_cons_of_neg (by simpa using hKey), ofList_cons, ih hRest, ofList_cons,
          Function.update_comm hKey]

end AttributeMap

namespace AttributeEdit

variable {e : AttributeEdit} {edits : List AttributeEdit} {attributes : List Attribute} {keys : List String}
  {settings : List EditSettings}

/-! ## What one edit does -/

theorem nodup_keysAfter (hDistinct : keys.Nodup) : (e.keysAfter keys).Nodup := by
  have hAdd : (if e.key ∈ keys then keys else keys ++ [e.key]).Nodup := by
    split
    · exact hDistinct
    · rename_i hAbsent
      exact List.nodup_append.mpr ⟨hDistinct, List.nodup_singleton _, by
        rintro k hk l hl rfl
        exact hAbsent (List.mem_singleton.mp hl ▸ hk)⟩
  rw [keysAfter]
  cases e.action with
  | delete => exact hDistinct.erase _
  | upsert => exact hAdd
  | insert => exact hAdd
  | update => exact hDistinct

theorem ofList_apply (hDistinct : (attributes.map Attribute.key).Nodup) :
    AttributeMap.ofList (e.apply attributes) =
      (AttributeMap.ofList attributes).edit e.action e.key e.value := by
  have hPresent : (attributes.any fun a => a.key = e.key) = true ↔
      e.key ∈ attributes.map Attribute.key := by simp
  simp only [apply, AttributeMap.edit, hPresent, AttributeMap.ofList_eq_none_iff]
  cases e.action with
  | delete => exact AttributeMap.ofList_eraseP hDistinct
  | upsert =>
      dsimp only
      split
      · rename_i hKey
        exact AttributeMap.ofList_setFirst hKey
      · rename_i hKey
        exact AttributeMap.ofList_append_singleton hKey
  | insert =>
      dsimp only
      by_cases hKey : e.key ∈ attributes.map Attribute.key
      · rw [if_pos hKey, if_neg (not_not_intro hKey)]
      · rw [if_neg hKey, if_pos hKey, AttributeMap.ofList_append_singleton hKey]
  | update =>
      dsimp only
      by_cases hKey : e.key ∈ attributes.map Attribute.key
      · rw [if_pos hKey, if_neg (not_not_intro hKey), AttributeMap.ofList_setFirst hKey]
      · rw [if_neg hKey, if_pos hKey]

section Others

variable {p : Attribute → Bool} (hOthers : ∀ a, a.key = e.key → p a = false)
include hOthers

theorem filter_setFirst (attributes : List Attribute) :
    (setFirst e.key e.value attributes).filter p = attributes.filter p := by
  induction attributes with
  | nil => rfl
  | cons a attributes ih =>
      rw [setFirst]
      split
      · rename_i hKey
        rw [List.filter_cons_of_neg (by simp [hOthers (Attribute.mk e.key e.value) rfl]),
          List.filter_cons_of_neg (by simp [hOthers a hKey])]
      · rw [List.filter_cons, List.filter_cons, ih]

theorem filter_eraseP (attributes : List Attribute) :
    (attributes.eraseP fun a => a.key = e.key).filter p = attributes.filter p := by
  induction attributes with
  | nil => rfl
  | cons a attributes ih =>
      by_cases hKey : a.key = e.key
      · rw [List.eraseP_cons_of_pos (by simpa using hKey),
          List.filter_cons_of_neg (by simp [hOthers a hKey])]
      · rw [List.eraseP_cons_of_neg (by simpa using hKey), List.filter_cons, List.filter_cons, ih]

/-- Attributes of other keys stay, in their order. -/
theorem filter_apply (attributes : List Attribute) :
    (e.apply attributes).filter p = attributes.filter p := by
  have hAdd : (attributes ++ [Attribute.mk e.key e.value]).filter p = attributes.filter p := by
    simp [hOthers (Attribute.mk e.key e.value) rfl]
  simp only [apply]
  cases e.action with
  | delete => exact filter_eraseP hOthers attributes
  | upsert =>
      dsimp only
      split
      · exact filter_setFirst hOthers attributes
      · exact hAdd
  | insert =>
      dsimp only
      split
      · rfl
      · exact hAdd
  | update =>
      dsimp only
      split
      · exact filter_setFirst hOthers attributes
      · rfl

end Others

/-! ## What edits in turn do -/

theorem nodup_applyAll (hDistinct : (attributes.map Attribute.key).Nodup) :
    ((applyAll edits attributes).map Attribute.key).Nodup := by
  induction edits generalizing attributes with
  | nil => exact hDistinct
  | cons e edits ih => exact ih (map_key_apply e attributes ▸ nodup_keysAfter hDistinct)

/-- Edits in turn are a fold over the map that distinct attributes are. -/
theorem ofList_applyAll (hDistinct : (attributes.map Attribute.key).Nodup) :
    AttributeMap.ofList (applyAll edits attributes) =
      edits.foldl (fun m e => m.edit e.action e.key e.value) (AttributeMap.ofList attributes) := by
  induction edits generalizing attributes with
  | nil => rfl
  | cons e edits ih =>
      rw [List.foldl_cons, ← ofList_apply hDistinct]
      exact ih (map_key_apply e attributes ▸ nodup_keysAfter hDistinct)

theorem filter_applyAll {p : Attribute → Bool} (hOthers : ∀ e ∈ edits, ∀ a, a.key = e.key → p a = false)
    (attributes : List Attribute) : (applyAll edits attributes).filter p = attributes.filter p := by
  induction edits generalizing attributes with
  | nil => rfl
  | cons e edits ih =>
      obtain ⟨hFirst, hRest⟩ := List.forall_mem_cons.mp hOthers
      exact (ih hRest (e.apply attributes)).trans (filter_apply hFirst attributes)

/-! ## Edits as they are configured -/

theorem value_of_ofSettings {s : EditSettings} (h : ofSettings s = .ok e) (hSets : s.action ≠ .delete) :
    e.value.isSome = true ∧ e.value = s.value.bind attributeValue? := by
  rw [ofSettings] at h
  split at h
  · rename_i hAction
    exact absurd hAction hSets
  · cases h
  · rename_i v hValue _
    rw [hValue, Option.bind_some]
    cases hRead : attributeValue? v with
    | none =>
        rw [hRead] at h
        cases h
    | some value =>
        rw [hRead] at h
        cases h
        exact ⟨rfl, rfl⟩

theorem edit_of_ofSettings {s : EditSettings} (h : ofSettings s = .ok e) (m : AttributeMap) :
    m.edit e.action e.key e.value = m.edit s.action s.key (s.value.bind attributeValue?) := by
  obtain ⟨hKey, hAction⟩ := ofSettings_eq_ok h
  rw [hKey, hAction]
  by_cases hSets : s.action = .delete
  · rw [hSets]
    rfl
  · rw [(value_of_ofSettings h hSets).2]

theorem forall₂_of_mapM (h : settings.mapM ofSettings = .ok edits) :
    List.Forall₂ (fun s e => ofSettings s = .ok e) settings edits := by
  induction settings generalizing edits with
  | nil =>
      cases h
      exact .nil
  | cons s settings ih =>
      rw [List.mapM_cons] at h
      obtain ⟨e, hFirst, h⟩ := bind_eq_ok_iff.mp h
      obtain ⟨rest, hRest, h⟩ := bind_eq_ok_iff.mp h
      cases h
      exact .cons hFirst (ih hRest)

/-- Every edit that is not a removal has a value. -/
theorem isSome_value_of_mapM (h : settings.mapM ofSettings = .ok edits) :
    ∀ s ∈ settings, s.action ≠ .delete → (s.value.bind attributeValue?).isSome = true := by
  have hRead := forall₂_of_mapM h
  clear h
  induction hRead with
  | nil => nofun
  | @cons s e settings edits hFirst _ ih =>
      refine List.forall_mem_cons.mpr ⟨fun hSets => ?_, ih⟩
      obtain ⟨hSome, hValue⟩ := value_of_ofSettings hFirst hSets
      exact hValue ▸ hSome

theorem foldl_edit_of_mapM (h : settings.mapM ofSettings = .ok edits) (m : AttributeMap) :
    edits.foldl (fun m e => m.edit e.action e.key e.value) m = m.editAll settings := by
  have hRead := forall₂_of_mapM h
  clear h
  induction hRead generalizing m with
  | nil => rfl
  | cons hFirst _ ih =>
      rw [List.foldl_cons, ih, edit_of_ofSettings hFirst]
      rfl

/-- What edits as configured make of attributes: if the keys are distinct they stay so, and the map they are
is edited; what is not named stays, in its order. -/
structure Rewrites (settings : List EditSettings) (before after : List Attribute) : Prop where
  distinct : (before.map Attribute.key).Nodup → (after.map Attribute.key).Nodup
  asMap : (before.map Attribute.key).Nodup →
    AttributeMap.ofList after = (AttributeMap.ofList before).editAll settings
  others : (after.filter fun a => a.key ∉ settings.map EditSettings.key) =
    before.filter fun a => a.key ∉ settings.map EditSettings.key

theorem rewrites_applyAll (h : settings.mapM ofSettings = .ok edits) (attributes : List Attribute) :
    Rewrites settings attributes (applyAll edits attributes) where
  distinct := nodup_applyAll
  asMap hDistinct := (ofList_applyAll hDistinct).trans (foldl_edit_of_mapM h _)
  others := by
    have hKeys : edits.map AttributeEdit.key = settings.map EditSettings.key := by
      simpa [Function.comp_def] using congrArg (List.map Prod.fst) (mapM_ofSettings_eq_ok h)
    refine filter_applyAll (fun e he a hKey => ?_) attributes
    have hNamed : a.key ∈ settings.map EditSettings.key :=
      hKeys ▸ hKey ▸ List.mem_map_of_mem he
    simpa using hNamed

end AttributeEdit

/-! ## The groups of a batch -/

/-- A group whose resource was changed once, a blank one where it had none, and which is otherwise as it
was. -/
structure ResourceGroup.Visited (f : Resource → Resource) (g g' : ResourceGroup) : Prop where
  resource : g'.resource = some (f (g.resource.getD .blank))
  scopes : g'.scopes = g.scopes
  schemaUrl : g'.schemaUrl = g.schemaUrl

theorem Request.visited_mapResources (f : Resource → Resource) (r : Request) :
    List.Forall₂ (ResourceGroup.Visited f) r.groups (r.mapResources f).groups :=
  List.forall₂_map_right_iff.mpr (List.forall₂_same.mpr fun _ _ => ⟨rfl, rfl, rfl⟩)

theorem Request.itemCount_mapResources (f : Resource → Resource) (r : Request) :
    (r.mapResources f).itemCount = r.itemCount := by
  rw [itemCount, mapResources, List.map_map]
  rfl

namespace Agent

variable {id : ComponentId} {type : BatchType} {v : Json} {next : Consumer} {made : Inlet Component}
  {x : Installation}

namespace Renewal

/-- The settings of a processor that removes the key `a`, sets it anew and changes the key `b`. -/
def settings : Json :=
  .object [("attributes", .array
    [.object [("action", .string "delete"), ("key", .string "a")],
      .object [("action", .string "insert"), ("key", .string "a"), ("value", .string "new")],
      .object [("action", .string "update"), ("key", .string "b"), ("value", .bool true)]])]

/-- Its edits. -/
def edits : List AttributeEdit :=
  [⟨"a", none, .delete⟩, ⟨"a", some (attributeValue "stringValue" (.text "new")), .insert⟩,
    ⟨"b", some (attributeValue "boolValue" (.word 1)), .update⟩]

/-- The processor, before a sink. -/
def processor : Inlet Component := ⟨.idle, .edit (Request.editResources edits) (.leaf false 0)⟩

theorem create_settings :
    (resourceProcessors.create ⟨⟨"resource", by decide⟩, none⟩ .logs settings (.leaf false 0)
      (.empty none)).1 = .ok processor := rfl

/-- A batch with one resource, which has the keys `a` and `c`, and a group without a resource. -/
def batch : Request :=
  ⟨.logs, [⟨some ⟨[⟨"a", none⟩, ⟨"c", none⟩], 0, []⟩, [], ""⟩, .blank]⟩

end Renewal

/-- A processor of attributes hands on each batch with every group visited once, the attributes edited as
configured: where the keys of a resource are distinct they stay so, and the map of its attributes is folded
over the edits. -/
theorem attributes_are_edited_as_map (hCreate : (resourceProcessors.create id type v next x).1 = .ok made) :
    ∃ settings edits, ResourceSettings.read v = .ok settings ∧
      settings.attributes.mapM AttributeEdit.ofSettings = .ok edits ∧
      (∀ s ∈ settings.attributes, s.action ≠ .delete → (s.value.bind attributeValue?).isSome = true) ∧
      (∀ attributes, AttributeEdit.Rewrites settings.attributes attributes
        (AttributeEdit.applyAll edits attributes)) ∧
      ∀ {σ : Type} (outlets : Outlets σ) (b : Handle) (h : Heap) (s : σ) (refs : List Nat),
        h.Covers (b.ref :: refs) → ∃ b' h',
          made.consumer.consume outlets b h s = next.consume outlets b' h' s ∧
          Heap.Keeps refs h h' ∧ (h'.read b').type = (h.read b).type ∧
          List.Forall₂ (ResourceGroup.Visited fun r =>
              { r with attributes := AttributeEdit.applyAll edits r.attributes })
            (h.read b).groups (h'.read b').groups ∧
          (h'.read b').itemCount = (h.read b).itemCount := by
  obtain ⟨settings, edits, hRead, hEdits, hConsumer⟩ := resourceProcessors_create_eq_ok hCreate
  refine ⟨settings, edits, hRead, hEdits, AttributeEdit.isSome_value_of_mapM hEdits,
    AttributeEdit.rewrites_applyAll hEdits, ?_⟩
  intro σ outlets b h s refs hCovers
  have hEdit := hCovers.exchanges_edit (Request.editResources edits)
  refine ⟨(h.edit b (Request.editResources edits)).1, (h.edit b (Request.editResources edits)).2, ?_,
    hEdit.keeps, ?_⟩
  · rw [hConsumer, Consumer.consume]
  · rw [hEdit.read]
    exact ⟨rfl, Request.visited_mapResources _ _, Request.itemCount_mapResources _ _⟩

theorem attributes_are_edited_as_map_renewal :
    (resourceProcessors.create ⟨⟨"resource", by decide⟩, none⟩ .logs Renewal.settings (.leaf false 0)
      (.empty none)).1 = .ok Renewal.processor ∧
    (Heap.empty.new Renewal.batch).2.Covers [(Heap.empty.new Renewal.batch).1.ref] ∧
    ∃ b h, Renewal.processor.consumer.consume Sinks.outlets (Heap.empty.new Renewal.batch).1
        (Heap.empty.new Renewal.batch).2 [.blank] =
      Consumer.consume Sinks.outlets (.leaf false 0) b h [.blank] ∧
      (h.read b).groups.map (fun g => g.resource.map fun r => r.attributes.map Attribute.key) =
        [some ["c", "a"], some ["a"]] := by
  have hCovers : (Heap.empty.new Renewal.batch).2.Covers [(Heap.empty.new Renewal.batch).1.ref] :=
    Heap.Covers.new (fun _ => Nat.zero_le _) _
  refine ⟨Renewal.create_settings, hCovers, ?_⟩
  obtain ⟨settings, edits, hRead, hEdits, -, -, hVisits⟩ :=
    attributes_are_edited_as_map Renewal.create_settings
  cases hRead
  cases hEdits
  obtain ⟨b, h, hRun, -, -, hGroups, -⟩ := hVisits Sinks.outlets _ _ [.blank] [] hCovers
  refine ⟨b, h, hRun, ?_⟩
  rw [Heap.read_new] at hGroups
  generalize (h.read b).groups = groups at hGroups ⊢
  rcases hGroups with _ | ⟨hFirst, _ | ⟨hSecond, ⟨⟩⟩⟩
  rw [List.map_cons, List.map_cons, hFirst.resource, hSecond.resource]
  rfl

end Agent

end Telemetry

import Telemetry.Agent.Factories
import Telemetry.Flow.Sink
import Telemetry.Proofs.Batch.Heap
import Telemetry.Proofs.Pipeline.Validation

/-!
# Edits of attributes

An edit acts on the first attribute with its key. One that removes leaves the further ones with that key where
they are, so that a key which a batch has twice is there after it is removed.
-/

namespace Telemetry

/-! ## The keys that edits leave -/

namespace AttributeEdit

variable {e : AttributeEdit} {edits before after : List AttributeEdit} {attributes : List Attribute}
  {key : String} {keys : List String}

/-- What an edit makes of the keys of attributes. -/
def keysAfter (e : AttributeEdit) (keys : List String) : List String :=
  match e.action with
  | .delete => keys.erase e.key
  | .upsert | .insert => if e.key ∈ keys then keys else keys ++ [e.key]
  | .update => keys

theorem map_key_setFirst (value : Option Wire.Message) :
    (setFirst key value attributes).map Attribute.key = attributes.map Attribute.key := by
  induction attributes with
  | nil => rfl
  | cons a attributes ih =>
      rw [setFirst]
      split
      · rename_i hKey
        rw [List.map_cons, List.map_cons, hKey]
      · rw [List.map_cons, List.map_cons, ih]

theorem map_key_eraseP : (attributes.eraseP fun a => a.key = key).map Attribute.key =
    (attributes.map Attribute.key).erase key := by
  induction attributes with
  | nil => rfl
  | cons a attributes ih =>
      by_cases hKey : a.key = key
      · simp [hKey]
      · rw [List.eraseP_cons_of_neg (by simpa using hKey), List.map_cons, List.map_cons, ih,
          List.erase_cons_tail (by simpa using hKey)]

theorem map_key_apply (e : AttributeEdit) (attributes : List Attribute) :
    (e.apply attributes).map Attribute.key = e.keysAfter (attributes.map Attribute.key) := by
  have hPresent : (attributes.any fun a => a.key = e.key) = true ↔
      e.key ∈ attributes.map Attribute.key := by simp
  simp only [apply, keysAfter, hPresent]
  cases e.action with
  | delete => exact map_key_eraseP
  | upsert =>
      dsimp only
      split
      · exact map_key_setFirst _
      · exact List.map_append
  | insert =>
      dsimp only
      split
      · rfl
      · exact List.map_append
  | update =>
      dsimp only
      split
      · exact map_key_setFirst _
      · rfl

/-- Edits of other keys leave a key as often as it is there. -/
theorem count_keysAfter_of_ne (h : e.key ≠ key) : (e.keysAfter keys).count key = keys.count key := by
  rw [keysAfter]
  split
  · exact List.count_erase_of_ne (Ne.symm h)
  · split
    · rfl
    · simp [h]
  · split
    · rfl
    · simp [h]
  · rfl

theorem count_key_apply_delete (hAction : e.action = .delete) (attributes : List Attribute) :
    ((e.apply attributes).map Attribute.key).count e.key =
      (attributes.map Attribute.key).count e.key - 1 := by
  rw [map_key_apply, keysAfter, hAction, List.count_erase_self]

/-- Edits that only update a key leave it as often as it is there. -/
theorem count_key_applyAll (h : ∀ e ∈ edits, e.key = key → e.action = .update)
    (attributes : List Attribute) : ((applyAll edits attributes).map Attribute.key).count key =
      (attributes.map Attribute.key).count key := by
  induction edits generalizing attributes with
  | nil => rfl
  | cons e edits ih =>
      obtain ⟨hFirst, hRest⟩ := List.forall_mem_cons.mp h
      change ((applyAll edits (e.apply attributes)).map Attribute.key).count key = _
      rw [ih hRest, map_key_apply]
      by_cases hKey : e.key = key
      · rw [keysAfter, hFirst hKey]
      · exact count_keysAfter_of_ne hKey

theorem applyAll_append (before after : List AttributeEdit) (attributes : List Attribute) :
    applyAll (before ++ after) attributes = applyAll after (applyAll before attributes) :=
  List.foldl_append ..

/-- The last removal of a key leaves one fewer of it than there are when it comes. -/
theorem count_key_of_last_delete (hAction : e.action = .delete)
    (hLast : ∀ e' ∈ after, e'.key = e.key → e'.action = .update) (attributes : List Attribute) :
    ((applyAll (before ++ e :: after) attributes).map Attribute.key).count e.key =
      ((applyAll before attributes).map Attribute.key).count e.key - 1 := by
  rw [applyAll_append]
  change ((applyAll after (e.apply _)).map Attribute.key).count e.key = _
  rw [count_key_applyAll hLast, count_key_apply_delete hAction]

/-! ## Edits and their settings -/

theorem ofSettings_eq_ok {s : EditSettings} (h : ofSettings s = .ok e) :
    e.key = s.key ∧ e.action = s.action := by
  rw [ofSettings] at h
  split at h
  · rename_i _ hAction
    cases h
    exact ⟨rfl, hAction.symm⟩
  · cases h
  · split at h
    · cases h
    · cases h
      exact ⟨rfl, rfl⟩

/-- Edits act as their settings say. -/
theorem mapM_ofSettings_eq_ok {settings : List EditSettings} (h : settings.mapM ofSettings = .ok edits) :
    edits.map (fun e => (e.key, e.action)) = settings.map fun s => (s.key, s.action) := by
  induction settings generalizing edits with
  | nil =>
      cases h
      rfl
  | cons s settings ih =>
      rw [List.mapM_cons] at h
      obtain ⟨e, hFirst, h⟩ := bind_eq_ok_iff.mp h
      obtain ⟨rest, hRest, h⟩ := bind_eq_ok_iff.mp h
      cases h
      obtain ⟨hKey, hAction⟩ := ofSettings_eq_ok hFirst
      rw [List.map_cons, List.map_cons, ih hRest, hKey, hAction]

end AttributeEdit

/-! ## What becomes of a batch -/

/-- No resource of a batch has an attribute with a key. -/
def Request.Lacks (r : Request) (key : String) : Prop :=
  ∀ g ∈ r.groups, ∀ resource, g.resource = some resource → ∀ a ∈ resource.attributes, a.key ≠ key

theorem Request.lacks_editResources_iff {r : Request} {key : String} {edits : List AttributeEdit} :
    (r.editResources edits).Lacks key ↔ ∀ g ∈ r.groups,
      ((AttributeEdit.applyAll edits (g.resource.getD .blank).attributes).map Attribute.key).count key =
        0 := by
  simp [Lacks, editResources, mapResources, List.count_eq_zero]

namespace Agent

variable {id : ComponentId} {type : BatchType} {v : Json} {next : Consumer} {made : Inlet Component}
  {x : Installation}

/-- A processor that edits resources hands what it has edited to the consumer it was given. -/
theorem resourceProcessors_create_eq_ok
    (h : (resourceProcessors.create id type v next x).1 = .ok made) :
    ∃ settings edits, ResourceSettings.read v = .ok settings ∧
      settings.attributes.mapM AttributeEdit.ofSettings = .ok edits ∧
      made.consumer = .edit (Request.editResources edits) next := by
  cases hEdits : editSettings v with
  | error e =>
      simp only [resourceProcessors, settingsOf, hEdits] at h
      cases h
  | ok edits =>
      simp only [resourceProcessors, settingsOf, hEdits] at h
      cases h
      obtain ⟨settings, hRead, hEdits⟩ := bind_eq_ok_iff.mp hEdits
      exact ⟨settings, edits, hRead, hEdits, rfl⟩

/-! ## A processor that removes a key -/

namespace Removal

/-- The settings of a processor that removes the key `a`. -/
def settings : Json :=
  .object [("attributes", .array [.object [("action", .string "delete"), ("key", .string "a")]])]

/-- The processor, before a sink. -/
def processor : Inlet Component :=
  ⟨.idle, .edit (Request.editResources [⟨"a", none, .delete⟩]) (.leaf false 0)⟩

theorem create_settings :
    (resourceProcessors.create ⟨⟨"resource", by decide⟩, none⟩ .traces settings (.leaf false 0)
      (.empty none)).1 = .ok processor := rfl

/-- A batch with one resource, which has the key `a` some number of times. -/
def batch (n : Nat) : Request :=
  ⟨.traces, [⟨some ⟨List.replicate n ⟨"a", none⟩, 0, []⟩, [], ""⟩]⟩

end Removal

/-- A key that is removed is gone from every resource of the batch that is handed on, if it is not set again,
just if none had it more than once when its last removal came. -/
theorem removed_key_is_gone_iff (hCreate : (resourceProcessors.create id type v next x).1 = .ok made) :
    ∃ settings edits, ResourceSettings.read v = .ok settings ∧
      edits.map (fun e => (e.key, e.action)) = settings.attributes.map (fun s => (s.key, s.action)) ∧
      ∀ before e after, edits = before ++ e :: after → e.action = .delete →
        (∀ e' ∈ after, e'.key = e.key → e'.action = .update) →
        ∀ {σ : Type} (outlets : Outlets σ) (b : Handle) (h : Heap) (s : σ) (refs : List Nat),
          h.Covers (b.ref :: refs) → ∃ b' h',
            made.consumer.consume outlets b h s = next.consume outlets b' h' s ∧
            h'.read b' = (h.read b).editResources edits ∧
            ((h'.read b').Lacks e.key ↔ ∀ g ∈ (h.read b).groups,
              ((AttributeEdit.applyAll before (g.resource.getD .blank).attributes).map
                Attribute.key).count e.key ≤ 1) := by
  obtain ⟨settings, edits, hRead, hEdits, hConsumer⟩ := resourceProcessors_create_eq_ok hCreate
  refine ⟨settings, edits, hRead, AttributeEdit.mapM_ofSettings_eq_ok hEdits, ?_⟩
  intro before e after hSplit hAction hLast σ outlets b h s refs hCovers
  have hEdit := hCovers.exchanges_edit (Request.editResources edits)
  refine ⟨(h.edit b _).1, (h.edit b _).2, ?_, hEdit.read, ?_⟩
  · rw [hConsumer, Consumer.consume]
  · rw [hEdit.read, Request.lacks_editResources_iff, hSplit]
    simp only [AttributeEdit.count_key_of_last_delete hAction hLast, Nat.sub_eq_zero_iff_le]

theorem removed_key_is_gone_iff_removal :
    (resourceProcessors.create ⟨⟨"resource", by decide⟩, none⟩ .traces Removal.settings (.leaf false 0)
      (.empty none)).1 = .ok Removal.processor ∧
    (Heap.empty.new (Removal.batch 1)).2.Covers [(Heap.empty.new (Removal.batch 1)).1.ref] ∧
    ∃ b h, Removal.processor.consumer.consume Sinks.outlets (Heap.empty.new (Removal.batch 1)).1
        (Heap.empty.new (Removal.batch 1)).2 [.blank] =
      Consumer.consume Sinks.outlets (.leaf false 0) b h [.blank] ∧ (h.read b).Lacks "a" := by
  have hCovers : (Heap.empty.new (Removal.batch 1)).2.Covers
      [(Heap.empty.new (Removal.batch 1)).1.ref] := Heap.Covers.new (fun _ => Nat.zero_le _) _
  refine ⟨Removal.create_settings, hCovers, ?_⟩
  obtain ⟨settings, edits, hRead, hKinds, hGone⟩ := removed_key_is_gone_iff Removal.create_settings
  cases hRead
  obtain ⟨e, rfl, hKind⟩ : ∃ e : AttributeEdit, edits = [e] ∧ (e.key, e.action) = ("a", .delete) := by
    simpa [List.map_eq_cons_iff] using hKinds
  obtain ⟨hKey, hAction⟩ := Prod.mk.inj hKind
  obtain ⟨b, h, hRun, -, hLacks⟩ := hGone [] e [] rfl hAction nofun Sinks.outlets _ _ [.blank] [] hCovers
  refine ⟨b, h, hRun, hKey ▸ hLacks.mpr ?_⟩
  rw [Heap.read_new, hKey]
  decide

/-- A key that is there twice is there once after it is removed. -/
theorem removed_key_stays :
    (ResourceSettings.read Removal.settings).map (fun s => s.attributes.map fun e => (e.key, e.action)) =
      .ok [("a", .delete)] ∧
    (resourceProcessors.create ⟨⟨"resource", by decide⟩, none⟩ .traces Removal.settings (.leaf false 0)
      (.empty none)).1 = .ok Removal.processor ∧
    ∃ b h, Removal.processor.consumer.consume Sinks.outlets (Heap.empty.new (Removal.batch 2)).1
        (Heap.empty.new (Removal.batch 2)).2 [.blank] =
      (.ok (), h, [{ Sink.blank with kept := [b] }]) ∧ ¬ (h.read b).Lacks "a" := by
  refine ⟨rfl, rfl, _, _, rfl, fun hLacks => ?_⟩
  exact hLacks _ List.mem_cons_self _ rfl ⟨"a", none⟩ List.mem_cons_self rfl

end Agent

end Telemetry

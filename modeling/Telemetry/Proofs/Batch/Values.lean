import Telemetry.Batch.Slots
import Telemetry.Proofs.Batch.Heap
import Telemetry.Proofs.Table

/-!
# Handles are as good as batches of their own

Steps over named handles read the same contents as if every name had a batch of its own that nothing
else refers to: a handle that was shared would then be a copy, and one that was moved out of would be a
blank batch. The heap shows only in which handles refer to one request. Those were shared, and a handle
that was changed is not among them. To give a handle up for its content and to make a new one later is to
drop and to load.
-/

namespace Telemetry

/-- Batches under names, in the order of the names. -/
abbrev Values := Table String Request

/-- The name of the handle that a step changes its request through. -/
def SlotStep.changes? : SlotStep → Option String
  | .edit slot _ | .visit slot _ => some slot
  | .merge _ target => some target
  | _ => none

namespace Values

/-- Carries out a step that uses the batch under a name. -/
def stepWith (v : Values) (name : String) (r : Request) : SlotStep → SlotResult × Values
  | .share _ target | .copy _ target => (.done, v.insert target r)
  | .move _ target => (.done, (v.insert name (.blank r.type)).insert target r)
  | .merge _ target =>
    let others := v.erase name
    (.done, others.insert target (((others.get? target).getD (.blank r.type)).append r.groups))
  | .rewrap _ => (.done, v)
  | .visit _ f =>
    let r := r.mapResources f
    (.attributes (r.groups.map fun g => (g.resource.getD .blank).attributes.length), v.insert name r)
  | .edit _ f => (.done, v.insert name (f r))
  | .drop _ => (.done, v.erase name)
  | .compare _ target => (.equal ((v.get? target).elim false r.equals), v)
  | .counts _ => (.counts r, v)
  | .load .. => (.done, v)

/-- Carries out a step. -/
def step (v : Values) : SlotStep → SlotResult × Values
  | .load _ none => (.refused, v)
  | .load slot (some r) => (.done, v.insert slot r)
  | other =>
    match v.get? (Slots.slotOf other) with
    | some r => v.stepWith (Slots.slotOf other) r other
    | none => (.done, v)

theorem step_of_ne_load {v : Values} {x : SlotStep} (hOther : ∀ slot content, x ≠ .load slot content) :
    v.step x = match v.get? (Slots.slotOf x) with
      | some r => v.stepWith (Slots.slotOf x) r x
      | none => (.done, v) := by
  cases x with
  | load slot content => exact absurd rfl (hOther slot content)
  | _ => rfl

/-- Carries out steps one after the other. -/
def run (v : Values) : List SlotStep → List SlotResult × Values
  | [] => ([], v)
  | x :: rest => ((v.step x).1 :: ((v.step x).2.run rest).1, ((v.step x).2.run rest).2)

end Values

namespace Slots

/-- Carries out steps one after the other. -/
def run (s : Slots) : List SlotStep → List SlotResult × Slots
  | [] => ([], s)
  | x :: rest => ((s.step x).1 :: ((s.step x).2.run rest).1, ((s.step x).2.run rest).2)

/-- What is read through each handle. -/
def contents (s : Slots) : Values := s.handles.mapValues fun b => s.heap.read b

/-- The references of some handles. -/
def refs (t : Table String Handle) : List Nat := t.map fun e => e.2.ref

/-- If two handles refer to one request, both are shared. -/
def Flagged (x y : Handle) : Prop := x.ref = y.ref → x.shared = true ∧ y.shared = true

/-- The handles under names are those that hold requests. -/
structure Sound (s : Slots) : Prop where
  ascending : s.handles.Ascending
  covers : s.heap.Covers (refs s.handles)
  flagged : s.handles.Pairwise fun x y => Flagged x.2 y.2

variable {s : Slots} {name target : String} {b into : Handle} {h : Heap} {t : Table String Handle}

theorem Flagged.symm {x y : Handle} (hFlagged : Flagged x y) : Flagged y x :=
  fun hSame => (hFlagged hSame.symm).symm

theorem step_of_ne_load {x : SlotStep} (hOther : ∀ slot content, x ≠ .load slot content) :
    s.step x = match s.handles.get? (slotOf x) with
      | some b => s.stepWith (slotOf x) b x
      | none => (.done, s) := by
  cases x with
  | load slot content => exact absurd rfl (hOther slot content)
  | _ => rfl

theorem edit_eq (hGet : s.handles.get? name = some b) (f : Request → Request) :
    s.edit name f = s.put name (s.heap.edit b f).1 (s.heap.edit b f).2 := by
  rw [Slots.edit, hGet]

theorem flagged_of_not_mem (hFresh : b.ref ∉ refs t) : ∀ e ∈ t, Flagged b e.2 :=
  fun _ hMem hSame => absurd (hSame ▸ List.mem_map_of_mem hMem) hFresh

theorem refs_insert_perm (ht : t.Ascending) :
    (refs (t.insert name b)).Perm (b.ref :: refs (t.erase name)) := (ht.insert_perm name b).map _

theorem mapValues_congr {h h' : Heap} (hKeeps : Heap.Keeps (refs t) h h') :
    t.mapValues (fun b => h'.read b) = t.mapValues (fun b => h.read b) := by
  refine List.map_congr_left fun e hMem => ?_
  exact congrArg (Prod.mk e.1) (Heap.read_congr (hKeeps _ (List.mem_map_of_mem hMem)))

theorem get?_contents (s : Slots) (name : String) :
    s.contents.get? name = (s.handles.get? name).map fun b => s.heap.read b :=
  Table.get?_mapValues ..

namespace Sound

theorem ascending_contents (hs : Sound s) : s.contents.Ascending :=
  (Table.ascending_mapValues_iff ..).mpr hs.ascending

theorem perm_of_get? (hs : Sound s) (hGet : s.handles.get? name = some b) :
    (refs s.handles).Perm (b.ref :: refs (s.handles.erase name)) :=
  (hs.ascending.perm_of_get? hGet).map _

theorem flagged_of_get? (hs : Sound s) (hGet : s.handles.get? name = some b) :
    ∀ e ∈ s.handles.erase name, Flagged b e.2 :=
  (List.pairwise_cons.mp <|
    (hs.ascending.perm_of_get? hGet).pairwise (R := fun x y => Flagged x.2 y.2) hs.flagged Flagged.symm).1

/-! ## Putting and giving up -/

theorem insert (hs : Sound s) (hCovers : h.Covers (b.ref :: refs (s.handles.erase name)))
    (hFlagged : ∀ e ∈ s.handles.erase name, Flagged b e.2) :
    Sound ⟨h, s.handles.insert name b⟩ where
  ascending := hs.ascending.insert
  covers := hCovers.perm (refs_insert_perm hs.ascending).symm
  flagged := by
    refine (hs.ascending.insert_perm name b).symm.pairwise (R := fun x y => Flagged x.2 y.2) ?_ Flagged.symm
    exact List.pairwise_cons.mpr ⟨hFlagged, hs.flagged.sublist List.filter_sublist⟩

theorem contents_insert (hs : Sound s) (hKeeps : Heap.Keeps (refs (s.handles.erase name)) s.heap h) :
    contents ⟨h, s.handles.insert name b⟩ = s.contents.insert name (h.read b) := by
  rw [contents, ← hs.ascending.insert_erase, Table.mapValues_insert, mapValues_congr hKeeps,
    Table.mapValues_erase]
  exact hs.ascending_contents.insert_erase _ _

theorem erase (hs : Sound s) (hCovers : h.Covers (refs (s.handles.erase name))) :
    Sound ⟨h, s.handles.erase name⟩ :=
  ⟨hs.ascending.erase name, hCovers, hs.flagged.sublist List.filter_sublist⟩

theorem contents_erase (hKeeps : Heap.Keeps (refs (s.handles.erase name)) s.heap h) :
    contents ⟨h, s.handles.erase name⟩ = s.contents.erase name := by
  rw [contents, mapValues_congr hKeeps, Table.mapValues_erase]
  rfl

/-- The handle under a name is given up, if there is one, for another one. -/
theorem keep (hs : Sound s) (hCovers : h.Covers (b.ref :: refs s.handles))
    (hFlagged : ∀ e ∈ s.handles.erase name, Flagged b e.2) : Sound (s.keep name b h) := by
  rw [Slots.keep]
  cases hGet : s.handles.get? name with
  | none =>
      refine hs.insert ?_ hFlagged
      rwa [Table.erase_eq_self fun hMem => by simp [← Table.isSome_get?_iff, hGet] at hMem]
  | some old =>
      refine hs.insert (Heap.Covers.release (hCovers.perm ?_)) hFlagged
      exact ((hs.perm_of_get? hGet).cons _).trans (.swap _ _ _)

theorem contents_keep (hs : Sound s) (hKeeps : Heap.Keeps (refs (s.handles.erase name)) s.heap h) :
    (s.keep name b h).contents = s.contents.insert name (h.read b) := by
  rw [Slots.keep]
  cases s.handles.get? name with
  | none => exact hs.contents_insert hKeeps
  | some old =>
      rw [← Heap.read_congr (Heap.content?_release b.ref)]
      exact hs.contents_insert (hKeeps.trans Heap.keeps_release)

end Sound

/-! ## Steps -/

/-- What a step over handles did is what the same step does over batches. -/
structure Agrees (p : SlotResult × Slots) (q : SlotResult × Values) : Prop where
  sound : Sound p.2
  result : p.1 = q.1
  contents : p.2.contents = q.2

theorem refs_erase_subset (t : Table String Handle) (name : String) : refs (t.erase name) ⊆ refs t :=
  (List.filter_sublist.map _).subset

namespace Sound

theorem keep_new (hs : Sound s) (r : Request) :
    Sound (s.keep name (s.heap.new r).1 (s.heap.new r).2) ∧
      (s.keep name (s.heap.new r).1 (s.heap.new r).2).contents = s.contents.insert name r := by
  have hOthers := refs_erase_subset s.handles name
  have hFresh : (s.heap.new r).1.ref ∉ refs (s.handles.erase name) :=
    fun hMem => hs.covers.new_not_mem r (hOthers hMem)
  refine ⟨hs.keep (hs.covers.new r) (flagged_of_not_mem hFresh), ?_⟩
  rw [hs.contents_keep ((hs.covers.keeps_new r).subset hOthers), Heap.read_new]

theorem agrees_load (hs : Sound s) (r : Request) :
    Agrees (s.step (.load name (some r))) (s.contents.step (.load name (some r))) :=
  ⟨(hs.keep_new r).1, rfl, (hs.keep_new r).2⟩

/-- One handle is put in the place of another, and then a second one is kept. -/
theorem put_keep (hs : Sound s) (target : String) {x y : Handle}
    (hCovers : h.Covers (y.ref :: x.ref :: refs (s.handles.erase name)))
    (hKeeps : Heap.Keeps (refs (s.handles.erase name)) s.heap h)
    (hFirst : ∀ e ∈ s.handles.erase name, Flagged x e.2)
    (hSecond : ∀ e ∈ s.handles.erase name, Flagged y e.2) (hBoth : Flagged y x) :
    Sound ((s.put name x h).keep target y h) ∧ ((s.put name x h).keep target y h).contents =
      (s.contents.insert name (h.read x)).insert target (h.read y) := by
  have hPut : Sound (s.put name x h) := hs.insert hCovers.of_cons hFirst
  refine ⟨hPut.keep (hCovers.perm ((refs_insert_perm hs.ascending).symm.cons _)) ?_, ?_⟩
  · intro e hMem
    rcases List.mem_cons.mp
      ((hs.ascending.insert_perm _ _).subset (List.mem_filter.mp hMem).1) with rfl | hOther
    · exact hBoth
    · exact hSecond e hOther
  · refine (hPut.contents_keep (.refl _ _)).trans ?_
    rw [put, hs.contents_insert hKeeps]

/-- A handle is given up for its content, which goes to the batch under a name. -/
theorem insert_merge (hs : Sound s) (hCovers : h.Covers (b.ref :: into.ref :: refs (s.handles.erase name)))
    (hKeeps : Heap.Keeps (refs (s.handles.erase name)) s.heap h) :
    Sound ⟨(h.merge into b).2, s.handles.insert name (h.merge into b).1⟩ ∧
      contents ⟨(h.merge into b).2, s.handles.insert name (h.merge into b).1⟩ =
        s.contents.insert name ((h.read into).append (h.read b).groups) := by
  have hMerged := hCovers.exchanges_merge
  refine ⟨hs.insert hMerged.covers (flagged_of_not_mem hCovers.merge_not_mem), ?_⟩
  rw [hs.contents_insert (hKeeps.trans hMerged.keeps), hMerged.read]

theorem agrees_copy (hs : Sound s) :
    Agrees (s.stepWith name b (.copy name target))
      (s.contents.stepWith name (s.heap.read b) (.copy name target)) :=
  ⟨(hs.keep_new _).1, rfl, (hs.keep_new _).2⟩

section Named

variable (hs : Sound s) (hGet : s.handles.get? name = some b)

include hs hGet

theorem contents_insert_self : s.contents.insert name (s.heap.read b) = s.contents := by
  refine hs.ascending_contents.insert_of_get? ?_
  rw [get?_contents, hGet, Option.map_some]

theorem agrees_share :
    Agrees (s.stepWith name b (.share name target))
      (s.contents.stepWith name (s.heap.read b) (.share name target)) := by
  have hOld := hs.flagged_of_get? hGet
  have hShared : ∀ e ∈ s.handles.erase name, Flagged ⟨b.ref, true⟩ e.2 :=
    fun e hMem hSame => ⟨rfl, (hOld e hMem hSame).2⟩
  obtain ⟨-, hCovers, hKeeps, hRead⟩ := (hs.covers.perm (hs.perm_of_get? hGet)).branches_share
  change (s.heap.share b).2.read ⟨b.ref, true⟩ = s.heap.read b at hRead
  obtain ⟨hSound, hContents⟩ := hs.put_keep target (x := ⟨b.ref, true⟩) (y := ⟨b.ref, true⟩) hCovers
    (hKeeps.subset (List.subset_cons_self _ _)) hShared hShared fun _ => ⟨rfl, rfl⟩
  refine ⟨hSound, rfl, hContents.trans ?_⟩
  rw [hRead, hs.contents_insert_self hGet]
  rfl

theorem agrees_move :
    Agrees (s.stepWith name b (.move name target))
      (s.contents.stepWith name (s.heap.read b) (.move name target)) := by
  have hCovers := hs.covers.perm (hs.perm_of_get? hGet)
  have hFresh := hCovers.new_not_mem (.blank (s.heap.read b).type)
  have hKeeps := hCovers.keeps_new (.blank (s.heap.read b).type)
  obtain ⟨hSound, hContents⟩ := hs.put_keep target
    ((hCovers.new (.blank (s.heap.read b).type)).perm (.swap _ _ _))
    (hKeeps.subset (List.subset_cons_self _ _))
    (flagged_of_not_mem fun hMem => hFresh (List.mem_cons_of_mem _ hMem)) (hs.flagged_of_get? hGet)
    fun hSame => absurd (hSame ▸ List.mem_cons_self) hFresh
  refine ⟨hSound, rfl, hContents.trans ?_⟩
  rw [Heap.read_new, Heap.read_congr (hKeeps b.ref List.mem_cons_self)]
  rfl

theorem agrees_rewrap :
    Agrees (s.stepWith name b (.rewrap name))
      (s.contents.stepWith name (s.heap.read b) (.rewrap name)) := by
  have hCovers := hs.covers.perm (hs.perm_of_get? hGet)
  have hTaken := hCovers.exchanges_take_new id
  refine ⟨hs.insert hTaken.covers (flagged_of_not_mem (hCovers.release.new_not_mem (s.heap.read b))), rfl, ?_⟩
  refine (hs.contents_insert hTaken.keeps).trans ?_
  exact (congrArg (s.contents.insert name) hTaken.read).trans (hs.contents_insert_self hGet)

theorem edit (f : Request → Request) :
    Sound (s.edit name f) ∧ (s.edit name f).contents = s.contents.insert name (f (s.heap.read b)) := by
  have hCovers := hs.covers.perm (hs.perm_of_get? hGet)
  have hEdited := hCovers.exchanges_edit f
  rw [edit_eq hGet, put]
  refine ⟨hs.insert hEdited.covers (flagged_of_not_mem (hCovers.edit_not_mem f)), ?_⟩
  rw [hs.contents_insert hEdited.keeps, hEdited.read]

theorem agrees_edit (f : Request → Request) :
    Agrees (s.stepWith name b (.edit name f))
      (s.contents.stepWith name (s.heap.read b) (.edit name f)) :=
  ⟨(hs.edit hGet f).1, rfl, (hs.edit hGet f).2⟩

theorem agrees_visit (f : Resource → Resource) :
    Agrees (s.stepWith name b (.visit name f))
      (s.contents.stepWith name (s.heap.read b) (.visit name f)) := by
  obtain ⟨hSound, hContents⟩ := hs.edit hGet (Request.mapResources f)
  refine ⟨hSound, ?_, hContents⟩
  have hRead := get?_contents (s.edit name (Request.mapResources f)) name
  rw [hContents, Table.get?_insert_self] at hRead
  cases hPut : (s.edit name (Request.mapResources f)).handles.get? name with
  | none => simp [hPut] at hRead
  | some b' =>
      rw [hPut, Option.map_some, Option.some_inj] at hRead
      simp only [stepWith, Values.stepWith, hPut, hRead, Option.getD_some]

theorem agrees_drop :
    Agrees (s.stepWith name b (.drop name))
      (s.contents.stepWith name (s.heap.read b) (.drop name)) :=
  ⟨hs.erase (hs.covers.perm (hs.perm_of_get? hGet)).release, rfl, contents_erase Heap.keeps_release⟩

/-- A handle is given up for its content, which goes to the handle under a second name, or to a new one. -/
theorem exists_merge (target : String) :
    ∃ (into : Handle) (h : Heap),
      s.stepWith name b (.merge name target) =
        (.done, ⟨(h.merge into b).2, (s.handles.erase name).insert target (h.merge into b).1⟩) ∧
      h.Covers (b.ref :: into.ref :: refs ((s.handles.erase name).erase target)) ∧
      Heap.Keeps (b.ref :: refs ((s.handles.erase name).erase target)) s.heap h ∧
      h.read into = ((s.contents.erase name).get? target).getD (.blank (s.heap.read b).type) := by
  have hCovers := hs.covers.perm (hs.perm_of_get? hGet)
  have hOthers : Sound ⟨s.heap, s.handles.erase name⟩ := hs.erase hCovers.of_cons
  rw [← contents_erase (.refl (refs (s.handles.erase name)) s.heap), get?_contents]
  simp only [stepWith]
  cases hInto : (s.handles.erase name).get? target with
  | some into =>
      exact ⟨into, s.heap, rfl, hCovers.perm ((hOthers.perm_of_get? hInto).cons _), .refl _ _, rfl⟩
  | none =>
      have hAlone : (s.handles.erase name).erase target = s.handles.erase name :=
        Table.erase_eq_self fun hMem => by simp [← Table.isSome_get?_iff, hInto] at hMem
      rw [hAlone]
      exact ⟨_, _, rfl, (hCovers.new (.blank (s.heap.read b).type)).perm (.swap _ _ _),
        hCovers.keeps_new _, Heap.read_new⟩

theorem agrees_merge :
    Agrees (s.stepWith name b (.merge name target))
      (s.contents.stepWith name (s.heap.read b) (.merge name target)) := by
  have hOthers : Sound ⟨s.heap, s.handles.erase name⟩ :=
    hs.erase (hs.covers.perm (hs.perm_of_get? hGet)).of_cons
  obtain ⟨into, h, hStep, hCovers, hKeeps, hRead⟩ := hs.exists_merge hGet target
  obtain ⟨hSound, hContents⟩ := hOthers.insert_merge hCovers (hKeeps.subset (List.subset_cons_self _ _))
  rw [hStep]
  refine ⟨hSound, rfl, hContents.trans ?_⟩
  rw [hRead, Heap.read_congr (hKeeps b.ref List.mem_cons_self), contents_erase (.refl _ _)]
  rfl

theorem agrees_stepWith (x : SlotStep) (hName : slotOf x = name) :
    Agrees (s.stepWith name b x) (s.contents.stepWith name (s.heap.read b) x) := by
  subst hName
  cases x with
  | load slot r => exact ⟨hs, rfl, rfl⟩
  | share slot target => exact hs.agrees_share hGet
  | move slot target => exact hs.agrees_move hGet
  | copy slot target => exact hs.agrees_copy
  | merge slot target => exact hs.agrees_merge hGet
  | rewrap slot => exact hs.agrees_rewrap hGet
  | visit slot f => exact hs.agrees_visit hGet f
  | edit slot f => exact hs.agrees_edit hGet f
  | drop slot => exact hs.agrees_drop hGet
  | compare slot target =>
      have hTarget := get?_contents s target
      refine ⟨?_, ?_, ?_⟩ <;> simp only [stepWith, Values.stepWith, hTarget] <;>
        cases s.handles.get? target <;> first | rfl | exact hs
  | counts slot => exact ⟨hs, rfl, rfl⟩

end Named

/-- A step keeps the handles sound, and finds and leaves what it would over batches. -/
theorem agrees_step (hs : Sound s) (x : SlotStep) : Agrees (s.step x) (s.contents.step x) := by
  by_cases hLoad : ∃ slot content, x = .load slot content
  · obtain ⟨slot, content, rfl⟩ := hLoad
    cases content with
    | none => exact ⟨hs, rfl, rfl⟩
    | some r => exact hs.agrees_load r
  · have hOther : ∀ slot content, x ≠ .load slot content :=
      fun slot content hSame => hLoad ⟨slot, content, hSame⟩
    rw [step_of_ne_load hOther, Values.step_of_ne_load hOther, get?_contents]
    cases hGet : s.handles.get? (slotOf x) with
    | none => exact ⟨hs, rfl, rfl⟩
    | some b => exact hs.agrees_stepWith hGet x rfl

/-! ## Runs -/

theorem agrees_run (hs : Sound s) (steps : List SlotStep) :
    Sound (s.run steps).2 ∧ (s.run steps).1 = (s.contents.run steps).1 ∧
      (s.run steps).2.contents = (s.contents.run steps).2 := by
  induction steps generalizing s with
  | nil => exact ⟨hs, rfl, rfl⟩
  | cons x rest ih =>
      have hStep := hs.agrees_step x
      obtain ⟨hSound, hResults, hContents⟩ := ih hStep.sound
      rw [hStep.contents] at hResults hContents
      refine ⟨hSound, ?_, hContents⟩
      rw [run, Values.run, hStep.result, hResults]

end Sound

theorem sound_empty : Sound empty := ⟨.nil, fun _ => Nat.le_refl _, .nil⟩

/-! ## Which handles refer to one request -/

/-- The handle under a name has a request of its own. -/
def Owns (s : Slots) (name : String) : Prop :=
  ∃ b, s.handles.get? name = some b ∧ b.shared = false ∧
    ∀ other c, other ≠ name → s.handles.get? other = some c → c.ref ≠ b.ref

theorem owns_insert (hFresh : b.ref ∉ refs (t.erase name)) (hChanged : b.shared = false) :
    Owns ⟨h, t.insert name b⟩ name := by
  refine ⟨b, Table.get?_insert_self _ _ _, hChanged, fun other c hNe hGet hSame => hFresh ?_⟩
  rw [Table.get?_insert_of_ne hNe, ← Table.get?_erase_of_ne hNe] at hGet
  exact hSame ▸ List.mem_map_of_mem (Table.mem_of_get? hGet)

namespace Sound

theorem flagged_of_ne (hs : Sound s) {other : String} {c : Handle} (hNe : name ≠ other)
    (hGet : s.handles.get? name = some b) (hOther : s.handles.get? other = some c) : Flagged b c := by
  rw [← Table.get?_erase_of_ne hNe.symm] at hOther
  exact hs.flagged_of_get? hGet (other, c) (Table.mem_of_get? hOther)

theorem owns_edit (hs : Sound s) (hGet : s.handles.get? name = some b) (f : Request → Request) :
    Owns (s.edit name f) name := by
  rw [edit_eq hGet]
  exact owns_insert ((hs.covers.perm (hs.perm_of_get? hGet)).edit_not_mem f) (Heap.edit_shared b f)

theorem owns_merge (hs : Sound s) (hGet : s.handles.get? name = some b) (target : String) :
    Owns (s.stepWith name b (.merge name target)).2 target := by
  obtain ⟨into, h, hStep, hCovers, -⟩ := hs.exists_merge hGet target
  rw [hStep]
  exact owns_insert hCovers.merge_not_mem (Heap.merge_shared into b)

/-- A handle through which a step changes its request has it for itself. -/
theorem owns_step (hs : Sound s) {x : SlotStep} (hChanges : x.changes? = some target)
    (hGet : s.handles.get? (slotOf x) = some b) : Owns (s.step x).2 target := by
  cases x with
  | edit slot f =>
      cases hChanges
      rw [step_of_ne_load (by simp), hGet]
      exact hs.owns_edit hGet f
  | visit slot f =>
      cases hChanges
      rw [step_of_ne_load (by simp), hGet]
      exact hs.owns_edit hGet (Request.mapResources f)
  | merge slot into =>
      cases hChanges
      rw [step_of_ne_load (by simp), hGet]
      exact hs.owns_merge hGet target
  | _ => cases hChanges

end Sound

/-- Whatever steps are taken, what they find out and what is read through each handle are as if every name
had a batch of its own. Handles that refer to one request are shared, and a handle through which a step
changes its request has it for itself and is not shared. -/
theorem handles_read_as_values (steps : List SlotStep) :
    (empty.run steps).1 = (Values.run [] steps).1 ∧
    (∀ name, ((empty.run steps).2.handles.get? name).map (fun b => (empty.run steps).2.heap.read b) =
      (Values.run [] steps).2.get? name) ∧
    (∀ name other b c, name ≠ other → (empty.run steps).2.handles.get? name = some b →
      (empty.run steps).2.handles.get? other = some c → b.ref = c.ref →
      b.shared = true ∧ c.shared = true) ∧
    (∀ x name b, x.changes? = some name → (empty.run steps).2.handles.get? (slotOf x) = some b →
      Owns ((empty.run steps).2.step x).2 name) := by
  obtain ⟨hSound, hResults, hContents⟩ := sound_empty.agrees_run steps
  refine ⟨hResults, fun name => ?_, fun name other b c => hSound.flagged_of_ne,
    fun x name b => hSound.owns_step⟩
  rw [← get?_contents, hContents]
  rfl

end Slots

end Telemetry

import Telemetry.Batch.Handle

/-!
# Handles in the hands of others

Whoever holds a handle counts as a holder of its request, and sees what the request was like as long as
the handle is not given up: a change through another handle is a change of another request.
-/

namespace Telemetry.Heap

variable {h h' h'' : Heap} {b : Handle} {r : Request} {refs refs' : List Nat} {f : Request → Request}

/-- The number of handles onto a request. -/
def count (h : Heap) (k : Nat) : Nat := (h.cells[k]?).elim 0 Cell.holders

/-- The content of a request. -/
def content? (h : Heap) (k : Nat) : Option Request := (h.cells[k]?).map Cell.request

/-- There is a handle for each of some references. -/
def Covers (h : Heap) (refs : List Nat) : Prop := ∀ k, refs.count k ≤ h.count k

/-- The requests of some references stay as they are. -/
def Keeps (refs : List Nat) (h h' : Heap) : Prop := ∀ k ∈ refs, h'.content? k = h.content? k

theorem holders_eq_count : h.holders b = h.count b.ref := by
  rw [holders, count]
  cases h.cells[b.ref]? <;> rfl

theorem read_eq : h.read b = (h.content? b.ref).getD (.blank .logs) := by
  rw [read, content?]
  cases h.cells[b.ref]? <;> rfl

theorem read_congr {b' : Handle} (hContent : h'.content? b'.ref = h.content? b.ref) :
    h'.read b' = h.read b := by
  rw [read_eq, read_eq, hContent]

theorem Covers.perm (hCovers : Covers h refs) (hPerm : refs.Perm refs') : Covers h refs' :=
  fun k => hPerm.count_eq k ▸ hCovers k

theorem Covers.pos (hCovers : Covers h refs) {k : Nat} (hMem : k ∈ refs) : 0 < h.count k :=
  Nat.lt_of_lt_of_le (List.count_pos_iff.mpr hMem) (hCovers k)

theorem Covers.lt_length (hCovers : Covers h refs) {k : Nat} (hMem : k ∈ refs) :
    k < h.cells.length := by
  have hPos := hCovers.pos hMem
  rw [count] at hPos
  cases hCell : h.cells[k]? with
  | none => simp [hCell] at hPos
  | some c => exact (List.getElem?_eq_some_iff.mp hCell).1

theorem Covers.of_cons {k : Nat} (hCovers : Covers h (k :: refs)) : Covers h refs :=
  fun j => Nat.le_trans (List.count_le_count_cons) (hCovers j)

theorem Keeps.refl (refs : List Nat) (h : Heap) : Keeps refs h h := fun _ _ => rfl

theorem Keeps.trans (hFirst : Keeps refs h h') (hSecond : Keeps refs h' h'') : Keeps refs h h'' :=
  fun k hk => (hSecond k hk).trans (hFirst k hk)

theorem Keeps.subset (hKeeps : Keeps refs h h') (hSubset : refs' ⊆ refs) : Keeps refs' h h' :=
  fun k hk => hKeeps k (hSubset hk)

/-! ## The operations on cells -/

theorem getElem?_new (k : Nat) :
    (h.new r).2.cells[k]? = if k = h.cells.length then some ⟨r, 1⟩ else h.cells[k]? := by
  rw [new]
  split
  · rename_i hEnd
    subst hEnd
    simp
  · rename_i hNe
    rcases Nat.lt_or_gt_of_ne hNe with hLt | hGt
    · rw [List.getElem?_append_left hLt]
    · rw [List.getElem?_eq_none (by simp; omega), List.getElem?_eq_none (by omega)]

theorem count_new (k : Nat) : (h.new r).2.count k = if k = h.cells.length then 1 else h.count k := by
  rw [count, getElem?_new]
  split <;> rfl

theorem content?_new (k : Nat) :
    (h.new r).2.content? k = if k = h.cells.length then some r else h.content? k := by
  rw [content?, getElem?_new]
  split <;> rfl

theorem getElem?_updateCell (g : Cell → Cell) (k : Nat) :
    (h.updateCell b g).cells[k]? = if k = b.ref then (h.cells[k]?).map g else h.cells[k]? := by
  rw [updateCell, List.getElem?_modify]
  by_cases hk : k = b.ref
  · subst hk
    simp
  · simp [hk, Ne.symm hk]

theorem content?_updateCell {g : Cell → Cell} (hg : ∀ c, (g c).request = c.request) (k : Nat) :
    (h.updateCell b g).content? k = h.content? k := by
  rw [content?, getElem?_updateCell, content?]
  split
  · cases h.cells[k]? <;> simp [hg]
  · rfl

theorem content?_release (k : Nat) : (h.release b).content? k = h.content? k := by
  rw [release]
  exact content?_updateCell (by simp) k

theorem content?_share (k : Nat) : (h.share b).2.content? k = h.content? k := by
  rw [share]
  exact content?_updateCell (by simp) k

theorem count_release (k : Nat) :
    (h.release b).count k = if k = b.ref then h.count k - 1 else h.count k := by
  rw [count, release, getElem?_updateCell, count]
  split
  · cases h.cells[k]? <;> simp
  · rfl

theorem count_share (hPos : 0 < h.count b.ref) (k : Nat) :
    (h.share b).2.count k = if k = b.ref then h.count k + 1 else h.count k := by
  rw [count] at hPos ⊢
  rw [share, getElem?_updateCell, count]
  split
  · rename_i hk
    subst hk
    cases hCell : h.cells[b.ref]? with
    | none => simp [hCell] at hPos
    | some c => simp
  · rfl

/-! ## Giving up, handing on and changing -/

theorem Covers.release (hCovers : Covers h (b.ref :: refs)) : Covers (h.release b) refs := by
  intro k
  have hCount := hCovers k
  rw [count_release]
  by_cases hk : k = b.ref
  · subst hk
    rw [List.count_cons_self] at hCount
    simp
    omega
  · rw [List.count_cons_of_ne (Ne.symm hk)] at hCount
    simpa [hk] using hCount

theorem keeps_release : Keeps refs h (h.release b) := fun k _ => content?_release k

theorem Covers.new (hCovers : Covers h refs) (r : Request) :
    Covers (h.new r).2 ((h.new r).1.ref :: refs) := by
  intro k
  rw [count_new]
  change List.count k (h.cells.length :: refs) ≤ _
  by_cases hk : k = h.cells.length
  · subst hk
    have hFresh : h.cells.length ∉ refs := fun hMem => Nat.lt_irrefl _ (hCovers.lt_length hMem)
    simp [List.count_eq_zero_of_not_mem hFresh]
  · rw [List.count_cons_of_ne (Ne.symm hk), if_neg hk]
    exact hCovers k

theorem Covers.keeps_new (hCovers : Covers h refs) (r : Request) : Keeps refs h (h.new r).2 := by
  intro k hk
  rw [content?_new, if_neg (Nat.ne_of_lt (hCovers.lt_length hk))]

theorem Covers.new_not_mem (hCovers : Covers h refs) (r : Request) : (h.new r).1.ref ∉ refs :=
  fun hMem => Nat.lt_irrefl _ (hCovers.lt_length hMem)

theorem read_new : (h.new r).2.read (h.new r).1 = r := by
  rw [read_eq, content?_new]
  simp [Heap.new]

/-- A handle was exchanged for another one with changed content, and nobody else notices. -/
structure Exchanges (refs : List Nat) (f : Request → Request) (b : Handle) (h : Heap) (b' : Handle)
    (h' : Heap) : Prop where
  covers : Covers h' (b'.ref :: refs)
  keeps : Keeps refs h h'
  read : h'.read b' = f (h.read b)

theorem Exchanges.trans {g : Request → Request} {b' b'' : Handle} (hFirst : Exchanges refs f b h b' h')
    (hSecond : Exchanges refs g b' h' b'' h'') : Exchanges refs (g ∘ f) b h b'' h'' where
  covers := hSecond.covers
  keeps := hFirst.keeps.trans hSecond.keeps
  read := by rw [hSecond.read, hFirst.read, Function.comp_apply]

theorem Covers.exchanges_own (hCovers : Covers h (b.ref :: refs)) :
    Exchanges refs id b h (h.own b).1 (h.own b).2 ∧ (h.own b).1.ref ∉ refs := by
  rw [own]
  split
  · rename_i hAlone
    refine ⟨⟨hCovers, .refl refs h, read_congr rfl⟩, fun hMem => ?_⟩
    have hCount := hCovers b.ref
    rw [List.count_cons_self, ← holders_eq_count] at hCount
    have hPos : 0 < refs.count b.ref := List.count_pos_iff.mpr hMem
    omega
  · have hNew := hCovers.new (h.read b)
    refine ⟨⟨?_, ?_, ?_⟩, ?_⟩
    · exact (hNew.perm (List.Perm.swap _ _ _)).release
    · exact ((hCovers.keeps_new _).subset (List.subset_cons_self _ _)).trans keeps_release
    · exact (read_congr (content?_release _)).trans read_new
    · exact fun hMem => Nat.lt_irrefl _ (hCovers.lt_length (List.mem_cons_of_mem _ hMem))

theorem Covers.exchanges_edit (hCovers : Covers h (b.ref :: refs)) (f : Request → Request) :
    Exchanges refs f b h (h.edit b f).1 (h.edit b f).2 := by
  obtain ⟨hOwn, hAlone⟩ := hCovers.exchanges_own
  rw [edit]
  generalize h.own b = own at hOwn hAlone ⊢
  obtain ⟨b', h'⟩ := own
  constructor
  case covers =>
    intro k
    refine Nat.le_trans (hOwn.covers k) (Nat.le_of_eq ?_)
    rw [count, count, getElem?_updateCell]
    split
    · cases h'.cells[k]? <;> rfl
    · rfl
  case keeps =>
    intro k hk
    have hNe : k ≠ b'.ref := fun hSame => hAlone (hSame ▸ hk)
    rw [content?, getElem?_updateCell, if_neg hNe]
    exact hOwn.keeps k hk
  case read =>
    have hCell := List.getElem?_eq_getElem (hOwn.covers.lt_length List.mem_cons_self)
    have hRead := hOwn.read
    rw [read, hCell] at hRead
    rw [read, getElem?_updateCell, if_pos rfl, hCell]
    exact congrArg f hRead

theorem Covers.edit_not_mem (hCovers : Covers h (b.ref :: refs)) (f : Request → Request) :
    (h.edit b f).1.ref ∉ refs := hCovers.exchanges_own.2

theorem edit_shared (b : Handle) (f : Request → Request) : (h.edit b f).1.shared = false := by
  rw [edit]
  change (h.own b).1.shared = false
  rw [own]
  split <;> rfl

/-- A content is taken and put, changed, into a new request. -/
theorem Covers.exchanges_take_new (hCovers : Covers h (b.ref :: refs)) (f : Request → Request) :
    Exchanges refs f b h ((h.take b).2.new (f (h.take b).1)).1 ((h.take b).2.new (f (h.take b).1)).2 where
  covers := hCovers.release.new _
  keeps := keeps_release.trans (hCovers.release.keeps_new _)
  read := read_new

theorem Covers.exchanges_merge {source : Handle} (hCovers : h.Covers (source.ref :: b.ref :: refs)) :
    Exchanges refs (fun r => r.append (h.read source).groups) b h (h.merge b source).1
      (h.merge b source).2 := by
  have hEdit := hCovers.release.exchanges_edit fun r => r.append (h.read source).groups
  refine ⟨hEdit.covers, keeps_release.trans hEdit.keeps, ?_⟩
  rw [merge, take, hEdit.read, read_congr (content?_release b.ref)]

theorem Covers.merge_not_mem {source : Handle} (hCovers : h.Covers (source.ref :: b.ref :: refs)) :
    (h.merge b source).1.ref ∉ refs := hCovers.release.edit_not_mem _

theorem merge_shared (b source : Handle) : (h.merge b source).1.shared = false := edit_shared b _

/-- A second handle was made with the same content. -/
structure Branches (refs : List Nat) (b : Handle) (h : Heap) (r : (Handle × Handle) × Heap) : Prop where
  ref : r.1.1.ref = b.ref
  covers : Covers r.2 (r.1.2.ref :: b.ref :: refs)
  keeps : Keeps (b.ref :: refs) h r.2
  read : r.2.read r.1.2 = h.read b

theorem Covers.branches_share (hCovers : Covers h (b.ref :: refs)) : Branches refs b h (h.share b) where
  ref := rfl
  covers k := by
    have hCount := hCovers k
    rw [count_share (hCovers.pos List.mem_cons_self)]
    change List.count k (b.ref :: b.ref :: refs) ≤ _
    by_cases hk : k = b.ref
    · subst hk
      rw [List.count_cons_self, if_pos rfl]
      omega
    · rw [List.count_cons_of_ne (Ne.symm hk), if_neg hk]
      exact hCount
  keeps k _ := content?_share k
  read := read_congr (content?_share _)

theorem Covers.branches_duplicate (hCovers : Covers h (b.ref :: refs)) :
    Branches refs b h (h.duplicate b) where
  ref := rfl
  covers := hCovers.new _
  keeps := hCovers.keeps_new _
  read := read_new

end Telemetry.Heap

import Telemetry.Proofs.Agent.Custody

/-!
# What is held back

What is held back is always some batches joined to one, with the number of its items.
-/

namespace Telemetry

namespace Request

/-- Batches of a type joined to one, in order. -/
def joined (type : BatchType) (rs : List Request) : Request := ⟨type, rs.flatMap Request.groups⟩

variable {type : BatchType} {r : Request} {rs : List Request}

theorem joined_concat : joined type (rs ++ [r]) = (joined type rs).append r.groups := by
  simp [joined, append]

theorem joined_singleton (hType : r.type = type) : joined type [r] = r := by
  subst hType
  simp [joined]

/-- Joining keeps the groups and their order. -/
theorem groups_joined (type : BatchType) (parts : List (List Request)) :
    (parts.map (joined type)).flatMap groups = parts.flatten.flatMap groups := by
  induction parts with
  | nil => rfl
  | cons part parts ih =>
      rw [List.map_cons, List.flatMap_cons, List.flatten_cons, List.flatMap_append, ih]
      rfl

/-- Items add up when groups are added. -/
theorem itemCount_append (r : Request) (groups : List ResourceGroup) :
    (r.append groups).itemCount = r.itemCount + itemCount ⟨r.type, groups⟩ := by
  rw [itemCount, itemCount, itemCount, append, List.map_append]
  exact List.sum_append

theorem itemCount_joined_concat (hType : r.type = type) :
    (joined type (rs ++ [r])).itemCount = (joined type rs).itemCount + r.itemCount := by
  rw [joined_concat, itemCount_append]
  subst hType
  rfl

end Request

namespace Gathering

variable {g g' : Gathering} {b full : Handle} {h h' : Heap} {others : List Nat} {type : BatchType}
  {rs : List Request} {settings : BatchSettings}

/-- What is held back is some batches joined, and its items are counted. -/
structure Holds (g : Gathering) (h : Heap) (type : BatchType) (rs : List Request) : Prop where
  content : g.batch.map h.read = if rs.isEmpty then none else some (.joined type rs)
  items : g.items = (Request.joined type rs).itemCount

theorem holds_empty (h : Heap) (type : BatchType) : empty.Holds h type [] := ⟨rfl, rfl⟩

theorem Holds.congr (hHolds : g.Holds h type rs) (hKeeps : Heap.Keeps g.refs h h') :
    g.Holds h' type rs where
  content := by
    rw [← hHolds.content]
    obtain ⟨_ | b, items⟩ := g
    · rfl
    · exact congrArg some (Heap.read_congr (hKeeps b.ref List.mem_cons_self))
  items := hHolds.items

theorem Holds.batch_eq_none_iff (hHolds : g.Holds h type rs) : g.batch = none ↔ rs = [] := by
  have hContent := hHolds.content
  cases rs with
  | nil => simpa using hContent
  | cons r rs => cases hBatch : g.batch <;> simp_all

theorem Holds.read_eq (hHolds : g.Holds h type rs) (hBatch : g.batch = some b) :
    h.read b = .joined type rs ∧ rs ≠ [] := by
  have hContent := hHolds.content
  rw [hBatch] at hContent
  cases rs with
  | nil => cases hContent
  | cons r rs => exact ⟨Option.some.inj hContent, List.cons_ne_nil r rs⟩

/-- The groups of what is held back. -/
def groups (g : Gathering) (h : Heap) : List ResourceGroup := (g.batch.map h.read).elim [] Request.groups

theorem Holds.groups_eq (hHolds : g.Holds h type rs) : g.groups h = rs.flatMap Request.groups := by
  rw [groups, hHolds.content]
  cases rs <;> rfl

theorem Holds.items_eq (hHolds : g.Holds h type rs) :
    g.items = (g.batch.map h.read).elim 0 Request.itemCount := by
  rw [hHolds.items, hHolds.content]
  cases rs <;> rfl

/-! ## Adding a batch -/

theorem items_push : (g.push b h).1.items = g.items + (h.read b).itemCount := by
  rw [push]
  cases g.batch <;> rfl

theorem holds_push (hHolds : g.Holds h type rs) (hCovers : h.Covers (b.ref :: (others ++ g.refs)))
    (hType : (h.read b).type = type) :
    (g.push b h).1.Holds (g.push b h).2 type (rs ++ [h.read b]) where
  content := by
    obtain ⟨_ | pending, items⟩ := g
    · obtain rfl := hHolds.batch_eq_none_iff.mp rfl
      simp [push, Request.joined_singleton hType]
    · obtain ⟨hRead, -⟩ := hHolds.read_eq rfl
      have hMerge : Heap.Exchanges others _ pending h (h.merge pending b).1 (h.merge pending b).2 :=
        Heap.Covers.exchanges_merge
          (hCovers.perm ((List.perm_append_singleton pending.ref others).cons b.ref))
      simp [push, hMerge.read, hRead, Request.joined_concat]
  items := by rw [items_push, hHolds.items, Request.itemCount_joined_concat hType]

theorem offer_eq_none (hOffer : g.offer settings b h = (none, g', h')) :
    g.push b h = (g', h') ∧ g'.items < settings.sendBatchSize := by
  rw [offer] at hOffer
  rcases hPush : g.push b h with ⟨⟨batch, items⟩, h₁⟩
  simp only [hPush] at hOffer
  split at hOffer
  · cases hOffer
    rw [push] at hPush
    cases hBatch : g.batch <;> simp [hBatch] at hPush
  · rename_i hFew
    cases hOffer
    exact ⟨rfl, Nat.lt_of_not_le hFew⟩

theorem offer_eq_some (hOffer : g.offer settings b h = (some full, g', h')) :
    g' = empty ∧ ∃ items, g.push b h = (⟨some full, items⟩, h') ∧ settings.sendBatchSize ≤ items := by
  rw [offer] at hOffer
  rcases hPush : g.push b h with ⟨⟨batch, items⟩, h₁⟩
  simp only [hPush] at hOffer
  split at hOffer
  · rename_i hEnough
    cases hOffer
    exact ⟨rfl, items, rfl, hEnough⟩
  · cases hOffer

end Gathering

end Telemetry

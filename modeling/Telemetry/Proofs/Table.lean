import Telemetry.Table

/-!
# Entries of ordered tables

A table whose keys ascend has one entry for each key, and looking the key up finds it.
-/

namespace Telemetry

namespace Table

variable {κ α : Type} [Ord κ]

theorem Ascending.tail {e : κ × α} {t : Table κ α} (h : Ascending (e :: t)) : Ascending t :=
  (List.pairwise_cons.mp h).2

theorem mem_of_get? [Std.LawfulEqOrd κ] {k : κ} {v : α} {t : Table κ α} (h : t.get? k = some v) :
    (k, v) ∈ t := by
  induction t with
  | nil => cases h
  | cons e t ih =>
      obtain ⟨a, b⟩ := e
      by_cases ha : k = a
      · subst ha
        rw [get?_cons_self] at h
        cases h
        exact List.mem_cons_self
      · rw [get?_cons_of_ne ha] at h
        exact List.mem_cons_of_mem _ (ih h)

theorem isSome_get?_iff [Std.LawfulEqOrd κ] {k : κ} {t : Table κ α} :
    (t.get? k).isSome = true ↔ k ∈ t.keys := by
  induction t with
  | nil => simp [keys]
  | cons e t ih =>
      obtain ⟨a, b⟩ := e
      by_cases ha : k = a
      · subst ha
        simp [keys]
      · rw [get?_cons_of_ne ha, ih]
        simp [keys, ha]

theorem contains_iff [Std.LawfulEqOrd κ] {k : κ} {t : Table κ α} :
    t.contains k = true ↔ k ∈ t.keys := isSome_get?_iff

namespace Ascending

variable {k : κ} {v : α} {t : Table κ α}

theorem nodup_keys [Std.TransOrd κ] (h : Ascending t) : t.keys.Nodup := by
  refine List.Pairwise.imp ?_ h
  rintro a b hLt rfl
  simp at hLt

variable [Std.LawfulEqOrd κ]

theorem get?_of_mem (h : Ascending t) (hMem : (k, v) ∈ t) : t.get? k = some v := by
  induction t with
  | nil => cases hMem
  | cons e t ih =>
      obtain ⟨a, b⟩ := e
      obtain ⟨hFirst, hRest⟩ := List.pairwise_cons.mp h
      rcases List.mem_cons.mp hMem with hEq | hTail
      · cases hEq
        exact get?_cons_self _ _ _
      · have hNe : k ≠ a := by
          rintro rfl
          simpa using hFirst k (List.mem_map.mpr ⟨(k, v), hTail, rfl⟩)
        rw [get?_cons_of_ne hNe, ih hRest hTail]

theorem mem_iff (h : Ascending t) : (k, v) ∈ t ↔ t.get? k = some v :=
  ⟨h.get?_of_mem, mem_of_get?⟩

end Ascending

section Entries

variable {k j : κ} {v w : α} {t : Table κ α}

theorem erase_eq_self [Std.LawfulEqOrd κ] (hFresh : k ∉ t.keys) : t.erase k = t := by
  refine List.filter_eq_self.mpr fun e hMem => ?_
  have hNe : k ≠ e.1 := fun hSame => hFresh (hSame ▸ List.mem_map_of_mem hMem)
  simpa using hNe

theorem erase_cons_of_ne [Std.LawfulEqOrd κ] (hNe : k ≠ j) :
    erase k ((j, w) :: t) = (j, w) :: erase k t := by
  simp [erase, hNe]

theorem Ascending.filter (h : Ascending t) (keep : κ × α → Bool) : Ascending (t.filter keep) :=
  List.Pairwise.sublist (List.Sublist.map _ List.filter_sublist) h

theorem Ascending.erase (h : Ascending t) (k : κ) : Ascending (t.erase k) := h.filter _

theorem Ascending.insert_head (h : Ascending ((k, w) :: t)) : t.insert k v = (k, v) :: t := by
  cases t with
  | nil => rfl
  | cons e t =>
      have hLt : compare k e.1 = .lt := (List.pairwise_cons.mp h).1 e.1 List.mem_cons_self
      rw [Table.insert, hLt]

variable [Std.TransOrd κ]

theorem Ascending.not_mem_keys (h : Ascending ((j, w) :: t)) (hLt : compare k j = .lt) :
    k ∉ Table.keys ((j, w) :: t) := by
  intro hMem
  rcases List.mem_cons.mp hMem with hSame | hLater
  · subst hSame
    simp at hLt
  · have hGt := (List.pairwise_cons.mp h).1 k hLater
    have hCycle := Std.TransCmp.lt_trans hLt hGt
    simp at hCycle

variable [Std.LawfulEqOrd κ]

/-- Two tables with the same value at every key are the same. -/
theorem Ascending.ext {s : Table κ α} (hs : Ascending s) (ht : Ascending t)
    (hGet : ∀ k, s.get? k = t.get? k) : s = t := by
  have hEntries : ∀ {t : Table κ α}, Ascending t → t.Pairwise fun a b => compare a.1 b.1 = .lt :=
    fun h => List.pairwise_map.mp h
  have hNodup : ∀ {t : Table κ α}, Ascending t → t.Nodup := fun h => by
    refine (hEntries h).imp ?_
    rintro a b hLt rfl
    simp at hLt
  have hPerm : s.Perm t := by
    refine (List.perm_ext_iff_of_nodup (hNodup hs) (hNodup ht)).mpr fun ⟨k, v⟩ => ?_
    rw [hs.mem_iff, ht.mem_iff, hGet]
  refine hPerm.eq_of_pairwise (fun a b _ _ hab hba => ?_) (hEntries hs) (hEntries ht)
  have hCycle := Std.TransCmp.lt_trans hab hba
  simp at hCycle

theorem Ascending.erase_head (h : Ascending ((k, w) :: t)) : Table.erase k ((k, w) :: t) = t := by
  have hFresh : k ∉ t.keys := (List.nodup_cons.mp h.nodup_keys).1
  rw [Table.erase, List.filter_cons_of_neg (by simp)]
  exact erase_eq_self hFresh

/-- Insertion puts one entry in the place of the one that was there. -/
theorem Ascending.insert_perm (h : Ascending t) (k : κ) (v : α) :
    (t.insert k v).Perm ((k, v) :: t.erase k) := by
  induction t with
  | nil => rfl
  | cons e t ih =>
      obtain ⟨j, w⟩ := e
      rw [Table.insert]
      split
      · next hLt => rw [erase_eq_self (h.not_mem_keys hLt)]
      · next hEq =>
        cases Std.LawfulEqOrd.eq_of_compare hEq
        rw [h.erase_head]
      · next hGt =>
        have hNe : k ≠ j := fun hSame => by simp [hSame] at hGt
        rw [erase_cons_of_ne hNe]
        exact ((ih h.tail).cons _).trans (.swap _ _ _)

theorem Ascending.perm_of_get? (h : Ascending t) (hGet : t.get? k = some v) :
    t.Perm ((k, v) :: t.erase k) := by
  induction t with
  | nil => cases hGet
  | cons e t ih =>
      obtain ⟨j, w⟩ := e
      by_cases hSame : k = j
      · subst hSame
        rw [get?_cons_self] at hGet
        cases hGet
        rw [h.erase_head]
      · rw [get?_cons_of_ne hSame] at hGet
        rw [erase_cons_of_ne hSame]
        exact ((ih h.tail hGet).cons _).trans (.swap _ _ _)

theorem Ascending.insert_erase (h : Ascending t) (k : κ) (v : α) :
    (t.erase k).insert k v = t.insert k v := by
  induction t with
  | nil => rfl
  | cons e t ih =>
      obtain ⟨j, w⟩ := e
      cases hCompare : compare k j with
      | lt => rw [erase_eq_self (h.not_mem_keys hCompare)]
      | eq =>
          cases Std.LawfulEqOrd.eq_of_compare hCompare
          rw [h.erase_head, h.insert_head, Table.insert, hCompare]
      | gt =>
          have hNe : k ≠ j := fun hSame => by simp [hSame] at hCompare
          rw [erase_cons_of_ne hNe, Table.insert, Table.insert, hCompare, ih h.tail]

theorem Ascending.insert_of_get? (h : Ascending t) (hGet : t.get? k = some v) : t.insert k v = t := by
  induction t with
  | nil => cases hGet
  | cons e t ih =>
      obtain ⟨j, w⟩ := e
      cases hCompare : compare k j with
      | lt =>
          rw [← erase_eq_self (h.not_mem_keys hCompare), get?_erase_self] at hGet
          cases hGet
      | eq =>
          cases Std.LawfulEqOrd.eq_of_compare hCompare
          rw [get?_cons_self] at hGet
          cases hGet
          rw [Table.insert, hCompare]
      | gt =>
          have hNe : k ≠ j := fun hSame => by simp [hSame] at hCompare
          rw [get?_cons_of_ne hNe] at hGet
          rw [Table.insert, hCompare, ih h.tail hGet]

end Entries

section Values

variable {β : Type} (f : α → β) (k : κ) (v : α) (t : Table κ α)

theorem mapValues_insert : mapValues f (t.insert k v) = (mapValues f t).insert k (f v) := by
  induction t with
  | nil => rfl
  | cons e t ih =>
      rw [mapValues, mapValues] at ih
      rw [mapValues, mapValues, List.map_cons, Table.insert, Table.insert]
      cases compare k e.1 with
      | lt => rfl
      | eq => rfl
      | gt => rw [← ih, List.map_cons]

theorem mapValues_erase : mapValues f (t.erase k) = (mapValues f t).erase k := by
  rw [mapValues, mapValues, erase, erase, List.filter_map]
  rfl

theorem ascending_mapValues_iff : Ascending (mapValues f t) ↔ Ascending t := by
  rw [Ascending, Ascending, keys, keys, mapValues, List.map_map]
  rfl

theorem get?_mapValues : Table.get? k (mapValues f t) = (t.get? k).map f := by
  induction t with
  | nil => rfl
  | cons e t ih =>
      rw [mapValues] at ih
      rw [mapValues, List.map_cons, get?, get?, ih]
      split <;> rfl

end Values

theorem get?_map {β : Type} [Std.LawfulEqOrd κ] (f : κ → α → β) (k : κ) (t : Table κ α) :
    Table.get? k (t.map fun e => (e.1, f e.1 e.2)) = (t.get? k).map (f k) := by
  induction t with
  | nil => rfl
  | cons e t ih =>
      obtain ⟨a, b⟩ := e
      rw [List.map_cons]
      by_cases ha : k = a
      · subst ha
        simp
      · rw [get?_cons_of_ne ha, get?_cons_of_ne ha, ih]

theorem ascending_map_iff {β : Type} (f : κ → α → β) (t : Table κ α) :
    Ascending (t.map fun e => (e.1, f e.1 e.2)) ↔ Ascending t := by
  rw [Ascending, Ascending, keys, keys, List.map_map]
  rfl

theorem get?_filter_key [Std.LawfulEqOrd κ] (keep : κ → Bool) (k : κ) (t : Table κ α) :
    Table.get? k (t.filter fun e => keep e.1) = if keep k = true then t.get? k else none := by
  induction t with
  | nil => simp
  | cons e t ih =>
      obtain ⟨a, b⟩ := e
      rw [List.filter_cons]
      by_cases ha : k = a
      · subst ha
        split
        · simp
        · next hDrop => rw [ih, if_neg hDrop]
      · rw [get?_cons_of_ne ha, ← ih]
        split
        · exact get?_cons_of_ne ha b _
        · rfl

/-- Insertion adds one key to the others. -/
theorem mem_keys_insert_iff [Std.LawfulEqOrd κ] {j k : κ} {v : α} {t : Table κ α} :
    j ∈ (t.insert k v).keys ↔ j = k ∨ j ∈ t.keys := by
  by_cases hj : j = k
  · subst hj
    simp [← isSome_get?_iff]
  · rw [← isSome_get?_iff, get?_insert_of_ne hj, isSome_get?_iff]
    simp [hj]

theorem mem_of_mem_insert {e : κ × α} {k : κ} {v : α} {t : Table κ α} (h : e ∈ t.insert k v) :
    e = (k, v) ∨ e ∈ t := by
  induction t with
  | nil => exact .inl (List.mem_singleton.mp h)
  | cons e' t ih =>
      rw [insert] at h
      split at h
      · exact List.mem_cons.mp h
      · exact (List.mem_cons.mp h).imp_right (List.mem_cons_of_mem _)
      · rcases List.mem_cons.mp h with rfl | h
        · exact .inr List.mem_cons_self
        · exact (ih h).imp_right (List.mem_cons_of_mem _)

/-- The table of a list has only what the list has. -/
theorem mem_of_mem_ofList {e : κ × α} {entries : List (κ × α)} (h : e ∈ ofList entries) :
    e ∈ entries := by
  have hFold : ∀ (entries : List (κ × α)) (t : Table κ α),
      e ∈ entries.foldl (fun t e => t.insert e.1 e.2) t → e ∈ entries ∨ e ∈ t := by
    intro entries
    induction entries with
    | nil => exact fun t hTable => .inr hTable
    | cons e' entries ih =>
        intro t hLater
        rcases ih _ hLater with hLater | hTable
        · exact .inl (List.mem_cons_of_mem _ hLater)
        · rcases mem_of_mem_insert hTable with rfl | hTable
          · exact .inl List.mem_cons_self
          · exact .inr hTable
  exact (hFold entries [] h).resolve_right List.not_mem_nil

end Table

section Ordered

variable {α : Type} [Ord α] {a b : α} {l : List α}

theorem mem_insertOrdered_iff [Std.LawfulEqOrd α] : b ∈ insertOrdered a l ↔ b = a ∨ b ∈ l := by
  induction l with
  | nil => simp [insertOrdered]
  | cons c l ih =>
      rw [insertOrdered]
      split
      · simp
      · rename_i hEq
        rw [Std.LawfulEqOrd.eq_of_compare hEq]
        simp
      · simp [ih, or_left_comm]

theorem pairwise_insertOrdered [Std.TransOrd α] [Std.LawfulEqOrd α]
    (h : l.Pairwise fun x y => compare x y = .lt) :
    (insertOrdered a l).Pairwise fun x y => compare x y = .lt := by
  induction l with
  | nil => simp [insertOrdered]
  | cons c l ih =>
      obtain ⟨hFirst, hRest⟩ := List.pairwise_cons.mp h
      rw [insertOrdered]
      split
      · rename_i hLt
        refine List.pairwise_cons.mpr ⟨fun x hx => ?_, h⟩
        rcases List.mem_cons.mp hx with rfl | hx
        · exact hLt
        · exact Std.TransCmp.lt_trans hLt (hFirst x hx)
      · exact h
      · rename_i hGt
        refine List.pairwise_cons.mpr ⟨fun x hx => ?_, ih hRest⟩
        rcases mem_insertOrdered_iff.mp hx with rfl | hx
        · exact Std.OrientedCmp.lt_of_gt hGt
        · exact hFirst x hx

end Ordered

end Telemetry

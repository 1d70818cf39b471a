/-!
# Ordered tables

Finite maps and sets kept as lists in ascending order of their keys, without repetitions. The order
is the one of the key type's `Ord` instance; whoever reads a table from front to back sees the keys
in that order. Looking a key up after it was set or removed gives what one expects, and setting a
key keeps the keys in order.
-/

namespace Telemetry

/-- A finite map as a list of entries in ascending order of their keys. -/
abbrev Table (κ α : Type) := List (κ × α)

namespace Table

variable {κ α β : Type} [Ord κ]

/-- The value at a key. -/
def get? (k : κ) : Table κ α → Option α
  | [] => none
  | (k', v) :: rest => if compare k k' == .eq then some v else get? k rest

/-- Whether a key has a value. -/
def contains (k : κ) (t : Table κ α) : Bool := (t.get? k).isSome

/-- Sets the value at a key, whether or not it had one. -/
def insert (k : κ) (v : α) : Table κ α → Table κ α
  | [] => [(k, v)]
  | (k', v') :: rest =>
    match compare k k' with
    | .lt => (k, v) :: (k', v') :: rest
    | .eq => (k, v) :: rest
    | .gt => (k', v') :: insert k v rest

/-- Removes a key and its value, if it has one. -/
def erase (k : κ) (t : Table κ α) : Table κ α := t.filter fun e => compare k e.1 != .eq

/-- Changes the value at a key, with a default for a key without one. -/
def modify (k : κ) (empty : α) (f : α → α) (t : Table κ α) : Table κ α :=
  t.insert k (f ((t.get? k).getD empty))

/-- The table of a list of entries; of two entries with one key the later wins. -/
def ofList (entries : List (κ × α)) : Table κ α := entries.foldl (fun t e => t.insert e.1 e.2) []

/-- The keys, in ascending order. -/
def keys (t : Table κ α) : List κ := t.map Prod.fst

/-- Changes every value. -/
def mapValues (f : α → β) (t : Table κ α) : Table κ β := t.map fun e => (e.1, f e.2)

/-- The keys of a table ascend, so that none is there twice. -/
def Ascending (t : Table κ α) : Prop := t.keys.Pairwise fun a b => compare a b = .lt

@[simp] theorem get?_nil (k : κ) : get? k ([] : Table κ α) = none := rfl

section Lookup

variable [Std.LawfulEqOrd κ]

@[simp] theorem get?_cons_self (k : κ) (v : α) (t : Table κ α) : get? k ((k, v) :: t) = some v := by
  simp [get?]

theorem get?_cons_of_ne {k k' : κ} (h : k ≠ k') (v : α) (t : Table κ α) :
    get? k ((k', v) :: t) = get? k t := by
  simp [get?, h]

@[simp] theorem get?_insert_self (k : κ) (v : α) (t : Table κ α) :
    get? k (insert k v t) = some v := by
  induction t with
  | nil => simp [insert]
  | cons e t ih =>
    obtain ⟨k', v'⟩ := e
    rw [insert]
    split
    · simp
    · simp
    · rename_i hgt
      have hne : k ≠ k' := fun h => by simp [h] at hgt
      rw [get?_cons_of_ne hne, ih]

theorem get?_insert_of_ne {k k' : κ} (h : k ≠ k') (v : α) (t : Table κ α) :
    get? k (insert k' v t) = get? k t := by
  induction t with
  | nil => simp [insert, get?_cons_of_ne h]
  | cons e t ih =>
    obtain ⟨a, b⟩ := e
    rw [insert]
    split
    · rw [get?_cons_of_ne h]
    · rename_i heq
      have ha : k' = a := Std.LawfulEqOrd.eq_of_compare heq
      rw [get?_cons_of_ne h, get?_cons_of_ne (ha ▸ h)]
    · by_cases ha : k = a
      · subst ha
        rw [get?_cons_self, get?_cons_self]
      · rw [get?_cons_of_ne ha, get?_cons_of_ne ha, ih]

@[simp] theorem get?_erase_self (k : κ) (t : Table κ α) : get? k (erase k t) = none := by
  induction t with
  | nil => rfl
  | cons e t ih =>
    obtain ⟨a, b⟩ := e
    by_cases ha : k = a
    · subst ha
      simpa [erase] using ih
    · have hkeep : erase k ((a, b) :: t) = (a, b) :: erase k t := by simp [erase, ha]
      rw [hkeep, get?_cons_of_ne ha, ih]

theorem get?_erase_of_ne {k k' : κ} (h : k ≠ k') (t : Table κ α) :
    get? k (erase k' t) = get? k t := by
  induction t with
  | nil => rfl
  | cons e t ih =>
    obtain ⟨a, b⟩ := e
    by_cases ha : k' = a
    · subst ha
      have hdrop : erase k' ((k', b) :: t) = erase k' t := by simp [erase]
      rw [hdrop, ih, get?_cons_of_ne h]
    · have hkeep : erase k' ((a, b) :: t) = (a, b) :: erase k' t := by simp [erase, ha]
      rw [hkeep]
      by_cases hk : k = a
      · subst hk
        rw [get?_cons_self, get?_cons_self]
      · rw [get?_cons_of_ne hk, get?_cons_of_ne hk, ih]

end Lookup

theorem mem_keys_insert {k j : κ} {v : α} {t : Table κ α} (h : j ∈ keys (insert k v t)) :
    j = k ∨ j ∈ keys t := by
  induction t with
  | nil => simpa [insert, keys] using h
  | cons e t ih =>
    obtain ⟨a, b⟩ := e
    rw [insert] at h
    split at h
    · simpa [keys] using h
    · rcases List.mem_cons.mp h with hj | hj
      · exact .inl hj
      · exact .inr (List.mem_cons_of_mem _ hj)
    · rcases List.mem_cons.mp h with hj | hj
      · exact .inr (hj ▸ List.mem_cons_self)
      · rcases ih hj with hk | hk
        · exact .inl hk
        · exact .inr (List.mem_cons_of_mem _ hk)

/-- Insertion keeps the keys in order. -/
theorem Ascending.insert [Std.TransOrd κ] {k : κ} {v : α} {t : Table κ α} (h : Ascending t) :
    Ascending (t.insert k v) := by
  induction t with
  | nil => simp [Table.insert, Ascending, keys]
  | cons e t ih =>
    obtain ⟨a, b⟩ := e
    obtain ⟨hfirst, hrest⟩ := List.pairwise_cons.mp h
    rw [Table.insert]
    split
    · rename_i hlt
      refine List.pairwise_cons.mpr ⟨fun j hj => ?_, h⟩
      rcases List.mem_cons.mp hj with rfl | hj
      · exact hlt
      · exact Std.TransCmp.lt_trans hlt (hfirst j hj)
    · rename_i heq
      exact List.pairwise_cons.mpr
        ⟨fun j hj => Std.TransCmp.lt_of_eq_of_lt heq (hfirst j hj), hrest⟩
    · rename_i hgt
      refine List.pairwise_cons.mpr ⟨fun j hj => ?_, ih hrest⟩
      rcases mem_keys_insert hj with rfl | hj
      · exact Std.OrientedCmp.lt_of_gt hgt
      · exact hfirst j hj

theorem ascending_ofList [Std.TransOrd κ] (entries : List (κ × α)) :
    Ascending (ofList entries) := by
  have hfold : ∀ (t : Table κ α), Ascending t →
      Ascending (entries.foldl (fun t e => t.insert e.1 e.2) t) := by
    induction entries with
    | nil => exact fun t ht => ht
    | cons e entries ih => exact fun t ht => ih _ ht.insert
  exact hfold [] List.Pairwise.nil

end Table

/-- Puts an element into an ascending list, unless an equal one is there. -/
def insertOrdered {α : Type} [Ord α] (a : α) : List α → List α
  | [] => [a]
  | b :: rest =>
    match compare a b with
    | .lt => a :: b :: rest
    | .eq => b :: rest
    | .gt => b :: insertOrdered a rest

/-- The elements of a list in ascending order, each once. -/
def sortDistinct {α : Type} [Ord α] (xs : List α) : List α :=
  xs.foldl (fun acc a => insertOrdered a acc) []

end Telemetry

import Telemetry.Storage.Memory

/-!
# Namespaces as storage

A namespace can serve as a client by itself: it refuses nothing and carries out every batch. Where a
process may die while it runs a program, what counts is what the client has done by then.

Or every batch that a process hands to its storage meets a fate, by its number: it is carried out, it is
refused and nothing of it is carried out, or it is carried out and is the last one, because the
process dies. What a dead process goes on to do leaves no trace.
-/

namespace Telemetry.Storage

open Text (Bytes)

namespace Space

/-- A namespace as a client: no batch fails. -/
def client : Client Space := ⟨fun ops s => (⟨.ok (), (s.run ops).1⟩, (s.run ops).2), id⟩

@[simp] theorem run_nil (s : Space) : s.run [] = ([], s) := rfl

@[simp] theorem run_get (s : Space) (key : String) (rest : List Operation) :
    s.run (.get key :: rest) = (s.get? key :: (s.run rest).1, (s.run rest).2) := rfl

@[simp] theorem run_set (s : Space) (key : String) (value : Bytes) (rest : List Operation) :
    s.run (.set key value :: rest) = Space.run (s.insert key value) rest := rfl

@[simp] theorem run_delete (s : Space) (key : String) (rest : List Operation) :
    s.run (.delete key :: rest) = Space.run (s.erase key) rest := rfl

theorem run_cons (s : Space) (op : Operation) (rest : List Operation) :
    s.run (op :: rest) =
      ((s.run [op]).1 ++ ((s.run [op]).2.run rest).1, ((s.run [op]).2.run rest).2) := by
  cases op <;> rfl

/-- Every read of a batch is answered. -/
theorem length_run (s : Space) (ops : List Operation) :
    (s.run ops).1.length = (ops.filter Operation.isGet).length := by
  induction ops generalizing s with
  | nil => rfl
  | cons op rest ih =>
      cases op with
      | get key =>
          rw [run_get, List.length_cons, ih, List.filter_cons_of_pos rfl, List.length_cons]
      | set key value => rw [run_set, ih, List.filter_cons_of_neg Bool.false_ne_true]
      | delete key => rw [run_delete, ih, List.filter_cons_of_neg Bool.false_ne_true]

/-- Reads leave the namespace as it is. -/
theorem run_gets (s : Space) (keys : List String) :
    s.run (keys.map Operation.get) = (keys.map s.get?, s) := by
  induction keys with
  | nil => rfl
  | cons key rest ih =>
      rw [List.map_cons, run_get, ih]
      rfl

theorem get?_insert (s : Space) (key other : String) (value : Bytes) :
    (s.insert key value).get? other = if other = key then some value else s.get? other := by
  split
  · next h => rw [h, Table.get?_insert_self]
  · next h => rw [Table.get?_insert_of_ne h]

theorem get?_erase (s : Space) (key other : String) :
    (s.erase key).get? other = if other = key then none else s.get? other := by
  split
  · next h => rw [h, Table.get?_erase_self]
  · next h => rw [Table.get?_erase_of_ne h]

/-- Of several removals each key loses its value, and no other key does. -/
theorem get?_run_deletes (s : Space) (keys : List String) (other : String) :
    (s.run (keys.map Operation.delete)).2.get? other =
      if other ∈ keys then none else s.get? other := by
  induction keys generalizing s with
  | nil => rfl
  | cons key rest ih =>
      rw [List.map_cons, run_delete, ih, get?_erase]
      by_cases hKey : other = key <;> by_cases hRest : other ∈ rest <;> simp [hKey, hRest]

/-- A key that no step of a batch changes keeps its value. -/
theorem get?_run_of_unchanged {key : String} {ops : List Operation}
    (h : ∀ op ∈ ops, op.key = key → op.isGet) (s : Space) :
    (s.run ops).2.get? key = s.get? key := by
  induction ops generalizing s with
  | nil => rfl
  | cons op rest ih =>
      rw [List.forall_mem_cons] at h
      rw [run_cons, ih h.2]
      cases op with
      | get other => rfl
      | set other value =>
          have hOther : key ≠ other := fun hSame => Bool.false_ne_true (h.1 hSame.symm)
          rw [run_set, run_nil, get?_insert, if_neg hOther]
      | delete other =>
          have hOther : key ≠ other := fun hSame => Bool.false_ne_true (h.1 hSame.symm)
          rw [run_delete, run_nil, get?_erase, if_neg hOther]

/-- After a batch a key has the value it had, or what a step of the batch made of it. -/
theorem get?_run_cases (s : Space) (ops : List Operation) (key : String) :
    (s.run ops).2.get? key = s.get? key ∨
      (∃ value, .set key value ∈ ops ∧ (s.run ops).2.get? key = some value) ∨
      .delete key ∈ ops ∧ (s.run ops).2.get? key = none := by
  induction ops generalizing s with
  | nil => exact .inl rfl
  | cons op rest ih =>
      rw [run_cons]
      rcases ih (s.run [op]).2 with hSame | ⟨value, hMem, hValue⟩ | ⟨hMem, hValue⟩
      · cases op with
        | get other => exact .inl hSame
        | set other value =>
            rw [hSame, run_set, run_nil, get?_insert]
            split
            · next hKey => exact .inr (.inl ⟨value, hKey ▸ List.mem_cons_self, rfl⟩)
            · exact .inl rfl
        | delete other =>
            rw [hSame, run_delete, run_nil, get?_erase]
            split
            · next hKey => exact .inr (.inr ⟨hKey ▸ List.mem_cons_self, rfl⟩)
            · exact .inl rfl
      · exact .inr (.inl ⟨value, List.mem_cons_of_mem _ hMem, hValue⟩)
      · exact .inr (.inr ⟨List.mem_cons_of_mem _ hMem, hValue⟩)

end Space

namespace Access

variable {α σ : Type}

/-- What is left when the process dies after so many operations of a program. A client that carries
out operations one after the other has then carried out these. -/
def cut (client : Client σ) : Access α → Nat → σ → σ
  | done _, _, s => s
  | batch ops next, k, s =>
    if k ≤ ops.length then (client.batch (ops.take k) s).2
    else
      let (reply, t) := client.batch ops s
      (next (reply.outcome.map fun _ => reply.reads)).cut client (k - ops.length) t
  | close next, k, s => next.cut client k (client.close s)
  | check _ next, k, s => next.cut client k s

/-- After how many operations of a program no batch is half done. -/
def seams (client : Client σ) : Access α → σ → List Nat
  | done _, _ => [0]
  | batch ops next, s =>
    let (reply, t) := client.batch ops s
    0 :: ((next (reply.outcome.map fun _ => reply.reads)).seams client t).map (ops.length + ·)
  | close next, s => next.seams client (client.close s)
  | check _ next, s => next.seams client s

@[simp] theorem run_done (client : Client σ) (a : α) (s : σ) :
    (done a).run client s = (a, s) := rfl

@[simp] theorem run_batch (client : Client σ) (ops : List Operation)
    (next : Except StorageError Reads → Access α) (s : σ) :
    (batch ops next).run client s =
      (next ((client.batch ops s).1.outcome.map fun _ => (client.batch ops s).1.reads)).run client
        (client.batch ops s).2 := rfl

@[simp] theorem run_close (client : Client σ) (next : Access α) (s : σ) :
    (close next).run client s = next.run client (client.close s) := rfl

@[simp] theorem run_check (client : Client σ) (holds : Bool) (next : Access α) (s : σ) :
    (check holds next).run client s = next.run client s := rfl

end Access

/-! ## Batches that fail and processes that die -/

/-- What becomes of a batch. -/
inductive Fate
  | carried
  | refused (e : StorageError)
  | last
deriving DecidableEq

/-- Whether a batch that meets a fate is carried out. -/
def Fate.carries : Fate → Bool
  | carried | last => true
  | refused _ => false

/-- A namespace, the number of batches it was handed, and whether the process that uses it died. -/
structure FatedSpace where
  /-- The namespace. -/
  space : Space
  /-- The number of the next batch. -/
  next : Nat
  /-- Whether the process died. -/
  dead : Bool

namespace FatedSpace

/-- Carries out a batch as its fate will have it. -/
def batch (fates : Nat → Fate) (ops : List Operation) (s : FatedSpace) : Reply × FatedSpace :=
  if s.dead then (.failed .closed ops, s)
  else
    match fates s.next with
    | .refused e => (.failed e ops, { s with next := s.next + 1 })
    | .carried => (⟨.ok (), (s.space.run ops).1⟩, ⟨(s.space.run ops).2, s.next + 1, false⟩)
    | .last => (⟨.ok (), (s.space.run ops).1⟩, ⟨(s.space.run ops).2, s.next + 1, true⟩)

/-- The namespace as a client, given the fates. -/
def client (fates : Nat → Fate) : Client FatedSpace := ⟨batch fates, id⟩

variable {fates : Nat → Fate} {α : Type}

theorem batch_carried {k : Nat} (h : fates k = .carried) (ops : List Operation) (s : Space) :
    (client fates).batch ops ⟨s, k, false⟩ =
      (⟨.ok (), (s.run ops).1⟩, ⟨(s.run ops).2, k + 1, false⟩) := by
  simp only [client, batch, h, Bool.false_eq_true, if_false]

theorem batch_refused {k : Nat} {e : StorageError} (h : fates k = .refused e)
    (ops : List Operation) (s : Space) :
    (client fates).batch ops ⟨s, k, false⟩ = (.failed e ops, ⟨s, k + 1, false⟩) := by
  simp only [client, batch, h, Bool.false_eq_true, if_false]

theorem batch_last {k : Nat} (h : fates k = .last) (ops : List Operation) (s : Space) :
    (client fates).batch ops ⟨s, k, false⟩ =
      (⟨.ok (), (s.run ops).1⟩, ⟨(s.run ops).2, k + 1, true⟩) := by
  simp only [client, batch, h, Bool.false_eq_true, if_false]

/-- A batch is carried out as a whole or not at all. -/
theorem batch_space (fates : Nat → Fate) (ops : List Operation) (s : FatedSpace) :
    ((client fates).batch ops s).2.space = s.space ∨
      ((client fates).batch ops s).2.space = (s.space.run ops).2 := by
  obtain ⟨space, k, dead⟩ := s
  cases dead with
  | true => exact .inl rfl
  | false =>
      cases hFate : fates k with
      | carried => exact .inr (by rw [batch_carried hFate])
      | refused e => exact .inl (by rw [batch_refused hFate])
      | last => exact .inr (by rw [batch_last hFate])

/-- A dead process changes nothing any more. -/
theorem run_dead (fates : Nat → Fate) (p : Access α) {s : FatedSpace} (hDead : s.dead = true) :
    (p.run (client fates) s).2 = s := by
  induction p generalizing s with
  | done a => rfl
  | batch ops next ih =>
      have hBatch : (client fates).batch ops s = (.failed .closed ops, s) := by
        simp only [client, batch, hDead, if_true]
      rw [Access.run_batch, hBatch]
      exact ih _ hDead
  | close next ih => exact ih hDead
  | check holds next ih => exact ih hDead

/-- Where every batch is carried out, a program does what it does with the namespace itself. -/
theorem run_carried (p : Access α) (s : Space) (k : Nat) :
    ∃ n, p.run (client fun _ => .carried) ⟨s, k, false⟩ =
      ((p.run Space.client s).1, ⟨(p.run Space.client s).2, n, false⟩) := by
  induction p generalizing s k with
  | done a => exact ⟨k, rfl⟩
  | batch ops next ih =>
      rw [Access.run_batch, batch_carried rfl]
      exact ih _ _ _
  | close next ih => exact ih s k
  | check holds next ih => exact ih s k

end FatedSpace

end Telemetry.Storage

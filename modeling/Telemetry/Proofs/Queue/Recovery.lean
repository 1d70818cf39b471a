import Telemetry.Proofs.Queue.Appending
import Telemetry.Proofs.Storage.Space

/-!
# Recovery when storage fails or the process dies

A queue that starts empties the list of the batches being sent before it stores them again. Whatever
then keeps one of them from being stored loses it: what survives is given exactly.
-/

namespace Telemetry.Queue

open Storage (Access Fate FatedSpace Operation Space)
open Text (Bytes)

variable {β : Type} {codec : Codec β} {fates : Nat → Fate} {s : Space} {r w : UInt64}
  {ds : List UInt64}

/-- The batches among some values that were read. -/
def found (codec : Codec β) (values : List (Option Bytes)) : List β :=
  values.filterMap fun v => v.bind codec.unmarshal?

theorem found_cons_none {v : Option Bytes} (h : v.bind codec.unmarshal? = none)
    (rest : List (Option Bytes)) : found codec (v :: rest) = found codec rest := by
  simp [found, h]

theorem found_cons_some {v : Option Bytes} {b : β} (h : v.bind codec.unmarshal? = some b)
    (rest : List (Option Bytes)) : found codec (v :: rest) = b :: found codec rest := by
  simp [found, h]

/-- Those of some batches that are stored, each by a batch of operations of its own, the first of
which has the number given. -/
def landed (fates : Nat → Fate) : Nat → List β → List β
  | _, [] => []
  | k, b :: rest =>
    match fates k with
    | .carried => b :: landed fates (k + 1) rest
    | .refused _ => landed fates (k + 1) rest
    | .last => [b]

theorem landed_carried (k : Nat) (bs : List β) : landed (fun _ => .carried) k bs = bs := by
  induction bs generalizing k with
  | nil => rfl
  | cons b rest ih => rw [landed, ih]

theorem landed_sublist (fates : Nat → Fate) (k : Nat) (bs : List β) :
    (landed fates k bs).Sublist bs := by
  induction bs generalizing k with
  | nil => exact List.Sublist.slnil
  | cons b rest ih =>
      rw [landed]
      split
      · exact (ih (k + 1)).cons_cons b
      · exact (ih (k + 1)).cons b
      · exact (List.nil_sublist rest).cons_cons b

namespace PersistentQueue

/-- A queue that has stored so many batches more. -/
def grown (q : PersistentQueue) (w : UInt64) (count : Nat) : PersistentQueue :=
  { q with writeIndex := w, size := q.size + count }

theorem put_eq (q : PersistentQueue) (value : Bytes) :
    q.put value = .check (hasNext q.writeIndex) (.batch
      [.set writeKey (encodeIndex (q.writeIndex + 1)), .set (itemKey q.writeIndex) value] fun answer =>
        .done (answer.map fun _ => q.grown (q.writeIndex + 1) 1)) :=
  rfl

theorem run_put_carried {k : Nat} (h : fates k = .carried) (q : PersistentQueue) (value : Bytes)
    (s : Space) :
    (q.put value).run (FatedSpace.client fates) ⟨s, k, false⟩ =
      (.ok (q.grown (q.writeIndex + 1) 1), ⟨afterPut s q.writeIndex value, k + 1, false⟩) := by
  rw [put_eq, Access.run_check, Access.run_batch, FatedSpace.batch_carried h]
  rfl

theorem run_put_refused {k : Nat} {e : StorageError} (h : fates k = .refused e)
    (q : PersistentQueue) (value : Bytes) (s : Space) :
    (q.put value).run (FatedSpace.client fates) ⟨s, k, false⟩ =
      (.error e, ⟨s, k + 1, false⟩) := by
  rw [put_eq, Access.run_check, Access.run_batch, FatedSpace.batch_refused h]
  rfl

theorem run_put_last {k : Nat} (h : fates k = .last) (q : PersistentQueue) (value : Bytes)
    (s : Space) :
    (q.put value).run (FatedSpace.client fates) ⟨s, k, false⟩ =
      (.ok (q.grown (q.writeIndex + 1) 1), ⟨afterPut s q.writeIndex value, k + 1, true⟩) := by
  rw [put_eq, Access.run_check, Access.run_batch, FatedSpace.batch_last h]
  rfl

theorem putAll_cons_none {v : Option Bytes} (h : v.bind codec.unmarshal? = none)
    (q : PersistentQueue) (rest : List (Option Bytes)) :
    putAll codec q (v :: rest) = putAll codec q rest := by
  rw [putAll, h]

theorem putAll_cons_some {v : Option Bytes} {b : β} (h : v.bind codec.unmarshal? = some b)
    (q : PersistentQueue) (rest : List (Option Bytes)) :
    putAll codec q (v :: rest) =
      q.put (codec.marshal b) >>= fun answer => putAll codec (answer.toOption.getD q) rest := by
  rw [putAll, h]

/-- Of the batches to be stored again those are appended whose storing is carried out. -/
theorem putAll_run (codec : Codec β) (fates : Nat → Fate) (values : List (Option Bytes))
    (q : PersistentQueue) (s : Space) (k : Nat)
    (hRoom : q.writeIndex.toNat + (found codec values).length < 2 ^ 64) :
    ∃ w' q' t, (putAll codec q values).run (FatedSpace.client fates) ⟨s, k, false⟩ = (q', t) ∧
      Appended codec s q.writeIndex (landed fates k (found codec values)) t.space w' ∧
      (t.dead = false → q' = q.grown w' (landed fates k (found codec values)).length) := by
  induction values generalizing q s k with
  | nil =>
      exact ⟨q.writeIndex, q, _, rfl, Appended.refl codec s q.writeIndex, fun _ => rfl⟩
  | cons v rest ih =>
      cases hv : v.bind codec.unmarshal? with
      | none =>
          rw [found_cons_none hv] at hRoom ⊢
          rw [putAll_cons_none hv]
          exact ih q s k hRoom
      | some b =>
          rw [found_cons_some hv, List.length_cons] at hRoom
          rw [found_cons_some hv, putAll_cons_some hv, Access.run_bind, landed]
          have hPut : Appended codec s q.writeIndex [b] _ _ := Appended.put (by omega) b
          cases hFate : fates k with
          | carried =>
              rw [run_put_carried hFate]
              have hNext : (q.writeIndex + 1).toNat = q.writeIndex.toNat + 1 :=
                toNat_succ (by omega)
              obtain ⟨w', q', t, hRun, hAppended, hQueue⟩ := ih (q.grown (q.writeIndex + 1) 1)
                (afterPut s q.writeIndex (codec.marshal b)) (k + 1)
                (by rw [grown, hNext]; omega)
              refine ⟨w', q', t, hRun, hPut.trans hAppended, fun hAlive => ?_⟩
              rw [hQueue hAlive, grown, grown, grown, List.length_cons, Nat.add_assoc,
                Nat.add_comm 1]
          | refused e =>
              -- The place that was refused is that of the next batch.
              rw [run_put_refused hFate]
              exact ih q s (k + 1) (by omega)
          | last =>
              rw [run_put_last hFate]
              -- The process is dead, and the program that goes on does nothing.
              have hDead := FatedSpace.run_dead fates
                (putAll codec (q.grown (q.writeIndex + 1) 1) rest)
                (s := ⟨afterPut s q.writeIndex (codec.marshal b), k + 1, true⟩) rfl
              refine ⟨q.writeIndex + 1, _, _, rfl, ?_, fun hAlive => ?_⟩
              · exact congrArg FatedSpace.space hDead ▸ hPut
              · exact absurd ((congrArg FatedSpace.dead hDead).symm.trans hAlive) Bool.noConfusion

/-- A queue that has taken over the stored indices. -/
def loaded (q : PersistentQueue) (r w : UInt64) : PersistentQueue :=
  { q with readIndex := r, writeIndex := w, size := (w - r).toNat }

theorem takeOver_of_records (q : PersistentQueue) (h : Records s r w ds) (hOrdered : r ≤ w) :
    q.takeOver (s.get? readKey) (s.get? writeKey) = (.ok (), q.loaded r w) := by
  rw [takeOver, h.read]
  dsimp only
  rw [h.write]
  dsimp only
  rw [if_neg (UInt64.not_lt.mpr hOrdered)]
  rfl

theorem run_load_carried {k : Nat} (hFate : fates k = .carried) (q : PersistentQueue)
    (h : Records s r w ds) (hOrdered : r ≤ w) :
    q.load.run (FatedSpace.client fates) ⟨s, k, false⟩ =
      ((.ok (), q.loaded r w), ⟨s, k + 1, false⟩) := by
  rw [load, Access.run_bind, Access.run_perform, FatedSpace.batch_carried hFate]
  have hTaken := q.takeOver_of_records h hOrdered
  exact congrArg (fun taken => (taken, (⟨s, k + 1, false⟩ : FatedSpace))) hTaken

/-- Without a list of batches being sent there is nothing to recover. -/
theorem run_recover_nil {k : Nat} (hFate : fates k = .carried) (q : PersistentQueue)
    (h : Records s r w []) :
    (q.recover codec).run (FatedSpace.client fates) ⟨s, k, false⟩ =
      ((.ok (), q), ⟨s, k + 1, false⟩) := by
  have hListed := h.listed
  rw [recover, Access.run_bind, Access.get, Access.run_batch, FatedSpace.batch_carried hFate]
  cases hValue : s.get? dispatchedKey with
  | none => simp [hValue, Except.map]
  | some bytes =>
      rw [hValue] at hListed
      have hDecoded : decodeIndices bytes = .ok [] := hListed
      simp [hValue, Except.map, hDecoded]

/-- What is left to do once the list of the batches being sent was read. -/
def resend (codec : Codec β) (q : PersistentQueue) (ds : List UInt64) :
    Access (Except QueueError Unit × PersistentQueue) := do
  match ← Access.perform
      (.set dispatchedKey (encodeIndices []) :: ds.map fun i => Operation.get (itemKey i)) with
  | .error e => return (.error (.storage e), q)
  | .ok values =>
    let q ← putAll codec q values
    let _ ← Access.perform (ds.map fun i => .delete (itemKey i))
    return (.ok (), q)

theorem run_recover_cons {k : Nat} (hFate : fates k = .carried) (q : PersistentQueue)
    (h : Records s r w ds) (hSome : ds ≠ []) :
    (q.recover codec).run (FatedSpace.client fates) ⟨s, k, false⟩ =
      (q.resend codec ds).run (FatedSpace.client fates) ⟨s, k + 1, false⟩ := by
  have hListed := h.listed
  rw [recover, Access.run_bind, Access.get, Access.run_batch, FatedSpace.batch_carried hFate]
  cases hValue : s.get? dispatchedKey with
  | none =>
      rw [hValue] at hListed
      exact absurd (Except.ok.inj hListed).symm hSome
  | some bytes =>
      rw [hValue] at hListed
      have hDecoded : decodeIndices bytes = .ok ds := hListed
      obtain ⟨i, rest, rfl⟩ := List.exists_cons_of_ne_nil hSome
      simp only [Space.run_get, hValue, Except.map, Access.run_done, List.head?_cons, Option.join_some,
        hDecoded, Space.run_nil]
      rfl

/-- What is left once the list of the batches being sent is empty. -/
def afterClearing (s : Space) : Space := s.insert dispatchedKey (encodeIndices [])

theorem run_clearing (s : Space) (ds : List UInt64) :
    s.run (.set dispatchedKey (encodeIndices []) :: ds.map fun i => Operation.get (itemKey i)) =
      (ds.map fun i => s.get? (itemKey i), afterClearing s) := by
  have hReads := Space.run_gets (afterClearing s) (ds.map itemKey)
  have hSame : (ds.map itemKey).map (afterClearing s).get? = ds.map fun i => s.get? (itemKey i) := by
    rw [List.map_map]
    exact List.map_congr_left fun i _ => get?_insert_dispatchedKey s _ i
  rw [hSame, List.map_map] at hReads
  exact hReads

theorem found_values (codec : Codec β) (s : Space) (ds : List UInt64) :
    found codec (ds.map fun i => s.get? (itemKey i)) = ds.filterMap (batchAt codec s) := by
  rw [found, List.filterMap_map]
  rfl

theorem run_resend_refused {k : Nat} {e : StorageError} (hFate : fates k = .refused e)
    (q : PersistentQueue) (s : Space) (ds : List UInt64) :
    (q.resend codec ds).run (FatedSpace.client fates) ⟨s, k, false⟩ =
      ((.error (.storage e), q), ⟨s, k + 1, false⟩) := by
  rw [resend, Access.run_bind, Access.run_perform, FatedSpace.batch_refused hFate]
  rfl

theorem run_resend_last {k : Nat} (hFate : fates k = .last) (q : PersistentQueue) (s : Space)
    (ds : List UInt64) :
    ((q.resend codec ds).run (FatedSpace.client fates) ⟨s, k, false⟩).2.space = afterClearing s := by
  rw [resend, Access.run_bind, Access.run_perform, FatedSpace.batch_last hFate, run_clearing,
    FatedSpace.run_dead fates _ rfl]

/-- What is left once the old places are freed. -/
def afterFreeing (t : Space) (ds : List UInt64) : Space :=
  (t.run (ds.map fun i => .delete (itemKey i))).2

theorem get?_afterFreeing_of_ne (t : Space) {ds : List UInt64} {key : String}
    (hNot : ∀ i ∈ ds, key ≠ itemKey i) : (afterFreeing t ds).get? key = t.get? key := by
  have hDeleted := Space.get?_run_deletes t (ds.map itemKey) key
  have hAbsent : key ∉ ds.map itemKey := by
    intro hMem
    obtain ⟨i, hi, rfl⟩ := List.mem_map.mp hMem
    exact hNot i hi rfl
  rw [if_neg hAbsent, List.map_map] at hDeleted
  exact hDeleted

theorem get?_afterFreeing (t : Space) (ds : List UInt64) (i : UInt64) :
    (afterFreeing t ds).get? (itemKey i) = if i ∈ ds then none else t.get? (itemKey i) := by
  have hDeleted := Space.get?_run_deletes t (ds.map itemKey) (itemKey i)
  rw [List.map_map] at hDeleted
  rw [afterFreeing]
  refine hDeleted.trans ?_
  simp only [List.mem_map, itemKey_inj, exists_eq_right]

/-- The batches that were read are stored again as far as their fates permit. The old places are
freed, or they stay. -/
theorem run_resend_carried {k : Nat} (hFate : fates k = .carried) (q : PersistentQueue) (s : Space)
    (ds : List UInt64) (hRoom : q.writeIndex.toNat + ds.length < 2 ^ 64) :
    ∃ w' t, Appended codec (afterClearing s) q.writeIndex
        (landed fates (k + 1) (ds.filterMap (batchAt codec s))) t w' ∧
      (((q.resend codec ds).run (FatedSpace.client fates) ⟨s, k, false⟩).2.space = t ∨
        ((q.resend codec ds).run (FatedSpace.client fates) ⟨s, k, false⟩).2.space =
          afterFreeing t ds) := by
  have hFew : (ds.filterMap (batchAt codec s)).length ≤ ds.length := List.length_filterMap_le _ _
  obtain ⟨w', q', t, hRun, hAppended, -⟩ := putAll_run codec fates
    (ds.map fun i => s.get? (itemKey i)) q (afterClearing s) (k + 1)
    (by rw [found_values]; omega)
  rw [found_values] at hAppended
  refine ⟨w', t.space, hAppended, ?_⟩
  rw [resend, Access.run_bind, Access.run_perform, FatedSpace.batch_carried hFate, run_clearing]
  simp only [Except.map, Access.run_bind, hRun]
  exact FatedSpace.batch_space fates _ t

/-- A queue that has its client. -/
def opened (q : PersistentQueue) (number : Nat) : PersistentQueue :=
  { q with client := some number, references := 1 }

/-- Where the first batch is not simply carried out nothing changes. -/
theorem run_start_not_carried (hFate : fates 0 ≠ .carried) (codec : Codec β) (number : Nat)
    (q : PersistentQueue) (s : Space) :
    ((q.start codec number).run (FatedSpace.client fates) ⟨s, 0, false⟩).2.space = s := by
  rw [start, Access.run_bind, load, Access.run_bind, Access.run_perform]
  cases h : fates 0 with
  | carried => exact absurd h hFate
  | refused e =>
      rw [FatedSpace.batch_refused h]
      rfl
  | last =>
      rw [FatedSpace.batch_last h]
      dsimp only
      rw [FatedSpace.run_dead fates, FatedSpace.run_dead fates] <;> rfl

theorem run_start_carried (hFate : fates 0 = .carried) (codec : Codec β) (number : Nat)
    (q : PersistentQueue) (h : Records s r w ds) (hOrdered : r ≤ w) :
    ((q.start codec number).run (FatedSpace.client fates) ⟨s, 0, false⟩).2 =
      ((((q.opened number).loaded r w).recover codec).run (FatedSpace.client fates)
        ⟨s, 1, false⟩).2 := by
  rw [start, Access.run_bind, run_load_carried hFate _ h hOrdered]
  dsimp only
  rw [Access.run_bind]
  split <;> rfl

theorem run_recover_not_carried {k : Nat} (hFate : fates k ≠ .carried) (codec : Codec β)
    (q : PersistentQueue) (s : Space) :
    ((q.recover codec).run (FatedSpace.client fates) ⟨s, k, false⟩).2.space = s := by
  rw [recover, Access.run_bind, Access.get, Access.run_batch]
  cases h : fates k with
  | carried => exact absurd h hFate
  | refused e =>
      rw [FatedSpace.batch_refused h]
      rfl
  | last =>
      rw [FatedSpace.batch_last h, Access.run_done, FatedSpace.run_dead fates _ rfl]
      rfl

end PersistentQueue

/-- Whether a start comes to empty a list of batches being sent: its first two batches of operations,
which read, are carried out, and so is the third. -/
def Clears (fates : Nat → Fate) (ds : List UInt64) : Prop :=
  ds ≠ [] ∧ fates 0 = .carried ∧ fates 1 = .carried ∧ (fates 2).carries = true

instance (fates : Nat → Fate) (ds : List UInt64) : Decidable (Clears fates ds) :=
  inferInstanceAs (Decidable (_ ∧ _))

/-- Those of the listed batches that a start which empties the list stores again. -/
def resent (fates : Nat → Fate) (bs : List β) : List β :=
  if fates 2 = .last then [] else landed fates 3 bs

theorem resent_sublist (fates : Nat → Fate) (bs : List β) : (resent fates bs).Sublist bs := by
  rw [resent]
  split
  · exact List.nil_sublist bs
  · exact landed_sublist fates 3 bs

/-- The namespace after the start of a queue whose batches of operations meet the fates given. -/
def afterStart (codec : Codec β) (fates : Nat → Fate) (capacity number : Nat) (s : Space) : Space :=
  (((PersistentQueue.empty capacity).start codec number).run (FatedSpace.client fates)
    ⟨s, 0, false⟩).2.space

/-- A start that does not come to empty the list changes nothing. -/
theorem afterStart_of_not_clears (h : Records s r w ds) (hOrdered : r ≤ w) (capacity number : Nat)
    (hKeeps : ¬Clears fates ds) : afterStart codec fates capacity number s = s := by
  rw [afterStart]
  by_cases hFirst : fates 0 = .carried
  case neg => exact PersistentQueue.run_start_not_carried hFirst codec number _ s
  rw [PersistentQueue.run_start_carried hFirst codec number _ h hOrdered]
  by_cases hSecond : fates 1 = .carried
  case neg => exact PersistentQueue.run_recover_not_carried hSecond codec _ s
  by_cases hSome : ds = []
  · subst hSome
    rw [PersistentQueue.run_recover_nil hSecond _ h]
  · rw [PersistentQueue.run_recover_cons hSecond _ h hSome]
    cases hThird : fates 2 with
    | refused e => rw [PersistentQueue.run_resend_refused hThird]
    | carried | last => exact absurd ⟨hSome, hFirst, hSecond, by rw [hThird]; rfl⟩ hKeeps

/-- A start that empties the list leaves what waited, and appends those it stores again. -/
theorem afterStart_of_clears (codec : Codec β) (h : Records s r w ds) (hOrdered : r ≤ w)
    (hRoom : w.toNat + ds.length < 2 ^ 64) (capacity number : Nat) (hClears : Clears fates ds) :
    ∃ w' t, Appended codec (PersistentQueue.afterClearing s) w
        (resent fates (ds.filterMap (batchAt codec s))) t w' ∧
      (afterStart codec fates capacity number s = t ∨
        afterStart codec fates capacity number s = PersistentQueue.afterFreeing t ds) := by
  obtain ⟨hSome, hFirst, hSecond, hThird⟩ := hClears
  rw [afterStart, PersistentQueue.run_start_carried hFirst codec number _ h hOrdered,
    PersistentQueue.run_recover_cons hSecond _ h hSome, resent]
  cases hFate : fates 2 with
  | refused e =>
      rw [hFate] at hThird
      exact absurd hThird Bool.noConfusion
  | carried =>
      rw [if_neg Fate.noConfusion]
      exact PersistentQueue.run_resend_carried hFate
        (((PersistentQueue.empty capacity).opened number).loaded r w) s ds hRoom
  | last =>
      rw [if_pos rfl]
      exact ⟨w, _, Appended.refl codec _ w,
        .inl (PersistentQueue.run_resend_last hFate _ s ds)⟩

theorem Records.afterFreeing (h : Records s r w ds) (indices : List UInt64) :
    Records (PersistentQueue.afterFreeing s indices) r w ds :=
  h.of_get?_eq fun _ hKey => PersistentQueue.get?_afterFreeing_of_ne s fun i _ => hKey i

/-- Once nothing is listed as being sent, nothing below the read index is kept. -/
theorem kept_afterFreeing (s : Space) {indices : List UInt64} (hBelow : ∀ i ∈ indices, i < r) :
    kept codec (PersistentQueue.afterFreeing s indices) r w [] = kept codec s r w [] := by
  apply batches_congr
  intro i hMem
  have hNot : i ∉ indices := fun hIn =>
    absurd (mem_window.mp hMem).1 (UInt64.not_le.mpr (hBelow i hIn))
  rw [PersistentQueue.get?_afterFreeing, if_neg hNot]

/-- What is kept after a start, whatever the fates. -/
theorem kept_afterStart (h : Records s r w ds) (hOrdered : r ≤ w) (hBelow : ∀ i ∈ ds, i < r)
    (hCodec : ∀ b ∈ ds.filterMap (batchAt codec s), codec.unmarshal? (codec.marshal b) = some b)
    (hRoom : w.toNat + ds.length < 2 ^ 64) (fates : Nat → Fate) (capacity number : Nat) :
    ∃ w' ds', Records (afterStart codec fates capacity number s) r w' ds' ∧
      kept codec (afterStart codec fates capacity number s) r w' ds' =
        batches codec s (window r w) + if Clears fates ds
          then (resent fates (ds.filterMap (batchAt codec s)) : Multiset β)
          else batches codec s ds := by
  by_cases hClears : Clears fates ds
  case neg =>
    rw [afterStart_of_not_clears h hOrdered capacity number hClears, if_neg hClears]
    exact ⟨w, ds, h, (kept_eq_add s r w ds).trans (add_comm _ _)⟩
  obtain ⟨w', t, hAppended, hFreed⟩ :=
    afterStart_of_clears codec h hOrdered hRoom capacity number hClears
  have hCleared : Records (PersistentQueue.afterClearing s) r w [] :=
    h.insert_dispatchedKey (by decide)
  have hSublist := resent_sublist fates (ds.filterMap (batchAt codec s))
  have hNone : ∀ i ∈ ([] : List UInt64), i < r := by simp
  have hKept := hAppended.kept_eq hOrdered hNone fun b hb => hCodec b (hSublist.subset hb)
  have hWaiting : kept codec (PersistentQueue.afterClearing s) r w [] =
      batches codec s (window r w) := kept_congr fun i => get?_insert_dispatchedKey s _ i
  rw [hWaiting] at hKept
  refine ⟨w', [], ?_⟩
  rw [if_pos hClears]
  rcases hFreed with hFreed | hFreed <;> rw [hFreed]
  · exact ⟨hAppended.records hCleared, hKept⟩
  · exact ⟨(hAppended.records hCleared).afterFreeing ds, (kept_afterFreeing t hBelow).trans hKept⟩

/-- All of some batches are stored if each storing is carried out, and the process survives all of
them but the last. -/
theorem landed_eq_self_iff (fates : Nat → Fate) (k : Nat) (bs : List β) :
    landed fates k bs = bs ↔ ∀ j < bs.length,
      (fates (k + j)).carries = true ∧ (j + 1 < bs.length → fates (k + j) = .carried) := by
  induction bs generalizing k with
  | nil => simp [landed]
  | cons b rest ih =>
      have hShift : ∀ j, k + 1 + j = k + (j + 1) := fun j => by omega
      rw [landed]
      cases hFate : fates k with
      | carried =>
          simp only [List.cons.injEq, true_and, ih, List.length_cons, hShift]
          constructor
          · intro hRest j hj
            cases j with
            | zero => simp [hFate, Fate.carries]
            | succ j =>
                obtain ⟨hCarries, hNext⟩ := hRest j (by omega)
                exact ⟨hCarries, fun hLater => hNext (by omega)⟩
          · intro hAll j hj
            obtain ⟨hCarries, hNext⟩ := hAll (j + 1) (by omega)
            exact ⟨hCarries, fun hLater => hNext (by omega)⟩
      | refused e =>
          constructor
          · intro hEq
            replace hEq : landed fates (k + 1) rest = b :: rest := hEq
            have hLength := (landed_sublist fates (k + 1) rest).length_le
            rw [hEq, List.length_cons] at hLength
            omega
          · intro hAll
            have hFirst := (hAll 0 (by simp)).1
            rw [Nat.add_zero, hFate] at hFirst
            exact absurd hFirst Bool.noConfusion
      | last =>
          simp only [List.cons.injEq, true_and]
          constructor
          · rintro rfl j hj
            have hZero : j = 0 := by simpa using hj
            subst hZero
            simp [hFate, Fate.carries]
          · intro hAll
            cases rest with
            | nil => rfl
            | cons c rest =>
                have hFirst := (hAll 0 (by simp)).2 (by simp)
                rw [Nat.add_zero, hFate] at hFirst
                exact absurd hFirst Fate.noConfusion

/-- The condition under which a start that empties a list of so many batches stores all of them
again: emptying the list is not the end of the process, no storing is refused, and the process
survives all of them but the last. -/
def Resends (fates : Nat → Fate) (count : Nat) : Prop :=
  fates 2 = .carried ∧ ∀ j < count,
    (fates (3 + j)).carries = true ∧ (j + 1 < count → fates (3 + j) = .carried)

/-- A list that was emptied is stored again without loss under that condition only. -/
theorem le_resent_iff {bs : List β} (hSome : bs ≠ []) (hThird : (fates 2).carries = true) :
    (bs : Multiset β) ≤ resent fates bs ↔ Resends fates bs.length := by
  have hSame : (bs : Multiset β) ≤ resent fates bs ↔ resent fates bs = bs := by
    constructor
    · intro hLe
      exact (resent_sublist fates bs).eq_of_length_le (Multiset.coe_le.mp hLe).length_le
    · intro hEq
      rw [hEq]
  rw [hSame, Resends, ← landed_eq_self_iff, resent]
  cases hFate : fates 2 with
  | refused e =>
      rw [hFate] at hThird
      exact absurd hThird Bool.noConfusion
  | carried => simp
  | last => simp [hSome.symm]

/-- Whatever becomes of the batches of operations of a start, the batches that waited are still kept
after it. Those listed as being sent are all kept just if the start does not come to empty the list, or
stores every one of them again; otherwise those are kept that it stores. -/
theorem listed_batches_survive_start_iff (h : Records s r w ds) (hOrdered : r ≤ w)
    (hBelow : ∀ i ∈ ds, i < r) (hListed : ∀ i ∈ ds, (batchAt codec s i).isSome = true)
    (hCodec : ∀ b ∈ ds.filterMap (batchAt codec s), codec.unmarshal? (codec.marshal b) = some b)
    (hRoom : w.toNat + ds.length < 2 ^ 64) (fates : Nat → Fate) (capacity number : Nat) :
    ∃ w' ds', Records (afterStart codec fates capacity number s) r w' ds' ∧
      kept codec (afterStart codec fates capacity number s) r w' ds' =
        (batches codec s (window r w) + if Clears fates ds
          then (resent fates (ds.filterMap (batchAt codec s)) : Multiset β)
          else batches codec s ds) ∧
      (batches codec s ds + batches codec s (window r w) ≤
          kept codec (afterStart codec fates capacity number s) r w' ds' ↔
        (Clears fates ds → Resends fates ds.length)) := by
  obtain ⟨w', ds', hRecords, hKept⟩ :=
    kept_afterStart h hOrdered hBelow hCodec hRoom fates capacity number
  have hLength : (ds.filterMap (batchAt codec s)).length = ds.length :=
    List.filterMap_length_eq_length.mpr hListed
  refine ⟨w', ds', hRecords, hKept, ?_⟩
  rw [hKept, add_comm (batches codec s ds), add_le_add_iff_left]
  by_cases hClears : Clears fates ds
  · have hSome : ds.filterMap (batchAt codec s) ≠ [] := by
      rw [← List.length_pos_iff, hLength]
      exact List.length_pos_iff.mpr hClears.1
    rw [if_pos hClears, batches, le_resent_iff hSome hClears.2.2.2, hLength]
    exact ⟨fun hAll _ => hAll, fun hAll => hAll hClears⟩
  · rw [if_neg hClears]
    exact ⟨fun _ hIn => absurd hIn hClears, fun _ => le_refl _⟩

/-! ## Two batches that were being sent -/

/-- Batches that are their own bytes. -/
def Codec.plain : Codec Bytes := ⟨id, some⟩

/-- Two batches are listed as being sent, and a third one waits. -/
def twoListed : Space :=
  [("0", [10]), ("1", [11]), ("2", [12]), (dispatchedKey, encodeIndices [0, 1]),
    (readKey, encodeIndex 2), (writeKey, encodeIndex 3)]

theorem records_twoListed : Records twoListed 2 3 [0, 1] := ⟨rfl, rfl, rfl⟩

/-- The first batch is refused when it is stored again. -/
def refusedOnce : Nat → Fate := fun k => if k = 3 then .refused .closed else .carried

theorem forall_mem_twoListed {P : UInt64 → Prop} (hFirst : P 0) (hSecond : P 1) :
    ∀ i ∈ ([0, 1] : List UInt64), P i :=
  List.forall_mem_cons.mpr ⟨hFirst, List.forall_mem_singleton.mpr hSecond⟩

theorem forall_mem_twoListed_window {P : UInt64 → Prop} (h : P 2) : ∀ i ∈ window 2 3, P i :=
  List.forall_mem_singleton.mpr h

/-- One of two batches is refused its place, and only the other one is kept. -/
theorem listed_batches_survive_start_refused :
    ((∀ i ∈ [0, 1], (i : UInt64) < 2) ∧
      (∀ i ∈ [0, 1], (batchAt Codec.plain twoListed i).isSome = true) ∧
      resent refusedOnce ([0, 1].filterMap (batchAt Codec.plain twoListed)) = [[11]]) ∧
    ∃ w' ds', Records (afterStart Codec.plain refusedOnce 5 0 twoListed) 2 w' ds' ∧
      kept Codec.plain (afterStart Codec.plain refusedOnce 5 0 twoListed) 2 w' ds' =
        (batches Codec.plain twoListed (window 2 3) + if Clears refusedOnce [0, 1]
          then (resent refusedOnce ([0, 1].filterMap (batchAt Codec.plain twoListed)) :
            Multiset Bytes)
          else batches Codec.plain twoListed [0, 1]) ∧
      (batches Codec.plain twoListed [0, 1] + batches Codec.plain twoListed (window 2 3) ≤
          kept Codec.plain (afterStart Codec.plain refusedOnce 5 0 twoListed) 2 w' ds' ↔
        (Clears refusedOnce [0, 1] → Resends refusedOnce [0, 1].length)) :=
  ⟨⟨forall_mem_twoListed (by decide) (by decide), forall_mem_twoListed rfl rfl, rfl⟩,
    listed_batches_survive_start_iff records_twoListed (by decide)
      (forall_mem_twoListed (by decide) (by decide))
      (forall_mem_twoListed rfl rfl) (fun _ _ => rfl) (by decide) refusedOnce 5 0⟩

/-- The process dies once the list is empty. -/
def dyingAfterClearing : Nat → Fate := fun k => if k = 2 then .last else .carried

/-- Records determine the indices they are read as. -/
theorem Records.unique {r' w' : UInt64} {ds' : List UInt64} (h : Records s r w ds)
    (h' : Records s r' w' ds') : r' = r ∧ w' = w ∧ ds' = ds :=
  ⟨Except.ok.inj (h'.read.symm.trans h.read), Except.ok.inj (h'.write.symm.trans h.write),
    Except.ok.inj (h'.listed.symm.trans h.listed)⟩

/-- Neither of the two batches is kept then, though each was listed and had its value. -/
theorem start_loses_listed_batches :
    (∀ i ∈ [0, 1], (i : UInt64) < 2 ∧ (batchAt Codec.plain twoListed i).isSome = true) ∧
    (∀ i ∈ window 2 3, (twoListed.get? (itemKey i)).isSome = true) ∧
    ∀ r w ds, Records (afterStart Codec.plain dyingAfterClearing 5 0 twoListed) r w ds →
      ∀ b ∈ batches Codec.plain twoListed [0, 1],
        b ∉ kept Codec.plain (afterStart Codec.plain dyingAfterClearing 5 0 twoListed) r w ds := by
  refine ⟨forall_mem_twoListed ⟨by decide, rfl⟩ ⟨by decide, rfl⟩, forall_mem_twoListed_window rfl,
    fun r w ds h => ?_⟩
  have hCleared : Records (afterStart Codec.plain dyingAfterClearing 5 0 twoListed) 2 3 [] :=
    ⟨rfl, rfl, rfl⟩
  obtain ⟨rfl, rfl, rfl⟩ := hCleared.unique h
  decide

end Telemetry.Queue

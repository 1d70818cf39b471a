import Telemetry.Proofs.Queue.Tidiness

/-!
# What queues leave

Where storage carries out batches of operations as a whole, whatever queues leave to the next one fits
together: every index in use has its batch. This holds of a process that dies in the middle of a start,
too, which may leave values that no index in use has.
-/

namespace Telemetry.Queue

open Storage (Access Fate FatedSpace Space)
open Text (Bytes)

variable {β : Type} {codec : Codec β} {admits : β → Prop} {s t : Space} {r wi wi' : UInt64}
  {ds : List UInt64} {q : PersistentQueue} {trace : List (Event β)} {w w' : World β Space}
  {e : Event β}

/-- Every index in use has a batch. -/
def Full (codec : Codec β) (s : Space) (r wi : UInt64) (ds : List UInt64) : Prop :=
  ∀ i ∈ window r wi ++ ds, (batchAt codec s i).isSome = true

/-- A namespace in which every index in use has a batch, whatever its records are read as. -/
def IsFull (codec : Codec β) (s : Space) : Prop := ∀ r wi ds, Records s r wi ds → Full codec s r wi ds

namespace Full

theorem isFull (h : Full codec s r wi ds) (hRecords : Records s r wi ds) : IsFull codec s := by
  intro r' wi' ds' hSame
  obtain ⟨rfl, rfl, rfl⟩ := hRecords.unique hSame
  exact h

theorem empty (codec : Codec β) : Full codec [] 0 0 [] := by
  intro i hMem
  rw [window_self] at hMem
  exact absurd hMem List.not_mem_nil

/-- Fewer indices with the same values have batches, too. -/
theorem congr {r' wi' : UInt64} {ds' : List UInt64} (h : Full codec s r wi ds)
    (hLess : ∀ i ∈ window r' wi' ++ ds', i ∈ window r wi ++ ds)
    (hSame : ∀ i ∈ window r' wi' ++ ds', t.get? (itemKey i) = s.get? (itemKey i)) :
    Full codec t r' wi' ds' := by
  intro i hMem
  rw [batchAt_congr (hSame i hMem)]
  exact h i (hLess i hMem)

theorem afterPut (h : Full codec s r wi ds) (hOrdered : r ≤ wi) (hRoom : wi.toNat + 1 < 2 ^ 64)
    {value : Bytes} (hRead : (codec.unmarshal? value).isSome = true) :
    Full codec (afterPut s wi value) r (wi + 1) ds := by
  intro i hMem
  rw [batchAt, get?_afterPut]
  split
  · rwa [Option.bind_some]
  · next hNe =>
      refine h i ?_
      rw [window_append_last hOrdered hRoom, List.append_assoc, List.singleton_append] at hMem
      rcases List.mem_append.mp hMem with hOld | hRest
      · exact List.mem_append_left _ hOld
      · exact List.mem_append_right _ ((List.mem_cons.mp hRest).resolve_left hNe)

theorem afterClaim (h : Full codec s r wi ds) (hSome : r < wi) :
    Full codec (afterClaim s r ds) (r + 1) wi (ds ++ [r]) := by
  refine h.congr (fun i hMem => ?_) fun i _ => get?_afterClaim s r ds i
  rw [window_eq_cons hSome, List.cons_append, List.mem_cons, List.mem_append]
  rw [List.mem_append, List.mem_append, List.mem_singleton] at hMem
  rcases hMem with hWaiting | hListed | hFirst
  · exact .inr (.inl hWaiting)
  · exact .inr (.inr hListed)
  · exact .inl hFirst

theorem afterRemoval (h : Full codec s r wi ds) {i : UInt64} (hBelow : i < r) :
    Full codec (afterRemoval s ds i) r wi (ds.filter (· != i)) := by
  refine h.congr (fun j hMem => ?_) fun j hMem => ?_
  · rcases List.mem_append.mp hMem with hWaiting | hListed
    · exact List.mem_append_left _ hWaiting
    · exact List.mem_append_right _ (List.mem_of_mem_filter hListed)
  · have hNe : j ≠ i := by
      rcases List.mem_append.mp hMem with hWaiting | hListed
      · rintro rfl
        exact absurd (mem_window.mp hWaiting).1 (UInt64.not_le.mpr hBelow)
      · exact bne_iff_ne.mp (List.mem_filter.mp hListed).2
    rw [get?_afterRemoval, if_neg hNe]

end Full

section Books

variable {ins outs gone : Multiset β} (h : Books codec admits s r wi ds ins outs gone)
  (hFull : IsFull codec s)
include h hFull

theorem Books.isFull_put (hCodec : ∀ b, admits b → codec.unmarshal? (codec.marshal b) = some b)
    (hWords : wi.toNat + ds.length + 1 < 2 ^ 64) {b : β} (hAdmitted : admits b) :
    IsFull codec (afterPut s wi (codec.marshal b)) :=
  ((hFull _ _ _ h.toRecords).afterPut h.ordered (by omega) (by rw [hCodec b hAdmitted]; rfl)).isFull
    (h.toRecords.afterPut _)

theorem Books.isFull_claim (hWaiting : r ≠ wi) (hCount : ds.length + 1 < 2 ^ 32) :
    IsFull codec (afterClaim s r ds) :=
  ((hFull _ _ _ h.toRecords).afterClaim (h.lt_of_ne hWaiting)).isFull
    (h.toLayout.afterClaim (h.lt_of_ne hWaiting) hCount).toRecords

theorem Books.isFull_removal {i : UInt64} (hMem : i ∈ ds) : IsFull codec (afterRemoval s ds i) :=
  ((hFull _ _ _ h.toRecords).afterRemoval (h.below i hMem)).isFull
    (h.toLayout.afterRemoval h.count i).toRecords

end Books

/-- What a queue finds that starts: records that fit together and into their words, and under every
index in use a batch that may be stored again. -/
structure Intact (codec : Codec β) (admits : β → Prop) (s : Space) (r wi : UInt64)
    (ds : List UInt64) : Prop extends Layout s r wi ds where
  genuine : Genuine codec admits s
  full : Full codec s r wi ds
  words : wi.toNat + ds.length < 2 ^ 64
  count : ds.length < 2 ^ 32

namespace Intact

theorem empty (codec : Codec β) (admits : β → Prop) : Intact codec admits [] 0 0 [] where
  toLayout := (Books.empty codec admits).toLayout
  genuine := (Books.empty codec admits).genuine
  full := .empty codec
  words := by decide
  count := by decide

theorem of_books {ins outs gone : Multiset β} (h : Books codec admits s r wi ds ins outs gone)
    (hFull : IsFull codec s) : Intact codec admits s r wi ds where
  toLayout := h.toLayout
  genuine := h.genuine
  full := hFull r wi ds h.toRecords
  words := h.words
  count := h.count

theorem isFull (h : Intact codec admits s r wi ds) : IsFull codec s := h.full.isFull h.toRecords

theorem stored_accepted (bs : List β) : stored (bs.map Event.accepted) = bs := by
  induction bs with
  | nil => rfl
  | cons b rest ih =>
      rw [List.map_cons, stored_cons, ih]
      rfl

theorem settled_accepted (bs : List β) : settled (bs.map Event.accepted) = 0 := by
  induction bs with
  | nil => rfl
  | cons b rest ih =>
      rw [List.map_cons, settled_cons, ih]
      rfl

theorem lost_accepted (bs : List β) : lost (bs.map Event.accepted) = 0 := by
  induction bs with
  | nil => rfl
  | cons b rest ih =>
      rw [List.map_cons, lost_cons, ih]
      rfl

/-- The books can be opened with what is there, as if all of it had just been accepted. -/
theorem books (h : Intact codec admits s r wi ds) : ∃ earlier : List (Event β),
    Books codec admits s r wi ds (stored earlier) (settled earlier) (lost earlier) := by
  refine ⟨((ds ++ window r wi).filterMap (batchAt codec s)).map Event.accepted,
    h.toLayout, h.genuine, ?_, h.words, h.count⟩
  rw [stored_accepted, settled_accepted, lost_accepted, add_zero, add_zero]
  rfl

end Intact

/-! ## Runs -/

theorem Step.admits_of_diedOffering {σ : Type} {setup : Setup β σ} {w w' : World β σ} {b : β}
    {count : Nat} (h : Step setup w (.diedOffering b count) w') : setup.admits b := by
  cases h with
  | dieOffering _ hAdmitted _ _ => exact hAdmitted

section Steps

variable (hCodec : ∀ b, admits b → codec.unmarshal? (codec.marshal b) = some b)
  (h : Balanced codec admits trace w) (hFull : IsFull codec w.storage)
include h hFull

/-- No index that waits is passed over. -/
theorem Balanced.batchAt_ne_none_of_isFull (hRunning : w.running = some q)
    (hWaiting : q.readIndex ≠ q.writeIndex) : batchAt codec w.storage q.readIndex ≠ none := by
  have hBooks := (h.served q hRunning).books
  have hMem : q.readIndex ∈ window q.readIndex q.writeIndex :=
    mem_window.mpr ⟨UInt64.le_refl _, hBooks.lt_of_ne hWaiting⟩
  have hSome := hFull _ _ _ hBooks.toRecords _ (List.mem_append_left _ hMem)
  intro hNone
  rw [hNone] at hSome
  exact absurd hSome Bool.noConfusion

include hCodec

theorem Balanced.isFull_start (hLayout : Layout w.storage r wi ds)
    (hRecovered : Recovered codec w.storage r wi ds t wi') : IsFull codec t := by
  obtain ⟨r', wi₀, ds', hBooks⟩ := h.books
  obtain ⟨rfl, rfl, rfl⟩ := hLayout.toRecords.unique hBooks.toRecords
  refine Full.isFull (fun i hMem => ?_) hRecovered.records
  rw [List.append_nil, ← window_append hLayout.ordered hRecovered.le] at hMem
  rcases List.mem_append.mp hMem with hOld | hNew
  · rw [batchAt_congr (hRecovered.get?_of_waiting hLayout.below hOld)]
    exact hFull _ _ _ hLayout.toRecords i (List.mem_append_left _ hOld)
  · obtain ⟨j, -, b, hBatch, hValue⟩ := hRecovered.exists_of_new hNew
    rw [batchAt, hValue, Option.bind_some, hCodec b (hBooks.round_trip hCodec hBatch).1]
    rfl

theorem Balanced.step_isFull (hWords : w.FitsWords)
    (hStep : Step (Setup.ofSpace codec admits false) w e w') : IsFull codec w'.storage := by
  have hFound := fun q => h.batchAt_ne_none_of_isFull hFull (q := q)
  cases h.effect hStep with
  | start hNew number hLayout hRecovered => exact h.isFull_start hCodec hFull hLayout hRecovered
  | @put q _ hRunning hAdmitted =>
      exact (h.served q hRunning).books.isFull_put hFull hCodec (hWords q hRunning).1 hAdmitted
  | @claim q _ hRunning _ _ hWaiting =>
      exact (h.served q hRunning).books.isFull_claim hFull hWaiting (hWords q hRunning).2
  | pass hRunning hCalled hWaiting hBatch => exact absurd hBatch (hFound _ hRunning hWaiting)
  | @settle q before after i b outcome hRunning hCarried hMem =>
      have hServed := h.served q hRunning
      have hIn := List.mem_append_left (interrupted trace) hMem
      exact hServed.books.isFull_removal hFull (hServed.team.mem_dispatched hIn)
  | death hDeath hStep =>
      cases h.remains hFound hDeath hStep with
      | same => exact hFull
      | @put q b _ hRunning =>
          exact (h.served q hRunning).books.isFull_put hFull hCodec (hWords q hRunning).1
            hStep.admits_of_diedOffering
      | @claim q _ _ hRunning hWaiting =>
          exact (h.served q hRunning).books.isFull_claim hFull hWaiting (hWords q hRunning).2
      | @removal q i b _ _ hRunning hMem =>
          have hServed := h.served q hRunning
          have hIn := List.mem_append_left (interrupted trace) hMem
          exact hServed.books.isFull_removal hFull (hServed.team.mem_dispatched hIn)
  | refuse | wake | call | miss | keep | retire | stop | dismiss | detach | rest => exact hFull

end Steps

theorem Balanced.run_isFull {origin : World β Space} {earlier : List (Event β)}
    (hCodec : ∀ b, admits b → codec.unmarshal? (codec.marshal b) = some b)
    (h : Balanced codec admits earlier origin) (hFull : IsFull codec origin.storage)
    (hRuns : Runs (Setup.ofSpace codec admits false) World.FitsWords origin trace w) :
    IsFull codec w.storage := by
  induction hRuns with
  | refl => exact hFull
  | step prior hWords last ih => exact (h.run hCodec prior).step_isFull hCodec ih hWords last

/-! ## Starts -/

namespace Intact

/-- A start that was cut off after the list was emptied leaves what had been listed out. -/
theorem afterClearing (h : Intact codec admits s r wi ds) :
    Intact codec admits (PersistentQueue.afterClearing s) r wi [] where
  toRecords := h.toRecords.insert_dispatchedKey (by decide)
  ordered := h.ordered
  below := fun _ hMem => absurd hMem List.not_mem_nil
  nodup := List.nodup_nil
  fresh := by
    intro i hi
    rw [PersistentQueue.afterClearing, get?_insert_dispatchedKey]
    exact h.fresh i hi
  genuine := h.genuine.mono fun i => .inr (get?_insert_dispatchedKey s _ i)
  full := by
    refine h.full.congr (fun i hMem => ?_) fun i _ => get?_insert_dispatchedKey s _ i
    rw [List.append_nil] at hMem
    exact List.mem_append_left _ hMem
  words := by
    have hWords := h.words
    rw [List.length_nil]
    omega
  count := by decide

/-- Batches that are stored again wait behind the others. -/
theorem appended (hCodec : ∀ b, admits b → codec.unmarshal? (codec.marshal b) = some b)
    (h : Intact codec admits s r wi []) {bs : List β} (hAppended : Appended codec s wi bs t wi')
    (hAdmitted : ∀ b ∈ bs, admits b) : Intact codec admits t r wi' [] where
  toLayout := hAppended.layout h.toLayout
  genuine := by
    intro i v hValue
    by_cases hNew : i ∈ window wi wi'
    · have hIn := List.mem_map_of_mem (f := fun i => t.get? (itemKey i)) hNew
      rw [hAppended.items] at hIn
      obtain ⟨b, hb, hStored⟩ := List.mem_map.mp hIn
      exact ⟨b, hAdmitted b hb, Option.some.inj (hValue.symm.trans hStored.symm)⟩
    · rw [hAppended.get?_of_not_mem hNew] at hValue
      exact h.genuine i v hValue
  full := by
    intro i hMem
    rw [List.append_nil, ← window_append h.ordered hAppended.le] at hMem
    by_cases hNew : i ∈ window wi wi'
    · have hIn := List.mem_map_of_mem (f := fun i => t.get? (itemKey i)) hNew
      rw [hAppended.items] at hIn
      obtain ⟨b, hb, hStored⟩ := List.mem_map.mp hIn
      rw [batchAt, ← hStored, Option.bind_some, hCodec b (hAdmitted b hb)]
      rfl
    · rw [batchAt_congr (hAppended.get?_of_not_mem hNew)]
      exact h.full i (List.mem_append_left _ ((List.mem_append.mp hMem).resolve_right hNew))
  words := by
    rw [List.length_nil, Nat.add_zero]
    exact wi'.toNat_lt
  count := by decide

/-- Values below the read index that are not listed may go. -/
theorem afterFreeing (h : Intact codec admits s r wi []) (hBelow : ∀ i ∈ ds, i < r) :
    Intact codec admits (PersistentQueue.afterFreeing s ds) r wi [] where
  toRecords := h.toRecords.afterFreeing ds
  ordered := h.ordered
  below := h.below
  nodup := h.nodup
  fresh := by
    intro i hi
    rw [PersistentQueue.get?_afterFreeing, h.fresh i hi, ite_self]
  genuine := by
    refine h.genuine.mono fun i => ?_
    rw [PersistentQueue.get?_afterFreeing]
    split
    · exact .inl rfl
    · exact .inr rfl
  full := by
    refine h.full.congr (fun _ hMem => hMem) fun i hMem => ?_
    rw [List.append_nil] at hMem
    have hNot : i ∉ ds := fun hIn =>
      absurd (mem_window.mp hMem).1 (UInt64.not_le.mpr (hBelow i hIn))
    rw [PersistentQueue.get?_afterFreeing, if_neg hNot]
  words := h.words
  count := h.count

/-- However far a start gets, and whichever of its batches of operations are refused, what it leaves is
intact. -/
theorem start (hCodec : ∀ b, admits b → codec.unmarshal? (codec.marshal b) = some b)
    (h : Intact codec admits s r wi ds) (fates : Nat → Fate) (q : PersistentQueue) (number : Nat) :
    ∃ r' wi' ds', Intact codec admits
      ((q.start codec number).run (FatedSpace.client fates) ⟨s, 0, false⟩).2.space r' wi' ds' := by
  by_cases hFirst : fates 0 = .carried
  case neg =>
    rw [PersistentQueue.run_start_not_carried hFirst]
    exact ⟨r, wi, ds, h⟩
  rw [PersistentQueue.run_start_carried hFirst codec number q h.toRecords h.ordered]
  by_cases hSecond : fates 1 = .carried
  case neg =>
    rw [PersistentQueue.run_recover_not_carried hSecond]
    exact ⟨r, wi, ds, h⟩
  by_cases hSome : ds = []
  · subst hSome
    rw [PersistentQueue.run_recover_nil hSecond _ h.toRecords]
    exact ⟨r, wi, [], h⟩
  rw [PersistentQueue.run_recover_cons hSecond _ h.toRecords hSome]
  cases hThird : fates 2 with
  | refused e =>
      rw [PersistentQueue.run_resend_refused hThird]
      exact ⟨r, wi, ds, h⟩
  | last =>
      rw [PersistentQueue.run_resend_last hThird]
      exact ⟨r, wi, [], h.afterClearing⟩
  | carried =>
      obtain ⟨wi', t, hAppended, hLeft⟩ := PersistentQueue.run_resend_carried hThird
        ((q.opened number).loaded r wi) s ds h.words
      obtain ⟨earlier, hBooks⟩ := h.books
      have hAdmitted : ∀ b ∈ landed fates 3 (ds.filterMap (batchAt codec s)), admits b := by
        intro b hMem
        obtain ⟨i, -, hBatch⟩ := List.mem_filterMap.mp ((landed_sublist fates 3 _).subset hMem)
        exact (hBooks.round_trip hCodec hBatch).1
      have hAgain := h.afterClearing.appended hCodec hAppended hAdmitted
      rcases hLeft with hSame | hFreed
      · rw [hSame]
        exact ⟨r, wi', [], hAgain⟩
      · rw [hFreed]
        exact ⟨r, wi', [], hAgain.afterFreeing h.below⟩

end Intact

/-- What queues leave that run one after the other on a namespace that was empty. A process may die
between two batches of operations, and batches of a start may be refused. -/
inductive Left (codec : Codec β) (admits : β → Prop) : Space → Prop
  | empty : Left codec admits []
  | run {s : Space} {trace : List (Event β)} {w : World β Space} (prior : Left codec admits s)
      (hRuns : Runs (Setup.ofSpace codec admits false) World.FitsWords (.idle s) trace w) :
      Left codec admits w.storage
  | start {s : Space} (prior : Left codec admits s) (fates : Nat → Fate) (q : PersistentQueue)
      (number : Nat) : Left codec admits
        ((q.start codec number).run (FatedSpace.client fates) ⟨s, 0, false⟩).2.space

theorem Left.intact (hCodec : ∀ b, admits b → codec.unmarshal? (codec.marshal b) = some b)
    (h : Left codec admits s) : ∃ r wi ds, Intact codec admits s r wi ds := by
  induction h with
  | empty => exact ⟨0, 0, [], .empty codec admits⟩
  | run _ hRuns ih =>
      obtain ⟨r, wi, ds, hIntact⟩ := ih
      obtain ⟨earlier, hBooks⟩ := hIntact.books
      have hBalanced : Balanced codec admits earlier (.idle _) := hBooks.idle
      obtain ⟨r', wi', ds', hLater⟩ := (hBalanced.run hCodec hRuns).books
      exact ⟨r', wi', ds', .of_books hLater (hBalanced.run_isFull hCodec hIntact.isFull hRuns)⟩
  | start _ fates q number ih =>
      obtain ⟨r, wi, ds, hIntact⟩ := ih
      exact hIntact.start hCodec fates q number

end Telemetry.Queue

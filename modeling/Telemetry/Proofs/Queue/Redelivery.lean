import Telemetry.Proofs.Queue.Tidiness

/-!
# Items are handed out until their sending is over

An item that a worker was handed stays listed, with its value, until its sending is over. What is still
listed when the next queue starts waits again, and for everything that waits a worker is woken.
-/

namespace Telemetry.Queue

open Storage (Access Space)
open Text (Bytes)

variable {β : Type} {codec : Codec β} {admits : β → Prop} {s t : Space} {r wi : UInt64}
  {ds : List UInt64} {q q' : PersistentQueue} {trace : List (Event β)} {w w' : World β Space}
  {e : Event β} {c : UInt64 × β}

/-- The items that workers were handed since the last start. -/
def handed : List (Event β) → List (UInt64 × β)
  | [] => []
  | .started _ :: _ => []
  | .claimed i b :: trace => (i, b) :: handed trace
  | _ :: trace => handed trace

/-- The items whose sending is over since the last start and was not held up by a shutdown. Where the
process died while the end was being entered, it counts. -/
def concluded : List (Event β) → List (UInt64 × β)
  | [] => []
  | .started _ :: _ => []
  | .ended i b outcome :: trace | .diedEnding i b outcome _ :: trace =>
    if outcome.isShutdown then concluded trace else (i, b) :: concluded trace
  | _ :: trace => concluded trace

/-- Whether a step leaves the instance that runs running. -/
def Event.isLocal : Event β → Bool
  | .started _ => false
  | e => !e.isDeath

/-! ## What is listed -/

/-- What a worker was handed is listed with its value, unless its sending is over. -/
def Remembers (codec : Codec β) (trace : List (Event β)) (s : Space) (ds : List UInt64) : Prop :=
  ∀ c ∈ handed trace, c ∉ concluded trace → c.1 ∈ ds ∧ batchAt codec s c.1 = some c.2

/-- A namespace that remembers, whatever its records are read as. -/
def IsRemembered (codec : Codec β) (trace : List (Event β)) (s : Space) : Prop :=
  ∀ r wi ds, Records s r wi ds → Remembers codec trace s ds

theorem Remembers.isRemembered (h : Remembers codec trace s ds) (hRecords : Records s r wi ds) :
    IsRemembered codec trace s := by
  intro r' wi' ds' hSame
  obtain ⟨rfl, rfl, rfl⟩ := hRecords.unique hSame
  exact h

/-- Steps that hand nothing out and end no sending leave what is remembered. -/
theorem Remembers.of_quiet (h : Remembers codec trace s ds)
    (hHanded : handed (e :: trace) = handed trace)
    (hConcluded : concluded (e :: trace) = concluded trace)
    (hSame : ∀ i ∈ ds, t.get? (itemKey i) = s.get? (itemKey i)) :
    Remembers codec (e :: trace) t ds := by
  intro c hMem hOpen
  rw [hHanded] at hMem
  rw [hConcluded] at hOpen
  obtain ⟨hListed, hBatch⟩ := h c hMem hOpen
  exact ⟨hListed, (batchAt_congr (hSame c.1 hListed)).trans hBatch⟩

/-- An index that is handed out is listed with the batch it has. -/
theorem Remembers.claim (h : Remembers codec trace s ds) {b : β}
    (hBatch : batchAt codec s r = some b) :
    Remembers codec (.claimed r b :: trace) (afterClaim s r ds) (ds ++ [r]) := by
  intro c hMem hOpen
  rw [batchAt_congr (get?_afterClaim s r ds c.1)]
  rcases List.mem_cons.mp hMem with rfl | hOld
  · exact ⟨List.mem_append_right _ (List.mem_singleton_self _), hBatch⟩
  · obtain ⟨hListed, hFound⟩ := h c hOld hOpen
    exact ⟨List.mem_append_left _ hListed, hFound⟩

/-- A claim on whose way the process dies lists an index at most. -/
theorem Remembers.claimUnseen (h : Remembers codec trace s ds) {found : Found β} {count : Nat} :
    Remembers codec (.diedClaiming found count :: trace) (afterClaim s r ds) (ds ++ [r]) := by
  intro c hMem hOpen
  obtain ⟨hListed, hFound⟩ := h c hMem hOpen
  rw [batchAt_congr (get?_afterClaim s r ds c.1)]
  exact ⟨List.mem_append_left _ hListed, hFound⟩

/-- What is removed is the item whose sending is over, and no other. -/
theorem Remembers.remove (h : Remembers codec trace s ds) {i : UInt64} {b : β}
    (hBatch : batchAt codec s i = some b) (hHanded : handed (e :: trace) = handed trace)
    (hConcluded : concluded (e :: trace) = (i, b) :: concluded trace) :
    Remembers codec (e :: trace) (afterRemoval s ds i) (ds.filter (· != i)) := by
  intro c hMem hOpen
  rw [hHanded] at hMem
  rw [hConcluded, List.mem_cons, not_or] at hOpen
  obtain ⟨hListed, hFound⟩ := h c hMem hOpen.2
  have hNe : c.1 ≠ i := by
    intro hEq
    rw [hEq, hBatch] at hFound
    exact hOpen.1 (Prod.ext hEq (Option.some.inj hFound).symm)
  have hSame : (afterRemoval s ds i).get? (itemKey c.1) = s.get? (itemKey c.1) := by
    rw [get?_afterRemoval, if_neg hNe]
  exact ⟨List.mem_filter.mpr ⟨hListed, bne_iff_ne.mpr hNe⟩, (batchAt_congr hSame).trans hFound⟩

/-- What is put down lies behind everything that is listed. -/
theorem Served.get?_afterPut_of_listed (h : Served codec admits trace w q) (value : Bytes)
    {i : UInt64} (hMem : i ∈ q.dispatched) :
    (afterPut w.storage q.writeIndex value).get? (itemKey i) = w.storage.get? (itemKey i) := by
  have hLt := UInt64.lt_of_lt_of_le (h.books.below i hMem) h.books.ordered
  rw [get?_afterPut, if_neg fun hEq => UInt64.lt_irrefl _ (hEq ▸ hLt)]

/-- A death ends no sending but one whose end was being entered. -/
theorem Remembers.die (h : Remembers codec trace s ds) (hDeath : e.isDeath = true) :
    Remembers codec (e :: trace) s ds := by
  intro c hMem hOpen
  cases e with
  | died | diedOffering | diedClaiming => exact h c hMem hOpen
  | diedEnding i b outcome count =>
      rw [concluded] at hOpen
      split at hOpen
      · exact h c hMem hOpen
      · exact h c hMem fun hIn => hOpen (List.mem_cons_of_mem _ hIn)
  | _ => exact absurd hDeath Bool.noConfusion

section Values

variable (hCodec : ∀ b, admits b → codec.unmarshal? (codec.marshal b) = some b)
  (h : Balanced codec admits trace w) (hTidy : IsTidy w.storage)
include hCodec h hTidy

theorem Balanced.step_isRemembered (hPast : IsRemembered codec trace w.storage)
    (hWords : w.FitsWords) (hStep : Step (Setup.ofSpace codec admits false) w e w') :
    IsRemembered codec (e :: trace) w'.storage := by
  have hNow : ∀ q, w.running = some q → Remembers codec trace w.storage q.dispatched :=
    fun q hRunning => hPast _ _ _ (h.served q hRunning).books.toRecords
  cases h.effect hStep with
  | start hNew number hLayout hRecovered =>
      exact fun _ _ _ _ c hMem => absurd hMem List.not_mem_nil
  | @put q b hRunning =>
      have hServed := h.served q hRunning
      exact ((hNow q hRunning).of_quiet rfl rfl fun _ => hServed.get?_afterPut_of_listed _).isRemembered
        (hServed.books.toRecords.afterPut _)
  | @claim q b hRunning hCalled hOpen hWaiting hBatch =>
      have hBooks := (h.served q hRunning).books
      exact ((hNow q hRunning).claim hBatch).isRemembered
        (hBooks.toLayout.afterClaim (hBooks.lt_of_ne hWaiting) (hWords q hRunning).2).toRecords
  | pass hRunning hCalled hWaiting hBatch =>
      exact absurd hBatch (h.batchAt_ne_none hCodec hTidy hRunning hWaiting)
  | @settle q before after i b outcome hRunning hCarried hMem hOver =>
      have hServed := h.served q hRunning
      exact ((hNow q hRunning).remove (hServed.team.stored _ (List.mem_append_left _ hMem)) rfl
        (by rw [concluded, hOver, if_neg Bool.false_ne_true])).isRemembered
        (hServed.books.toLayout.afterRemoval hServed.books.count i).toRecords
  | @keep q before after i b outcome hRunning hCarried hKept =>
      exact fun r wi ds hRecords => (hPast r wi ds hRecords).of_quiet rfl
        (by rw [concluded, hKept, if_pos rfl]) fun _ _ => rfl
  | death hDeath hStep =>
      cases h.remains (fun _ => h.batchAt_ne_none hCodec hTidy) hDeath hStep with
      | same => exact fun r wi ds hRecords => (hPast r wi ds hRecords).die hDeath
      | @put q b count hRunning =>
          have hServed := h.served q hRunning
          exact ((hNow q hRunning).of_quiet rfl rfl
            fun _ => hServed.get?_afterPut_of_listed _).isRemembered
            (hServed.books.toRecords.afterPut _)
      | @claim q found count hRunning hWaiting =>
          have hBooks := (h.served q hRunning).books
          exact (hNow q hRunning).claimUnseen.isRemembered
            (hBooks.toLayout.afterClaim (hBooks.lt_of_ne hWaiting) (hWords q hRunning).2).toRecords
      | @removal q i b outcome count hRunning hMem hOver =>
          have hServed := h.served q hRunning
          exact ((hNow q hRunning).remove (hServed.team.stored _ (List.mem_append_left _ hMem)) rfl
            (by rw [concluded, hOver, if_neg Bool.false_ne_true])).isRemembered
            (hServed.books.toLayout.afterRemoval hServed.books.count i).toRecords
  | refuse | wake | call | miss | retire | stop | dismiss | detach | rest =>
      exact fun r wi ds hRecords => (hPast r wi ds hRecords).of_quiet rfl rfl fun _ _ => rfl

/-- A value leaves storage because the sending of its item is over, or because a queue starts. -/
theorem Balanced.step_batchAt (hStep : Step (Setup.ofSpace codec admits false) w e w') {i : UInt64}
    {b : β} (hBatch : batchAt codec w.storage i = some b) :
    batchAt codec w'.storage i = some b ∨ (i, b) ∈ concluded [e] ∨ ∃ answer, e = .started answer := by
  have hPut : ∀ q value, w.running = some q →
      batchAt codec (afterPut w.storage q.writeIndex value) i = some b := by
    intro q value hRunning
    have hNe : i ≠ q.writeIndex := by
      intro hEq
      have hFresh := (h.served q hRunning).books.fresh _ (UInt64.le_refl q.writeIndex)
      rw [batchAt, hEq, hFresh] at hBatch
      exact absurd hBatch.symm (Option.some_ne_none b)
    rw [← hBatch]
    exact batchAt_congr (by rw [get?_afterPut, if_neg hNe])
  have hRemoval : ∀ q j c, w.running = some q → (j, c) ∈ w.carried ++ interrupted trace →
      batchAt codec (afterRemoval w.storage q.dispatched j) i = some b ∨ (i, b) = (j, c) := by
    intro q j c hRunning hIn
    by_cases hEq : i = j
    · subst hEq
      have hStored := (h.served q hRunning).team.stored _ hIn
      exact .inr (Prod.ext rfl (Option.some.inj (hBatch.symm.trans hStored)))
    · rw [← hBatch]
      exact .inl (batchAt_congr (by rw [get?_afterRemoval, if_neg hEq]))
  cases h.effect hStep with
  | start => exact .inr (.inr ⟨_, rfl⟩)
  | put hRunning => exact .inl (hPut _ _ hRunning)
  | @claim q =>
      exact .inl ((batchAt_congr (get?_afterClaim w.storage q.readIndex q.dispatched i)).trans hBatch)
  | pass hRunning hCalled hWaiting hNone =>
      exact absurd hNone (h.batchAt_ne_none hCodec hTidy hRunning hWaiting)
  | @settle q before after j c outcome hRunning hCarried hMem hOver =>
      rw [concluded, hOver, if_neg Bool.false_ne_true, List.mem_cons]
      exact (hRemoval q j c hRunning (List.mem_append_left _ hMem)).imp_right fun hEq =>
        .inl (.inl hEq)
  | death hDeath hStep =>
      cases h.remains (fun _ => h.batchAt_ne_none hCodec hTidy) hDeath hStep with
      | same => exact .inl hBatch
      | put hRunning => exact .inl (hPut _ _ hRunning)
      | @claim q =>
          exact .inl
            ((batchAt_congr (get?_afterClaim w.storage q.readIndex q.dispatched i)).trans hBatch)
      | @removal q j c outcome count hRunning hMem hOver =>
          rw [concluded, hOver, if_neg Bool.false_ne_true, List.mem_cons]
          exact (hRemoval q j c hRunning (List.mem_append_left _ hMem)).imp_right fun hEq =>
            .inl (.inl hEq)
  | refuse | wake | call | miss | keep | retire | stop | dismiss | detach | rest => exact .inl hBatch

end Values

/-- A process that has died runs no queue. -/
theorem Step.running_eq_none {tears : Bool} (hDeath : e.isDeath = true)
    (hStep : Step (Setup.ofSpace codec admits tears) w e w') : w'.running = none := by
  cases hStep with
  | die | dieOffering | dieClaiming | dieEnding => rfl
  | _ => exact absurd hDeath Bool.noConfusion

/-! ## What is not handed out again -/

/-- An item whose sending is over is not listed, and lies behind the read index. -/
def Spent (trace : List (Event β)) (q : PersistentQueue) : Prop :=
  ∀ c ∈ concluded trace, c.1 ∉ q.dispatched ∧ c.1 < q.readIndex

theorem Spent.congr (h : Spent trace q) (hConcluded : concluded (e :: trace) = concluded trace)
    (hListed : q'.dispatched = q.dispatched) (hRead : q'.readIndex = q.readIndex) :
    Spent (e :: trace) q' := by
  intro c hMem
  rw [hListed, hRead]
  exact h c (hConcluded ▸ hMem)

theorem Balanced.step_spent {tears : Bool} (h : Balanced codec admits trace w)
    (hPast : ∀ q, w.running = some q → Spent trace q)
    (hStep : Step (Setup.ofSpace codec admits tears) w e w') :
    ∀ q, w'.running = some q → Spent (e :: trace) q := by
  cases h.effect hStep with
  | start hNew number hLayout hRecovered => exact fun _ _ c hMem => absurd hMem List.not_mem_nil
  | @claim q b hRunning hCalled hOpen hWaiting hBatch =>
      rintro _ ⟨⟩ c hMem
      obtain ⟨hListed, hRead⟩ := hPast q hRunning c hMem
      have hLt := (h.served q hRunning).books.lt_of_ne hWaiting
      constructor
      · intro hIn
        rcases List.mem_append.mp hIn with hOld | hNew
        · exact hListed hOld
        · exact UInt64.lt_irrefl _ (List.mem_singleton.mp hNew ▸ hRead)
      · exact UInt64.lt_trans hRead (lt_succ_of_lt hLt)
  | @pass q hRunning hCalled hWaiting hBatch =>
      rintro _ ⟨⟩ c hMem
      obtain ⟨hListed, hRead⟩ := hPast q hRunning c hMem
      have hLt := (h.served q hRunning).books.lt_of_ne hWaiting
      have hSame : (q.advanced.struck q.readIndex).dispatched = q.dispatched := strike_append_self
        fun hIn => UInt64.lt_irrefl _ ((h.served q hRunning).books.below _ hIn)
      exact ⟨hSame ▸ hListed, UInt64.lt_trans hRead (lt_succ_of_lt hLt)⟩
  | @settle q before after i b outcome hRunning hCarried hMem hOver =>
      have hServed := h.served q hRunning
      have hListed := hServed.team.mem_dispatched (List.mem_append_left _ hMem)
      rintro _ ⟨⟩ c hIn
      rw [concluded, hOver, if_neg Bool.false_ne_true, List.mem_cons] at hIn
      change c.1 ∉ q.dispatched.filter (· != i) ∧ c.1 < q.readIndex
      rcases hIn with rfl | hOld
      · exact ⟨by simp, hServed.books.below i hListed⟩
      · obtain ⟨hListed, hRead⟩ := hPast q hRunning c hOld
        exact ⟨fun hFiltered => hListed (List.mem_filter.mp hFiltered).1, hRead⟩
  | @keep q before after i b outcome hRunning hCarried hKept =>
      rintro _ ⟨⟩
      exact (hPast q hRunning).congr (by rw [concluded, hKept, if_pos rfl]) rfl rfl
  | @call q q' hRunning hOpen hPermit =>
      rintro _ ⟨⟩
      have hAgrees := takePermit_agrees hPermit
      exact (hPast q hRunning).congr rfl hAgrees.dispatched hAgrees.readIndex
  | @put q b hRunning | @wake q hRunning | @miss q hRunning | @retire q hRunning
  | @stop q hRunning | @dismiss q hRunning | @detach q hRunning | @rest q hRunning =>
      rintro _ ⟨⟩
      exact (hPast q hRunning).congr rfl rfl rfl
  | @refuse q b e hRunning =>
      exact fun q' hSame => (hPast q' hSame).congr rfl rfl rfl
  | death hDeath hStep =>
      exact fun _ hSome => absurd (hSome.symm.trans (hStep.running_eq_none hDeath))
        (Option.some_ne_none _)

/-! ## Workers that are woken -/

/-- For every item that waits a worker was called, or there is a permit, or an offer is about to add
one, as long as the queue is not told to stop. -/
structure Awake (w : World β Space) (q : PersistentQueue) : Prop where
  shut : q.closed = true → q.stopped = true
  client : q.stopped = false → q.client.isSome = true
  calls : q.stopped = false → q.permits + w.called + w.owed = q.writeIndex.toNat - q.readIndex.toNat

theorem awake_begun (hNew : q.Unstarted) (number count : Nat) {w₁ w₂ : UInt64} (hOrdered : r ≤ w₂)
    (s : Space) : Awake (⟨s, some (q.begun number r w₁ w₂ count), 0, 0, []⟩ : World β Space)
      (q.begun number r w₁ w₂ count) where
  shut := hNew.shut
  client := fun _ => rfl
  calls := by
    intro _
    change q.permits + (w₂ - r).toNat + 0 + 0 = w₂.toNat - r.toNat
    rw [hNew.permits, UInt64.toNat_sub_of_le _ _ hOrdered]
    omega

/-- A step that neither stops the queue nor takes its client away keeps its workers awake if it keeps
count of them. -/
theorem Awake.adjust {w' : World β Space} (h : Awake w q) (hClosed : q'.closed = q.closed)
    (hStopped : q'.stopped = q.stopped) (hClient : q'.client = q.client)
    (hCalls : q.stopped = false →
      q.permits + w.called + w.owed = q.writeIndex.toNat - q.readIndex.toNat →
      q'.permits + w'.called + w'.owed = q'.writeIndex.toNat - q'.readIndex.toNat) :
    Awake w' q' where
  shut := by rw [hClosed, hStopped]; exact h.shut
  client := by rw [hStopped, hClient]; exact h.client
  calls := by rw [hStopped]; exact fun hOpen => hCalls hOpen (h.calls hOpen)

theorem Balanced.step_awake {tears : Bool} (h : Balanced codec admits trace w)
    (hPast : ∀ q, w.running = some q → Awake w q) (hWords : w.FitsWords)
    (hStep : Step (Setup.ofSpace codec admits tears) w e w') :
    ∀ q, w'.running = some q → Awake w' q := by
  cases h.effect hStep with
  | start hNew number hLayout hRecovered =>
      rintro _ ⟨⟩
      exact awake_begun hNew number _ (hRecovered.layout hLayout).ordered _
  | @put q b hRunning hAdmitted hRoom =>
      rintro _ ⟨⟩
      refine (hPast q hRunning).adjust rfl rfl rfl fun _ hCalls => ?_
      have hOrdered := UInt64.le_iff_toNat_le.mp (h.served q hRunning).books.ordered
      have hRoom := (hWords q hRunning).1
      have hNext : (q.writeIndex + 1).toNat = q.writeIndex.toNat + 1 := toNat_succ (by omega)
      change q.permits + w.called + (w.owed + 1) = (q.writeIndex + 1).toNat - q.readIndex.toNat
      omega
  | @wake q hRunning hOwed =>
      rintro _ ⟨⟩
      refine (hPast q hRunning).adjust rfl rfl rfl fun _ hCalls => ?_
      change q.permits + 1 + w.called + (w.owed - 1) = q.writeIndex.toNat - q.readIndex.toNat
      omega
  | @call q q' hRunning hOpen hPermit =>
      rintro _ ⟨⟩
      rw [PersistentQueue.takePermit] at hPermit
      split at hPermit
      · next hSome =>
        cases hPermit
        refine (hPast q hRunning).adjust rfl rfl rfl fun _ hCalls => ?_
        change q.permits - 1 + (w.called + 1) + w.owed = q.writeIndex.toNat - q.readIndex.toNat
        omega
      · exact absurd hPermit.symm (Option.some_ne_none _)
  | @claim q b hRunning hCalled hOpen hWaiting hBatch =>
      rintro _ ⟨⟩
      refine (hPast q hRunning).adjust rfl rfl rfl fun _ hCalls => ?_
      have hNext := toNat_succ_of_lt ((h.served q hRunning).books.lt_of_ne hWaiting)
      change q.permits + (w.called - 1) + w.owed = q.writeIndex.toNat - (q.readIndex + 1).toNat
      omega
  | @pass q hRunning hCalled hWaiting hBatch =>
      rintro _ ⟨⟩
      refine (hPast q hRunning).adjust rfl rfl rfl fun _ hCalls => ?_
      have hNext := toNat_succ_of_lt ((h.served q hRunning).books.lt_of_ne hWaiting)
      change q.permits + (w.called - 1) + w.owed = q.writeIndex.toNat - (q.readIndex + 1).toNat
      omega
  | @miss q hRunning hCalled hIdle =>
      rintro _ ⟨⟩
      refine (hPast q hRunning).adjust rfl rfl rfl fun hOpen hCalls => ?_
      have hNone : q.client.isNone = false := by
        rw [← Option.not_isSome, (hPast q hRunning).client hOpen]
        rfl
      rw [hOpen, hNone, Bool.or_self] at hIdle
      rw [hIdle.resolve_left Bool.false_ne_true, Nat.sub_self] at hCalls
      omega
  | @settle q before after i b outcome hRunning | @keep q before after i b outcome hRunning
  | @retire q hRunning | @rest q hRunning =>
      rintro _ ⟨⟩
      exact (hPast q hRunning).adjust rfl rfl rfl fun _ hCalls => hCalls
  | @stop q hRunning =>
      rintro _ ⟨⟩
      exact ⟨fun _ => rfl, fun hOpen => absurd hOpen.symm Bool.noConfusion,
        fun hOpen => absurd hOpen.symm Bool.noConfusion⟩
  | @dismiss q hRunning hStopped =>
      rintro _ ⟨⟩
      exact ⟨fun _ => hStopped, (hPast q hRunning).client, (hPast q hRunning).calls⟩
  | @detach q hRunning hClosed =>
      rintro _ ⟨⟩
      have hStopped := (hPast q hRunning).shut hClosed
      exact ⟨fun _ => hStopped, fun hOpen => absurd (hStopped.symm.trans hOpen) Bool.noConfusion,
        fun hOpen => absurd (hStopped.symm.trans hOpen) Bool.noConfusion⟩
  | refuse hRunning => exact hPast
  | death hDeath hStep =>
      exact fun _ hSome => absurd (hSome.symm.trans (hStep.running_eq_none hDeath))
        (Option.some_ne_none _)

/-! ## Items that wait -/

/-- A batch waits in a queue under an index. -/
structure Waits (codec : Codec β) (s : Space) (q : PersistentQueue) (j : UInt64) (b : β) : Prop where
  mem : j ∈ window q.readIndex q.writeIndex
  value : s.get? (itemKey j) = some (codec.marshal b)

theorem Waits.congr {j : UInt64} {b : β} (h : Waits codec s q j b)
    (hRead : q'.readIndex = q.readIndex) (hWrite : q'.writeIndex = q.writeIndex) :
    Waits codec s q' j b where
  mem := by rw [hRead, hWrite]; exact h.mem
  value := h.value

/-- As long as the instance runs, what waits goes on to wait, or is the next to be handed out and is
handed out. -/
theorem Balanced.step_waits {tears : Bool} (h : Balanced codec admits trace w) (hWords : w.FitsWords)
    (hStep : Step (Setup.ofSpace codec admits tears) w e w') (hLocal : e.isLocal = true) {j : UInt64}
    {b : β}
    (hRound : codec.unmarshal? (codec.marshal b) = some b)
    (hRunning : w.running = some q) (hWaits : Waits codec w.storage q j b) :
    ∃ q', w'.running = some q' ∧ (e = .claimed j b ∨ Waits codec w'.storage q' j b) := by
  have hBooks := (h.served q hRunning).books
  obtain ⟨hLow, hHigh⟩ := mem_window.mp hWaits.mem
  cases h.effect hStep with
  | start => exact absurd hLocal Bool.noConfusion
  | @death e w' hDeath hStep =>
      rw [Event.isLocal.eq_def] at hLocal
      cases e with
      | died | diedOffering | diedClaiming | diedEnding => exact absurd hLocal Bool.noConfusion
      | _ => exact absurd hDeath Bool.noConfusion
  | @put q b hSame hAdmitted hRoom =>
      cases hRunning.symm.trans hSame
      have hNext := (hWords q hRunning).1
      refine ⟨_, rfl, .inr ⟨?_, ?_⟩⟩
      · change j ∈ window q.readIndex (q.writeIndex + 1)
        rw [window_append_last hBooks.ordered (by omega)]
        exact List.mem_append_left _ hWaits.mem
      · rw [get?_afterPut, if_neg fun hEq => UInt64.lt_irrefl _ (hEq ▸ hHigh)]
        exact hWaits.value
  | @claim q b' hSame hCalled hOpen hWaiting hBatch =>
      cases hRunning.symm.trans hSame
      refine ⟨_, rfl, ?_⟩
      have hMem := hWaits.mem
      rw [window_eq_cons (hBooks.lt_of_ne hWaiting), List.mem_cons] at hMem
      rcases hMem with rfl | hLater
      · rw [batchAt, hWaits.value, Option.bind_some, hRound] at hBatch
        exact .inl (Option.some.inj hBatch ▸ rfl)
      · exact .inr ⟨hLater, (get?_afterClaim _ _ _ j).trans hWaits.value⟩
  | @pass q hSame hCalled hWaiting hBatch =>
      cases hRunning.symm.trans hSame
      have hMem := hWaits.mem
      rw [window_eq_cons (hBooks.lt_of_ne hWaiting), List.mem_cons] at hMem
      -- What waits can be read back, so that a claim does not pass over it.
      have hNe : j ≠ q.readIndex := by
        rintro rfl
        rw [batchAt, hWaits.value, Option.bind_some, hRound] at hBatch
        exact absurd hBatch (Option.some_ne_none b)
      refine ⟨_, rfl, .inr ⟨hMem.resolve_left hNe, ?_⟩⟩
      rw [get?_afterRemoval, if_neg hNe, get?_afterClaim]
      exact hWaits.value
  | @settle q before after i b' outcome hSame hCarried hMem hOver =>
      cases hRunning.symm.trans hSame
      have hServed := h.served q hRunning
      have hBelow := hBooks.below i (hServed.team.mem_dispatched (List.mem_append_left _ hMem))
      have hNe : j ≠ i := fun hEq => UInt64.not_lt.mpr hLow (hEq ▸ hBelow)
      refine ⟨_, rfl, .inr ⟨hWaits.mem, ?_⟩⟩
      rw [get?_afterRemoval, if_neg hNe]
      exact hWaits.value
  | @call q q' hSame hOpen hPermit =>
      cases hRunning.symm.trans hSame
      have hAgrees := takePermit_agrees hPermit
      exact ⟨_, rfl, .inr (hWaits.congr hAgrees.readIndex hAgrees.writeIndex)⟩
  | @wake q hSame | @miss q hSame | @keep q before after i b outcome hSame | @retire q hSame
  | @stop q hSame | @dismiss q hSame | @detach q hSame | @rest q hSame =>
      cases hRunning.symm.trans hSame
      exact ⟨_, rfl, .inr (hWaits.congr rfl rfl)⟩
  | refuse => exact ⟨q, hRunning, .inr hWaits⟩

/-! ## Runs -/

/-- What holds of a world that a run without torn batches has led to. -/
structure Attended (codec : Codec β) (admits : β → Prop) (trace : List (Event β))
    (w : World β Space) : Prop where
  balanced : Balanced codec admits trace w
  tidy : IsTidy w.storage
  remembered : IsRemembered codec trace w.storage
  spent : ∀ q, w.running = some q → Spent trace q
  awake : ∀ q, w.running = some q → Awake w q

theorem attended_empty (codec : Codec β) (admits : β → Prop) :
    Attended codec admits [] (World.idle []) where
  balanced := balanced_empty codec admits
  tidy := Tidy.empty.isTidy (Books.empty codec admits).toRecords
  remembered := fun _ _ _ _ _ hMem => absurd hMem List.not_mem_nil
  spent := fun _ hNone => absurd hNone.symm (Option.some_ne_none _)
  awake := fun _ hNone => absurd hNone.symm (Option.some_ne_none _)

theorem Step.exists_running {σ : Type} {setup : Setup β σ} {w w' : World β σ}
    (hStep : Step setup w e w') (hLocal : e.isLocal = true) : ∃ q, w'.running = some q := by
  cases hStep with
  | start | die | dieOffering | dieClaiming | dieEnding => exact absurd hLocal Bool.noConfusion
  | refuse hRunning | turnAway hRunning => exact ⟨_, hRunning⟩
  | _ => exact ⟨_, rfl⟩

theorem mem_handed_cons (hLocal : e.isLocal = true) (hMem : c ∈ handed trace) :
    c ∈ handed (e :: trace) := by
  cases e with
  | started => exact absurd hLocal Bool.noConfusion
  | claimed i b => exact List.mem_cons_of_mem _ hMem
  | _ => exact hMem

section Runs

variable (hCodec : ∀ b, admits b → codec.unmarshal? (codec.marshal b) = some b)
include hCodec

theorem Attended.step (h : Attended codec admits trace w) (hWords : w.FitsWords)
    (hStep : Step (Setup.ofSpace codec admits false) w e w') :
    Attended codec admits (e :: trace) w' := by
  constructor
  case balanced => exact h.balanced.step hCodec hWords hStep
  case tidy => exact h.balanced.step_isTidy hCodec h.tidy hWords hStep
  case remembered => exact h.balanced.step_isRemembered hCodec h.tidy h.remembered hWords hStep
  case spent => exact h.balanced.step_spent h.spent hStep
  case awake => exact h.balanced.step_awake h.awake hWords hStep

theorem Attended.run {origin : World β Space} {earlier : List (Event β)}
    (h : Attended codec admits earlier origin)
    (hRuns : Runs (Setup.ofSpace codec admits false) World.FitsWords origin trace w) :
    Attended codec admits (trace ++ earlier) w := by
  induction hRuns with
  | refl => exact h
  | step prior hWords last ih => exact ih.step hCodec hWords last

/-- Through all that happens while an instance runs, what waits is handed out or goes on to wait. -/
theorem Attended.run_waits {origin : World β Space} {earlier : List (Event β)}
    (h : Attended codec admits earlier origin)
    (hRuns : Runs (Setup.ofSpace codec admits false) World.FitsWords origin trace w)
    (hLocal : ∀ e ∈ trace, e.isLocal = true) {j : UInt64} {b : β}
    (hRound : codec.unmarshal? (codec.marshal b) = some b)
    (hRunning : origin.running = some q) (hWaits : Waits codec origin.storage q j b) :
    ∃ q', w.running = some q' ∧ ((j, b) ∈ handed trace ∨ Waits codec w.storage q' j b) := by
  induction hRuns with
  | refl => exact ⟨q, hRunning, .inr hWaits⟩
  | @step trace w w' e prior hWords last ih =>
      have hHere := hLocal e List.mem_cons_self
      have hBefore := h.run hCodec prior
      obtain ⟨q', hRunning', hHanded | hWaits'⟩ := ih fun e hMem =>
        hLocal e (List.mem_cons_of_mem _ hMem)
      · obtain ⟨q'', hRunning''⟩ := last.exists_running hHere
        exact ⟨q'', hRunning'', .inl (mem_handed_cons hHere hHanded)⟩
      · obtain ⟨q'', hRunning'', rfl | hWaits''⟩ :=
          hBefore.balanced.step_waits hWords last hHere hRound hRunning' hWaits'
        · exact ⟨q'', hRunning'', .inl List.mem_cons_self⟩
        · exact ⟨q'', hRunning'', .inr hWaits''⟩

/-- Whatever is kept when a queue starts waits in it, until it is handed out. -/
theorem Attended.redelivers {w₁ w₂ : World β Space} {before after : List (Event β)}
    {answer : Except QueueError Unit} (h : Attended codec admits before w₁) (hWords : w₁.FitsWords)
    (hRecords : Records w₁.storage r wi ds)
    (hStart : Step (Setup.ofSpace codec admits false) w₁ (.started answer) w₂)
    (hRuns : Runs (Setup.ofSpace codec admits false) World.FitsWords w₂ after w)
    (hLocal : ∀ e ∈ after, e.isLocal = true) {i : UInt64} (hMem : i ∈ ds ++ window r wi) {b : β}
    (hBatch : batchAt codec w₁.storage i = some b) :
    ∃ q j, w.running = some q ∧ ((j, b) ∈ handed after ∨ Waits codec w.storage q j b) := by
  have hStarted := h.step hCodec hWords hStart
  obtain ⟨_, _, _, hBooks⟩ := h.balanced.books
  obtain ⟨hAdmitted, hValue⟩ := hBooks.round_trip hCodec hBatch
  have hRound := hCodec b hAdmitted
  cases h.balanced.effect hStart with
  | @start q r' wi' next ds' t hNew number hLayout hRecovered =>
      obtain ⟨rfl, rfl, rfl⟩ := hLayout.toRecords.unique hRecords
      have hNext := hRecovered.le
      -- What was listed is found again behind what waited; what waited is where it was.
      have hWaits : ∃ j ∈ window r next, t.get? (itemKey j) = some (codec.marshal b) := by
        rw [← window_append hLayout.ordered hNext]
        rcases List.mem_append.mp hMem with hListed | hWaiting
        · obtain ⟨j, hNewIndex, hAgain⟩ := hRecovered.exists_of_listed hListed hBatch
          exact ⟨j, List.mem_append_right _ hNewIndex, hAgain⟩
        · exact ⟨i, List.mem_append_left _ hWaiting,
            (hRecovered.get?_of_waiting hLayout.below hWaiting).trans hValue⟩
      obtain ⟨j, hIndex, hAgain⟩ := hWaits
      obtain ⟨q', hRunning, hFate⟩ :=
        hStarted.run_waits hCodec hRuns hLocal hRound rfl ⟨hIndex, hAgain⟩
      exact ⟨q', j, hRunning, hFate⟩
  | death hDeath => exact absurd hDeath Bool.noConfusion

theorem Runs.attended
    (hRuns : Runs (Setup.ofSpace codec admits false) World.FitsWords (.idle []) trace w) :
    Attended codec admits trace w := by
  have hAttended := (attended_empty codec admits).run hCodec hRuns
  rwa [List.append_nil] at hAttended

end Runs

end Telemetry.Queue

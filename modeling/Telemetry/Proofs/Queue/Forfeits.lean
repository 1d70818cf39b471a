import Telemetry.Proofs.Queue.Order
import Telemetry.Proofs.Queue.Refusals

/-!
# Batches that are forfeited when storage refuses

A claim advances the indices of the queue before it writes them. Where its write is refused the queue goes
on without the batch, which was handed to nobody: its value is removed, or it stays below the read index
that a later claim writes. Which of the accepted batches are forfeited so is said here for every run and
every pattern of refusals.
-/

namespace Telemetry.Queue

open Storage (Access FatedSpace Space)
open Text (Bytes)

variable {β : Type} {codec : Codec β} {admits : β → Prop} {refusals : Nat → Option StorageError}
  {s t : Space} {k n : Nat} {m r wi i : UInt64} {ds es : List UInt64}
  {stored outs : List (UInt64 × β)} {tried : List (UInt64 × Nat)} {b : β} {q q' : PersistentQueue}
  {trace : List (Event β)} {w w' : World β FatedSpace} {e : Event β}

/-- Queues on a namespace that may refuse any batch of operations, as a whole. -/
def Setup.refusing (codec : Codec β) (admits : β → Prop) (refusals : Nat → Option StorageError) :
    Setup β FatedSpace := ⟨FatedSpace.refusing refusals, codec, admits, false⟩

/-- A batch is stored at a live index: one that is listed as being sent, or lies between the indices. -/
def Live (codec : Codec β) (s : Space) (i : UInt64) (b : β) : Prop :=
  batchAt codec s i = some b ∧ ∃ r wi ds, Records s r wi ds ∧ (i ∈ ds ∨ i ∈ window r wi)

/-- The index under which a step stores a batch. -/
def Event.puts (q : PersistentQueue) : Event β → List (UInt64 × β)
  | accepted b => [(q.writeIndex, b)]
  | _ => []

/-- The index that a queue has passed to become another one, with the number of the batch of operations
that came next. -/
def PersistentQueue.passes (q q' : PersistentQueue) (next : Nat) : List (UInt64 × Nat) :=
  if q'.readIndex = q.readIndex then [] else [(q.readIndex, next)]

/-- The runs of one queue, with the indices under which batches were stored, and the indices of which a
claim was tried, with the number of the batch of operations by which it was. -/
inductive Booked (setup : Setup β FatedSpace) (origin : World β FatedSpace) :
    List (Event β) → List (UInt64 × β) → List (UInt64 × Nat) → World β FatedSpace → Prop
  | refl : Booked setup origin [] [] [] origin
  | step {trace : List (Event β)} {stored : List (UInt64 × β)} {tried : List (UInt64 × Nat)}
      {w w' : World β FatedSpace} {e : Event β} {q q' : PersistentQueue}
      (prior : Booked setup origin trace stored tried w) (hWords : w.FitsWords)
      (last : Step setup w e w') (hLocal : e.isLocal = true) (hRunning : w.running = some q)
      (hRunning' : w'.running = some q') :
      Booked setup origin (e :: trace) (stored ++ e.puts q)
        (tried ++ q.passes q' w.storage.next) w'

/-- An index is forfeited whose claim was refused, if the value was removed then, which may take two
batches of operations, or if a later claim was carried out, which writes the read index. -/
def Forfeited (refusals : Nat → Option StorageError) (tried : List (UInt64 × Nat)) (i : UInt64) : Prop :=
  ∃ k, (i, k) ∈ tried ∧ refusals k ≠ none ∧
    (refusals (k + 1) = none ∨ refusals (k + 2) = none ∨
      ∃ j l, (j, l) ∈ tried ∧ k < l ∧ refusals l = none)

/-! ## What one section preserves -/

theorem le_of_lt_succ (hSome : m < wi) (hLt : i < m + 1) : i ≤ m := by
  rw [UInt64.lt_iff_toNat_lt, toNat_succ_of_lt hSome] at hLt
  rw [UInt64.le_iff_toNat_le]
  omega

theorem lt_or_eq_of_lt_succ (hSome : m < wi) (hLt : i < m + 1) : i < m ∨ i = m :=
  UInt64.lt_or_eq_of_le (le_of_lt_succ hSome hLt)

/-- How what was stored, tried and handed out fits to the indices of the queue, which may be ahead of
those stored, and to the values. -/
structure Accounted (codec : Codec β) (refusals : Nat → Option StorageError)
    (stored outs : List (UInt64 × β)) (tried : List (UInt64 × Nat)) (m wi : UInt64)
    (es : List UInt64) (s : Space) (k : Nat) (r : UInt64) (ds : List UInt64) : Prop
    extends Records s r wi ds where
  ordered : m ≤ wi
  behind : r ≤ m
  entries : ∀ i ∈ ds ++ es, i < m ∧ ∀ b, (i, b) ∈ stored → (i, b) ∈ outs
  written : ∀ i b, (i, b) ∈ stored → i < wi
  waiting : ∀ i b, (i, b) ∈ stored → m ≤ i → batchAt codec s i = some b
  decided : ∀ i b, (i, b) ∈ stored → i < m → ∃ l, (i, l) ∈ tried ∧
    (refusals l = none → (i, b) ∈ outs) ∧
    (refusals l ≠ none → batchAt codec s i =
      if refusals (l + 1) = none ∨ refusals (l + 2) = none then none else some b)
  known : ∀ i b, (i, b) ∈ outs → ∃ l, (i, l) ∈ tried ∧ refusals l = none
  before : ∀ i l, (i, l) ∈ tried → i < m ∧ l < k
  sorted : ∀ i l j n, (i, l) ∈ tried → (j, n) ∈ tried → (i < j ↔ l < n)
  passed : ∀ i l, (i, l) ∈ tried → refusals l = none → i < r
  moved : ∀ i b, (i, b) ∈ stored → i < r → ∃ j l, (j, l) ∈ tried ∧ i ≤ j ∧ refusals l = none

/-- A removal leaves the stored list, or writes a new one. -/
theorem Removed.records (h : Removed refusals k es i s t) (hRecords : Records s r wi ds)
    (hCount : es.length < 2 ^ 32) : ∃ ds', Records t r wi ds' ∧ (ds' = ds ∨ ds' = es) := by
  have hRead : PersistentQueue.storedIndex (t.get? readKey) = .ok r := by rw [h.read, hRecords.read]
  have hWrite : PersistentQueue.storedIndex (t.get? writeKey) = .ok wi := by
    rw [h.write, hRecords.write]
  rcases h.listed with hSame | hNew
  · exact ⟨ds, ⟨hRead, hWrite, by rw [hSame, hRecords.listed]⟩, .inl rfl⟩
  · exact ⟨es, ⟨hRead, hWrite, by rw [hNew, storedIndices_encodeIndices hCount]⟩, .inr rfl⟩

theorem Removed.batchAt_of_ne (h : Removed refusals k es i s t) {j : UInt64} (hNe : j ≠ i) :
    batchAt codec t j = batchAt codec s j := batchAt_congr (h.others j hNe)

theorem Removed.batchAt_self (h : Removed refusals k es i s t) :
    batchAt codec t i =
      if refusals k = none ∨ refusals (k + 1) = none then none else batchAt codec s i := by
  rw [batchAt, h.item]
  split <;> rfl

/-- What is listed or stored as listed after a removal was so before. -/
theorem mem_of_mem_listed {ds' es' : List UInt64} (hListed : ds' = ds ∨ ds' = es')
    (hLess : ∀ j ∈ es', j ∈ es) (hMem : i ∈ ds' ++ es') : i ∈ ds ++ es := by
  rcases List.mem_append.mp hMem with hIn | hIn
  · rcases hListed with rfl | rfl
    · exact List.mem_append_left _ hIn
    · exact List.mem_append_right _ (hLess i hIn)
  · exact List.mem_append_right _ (hLess i hIn)

namespace Accounted

/-- A queue that has just started has stored, tried and handed out nothing. -/
theorem start (h : Records s m wi []) (hOrdered : m ≤ wi) :
    Accounted codec refusals [] [] [] m wi [] s k m [] where
  toRecords := h
  ordered := hOrdered
  behind := UInt64.le_refl m
  entries := fun _ hMem => nomatch hMem
  written := fun _ _ hMem => nomatch hMem
  waiting := fun _ _ hMem => nomatch hMem
  decided := fun _ _ hMem => nomatch hMem
  known := fun _ _ hMem => nomatch hMem
  before := fun _ _ hMem => nomatch hMem
  sorted := fun _ _ _ _ hMem => nomatch hMem
  passed := fun _ _ hMem => nomatch hMem
  moved := fun _ _ hMem => nomatch hMem

variable (h : Accounted codec refusals stored outs tried m wi es s k r ds)
include h

theorem later (hLater : k ≤ n) : Accounted codec refusals stored outs tried m wi es s n r ds :=
  { h with before := fun i l hMem => ⟨(h.before i l hMem).1, by have := (h.before i l hMem).2; omega⟩ }

/-- No index is tried twice. -/
theorem tried_unique {l n : Nat} (hFirst : (i, l) ∈ tried) (hSecond : (i, n) ∈ tried) : l = n := by
  have hNone : ∀ {l n}, (i, l) ∈ tried → (i, n) ∈ tried → ¬l < n := fun hl hn hLt =>
    UInt64.lt_irrefl i ((h.sorted i _ i _ hl hn).mpr hLt)
  have hLow := hNone hFirst hSecond
  have hHigh := hNone hSecond hFirst
  omega

theorem put {value : Bytes} (hRoom : wi.toNat + 1 < 2 ^ 64) (hRead : codec.unmarshal? value = some b) :
    Accounted codec refusals (stored ++ [(wi, b)]) outs tried m (wi + 1) es (afterPut s wi value) (k + 1) r
      ds := by
  have hLast : wi < wi + 1 := lt_succ_of_le (UInt64.le_refl wi) hRoom
  have hOld : ∀ {i c}, (i, c) ∈ stored ++ [(wi, b)] → i ≠ wi → (i, c) ∈ stored := fun hMem hNe =>
    (List.mem_append.mp hMem).resolve_right fun hEq => hNe (congrArg Prod.fst (List.mem_singleton.mp hEq))
  have hBelow : ∀ {i}, i < m → i ≠ wi := fun hLt hEq =>
    absurd (hEq ▸ hLt) (UInt64.not_lt.mpr h.ordered)
  have hValue : ∀ {i}, i ≠ wi → batchAt codec (afterPut s wi value) i = batchAt codec s i :=
    fun hNe => batchAt_congr (by rw [get?_afterPut, if_neg hNe])
  constructor
  case toRecords => exact h.toRecords.afterPut value
  case ordered => exact UInt64.le_trans h.ordered (UInt64.le_of_lt hLast)
  case behind => exact h.behind
  case entries =>
    intro i hMem
    obtain ⟨hLt, hSent⟩ := h.entries i hMem
    exact ⟨hLt, fun c hStored => hSent c (hOld hStored (hBelow hLt))⟩
  case written =>
    intro i c hMem
    by_cases hEq : i = wi
    · exact hEq ▸ hLast
    · exact UInt64.lt_trans (h.written i c (hOld hMem hEq)) hLast
  case waiting =>
    intro i c hMem hLe
    by_cases hEq : i = wi
    · subst hEq
      rcases List.mem_append.mp hMem with hStored | hNew
      · exact absurd (h.written i c hStored) (UInt64.lt_irrefl i)
      · obtain rfl := congrArg Prod.snd (List.mem_singleton.mp hNew)
        rw [batchAt, get?_afterPut, if_pos rfl, Option.bind_some, hRead]
    · rw [hValue hEq]
      exact h.waiting i c (hOld hMem hEq) hLe
  case decided =>
    intro i c hMem hLt
    rw [hValue (hBelow hLt)]
    exact h.decided i c (hOld hMem (hBelow hLt)) hLt
  case known => exact h.known
  case before => exact (h.later (Nat.le_succ k)).before
  case sorted => exact h.sorted
  case passed => exact h.passed
  case moved =>
    intro i c hMem hLt
    exact h.moved i c (hOld hMem (hBelow (UInt64.lt_of_lt_of_le hLt h.behind))) hLt

/-- The attempts stay sorted when the next index is tried. -/
theorem sorted_append (i : UInt64) (l : Nat) (j : UInt64) (n : Nat)
    (hFirst : (i, l) ∈ tried ++ [(m, k)]) (hSecond : (j, n) ∈ tried ++ [(m, k)]) : i < j ↔ l < n := by
  rcases List.mem_append.mp hFirst with hOld | hNew
  · rcases List.mem_append.mp hSecond with hOld' | hNew'
    · exact h.sorted i l j n hOld hOld'
    · obtain ⟨rfl, rfl⟩ := Prod.mk.inj (List.mem_singleton.mp hNew')
      obtain ⟨hLt, hBefore⟩ := h.before i l hOld
      exact iff_of_true hLt hBefore
  · obtain ⟨rfl, rfl⟩ := Prod.mk.inj (List.mem_singleton.mp hNew)
    rcases List.mem_append.mp hSecond with hOld' | hNew'
    · obtain ⟨hLt, hBefore⟩ := h.before j n hOld'
      exact iff_of_false (UInt64.not_lt.mpr (UInt64.le_of_lt hLt)) (by omega)
    · obtain ⟨rfl, rfl⟩ := Prod.mk.inj (List.mem_singleton.mp hNew')
      exact iff_of_false (UInt64.lt_irrefl j) (Nat.lt_irrefl n)

theorem before_append (hSome : m < wi) (hLater : k < n) (i : UInt64) (l : Nat)
    (hMem : (i, l) ∈ tried ++ [(m, k)]) : i < m + 1 ∧ l < n := by
  rcases List.mem_append.mp hMem with hOld | hNew
  · obtain ⟨hLt, hBefore⟩ := h.before i l hOld
    exact ⟨UInt64.lt_trans hLt (lt_succ_of_lt hSome), by omega⟩
  · obtain ⟨rfl, rfl⟩ := Prod.mk.inj (List.mem_singleton.mp hNew)
    exact ⟨lt_succ_of_lt hSome, hLater⟩

/-- A claim that is carried out hands out the batch that is stored under the next index, if one is. -/
theorem claim (hFate : refusals k = none) (hSome : m < wi) (hCount : es.length + 1 < 2 ^ 32)
    (more : List (UInt64 × β)) (hAll : ∀ b, batchAt codec s m = some b → (m, b) ∈ more)
    (hOnly : ∀ c ∈ more, c.1 = m) :
    Accounted codec refusals stored (outs ++ more) (tried ++ [(m, k)]) (m + 1) wi (es ++ [m])
      (afterClaim s m es) (k + 1) (m + 1) (es ++ [m]) := by
  have hNext : m < m + 1 := lt_succ_of_lt hSome
  have hTried : (m, k) ∈ tried ++ [(m, k)] := List.mem_append_right _ (List.mem_singleton_self _)
  have hValue : ∀ i, batchAt codec (afterClaim s m es) i = batchAt codec s i := fun i =>
    batchAt_congr (get?_afterClaim s m es i)
  have hHere : ∀ b, (m, b) ∈ stored → (m, b) ∈ outs ++ more := fun b hMem =>
    List.mem_append_right _ (hAll b (h.waiting m b hMem (UInt64.le_refl m)))
  constructor
  case toRecords =>
    exact (h.toRecords.insert_readKey (m + 1)).insert_dispatchedKey (by simpa using hCount)
  case ordered => exact succ_le_of_lt hSome
  case behind => exact UInt64.le_refl _
  case entries =>
    intro i hMem
    have hEntry : i ∈ es ++ [m] := (List.mem_append.mp hMem).elim id id
    rcases (List.mem_append.mp hEntry).imp_right List.mem_singleton.mp with hOld | rfl
    · obtain ⟨hLt, hSent⟩ := h.entries i (List.mem_append_right _ hOld)
      exact ⟨UInt64.lt_trans hLt hNext, fun b hb => List.mem_append_left _ (hSent b hb)⟩
    · exact ⟨hNext, hHere⟩
  case written => exact h.written
  case waiting =>
    intro i b hMem hLe
    rw [hValue]
    exact h.waiting i b hMem (UInt64.le_trans (UInt64.le_of_lt hNext) hLe)
  case decided =>
    intro i b hMem hLt
    rw [hValue]
    rcases lt_or_eq_of_lt_succ hSome hLt with hOld | rfl
    · obtain ⟨l, hl, hSent, hLeft⟩ := h.decided i b hMem hOld
      exact ⟨l, List.mem_append_left _ hl, fun hNone => List.mem_append_left _ (hSent hNone), hLeft⟩
    · exact ⟨k, hTried, fun _ => hHere b hMem, fun hNone => absurd hFate hNone⟩
  case known =>
    intro i b hMem
    rcases List.mem_append.mp hMem with hOld | hNew
    · obtain ⟨l, hl, hNone⟩ := h.known i b hOld
      exact ⟨l, List.mem_append_left _ hl, hNone⟩
    · obtain rfl := hOnly _ hNew
      exact ⟨k, hTried, hFate⟩
  case before => exact h.before_append hSome (Nat.lt_succ_self k)
  case sorted => exact h.sorted_append
  case passed => exact fun i l hMem _ => (h.before_append hSome (Nat.lt_succ_self k) i l hMem).1
  case moved => exact fun i b _ hLt => ⟨m, k, hTried, le_of_lt_succ hSome hLt, hFate⟩

/-- A claim that is refused passes the next index over. -/
theorem refuse (hFate : refusals k ≠ none) (hSome : m < wi) (hCount : es.length < 2 ^ 32)
    {es' : List UInt64} (hLess : ∀ i ∈ es', i ∈ es) (hFewer : es'.length ≤ es.length)
    (hRemoved : Removed refusals (k + 1) es' m s t) (hLater : k < n) :
    ∃ ds', Accounted codec refusals stored outs (tried ++ [(m, k)]) (m + 1) wi es' t n r ds' := by
  have hNext : m < m + 1 := lt_succ_of_lt hSome
  have hTried : (m, k) ∈ tried ++ [(m, k)] := List.mem_append_right _ (List.mem_singleton_self _)
  have hValue : ∀ {i}, i ≠ m → batchAt codec t i = batchAt codec s i := fun hNe =>
    hRemoved.batchAt_of_ne hNe
  obtain ⟨ds', hRecords, hListed⟩ := hRemoved.records h.toRecords (by omega)
  refine ⟨ds', ?_⟩
  constructor
  case toRecords => exact hRecords
  case ordered => exact succ_le_of_lt hSome
  case behind => exact UInt64.le_trans h.behind (UInt64.le_of_lt hNext)
  case entries =>
    intro i hMem
    obtain ⟨hLt, hSent⟩ := h.entries i (mem_of_mem_listed hListed hLess hMem)
    exact ⟨UInt64.lt_trans hLt hNext, hSent⟩
  case written => exact h.written
  case waiting =>
    intro i b hMem hLe
    have hLt : m < i := UInt64.lt_of_lt_of_le hNext hLe
    rw [hValue (UInt64.ne_of_lt hLt).symm]
    exact h.waiting i b hMem (UInt64.le_of_lt hLt)
  case decided =>
    intro i b hMem hLt
    rcases lt_or_eq_of_lt_succ hSome hLt with hOld | rfl
    · rw [hValue (UInt64.ne_of_lt hOld)]
      obtain ⟨l, hl, hSent, hLeft⟩ := h.decided i b hMem hOld
      exact ⟨l, List.mem_append_left _ hl, hSent, hLeft⟩
    · refine ⟨k, hTried, fun hNone => absurd hNone hFate, fun _ => ?_⟩
      rw [hRemoved.batchAt_self, h.waiting i b hMem (UInt64.le_refl i)]
  case known =>
    intro i b hMem
    obtain ⟨l, hl, hNone⟩ := h.known i b hMem
    exact ⟨l, List.mem_append_left _ hl, hNone⟩
  case before => exact h.before_append hSome hLater
  case sorted => exact h.sorted_append
  case passed =>
    intro i l hMem hNone
    rcases List.mem_append.mp hMem with hOld | hNew
    · exact h.passed i l hOld hNone
    · obtain ⟨-, rfl⟩ := Prod.mk.inj (List.mem_singleton.mp hNew)
      exact absurd hNone hFate
  case moved =>
    intro i b hMem hLt
    obtain ⟨j, l, hl, hLe, hNone⟩ := h.moved i b hMem hLt
    exact ⟨j, l, List.mem_append_left _ hl, hLe, hNone⟩

/-- What was handed out, or never was a batch, may be removed. -/
theorem strike (hCount : es.length < 2 ^ 32) {es' : List UInt64} (hLess : ∀ j ∈ es', j ∈ es)
    (hFewer : es'.length ≤ es.length) (hPassed : i < m)
    (hCarried : ∀ b l, (i, b) ∈ stored → (i, l) ∈ tried → refusals l = none)
    {first : Nat} (hRemoved : Removed refusals first es' i s t) :
    ∃ ds', Accounted codec refusals stored outs tried m wi es' t k r ds' := by
  have hValue : ∀ {j}, j ≠ i → batchAt codec t j = batchAt codec s j := fun hNe =>
    hRemoved.batchAt_of_ne hNe
  obtain ⟨ds', hRecords, hListed⟩ := hRemoved.records h.toRecords (by omega)
  refine ⟨ds', { h with toRecords := hRecords, entries := ?_, waiting := ?_, decided := ?_ }⟩
  case refine_1 => exact fun j hMem => h.entries j (mem_of_mem_listed hListed hLess hMem)
  case refine_2 =>
    intro j b hMem hLe
    have hLt : i < j := UInt64.lt_of_lt_of_le hPassed hLe
    rw [hValue (UInt64.ne_of_lt hLt).symm]
    exact h.waiting j b hMem hLe
  case refine_3 =>
    intro j b hMem hLt
    obtain ⟨l, hl, hSent, hLeft⟩ := h.decided j b hMem hLt
    refine ⟨l, hl, hSent, fun hSome => ?_⟩
    have hNe : j ≠ i := by
      rintro rfl
      exact hSome (hCarried b l hMem hl)
    rw [hValue hNe]
    exact hLeft hSome

end Accounted

/-! ## Steps -/

/-- A world in which the queue that runs accounts for what was stored, tried and handed out. Workers hold
nothing else than what was handed out. -/
def World.IsAccounted (codec : Codec β) (refusals : Nat → Option StorageError)
    (stored outs : List (UInt64 × β)) (tried : List (UInt64 × Nat)) (w : World β FatedSpace) : Prop :=
  (∀ c ∈ w.carried, c ∈ outs) ∧ ∃ q s k r ds, w.running = some q ∧ w.storage = ⟨s, k, false⟩ ∧
    Accounted codec refusals stored outs tried q.readIndex q.writeIndex q.dispatched s k r ds

/-- What a step keeps, given what it has stored, tried and handed out. -/
def Keeps (codec : Codec β) (refusals : Nat → Option StorageError)
    (stored outs : List (UInt64 × β)) (tried : List (UInt64 × Nat)) (q : PersistentQueue) (next : Nat)
    (e : Event β) (w' : World β FatedSpace) : Prop :=
  ∃ q', w'.running = some q' ∧ w'.IsAccounted codec refusals (stored ++ e.puts q) (outs ++ e.handsOut)
    (tried ++ q.passes q' next)

theorem Keeps.of_accounted {next : Nat} {stored' outs' : List (UInt64 × β)}
    {tried' : List (UInt64 × Nat)}
    (h : Accounted codec refusals stored' outs' tried' q'.readIndex q'.writeIndex q'.dispatched t n r ds)
    (hRunning : w'.running = some q') (hStorage : w'.storage = ⟨t, n, false⟩)
    (hCarried : ∀ c ∈ w'.carried, c ∈ outs') (hPuts : stored ++ e.puts q = stored')
    (hOut : outs ++ e.handsOut = outs') (hPassed : tried ++ q.passes q' next = tried') :
    Keeps codec refusals stored outs tried q next e w' := by
  subst hPuts hOut hPassed
  exact ⟨q', hRunning, hCarried, q', t, n, r, ds, hRunning, hStorage, h⟩

theorem PersistentQueue.append_passes_of_eq (hRead : q'.readIndex = q.readIndex) (next : Nat) :
    tried ++ q.passes q' next = tried := by
  rw [passes, if_pos hRead, List.append_nil]

/-- Most steps change neither the indices nor what is stored. -/
theorem Accounted.keeps
    (h : Accounted codec refusals stored outs tried q.readIndex q.writeIndex q.dispatched s k r ds)
    (hRunning : w'.running = some q') (hStorage : w'.storage = ⟨s, n, false⟩) (hLater : k ≤ n)
    (hCarried : ∀ c ∈ w'.carried, c ∈ outs) (hPuts : e.puts q = []) (hOut : e.handsOut = [])
    (hRead : q'.readIndex = q.readIndex) (hWrite : q'.writeIndex = q.writeIndex)
    (hListed : q'.dispatched = q.dispatched) :
    Keeps codec refusals stored outs tried q k e w' := by
  have hSame : Accounted codec refusals stored outs tried q'.readIndex q'.writeIndex q'.dispatched s n
      r ds := by
    rw [hRead, hWrite, hListed]
    exact h.later hLater
  exact .of_accounted hSame hRunning hStorage hCarried (by rw [hPuts, List.append_nil])
    (by rw [hOut, List.append_nil])
    (PersistentQueue.append_passes_of_eq hRead k)

theorem PersistentQueue.passes_of_lt (hSome : q.readIndex < q.writeIndex)
    (hRead : q'.readIndex = q.readIndex + 1) (next : Nat) : q.passes q' next = [(q.readIndex, next)] := by
  have hNe : q'.readIndex ≠ q.readIndex := by
    rw [hRead]
    exact (UInt64.ne_of_lt (lt_succ_of_lt hSome)).symm
  rw [passes, if_neg hNe]

/-- What is left of a list of indices that was lengthened by one and then struck. -/
theorem mem_of_mem_struck {i j : UInt64} (hMem : i ∈ (es ++ [j]).filter (· != j)) : i ∈ es := by
  obtain ⟨hIn, hNe⟩ := List.mem_filter.mp hMem
  refine (List.mem_append.mp hIn).resolve_right fun hLast => ?_
  exact bne_iff_ne.mp hNe (List.mem_singleton.mp hLast)

theorem length_struck_le (es : List UInt64) (j : UInt64) :
    ((es ++ [j]).filter (· != j)).length ≤ es.length := by
  rw [List.filter_append, List.filter_cons_of_neg (by simp), List.filter_nil, List.append_nil]
  exact length_strike_le es j

/-- The item that a claim hands out. -/
def Found.handsOut : Found β → List (UInt64 × β)
  | .item (some i) b => [(i, b)]
  | _ => []

section Steps

variable (h : Accounted codec refusals stored outs tried q.readIndex q.writeIndex q.dispatched s k r ds)
include h

theorem Accounted.lt_of_ne (hWaiting : q.readIndex ≠ q.writeIndex) : q.readIndex < q.writeIndex :=
  UInt64.lt_of_le_of_ne h.ordered hWaiting

/-- What a claim leaves that had an index to hand out. -/
theorem Accounted.attempt {found : Found β} (hSome : q.readIndex < q.writeIndex)
    (hCount : q.dispatched.length + 1 < 2 ^ 32)
    (hTried : PersistentQueue.Tried codec refusals q s k found q' t n) :
    ∃ r' ds', Accounted codec refusals stored
      (outs ++ found.handsOut) (tried ++ q.passes q' k) q'.readIndex q'.writeIndex q'.dispatched t n
      r' ds' := by
  have hPassed : q.passes q' k = [(q.readIndex, k)] :=
    PersistentQueue.passes_of_lt hSome (by cases hTried <;> rfl) k
  rw [hPassed]
  cases hTried with
  | item b hCarried hBatch =>
      refine ⟨_, _, h.claim hCarried hSome hCount [(q.readIndex, b)] ?_ ?_⟩
      · intro c hc
        obtain rfl := Option.some.inj (hBatch.symm.trans hc)
        exact List.mem_singleton_self _
      · exact fun c hMem => congrArg Prod.fst (List.mem_singleton.mp hMem)
  | hole hCarried hBatch hNext hRemoved =>
      have hClaimed := h.claim hCarried hSome hCount []
        (fun c hc => absurd (hBatch.symm.trans hc).symm (Option.some_ne_none c)) (fun c hMem => nomatch hMem)
      have hNever : ∀ b l, (q.readIndex, b) ∈ stored →
          (q.readIndex, l) ∈ tried ++ [(q.readIndex, k)] → refusals l = none := by
        intro b l hStored _
        have hThere := h.waiting _ b hStored (UInt64.le_refl _)
        exact absurd (hBatch.symm.trans hThere).symm (Option.some_ne_none b)
      obtain ⟨ds', hStruck⟩ := hClaimed.strike (by simpa using hCount)
        (fun j hj => List.mem_append_left _ (mem_of_mem_struck hj))
        (List.length_filter_le _ _) (lt_succ_of_lt hSome) hNever hRemoved
      exact ⟨_, ds', hStruck.later hNext⟩
  | refused hRefused hNext hRemoved =>
      obtain ⟨ds', hLeft⟩ := h.refuse hRefused hSome (by omega) (fun j hj => mem_of_mem_struck hj)
        (length_struck_le _ _) hRemoved hNext
      rw [show (Found.nothing : Found β).handsOut = [] from rfl, List.append_nil]
      exact ⟨_, ds', hLeft⟩

/-- What the end of a sending leaves of a batch that was handed out. -/
theorem Accounted.acknowledge (hCount : q.dispatched.length < 2 ^ 32) (outcome : Outcome)
    (hSent : (i, b) ∈ outs) :
    ∃ q' t n r' ds', (q.acknowledge i outcome).run (FatedSpace.refusing refusals) ⟨s, k, false⟩ =
        (q', ⟨t, n, false⟩) ∧ q'.readIndex = q.readIndex ∧
      Accounted codec refusals stored outs tried q'.readIndex q'.writeIndex q'.dispatched t n r' ds' := by
  obtain ⟨q', t, n, hEnded, hLater, hRead, hWrite, hLeft⟩ :=
    q.run_acknowledge_refusing refusals i outcome s k
  refine ⟨q', t, n, r, ?_⟩
  rw [hRead, hWrite]
  rcases hLeft with ⟨rfl, hListed⟩ | ⟨first, hListed, hRemoved⟩
  · rw [hListed]
    exact ⟨ds, hEnded, rfl, h.later hLater⟩
  · obtain ⟨l, hTried, hNone⟩ := h.known i b hSent
    have hCarried : ∀ c l', (i, c) ∈ stored → (i, l') ∈ tried → refusals l' = none := by
      intro c l' _ hTried'
      rw [h.tried_unique hTried' hTried]
      exact hNone
    obtain ⟨ds', hStruck⟩ := h.strike hCount (fun j hj => List.mem_of_mem_filter hj)
      (List.length_filter_le _ _) (h.before i l hTried).1 hCarried hRemoved
    rw [hListed]
    exact ⟨ds', hEnded, rfl, hStruck.later hLater⟩

end Steps

/-- A refusal to take a batch leaves the queue and what is stored. -/
theorem PersistentQueue.eq_of_run_offerLocked {value : Bytes} {answer : Except QueueError PersistentQueue}
    {f : FatedSpace} (hRun : (q.offerLocked value).run (FatedSpace.refusing refusals) ⟨s, k, false⟩ =
      (answer, f)) :
    (∃ e n, answer = .error e ∧ f = ⟨s, n, false⟩ ∧ k ≤ n) ∨
      (answer = .ok (q.grown (q.writeIndex + 1) 1) ∧ f = ⟨afterPut s q.writeIndex value, k + 1, false⟩) := by
  cases hRoom : q.refusal? with
  | some e =>
      rw [offerLocked_of_refusal hRoom] at hRun
      cases hRun
      exact .inl ⟨e, k, rfl, rfl, Nat.le_refl k⟩
  | none =>
      rw [run_offerLocked_refusing hRoom] at hRun
      cases hFate : refusals k with
      | none =>
          rw [hFate] at hRun
          cases hRun
          exact .inr ⟨rfl, rfl⟩
      | some e =>
          rw [hFate] at hRun
          cases hRun
          exact .inl ⟨_, k + 1, rfl, rfl, Nat.le_succ k⟩

theorem PersistentQueue.run_claim_cases {found : Found β} {f : FatedSpace}
    (hRun : (q.claim codec).run (FatedSpace.refusing refusals) ⟨s, k, false⟩ = ((found, q'), f)) :
    ((∀ i b, found ≠ .item i b) ∧ q' = q ∧ f = ⟨s, k, false⟩) ∨
      (q.readIndex ≠ q.writeIndex ∧ ∃ t n, f = ⟨t, n, false⟩ ∧
        Tried codec refusals q s k found q' t n) := by
  cases claim_cases codec q s with
  | idle none hNone hIdle hClaim =>
      rw [hClaim] at hRun
      cases hRun
      exact .inl ⟨hNone, rfl, rfl⟩
  | item b hOpen hWaiting hBatch | hole hOpen hWaiting hBatch =>
      obtain ⟨found', q₁, t, n, hClaim, hTried⟩ :=
        run_claim_refusing codec refusals hOpen hWaiting s k
      cases hClaim.symm.trans hRun
      exact .inr ⟨hWaiting, t, n, rfl, hTried⟩

/-- A step keeps the account. -/
theorem World.IsAccounted.step
    (hCodec : ∀ b, admits b → codec.unmarshal? (codec.marshal b) = some b)
    (h : w.IsAccounted codec refusals stored outs tried) (hWords : w.FitsWords)
    (hStep : Step (Setup.refusing codec admits refusals) w e w') (hLocal : e.isLocal = true)
    (hRunning : w.running = some q) :
    Keeps codec refusals stored outs tried q w.storage.next e w' := by
  obtain ⟨hCarried, p, s, k, r, ds, hp, hStorage, h⟩ := h
  have hSame : ∀ {p}, w.running = some p → q = p := fun hp => Option.some.inj (hRunning.symm.trans hp)
  obtain rfl := hSame hp
  obtain ⟨hIndices, hCount⟩ := hWords q hRunning
  rw [hStorage]
  cases hStep with
  | start => exact absurd hLocal Bool.noConfusion
  | die | dieOffering | dieClaiming | dieEnding => exact absurd hLocal Bool.noConfusion
  | @offer _ q' f b hOwn hAdmitted hRun =>
      obtain rfl := hSame hOwn
      rw [hStorage] at hRun
      rcases PersistentQueue.eq_of_run_offerLocked hRun with ⟨e, n, hAnswer, -⟩ | ⟨hAnswer, rfl⟩
      · cases hAnswer
      · obtain rfl := Except.ok.inj hAnswer
        exact .of_accounted (h.put (by omega) (hCodec b hAdmitted)) rfl rfl hCarried rfl
          (List.append_nil _) (PersistentQueue.append_passes_of_eq rfl k)
  | refuse hOwn hRun =>
      obtain rfl := hSame hOwn
      rw [hStorage] at hRun
      rcases PersistentQueue.eq_of_run_offerLocked hRun with ⟨e, n, -, rfl, hLater⟩ | ⟨hAnswer, -⟩
      · exact h.keeps hRunning rfl hLater hCarried rfl rfl rfl rfl rfl
      · cases hAnswer
  | turnAway hOwn hRetired =>
      exact h.keeps hRunning hStorage (Nat.le_refl k) hCarried rfl rfl rfl rfl rfl
  | wake hOwn hOwed =>
      obtain rfl := hSame hOwn
      exact h.keeps rfl hStorage (Nat.le_refl k) hCarried rfl rfl rfl rfl rfl
  | call hOwn hOpen hPermit =>
      obtain rfl := hSame hOwn
      rw [PersistentQueue.takePermit] at hPermit
      split at hPermit
      · cases hPermit
        exact h.keeps rfl hStorage (Nat.le_refl k) hCarried rfl rfl rfl rfl rfl
      · cases hPermit
  | @claim _ q' f i b hOwn hCalled hRun =>
      obtain rfl := hSame hOwn
      rw [hStorage] at hRun
      rcases PersistentQueue.run_claim_cases hRun with ⟨hNone, -⟩ | ⟨hWaiting, t, n, rfl, hTried⟩
      · exact absurd rfl (hNone (some i) b)
      · obtain ⟨r', ds', hLeft⟩ := h.attempt (h.lt_of_ne hWaiting) hCount hTried
        refine .of_accounted hLeft rfl rfl (fun c hMem => ?_) (List.append_nil _) rfl rfl
        exact (List.mem_append.mp hMem).elim (fun hOld => List.mem_append_left _ (hCarried c hOld))
          (List.mem_append_right _)
  | @miss _ q' f found hOwn hCalled hRun hNone =>
      obtain rfl := hSame hOwn
      rw [hStorage] at hRun
      rcases PersistentQueue.run_claim_cases hRun with ⟨-, rfl, rfl⟩ | ⟨hWaiting, t, n, rfl, hTried⟩
      · exact h.keeps rfl rfl (Nat.le_refl k) hCarried rfl rfl rfl rfl rfl
      · obtain ⟨r', ds', hLeft⟩ := h.attempt (h.lt_of_ne hWaiting) hCount hTried
        have hNothing : found.handsOut = [] := by
          cases found with
          | item i b => exact absurd rfl (hNone i b)
          | _ => rfl
        rw [hNothing, List.append_nil] at hLeft
        exact .of_accounted hLeft rfl rfl hCarried (List.append_nil _) (List.append_nil _) rfl
  | @finish _ q' f before after i b hOwn hHeld outcome hRun =>
      obtain rfl := hSame hOwn
      rw [hStorage] at hRun
      have hSent : (i, b) ∈ outs := hCarried _ (by rw [hHeld]; simp)
      have hFewer : ∀ c ∈ before ++ after, c ∈ outs := by
        intro c hMem
        apply hCarried
        rw [hHeld]
        rcases List.mem_append.mp hMem with hIn | hIn
        · exact List.mem_append_left _ hIn
        · exact List.mem_append_right _ (List.mem_cons_of_mem _ hIn)
      obtain ⟨q₁, t, n, r', ds', hEnded, hRead, hLeft⟩ := h.acknowledge (by omega) outcome hSent
      cases hEnded.symm.trans hRun
      exact .of_accounted hLeft rfl rfl hFewer (List.append_nil _) (List.append_nil _)
        (PersistentQueue.append_passes_of_eq hRead k)
  | retire hOwn =>
      obtain rfl := hSame hOwn
      exact h.keeps rfl hStorage (Nat.le_refl k) hCarried rfl rfl rfl rfl rfl
  | stop hOwn hRetired =>
      obtain rfl := hSame hOwn
      exact h.keeps rfl hStorage (Nat.le_refl k) hCarried rfl rfl rfl rfl rfl
  | dismiss hOwn hStopped =>
      obtain rfl := hSame hOwn
      exact h.keeps rfl hStorage (Nat.le_refl k) hCarried rfl rfl rfl rfl rfl
  | detach hOwn hClosed hCalled hIdle hRun =>
      obtain rfl := hSame hOwn
      rw [hStorage, PersistentQueue.detach] at hRun
      split at hRun
      · obtain ⟨q', hUnref, hRead, hWrite, hListed⟩ := q.run_unref_refusing ⟨s, k, false⟩
        cases hUnref.symm.trans hRun
        exact h.keeps rfl rfl (Nat.le_refl k) hCarried rfl rfl hRead hWrite hListed
      · cases hRun
        exact h.keeps rfl rfl (Nat.le_refl k) hCarried rfl rfl rfl rfl rfl

/-! ## Runs -/

/-- Every run of one queue is booked. -/
theorem Runs.booked {setup : Setup β FatedSpace} {origin : World β FatedSpace}
    (hRuns : Runs setup World.FitsWords origin trace w) (hLocal : ∀ e ∈ trace, e.isLocal = true) :
    ∃ stored tried, Booked setup origin trace stored tried w := by
  induction hRuns with
  | refl => exact ⟨[], [], .refl⟩
  | step prior hWords last ih =>
      obtain ⟨hHere, hBefore⟩ := List.forall_mem_cons.mp hLocal
      obtain ⟨stored, tried, hBooked⟩ := ih hBefore
      obtain ⟨q, hRunning⟩ := last.running_of_isLocal hHere
      obtain ⟨q', hRunning'⟩ := last.exists_running hHere
      exact ⟨_, _, .step hBooked hWords last hHere hRunning hRunning'⟩

/-- What is booked as stored are the batches accepted. -/
theorem Booked.acceptances_eq {setup : Setup β FatedSpace} {origin : World β FatedSpace}
    (h : Booked setup origin trace stored tried w) : stored.map Prod.snd = acceptances trace := by
  induction h with
  | refl => rfl
  | @step trace stored tried w w' e q q' prior hWords last hLocal hRunning hRunning' ih =>
      have hHere : (e.puts q).map Prod.snd = e.takesIn := by cases e <;> rfl
      rw [acceptances_cons, List.map_append, ih, hHere]

theorem Booked.isAccounted {origin : World β FatedSpace}
    (hCodec : ∀ b, admits b → codec.unmarshal? (codec.marshal b) = some b)
    (hOrigin : origin.IsAccounted codec refusals [] [] [])
    (h : Booked (Setup.refusing codec admits refusals) origin trace stored tried w) :
    w.IsAccounted codec refusals stored (handouts trace) tried := by
  induction h with
  | refl => exact hOrigin
  | @step trace stored tried w w' e q q' prior hWords last hLocal hRunning hRunning' ih =>
      obtain ⟨p, hp, hKept⟩ := ih.step hCodec hWords last hLocal hRunning
      obtain rfl : p = q' := Option.some.inj (hp.symm.trans hRunning')
      rw [handouts_cons]
      exact hKept

namespace Accounted

variable (h : Accounted codec refusals stored outs tried m wi es s k r ds)
include h

/-- A batch that was not handed out is live exactly if its value is there and the stored read index has
not passed it. -/
theorem live_iff (hStored : (i, b) ∈ stored) (hNot : (i, b) ∉ outs) :
    Live codec s i b ↔ batchAt codec s i = some b ∧ r ≤ i := by
  constructor
  · rintro ⟨hBatch, r', wi', ds', hRecords, hMem⟩
    obtain ⟨rfl, rfl, rfl⟩ := h.toRecords.unique hRecords
    refine ⟨hBatch, ?_⟩
    rcases hMem with hListed | hWaiting
    · exact absurd ((h.entries i (List.mem_append_left _ hListed)).2 b hStored) hNot
    · exact (mem_window.mp hWaiting).1
  · rintro ⟨hBatch, hLe⟩
    exact ⟨hBatch, r, wi, ds, h.toRecords, .inr (mem_window.mpr ⟨hLe, h.written i b hStored⟩)⟩

/-- The stored read index passes what was refused with the first later claim that is carried out. -/
theorem lt_iff_of_refused {l : Nat} (hStored : (i, b) ∈ stored) (hTried : (i, l) ∈ tried)
    (hRefused : refusals l ≠ none) :
    i < r ↔ ∃ j n, (j, n) ∈ tried ∧ l < n ∧ refusals n = none := by
  constructor
  · intro hLt
    obtain ⟨j, n, hLater, hLe, hCarried⟩ := h.moved i b hStored hLt
    have hNe : i ≠ j := by
      rintro rfl
      exact hRefused (h.tried_unique hLater hTried ▸ hCarried)
    exact ⟨j, n, hLater, (h.sorted i l j n hTried hLater).mp (UInt64.lt_of_le_of_ne hLe hNe), hCarried⟩
  · rintro ⟨j, n, hLater, hLt, hCarried⟩
    exact UInt64.lt_trans ((h.sorted i l j n hTried hLater).mpr hLt) (h.passed j n hLater hCarried)

/-- What was stored was handed out, or is live, unless it is forfeited. -/
theorem sent_or_live_iff (hStored : (i, b) ∈ stored) :
    ((i, b) ∈ outs ∨ Live codec s i b) ↔ ¬Forfeited refusals tried i := by
  by_cases hPassed : i < m
  · obtain ⟨l, hTried, hSent, hLeft⟩ := h.decided i b hStored hPassed
    by_cases hCarried : refusals l = none
    · refine iff_of_true (.inl (hSent hCarried)) ?_
      rintro ⟨n, hAgain, hRefused, -⟩
      exact hRefused (h.tried_unique hTried hAgain ▸ hCarried)
    · have hNot : (i, b) ∉ outs := by
        intro hMem
        obtain ⟨n, hAgain, hNone⟩ := h.known i b hMem
        exact hCarried (h.tried_unique hAgain hTried ▸ hNone)
      have hForfeited : Forfeited refusals tried i ↔
          (refusals (l + 1) = none ∨ refusals (l + 2) = none) ∨ i < r := by
        rw [h.lt_iff_of_refused hStored hTried hCarried, or_assoc]
        constructor
        · rintro ⟨n, hAgain, -, hLost⟩
          rwa [h.tried_unique hAgain hTried] at hLost
        · exact fun hLost => ⟨l, hTried, hCarried, hLost⟩
      rw [or_iff_right hNot, h.live_iff hStored hNot, hForfeited, hLeft hCarried, not_or,
        UInt64.not_lt]
      by_cases hRemoved : refusals (l + 1) = none ∨ refusals (l + 2) = none
      · simp [hRemoved]
      · simp [hRemoved]
  · have hLe : m ≤ i := UInt64.not_lt.mp hPassed
    have hLive : Live codec s i b := ⟨h.waiting i b hStored hLe, r, wi, ds, h.toRecords,
      .inr (mem_window.mpr ⟨UInt64.le_trans h.behind hLe, h.written i b hStored⟩)⟩
    refine iff_of_true (.inr hLive) ?_
    rintro ⟨l, hTried, -⟩
    exact hPassed (h.before i l hTried).1

end Accounted

/-- A start that was answered well leaves nothing to account for. -/
theorem Step.isAccounted_of_start
    (hAlive : w.storage.dead = false)
    (hRoom : ∀ r wi ds, Records w.storage.space r wi ds → wi.toNat + ds.length < 2 ^ 64)
    (hStart : Step (Setup.refusing codec admits refusals) w (.started (.ok ())) w') :
    w'.IsAccounted codec refusals [] [] [] := by
  obtain ⟨⟨s, k, dead⟩, running, owed, called, carried⟩ := w
  obtain rfl : dead = false := hAlive
  cases hStart with
  | @start q q' f answer hNew hFree number hRun =>
      obtain ⟨r, wi, ds, hRecords, hLeft⟩ := PersistentQueue.exists_of_start hRun
      obtain ⟨hListed, hOrdered, hRecords', hAlive'⟩ := hLeft (hRoom r wi ds hRecords)
      obtain ⟨t, n, dead⟩ := f
      obtain rfl : dead = false := hAlive'
      refine ⟨fun _ hMem => absurd hMem List.not_mem_nil, q', t, n, q'.readIndex, [], rfl, rfl, ?_⟩
      rw [hListed, hNew.dispatched]
      exact .start hRecords' hOrdered

/-- A queue whose start was answered well, on storage that refuses any batches of operations as a whole.
In every run of it, a batch that was accepted was handed to a worker or is stored at a live index exactly
if its index is not forfeited: if the first batch of operations of its claim was not refused, or neither
attempt to remove the value that followed and no later claim was carried out. It is assumed that batches
can be read back, and that indices and their number fit into their words. -/
theorem accepted_batch_sent_or_live_iff
    (hCodec : ∀ b, admits b → codec.unmarshal? (codec.marshal b) = some b)
    {origin w₁ : World β FatedSpace} (hAlive : origin.storage.dead = false)
    (hRoom : ∀ r wi ds, Records origin.storage.space r wi ds → wi.toNat + ds.length < 2 ^ 64)
    (hStart : Step (Setup.refusing codec admits refusals) origin (.started (.ok ())) w₁)
    (hRuns : Runs (Setup.refusing codec admits refusals) World.FitsWords w₁ trace w)
    (hLocal : ∀ e ∈ trace, e.isLocal = true) :
    ∃ stored tried, Booked (Setup.refusing codec admits refusals) w₁ trace stored tried w ∧
      stored.map Prod.snd = acceptances trace ∧
      ∀ i b, (i, b) ∈ stored →
        (((i, b) ∈ handouts trace ∨ Live codec w.storage.space i b) ↔ ¬Forfeited refusals tried i) := by
  obtain ⟨stored, tried, hBooked⟩ := hRuns.booked hLocal
  obtain ⟨-, q, s, k, r, ds, -, hStorage, hAccounted⟩ :=
    hBooked.isAccounted hCodec (Step.isAccounted_of_start hAlive hRoom hStart)
  refine ⟨stored, tried, hBooked, hBooked.acceptances_eq, fun i b hStored => ?_⟩
  rw [hStorage]
  exact hAccounted.sent_or_live_iff hStored

/-! ## A claim that is refused -/

/-- Of a start, an offer and a claim, the only batch of operations that is refused is that of the
claim. -/
def claimRefused : Nat → Option StorageError := fun k => if k = 3 then some (.io "no space left") else none

abbrev Setup.unreliable : Setup Bytes FatedSpace := .refusing Codec.plain (fun _ => True) claimRefused

/-- The first queue, before anything was offered. -/
def calm : World Bytes FatedSpace := ⟨⟨[], 2, false⟩, some firstQueue, 0, 0, []⟩

/-- The first queue, after its only claim was refused and the value removed. -/
def bereft : World Bytes FatedSpace :=
  ⟨⟨afterRemoval (afterPut [] 0 [7]) [] 0, 5, false⟩,
    some ((firstQueue.grown 1 1).advanced.struck 0), 0, 0, []⟩

theorem step_calm : Step Setup.unreliable (.idle ⟨[], 0, false⟩) (.started (.ok ())) calm :=
  .start (PersistentQueue.unstarted_empty 5) (by rintro q ⟨⟩) 0 rfl

theorem runs_bereft :
    Runs Setup.unreliable World.FitsWords calm [.quiet, .quiet, .quiet, .accepted [7]] bereft := by
  have hStored : Runs Setup.unreliable World.FitsWords calm [.accepted [7]]
      ⟨⟨afterPut [] 0 [7], 3, false⟩, some (firstQueue.grown 1 1), 1, 0, []⟩ :=
    .step .refl (by rintro q ⟨⟩; decide) (.offer rfl trivial rfl)
  have hCalled : Runs Setup.unreliable World.FitsWords calm [.quiet, .quiet, .accepted [7]]
      ⟨⟨afterPut [] 0 [7], 3, false⟩, some (firstQueue.grown 1 1), 0, 1, []⟩ :=
    .step (.step hStored (by rintro q ⟨⟩; decide) (.wake rfl (by decide)))
      (by rintro q ⟨⟩; decide) (.call rfl rfl rfl)
  have hMissed : ((firstQueue.grown 1 1).claim Codec.plain).run (FatedSpace.refusing claimRefused)
      ⟨afterPut [] 0 [7], 3, false⟩ =
        ((.nothing, (firstQueue.grown 1 1).advanced.struck 0), bereft.storage) := rfl
  exact .step hCalled (by rintro q ⟨⟩; decide)
    (.miss rfl (by decide) hMissed fun _ _ hEq => nomatch hEq)

theorem accepted_batch_sent_or_live_iff_bereft :
    ∃ stored tried, Booked Setup.unreliable calm [.quiet, .quiet, .quiet, .accepted [7]] stored tried
        bereft ∧
      stored.map Prod.snd = [[7]] ∧
      ∀ i b, (i, b) ∈ stored →
        (((i, b) ∈ handouts ([.quiet, .quiet, .quiet, .accepted [7]] : List (Event Bytes)) ∨
          Live Codec.plain bereft.storage.space i b) ↔ ¬Forfeited claimRefused tried i) := by
  have hAlive : (World.idle ⟨[], 0, false⟩ : World Bytes FatedSpace).storage.dead = false := rfl
  refine accepted_batch_sent_or_live_iff (fun _ _ => rfl) hAlive ?_ step_calm runs_bereft (by decide)
  intro r wi ds hRecords
  obtain ⟨rfl, rfl, rfl⟩ := (Books.empty Codec.plain fun _ => True).toRecords.unique hRecords
  decide

/-- An accepted batch is neither handed out nor live nor refused after its claim was refused. -/
theorem accepted_batch_vanishes :
    Step Setup.unreliable (.idle ⟨[], 0, false⟩) (.started (.ok ())) calm ∧
      Runs Setup.unreliable World.FitsWords calm [.quiet, .quiet, .quiet, .accepted [7]] bereft ∧
      ([7] : Bytes) ∈ acceptances ([.quiet, .quiet, .quiet, .accepted [7]] : List (Event Bytes)) ∧
      ¬(([7] : Bytes) ∈ (handouts ([.quiet, .quiet, .quiet, .accepted [7]] :
            List (Event Bytes))).map Prod.snd ∨
        (∃ i, Live Codec.plain bereft.storage.space i [7]) ∨
        ∃ e, Event.refused [7] e ∈ ([.quiet, .quiet, .quiet, .accepted [7]] : List (Event Bytes))) := by
  refine ⟨step_calm, runs_bereft, List.mem_singleton_self _, ?_⟩
  rintro (hHanded | ⟨i, hBatch, -⟩ | ⟨e, hRefused⟩)
  · exact nomatch hHanded
  · have hNone : batchAt Codec.plain bereft.storage.space i = none := by
      change ((afterRemoval (afterPut [] 0 [7]) [] 0).get? (itemKey i)).bind _ = none
      rw [get?_afterRemoval, get?_afterPut]
      by_cases hFirst : i = 0
      · rw [if_pos hFirst, Option.bind_none]
      · rw [if_neg hFirst, if_neg hFirst]
        rfl
    exact absurd (hNone.symm.trans hBatch).symm (Option.some_ne_none _)
  · simp at hRefused

end Telemetry.Queue

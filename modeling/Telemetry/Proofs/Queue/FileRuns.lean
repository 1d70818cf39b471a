import Telemetry.Proofs.Queue.Representation
import Telemetry.Proofs.Storage.FileSpace

/-!
# Queues on files

A client of a directory carries out the operations of a batch one after the other, so that a process
may die between two of them. What a queue does to the directory it does to the namespace that the
directory shows, and what is lost is given exactly.
-/

namespace Telemetry.Queue

open Storage (Access FileClient FileSystem Operation Space)
open Text (Bytes)

variable {β : Type} {codec : Codec β} {admits : β → Prop}

/-! ## Keys -/

/-- Every key that a queue uses has a file. -/
theorem fits_itemKey (i : UInt64) : FileClient.Fits (itemKey i) where
  nonempty := by
    have hSome : (Nat.toDigits 10 i.toNat) ≠ [] := Nat.toDigits_ne_nil
    rw [itemKey, String.isEmpty_eq_false_iff]
    intro hEq
    have hChars := congrArg String.toList hEq
    rw [String.toList_ofList] at hChars
    exact hSome hChars
  short := by
    have hDigits : (Nat.toDigits 10 i.toNat).length ≤ 20 := by
      rw [Nat.length_toDigits_le_iff (by decide) (by decide)]
      have hBound := i.toNat_lt
      omega
    have hAscii : ∀ c ∈ Nat.toDigits 10 i.toNat, c.utf8Size = 1 := by
      intro c hc
      have hDigit := Nat.isDigit_of_mem_toDigits (by decide) (by decide) hc
      rw [Char.isDigit, Bool.and_eq_true, decide_eq_true_iff, decide_eq_true_iff] at hDigit
      exact Char.utf8Size_eq_one_iff.mpr (UInt32.le_trans hDigit.2 (by decide))
    have hShort : FileClient.temporaryEnding.utf8ByteSize = 4 := by decide
    rw [itemKey, Text.utf8ByteSize_ofList hAscii, hShort, FileSystem.longestName]
    omega

theorem fits_record {key : String} (h : key = readKey ∨ key = writeKey ∨ key = dispatchedKey) :
    FileClient.Fits key := by
  rcases h with rfl | rfl | rfl <;> exact ⟨by decide, by decide⟩

theorem fits_readKey : FileClient.Fits readKey := fits_record (.inl rfl)

theorem fits_writeKey : FileClient.Fits writeKey := fits_record (.inr (.inl rfl))

theorem fits_dispatchedKey : FileClient.Fits dispatchedKey := fits_record (.inr (.inr rfl))

namespace PersistentQueue

theorem put_within (q : PersistentQueue) (value : Bytes) : (q.put value).Within FileClient.Fits := by
  refine ⟨?_, fun _ => trivial⟩
  intro op hMem
  rcases List.mem_pair.mp hMem with rfl | rfl
  · exact fits_writeKey
  · exact fits_itemKey _

theorem offerLocked_within (q : PersistentQueue) (value : Bytes) :
    (q.offerLocked value).Within FileClient.Fits := by
  rw [offerLocked]
  refine (Access.within_require _).bind fun _ => ?_
  split
  · exact Access.within_pure _
  · exact (q.put_within value).bind fun _ => Access.within_pure _

theorem remove_within (q : PersistentQueue) (i : UInt64) :
    (q.remove i).Within FileClient.Fits := by
  have hBoth : ∀ op ∈ [Operation.set dispatchedKey (encodeIndices (q.dispatched.filter (· != i))),
      .delete (itemKey i)], FileClient.Fits op.key := by
    intro op hMem
    rcases List.mem_pair.mp hMem with rfl | rfl
    · exact fits_dispatchedKey
    · exact fits_itemKey i
  rw [remove]
  refine (Access.within_perform hBoth).bind fun answer => ?_
  cases answer with
  | ok reads => exact Access.within_pure _
  | error e =>
      refine Access.Within.bind ⟨?_, fun _ => trivial⟩ fun _ =>
        Access.Within.bind ⟨?_, fun _ => trivial⟩ fun _ => Access.within_pure _
      · exact List.forall_mem_singleton.mpr (fits_itemKey i)
      · exact List.forall_mem_singleton.mpr fits_dispatchedKey

theorem claim_within (codec : Codec β) (q : PersistentQueue) :
    (q.claim codec).Within FileClient.Fits := by
  rw [claim]
  split
  · exact Access.within_pure _
  split
  · exact Access.within_pure _
  refine (Access.within_perform ?_).bind fun answer => ?_
  · intro op hMem
    simp only [List.mem_cons, List.not_mem_nil, or_false] at hMem
    rcases hMem with rfl | rfl | rfl
    · exact fits_readKey
    · exact fits_dispatchedKey
    · exact fits_itemKey _
  · split
    · exact Access.within_pure _
    · exact (remove_within _ _).bind fun _ => Access.within_pure _

theorem unref_within (q : PersistentQueue) : q.unref.Within FileClient.Fits := by
  rw [unref]
  split
  · exact trivial
  · exact Access.within_pure _

theorem acknowledge_within (q : PersistentQueue) (i : UInt64) (outcome : Outcome) :
    (q.acknowledge i outcome).Within FileClient.Fits := by
  have hBoth : ∀ keep : Bool, (if keep || q.client.isNone then q.unref
      else q.remove i >>= unref).Within FileClient.Fits := by
    intro keep
    split
    · exact q.unref_within
    · exact (q.remove_within i).bind unref_within
  cases outcome with
  | ok u => exact hBoth false
  | error e => exact hBoth e.isShutdown

theorem detach_within (q : PersistentQueue) : q.detach.Within FileClient.Fits := by
  rw [detach]
  split
  · exact q.unref_within
  · exact Access.within_pure _

theorem putAll_within (codec : Codec β) (values : List (Option Bytes)) (q : PersistentQueue) :
    (putAll codec q values).Within FileClient.Fits := by
  induction values generalizing q with
  | nil => exact Access.within_pure _
  | cons value rest ih =>
      rw [putAll]
      split
      · exact ih q
      · exact (q.put_within _).bind fun _ => ih _

theorem recover_within (codec : Codec β) (q : PersistentQueue) :
    (q.recover codec).Within FileClient.Fits := by
  rw [recover]
  refine Access.Within.bind ⟨List.forall_mem_singleton.mpr fits_dispatchedKey, fun _ => trivial⟩
    fun answer => ?_
  split
  · exact Access.within_pure _
  · exact Access.within_pure _
  split
  · exact Access.within_pure _
  · exact Access.within_pure _
  refine (Access.within_perform ?_).bind fun answer => ?_
  · intro op hMem
    rcases List.mem_cons.mp hMem with rfl | hRead
    · exact fits_dispatchedKey
    · obtain ⟨i, -, rfl⟩ := List.mem_map.mp hRead
      exact fits_itemKey i
  split
  · exact Access.within_pure _
  refine (putAll_within codec _ q).bind fun q => (Access.within_perform ?_).bind fun _ =>
    Access.within_pure _
  intro op hMem
  obtain ⟨i, -, rfl⟩ := List.mem_map.mp hMem
  exact fits_itemKey i

theorem start_within (codec : Codec β) (number : Nat) (q : PersistentQueue) :
    (q.start codec number).Within FileClient.Fits := by
  have hLoad : ∀ q : PersistentQueue, q.load.Within FileClient.Fits := by
    intro q
    rw [load]
    refine (Access.within_perform ?_).bind fun answer => ?_
    · intro op hMem
      rcases List.mem_pair.mp hMem with rfl | rfl
      · exact fits_readKey
      · exact fits_writeKey
    · split <;> exact Access.within_pure _
  rw [start]
  refine (hLoad _).bind fun answer => ?_
  split
  · exact Access.within_pure _
  · refine (recover_within codec _).bind fun answer => ?_
    split
    · exact Access.within_pure _
    · exact (Access.within_require _).bind fun _ => Access.within_pure _

end PersistentQueue

/-! ## Runs -/

variable {c : FileClient} {fs : FileSystem} {s : Space} {trace : List (Event β)} {e : Event β}

/-- A directory as storage. A process may die between any two operations. -/
abbrev Setup.ofFiles (c : FileClient) (codec : Codec β) (admits : β → Prop) :
    Setup β FileSystem := ⟨c.client, codec, admits, true⟩

/-- The same world on another storage. -/
def World.on {σ τ : Type} (w : World β σ) (t : τ) : World β τ :=
  ⟨t, w.running, w.owed, w.called, w.carried⟩

/-- What a queue does to a directory it does to the namespace that the directory shows. -/
theorem Step.shows {w w' : World β FileSystem} (hOpen : c.closed = false)
    (hStep : Step (Setup.ofFiles c codec admits) w e w') (hShows : c.Shows w.storage s) :
    ∃ s', Step (Setup.ofSpace codec admits true) (w.on s) e (w'.on s') ∧ c.Shows w'.storage s' := by
  have hRuns : ∀ {α : Type} {p : Access α}, p.Within FileClient.Fits → ∀ {a : α} {fs' : FileSystem},
      p.run c.client w.storage = (a, fs') →
        p.run Space.client s = (a, (p.run Space.client s).2) ∧
          c.Shows fs' (p.run Space.client s).2 := by
    intro α p hKeys a fs' hRun
    obtain ⟨fs'', hSame, hLast⟩ := hShows.run hOpen hKeys
    cases hSame.symm.trans hRun
    exact ⟨rfl, hLast⟩
  cases hStep with
  | start hNew hFree number hRun =>
      obtain ⟨hRun', hLast⟩ := hRuns (PersistentQueue.start_within codec number _) hRun
      exact ⟨_, .start (w := w.on s) hNew hFree number hRun', hLast⟩
  | offer hRunning hAdmitted hRun =>
      obtain ⟨hRun', hLast⟩ := hRuns (PersistentQueue.offerLocked_within _ _) hRun
      exact ⟨_, .offer (w := w.on s) hRunning hAdmitted hRun', hLast⟩
  | refuse hRunning hRun =>
      obtain ⟨hRun', hLast⟩ := hRuns (PersistentQueue.offerLocked_within _ _) hRun
      exact ⟨_, .refuse (w := w.on s) hRunning hRun', hLast⟩
  | turnAway hRunning hRetired => exact ⟨s, .turnAway (w := w.on s) hRunning hRetired, hShows⟩
  | wake hRunning hOwed => exact ⟨s, .wake (w := w.on s) hRunning hOwed, hShows⟩
  | call hRunning hOpen hPermit => exact ⟨s, .call (w := w.on s) hRunning hOpen hPermit, hShows⟩
  | claim hRunning hCalled hRun =>
      obtain ⟨hRun', hLast⟩ := hRuns (PersistentQueue.claim_within codec _) hRun
      exact ⟨_, .claim (w := w.on s) hRunning hCalled hRun', hLast⟩
  | miss hRunning hCalled hRun hNone =>
      obtain ⟨hRun', hLast⟩ := hRuns (PersistentQueue.claim_within codec _) hRun
      exact ⟨_, .miss (w := w.on s) hRunning hCalled hRun' hNone, hLast⟩
  | finish hRunning hCarried outcome hRun =>
      obtain ⟨hRun', hLast⟩ := hRuns (PersistentQueue.acknowledge_within _ _ outcome) hRun
      exact ⟨_, .finish (w := w.on s) hRunning hCarried outcome hRun', hLast⟩
  | retire hRunning => exact ⟨s, .retire (w := w.on s) hRunning, hShows⟩
  | stop hRunning hRetired => exact ⟨s, .stop (w := w.on s) hRunning hRetired, hShows⟩
  | dismiss hRunning hStopped => exact ⟨s, .dismiss (w := w.on s) hRunning hStopped, hShows⟩
  | detach hRunning hClosed hCalled hCarried hRun =>
      obtain ⟨hRun', hLast⟩ := hRuns (PersistentQueue.detach_within _) hRun
      exact ⟨_, .detach (w := w.on s) hRunning hClosed hCalled hCarried hRun', hLast⟩
  | die => exact ⟨s, .die (w := w.on s), hShows⟩
  | dieOffering hRunning hAdmitted hRoom hCut =>
      exact ⟨_, .dieOffering (w := w.on s) hRunning hAdmitted hRoom (.inl rfl),
        hShows.cut hOpen (PersistentQueue.offerLocked_within _ _) _⟩
  | @dieClaiming q hRunning count hCut =>
      have hKeys := PersistentQueue.claim_within codec q
      obtain ⟨fs', hRun, -⟩ := hShows.run hOpen hKeys
      have hFound : ((q.claim codec).run c.client w.storage).1.1 =
          ((q.claim codec).run Space.client s).1.1 := by rw [hRun]
      rw [hFound]
      exact ⟨_, .dieClaiming (w := w.on s) hRunning (.inl rfl), hShows.cut hOpen hKeys count⟩
  | dieEnding hRunning hMem outcome hCut =>
      exact ⟨_, .dieEnding (w := w.on s) hRunning hMem outcome (.inl rfl),
        hShows.cut hOpen (PersistentQueue.acknowledge_within _ _ outcome) _⟩

/-- Runs on a directory are runs on the namespace that it shows. -/
theorem Runs.shows {w : World β FileSystem} (hOpen : c.closed = false) (hShows : c.Shows fs [])
    (hRuns : Runs (Setup.ofFiles c codec admits) World.FitsWords (.idle fs) trace w) :
    ∃ s, Runs (Setup.ofSpace codec admits true) World.FitsWords (.idle []) trace (w.on s) ∧
      c.Shows w.storage s := by
  induction hRuns with
  | refl => exact ⟨[], .refl, hShows⟩
  | step prior hWords last ih =>
      obtain ⟨s, hPrior, hBefore⟩ := ih
      obtain ⟨s', hLast, hAfter⟩ := last.shows hOpen hBefore
      exact ⟨s', .step hPrior hWords hLast, hAfter⟩

theorem lost_eq_zero_iff (trace : List (Event β)) :
    lost trace = 0 ↔ ∀ index b, Event.diedClaiming (.item index b) 1 ∉ trace := by
  induction trace with
  | nil => exact ⟨fun _ _ _ => List.not_mem_nil, fun _ => rfl⟩
  | cons e rest ih =>
      rw [lost_cons]
      constructor
      · intro hNone index b hMem
        have hFirst : e.lost = 0 := le_antisymm (hNone ▸ Multiset.le_add_right _ _) (Multiset.zero_le _)
        have hRest : lost rest = 0 :=
          le_antisymm (hNone ▸ Multiset.le_add_left _ _) (Multiset.zero_le _)
        rcases List.mem_cons.mp hMem with rfl | hLater
        · exact absurd hFirst (Multiset.singleton_ne_zero b)
        · exact ih.mp hRest index b hLater
      · intro hNone
        rw [ih.mpr fun index b hLater => hNone index b (List.mem_cons_of_mem e hLater), add_zero]
        unfold Event.lost
        split
        · next index b => exact absurd List.mem_cons_self (hNone index b)
        · rfl

/-- In every run of queues on a directory, whose process may die between any two operations, the
batches stored are those that a later start finds, those whose sending is over, and those left out by
a claim of which the first operation was carried out and no other. So a later start finds every batch
whose sending is not over just if no process dies there. -/
theorem unsent_batches_survive_on_files_iff {w : World β FileSystem}
    (hCodec : ∀ b, admits b → codec.unmarshal? (codec.marshal b) = some b)
    (hOpen : c.closed = false) (hEmpty : c.Shows fs [])
    (hRuns : Runs (Setup.ofFiles c codec admits) World.FitsWords (.idle fs) trace w) :
    ∃ s r wi ds, c.Shows w.storage s ∧ Records s r wi ds ∧
      kept codec s r wi ds + settled trace + lost trace = stored trace ∧
      (stored trace ≤ kept codec s r wi ds + settled trace ↔
        ∀ index b, Event.diedClaiming (.item index b) 1 ∉ trace) := by
  obtain ⟨s, hSpace, hShows⟩ := hRuns.shows hOpen hEmpty
  obtain ⟨r, wi, ds, hBooks⟩ := (hSpace.balanced hCodec).books
  have hBalance : kept codec s r wi ds + settled trace + lost trace = stored trace := hBooks.balance
  refine ⟨s, r, wi, ds, hShows, hBooks.toRecords, hBalance, ?_⟩
  rw [← lost_eq_zero_iff, ← hBalance]
  constructor
  · intro hLe
    have hZero : kept codec s r wi ds + settled trace + lost trace ≤
        kept codec s r wi ds + settled trace + 0 := by rwa [add_zero]
    exact le_antisymm (le_of_add_le_add_left hZero) (Multiset.zero_le _)
  · intro hNone
    rw [hNone, add_zero]

/-! ## A claim that is torn -/

/-- A client of an empty directory. -/
def queueDirectory : FileClient := ⟨["queue"], false⟩

/-- There is nothing but the directory. -/
def emptyDirectory : FileSystem := [(["queue"], .directory)]

theorem entryAt?_emptyDirectory (name : String) :
    emptyDirectory.entryAt? (queueDirectory.directory ++ [name]) = none := by
  have hNe : queueDirectory.directory ++ [name] ≠ ["queue"] := by simp [queueDirectory]
  rw [FileSystem.entryAt?_of_get? (by simp), emptyDirectory, Table.get?_cons_of_ne hNe]
  rfl

theorem shows_emptyDirectory : queueDirectory.Shows emptyDirectory [] where
  reached := rfl
  there := rfl
  values := fun key => entryAt?_emptyDirectory (FileClient.fileName key)
  spare := by
    intro key
    rw [FileClient.temporaryPlace, entryAt?_emptyDirectory]
    exact (Option.some_ne_none _).symm

/-- A batch is stored, and the process dies when it has moved the read index to hand it out. -/
def tornClaim : List (Event Bytes) :=
  [.diedClaiming (.item (some 0) [7]) 1, .quiet, .quiet, .accepted [7], .started (.ok ())]

theorem exists_runs_tornClaim : ∃ w : World Bytes FileSystem,
    Runs (Setup.ofFiles queueDirectory Codec.plain fun _ => True) World.FitsWords
      (.idle emptyDirectory) tornClaim w := by
  obtain ⟨fs₁, hStart, hShows₁⟩ := shows_emptyDirectory.run rfl
    (PersistentQueue.start_within Codec.plain 0 (PersistentQueue.empty 5))
  obtain ⟨fs₂, hOffer, hShows₂⟩ := hShows₁.run rfl
    (PersistentQueue.offerLocked_within firstQueue [7])
  obtain ⟨fs₃, hClaim, -⟩ := hShows₂.run rfl
    (PersistentQueue.claim_within Codec.plain (firstQueue.grown 1 1))
  have hStarted : Runs (Setup.ofFiles queueDirectory Codec.plain fun _ => True) World.FitsWords
      (.idle emptyDirectory) [.started (.ok ())] ⟨fs₁, some firstQueue, 0, 0, []⟩ :=
    .step .refl (by rintro q ⟨⟩)
      (.start (PersistentQueue.unstarted_empty 5) (by rintro q ⟨⟩) 0 hStart)
  have hStored : Runs (Setup.ofFiles queueDirectory Codec.plain fun _ => True) World.FitsWords
      (.idle emptyDirectory) [.accepted [7], .started (.ok ())]
      ⟨fs₂, some (firstQueue.grown 1 1), 1, 0, []⟩ :=
    .step hStarted (by rintro q ⟨⟩; decide) (.offer rfl trivial hOffer)
  have hCalled : Runs (Setup.ofFiles queueDirectory Codec.plain fun _ => True) World.FitsWords
      (.idle emptyDirectory) [.quiet, .quiet, .accepted [7], .started (.ok ())]
      ⟨fs₂, some (firstQueue.grown 1 1), 0, 1, []⟩ :=
    .step (.step hStored (by rintro q ⟨⟩; decide) (.wake rfl Nat.one_pos))
      (by rintro q ⟨⟩; decide) (.call rfl rfl rfl)
  have hTorn : Step (Setup.ofFiles queueDirectory Codec.plain fun _ => True)
      ⟨fs₂, some (firstQueue.grown 1 1), 0, 1, []⟩
      (.diedClaiming (((firstQueue.grown 1 1).claim Codec.plain).run queueDirectory.client fs₂).1.1 1)
      (.idle (((firstQueue.grown 1 1).claim Codec.plain).cut queueDirectory.client 1 fs₂)) :=
    .dieClaiming rfl (.inl rfl)
  rw [hClaim] at hTorn
  exact ⟨_, .step hCalled (by rintro q ⟨⟩; decide) hTorn⟩

/-- The batch is neither kept nor sent. -/
theorem unsent_batches_survive_on_files_torn : ∃ w : World Bytes FileSystem,
    Runs (Setup.ofFiles queueDirectory Codec.plain fun _ => True) World.FitsWords
      (.idle emptyDirectory) tornClaim w ∧
    ∃ s r wi ds, queueDirectory.Shows w.storage s ∧ Records s r wi ds ∧
      kept Codec.plain s r wi ds + settled tornClaim + lost tornClaim = stored tornClaim ∧
      (stored tornClaim ≤ kept Codec.plain s r wi ds + settled tornClaim ↔
        ∀ index b, Event.diedClaiming (.item index b) 1 ∉ tornClaim) := by
  obtain ⟨w, hRuns⟩ := exists_runs_tornClaim
  exact ⟨w, hRuns, unsent_batches_survive_on_files_iff (fun _ _ => rfl) rfl shows_emptyDirectory hRuns⟩

/-- The batch was stored, no sending of it is over, and however the directory is read it is not
found. -/
theorem torn_claim_loses_batch : ∃ w : World Bytes FileSystem,
    Runs (Setup.ofFiles queueDirectory Codec.plain fun _ => True) World.FitsWords
      (.idle emptyDirectory) tornClaim w ∧
    stored tornClaim = {[7]} ∧ settled tornClaim = 0 ∧
    ∀ s r wi ds, queueDirectory.Shows w.storage s → Records s r wi ds →
      [7] ∉ kept Codec.plain s r wi ds := by
  obtain ⟨w, hRuns⟩ := exists_runs_tornClaim
  refine ⟨w, hRuns, rfl, rfl, fun s r wi ds hShows hRecords => ?_⟩
  obtain ⟨t, hSpace, hSame⟩ := hRuns.shows rfl shows_emptyDirectory
  obtain ⟨r', wi', ds', hBooks⟩ := (hSpace.balanced fun _ _ => rfl).books
  have hRead : Records s r' wi' ds' :=
    hBooks.toRecords.of_get?_eq fun key _ => hSame.get?_eq hShows key
  obtain ⟨rfl, rfl, rfl⟩ := hRead.unique hRecords
  have hBalance : kept Codec.plain t r wi ds + 0 + {[7]} = {[7]} := hBooks.balance
  have hNone : kept Codec.plain t r wi ds = 0 := by simpa using hBalance
  rw [kept_congr fun i => hSame.get?_eq hShows (itemKey i), hNone]
  exact Multiset.notMem_zero _

end Telemetry.Queue

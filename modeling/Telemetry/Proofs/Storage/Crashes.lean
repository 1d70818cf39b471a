import Telemetry.Proofs.Storage.Refinement
import Telemetry.Proofs.Table

/-!
# Files after a crash

A process may die at any moment of a batch: between two actions on files, or while it writes a temporary
file, of which a part is left then. Renaming and removing happen as a whole. What is left shows the values
that some of the first steps of the batch make of those before it. Temporary files that are left are
never read, and refuse nothing later.
-/

namespace Telemetry.Storage

open Text (Bytes)
open FileStorage

/-! ## Moments at which a process dies -/

/-- What is done of an action that is cut off: of what is written, only so many bytes are there. Other
actions are not begun. -/
def FileAction.cutOff (bytes : Nat) : FileAction → List FileAction
  | write place content => [write place (content.take bytes)]
  | read _ | rename _ _ | remove _ => []

/-- A moment of some actions in order. -/
structure Moment where
  /-- How many actions were carried out. -/
  actions : Nat
  /-- How much the next one has written, if it was begun. -/
  bytes : Option Nat
deriving DecidableEq, Repr

namespace Moment

/-- What was done by a moment. -/
def done (m : Moment) (actions : List FileAction) : List FileAction :=
  actions.take m.actions ++ m.bytes.elim [] fun bytes =>
    actions[m.actions]?.elim [] (FileAction.cutOff bytes)

variable {m : Moment} {actions later : List FileAction}

theorem done_append_of_lt (h : m.actions < actions.length) :
    m.done (actions ++ later) = m.done actions := by
  rw [done, done, List.take_append_of_le_length (Nat.le_of_lt h), List.getElem?_append_left h]

theorem done_append_of_le (h : actions.length ≤ m.actions) : m.done (actions ++ later) =
    actions ++ Moment.done ⟨m.actions - actions.length, m.bytes⟩ later := by
  rw [done, done, List.take_append, List.take_of_length_le h, List.getElem?_append_right h,
    List.append_assoc]

/-- What was done is at the places where the actions are. -/
theorem done_within {P : Place → Prop} (h : ∀ a ∈ actions, a.Within P) :
    ∀ a ∈ m.done actions, a.Within P := by
  intro a hMem
  rcases List.mem_append.mp hMem with hTake | hCut
  · exact h a (List.mem_of_mem_take hTake)
  · cases hBytes : m.bytes with
    | none => simp [hBytes] at hCut
    | some bytes =>
        cases hNext : actions[m.actions]? with
        | none => simp [hBytes, hNext] at hCut
        | some next =>
            have hWithin := h next (List.mem_of_getElem? hNext)
            cases next with
            | write place content =>
                obtain rfl : a = .write place (content.take bytes) := by
                  simpa [hBytes, hNext, FileAction.cutOff] using hCut
                exact hWithin
            | _ => simp [hBytes, hNext, FileAction.cutOff] at hCut

end Moment

namespace FileClient

/-- What is left when a process dies at a moment of a batch. -/
def crash (c : FileClient) (ops : List Operation) (m : Moment) (fs : FileSystem) : FileSystem :=
  if c.closed then fs else (perform fs (m.done (ops.flatMap c.actions))).2.2

/-- What a client reads for a key. -/
def reading (c : FileClient) (fs : FileSystem) (key : String) : Except StorageError (Option Bytes) :=
  ((Access.get key).run c.client fs).1

/-- Whether a place is that of a temporary file. -/
def isTemporary (c : FileClient) (p : Place) : Bool :=
  p.dropLast == c.directory &&
    p.getLast?.any fun name => temporaryEnding.toList.isSuffixOf name.toList

/-- A file system without the temporary files of a client. -/
def swept (c : FileClient) (fs : FileSystem) : FileSystem := fs.filter fun e => !c.isTemporary e.1

variable {c : FileClient} {fs fs' : FileSystem} {s : Space} {key : String}

/-! ## What is left shows values -/

theorem keepsDirectories_crash (c : FileClient) (ops : List Operation) (m : Moment) (fs : FileSystem) :
    FileSystem.KeepsDirectories fs (c.crash ops m fs) := by
  rw [crash]
  split
  · exact .refl fs
  · exact keepsDirectories_perform fs _

/-- A process that dies has changed only what its client owns. -/
theorem entryAt?_crash (c : FileClient) (ops : List Operation) (m : Moment) (fs : FileSystem) {p : Place}
    (hp : ¬c.Owns p) : (c.crash ops m fs).entryAt? p = fs.entryAt? p := by
  rw [crash]
  split
  · rfl
  · refine entryAt?_perform (Moment.done_within fun a hMem => ?_) fs hp
    obtain ⟨op, -, hAction⟩ := List.mem_flatMap.mp hMem
    exact c.within_actions op a hAction

namespace Shows

/-- However much of a temporary file is written, the values stay. -/
theorem perform_write (h : Shows c fs s) (key : String) (content : Bytes) :
    Shows c (FileClient.perform fs [.write (c.temporaryPlace key) content]).2.2 s := by
  by_cases hLong : FileSystem.longestName < 2 * key.utf8ByteSize + temporaryEnding.utf8ByteSize
  · rw [FileClient.perform, h.run_write_of_long hLong]
    exact h
  · rw [FileClient.perform, h.run_write (Nat.not_lt.mp hLong)]
    exact h.insert_temporaryPlace key content

/-- A step changes values by its last action. -/
theorem perform_done (h : Shows c fs s) {op : Operation} {m : Moment}
    (hBefore : m.actions < (c.actions op).length) :
    Shows c (FileClient.perform fs (m.done (c.actions op))).2.2 s := by
  obtain ⟨count, bytes⟩ := m
  cases op with
  | get key | delete key =>
      obtain rfl : count = 0 := Nat.lt_one_iff.mp hBefore
      cases bytes <;> exact h
  | set key value =>
      have hCount : count = 0 ∨ count = 1 := by
        have hTwo : count < 2 := hBefore
        omega
      rcases hCount with rfl | rfl
      · cases bytes with
        | none => exact h
        | some bytes => exact h.perform_write key (value.take bytes)
      · cases bytes <;> exact h.perform_write key value

/-- A process that dies during a batch has carried out some of the first steps, and nothing shows of the
next one. -/
theorem exists_crash (h : Shows c fs s) (hOpen : c.closed = false) (ops : List Operation)
    (m : Moment) : ∃ count ≤ ops.length, (∀ op ∈ ops.take count, op.refusal? = none) ∧
      Shows c (c.crash ops m fs) (s.run (ops.take count)).2 := by
  rw [crash, hOpen, if_neg Bool.false_ne_true]
  induction ops generalizing fs s m with
  | nil =>
      refine ⟨0, Nat.le_refl 0, by simp, ?_⟩
      obtain ⟨count, bytes⟩ := m
      cases bytes <;> simpa [Moment.done, FileClient.perform] using h
  | cons op rest ih =>
      have hNothing : Shows c fs (s.run ((op :: rest).take 0)).2 := h
      rw [List.flatMap_cons]
      by_cases hBefore : m.actions < (c.actions op).length
      · rw [Moment.done_append_of_lt hBefore]
        exact ⟨0, Nat.zero_le _, by simp, h.perform_done hBefore⟩
      rw [Moment.done_append_of_le (Nat.not_lt.mp hBefore), perform_append]
      cases hRefusal : op.refusal? with
      | some e =>
          obtain ⟨fs₁, hPerform, hShows⟩ := h.perform_of_refusal? hRefusal
          rw [hPerform]
          exact ⟨0, Nat.zero_le _, by simp, hShows⟩
      | none =>
          obtain ⟨fs₁, hPerform, hShows⟩ := h.perform_of_accepted hRefusal
          obtain ⟨count, hCount, hAccepted, hLast⟩ :=
            ih hShows ⟨m.actions - (c.actions op).length, m.bytes⟩
          rw [hPerform]
          refine ⟨count + 1, Nat.succ_le_succ hCount, ?_, ?_⟩
          · rw [List.take_succ_cons, List.forall_mem_cons]
            exact ⟨hRefusal, hAccepted⟩
          · rw [List.take_succ_cons, s.run_cons op (rest.take count)]
            exact hLast

end Shows

/-! ## Answers are about values -/

/-- How a batch is answered by files that show some values. -/
def answer (s : Space) (ops : List Operation) : Reply :=
  let reads := (s.run (Operation.accepted ops)).1
  ⟨(ops.findSome? Operation.refusal?).elim (.ok ()) fun e => .error (.io e.message),
    reads ++ List.replicate ((ops.filter Operation.isGet).length - reads.length) none⟩

namespace Shows

theorem exists_batch (h : Shows c fs s) (hOpen : c.closed = false) (ops : List Operation) :
    ∃ fs', c.batch ops fs = (answer s ops, fs') ∧ Shows c fs' (s.run (Operation.accepted ops)).2 := by
  obtain ⟨fs', hPerform, hShows⟩ := h.perform_accepted ops
  refine ⟨fs', ?_, hShows⟩
  rw [FileClient.batch, hOpen, if_neg Bool.false_ne_true, hPerform, answer]
  cases ops.findSome? Operation.refusal? <;> rfl

/-- Directories that show the same values answer the same, whatever else is in them. -/
theorem run_eq {α : Type} (h : Shows c fs s) (h' : Shows c fs' s) (hOpen : c.closed = false)
    (p : Access α) : (p.run c.client fs).1 = (p.run c.client fs').1 := by
  induction p generalizing fs fs' s with
  | done a => rfl
  | batch ops next ih =>
      obtain ⟨fs₁, hBatch, hShows⟩ := h.exists_batch hOpen ops
      obtain ⟨fs₁', hBatch', hShows'⟩ := h'.exists_batch hOpen ops
      rw [Access.run_batch, Access.run_batch, batch_client, hBatch, hBatch']
      exact ih _ hShows hShows'
  | close next ih | check holds next ih => exact ih h h'

theorem reading_eq (h : Shows c fs s) (hOpen : c.closed = false) (key : String) :
    c.reading fs key = match (Operation.get key).refusal? with
      | some e => .error (.io e.message)
      | none => .ok (s.get? key) := by
  obtain ⟨fs', hBatch, -⟩ := h.exists_batch hOpen [.get key]
  rw [reading, Access.get, Access.run_batch, batch_client, hBatch, answer, List.findSome?_cons]
  cases hRefusal : (Operation.get key).refusal? with
  | some e => rfl
  | none =>
      rw [Operation.accepted_cons_of_none hRefusal]
      rfl

/-- Each key reads as after some of the first steps, which are carried out. -/
theorem exists_take (h : Shows c fs s) (hOpen : c.closed = false) (ops : List Operation) (m : Moment) :
    ∃ count ≤ ops.length, (c.batch (ops.take count) fs).1.outcome = .ok () ∧
      ∀ key, c.reading (c.crash ops m fs) key =
        c.reading (c.batch (ops.take count) fs).2 key := by
  obtain ⟨count, hCount, hAccepted, hLeft⟩ := h.exists_crash hOpen ops m
  obtain ⟨fs', hBatch, hShows⟩ := h.exists_batch hOpen (ops.take count)
  rw [Operation.accepted_eq_self hAccepted] at hShows
  refine ⟨count, hCount, ?_, fun key => ?_⟩
  · rw [hBatch, answer, List.findSome?_eq_none_iff.mpr hAccepted]
    rfl
  · rw [hBatch, hLeft.reading_eq hOpen, hShows.reading_eq hOpen]

/-- Each key reads as before, or as what a step of the batch made of it. -/
theorem reading_crash (h : Shows c fs s) (hOpen : c.closed = false) (ops : List Operation) (m : Moment)
    (key : String) : c.reading (c.crash ops m fs) key = c.reading fs key ∨
      (∃ value, .set key value ∈ ops ∧ c.reading (c.crash ops m fs) key = .ok (some value)) ∨
      .delete key ∈ ops ∧ c.reading (c.crash ops m fs) key = .ok none := by
  obtain ⟨count, -, -, hLeft⟩ := h.exists_crash hOpen ops m
  rw [hLeft.reading_eq hOpen, h.reading_eq hOpen]
  cases (Operation.get key).refusal? with
  | some e => exact .inl rfl
  | none =>
      rcases s.get?_run_cases (ops.take count) key with hSame | ⟨value, hMem, hValue⟩ | ⟨hMem, hValue⟩
      · exact .inl (congrArg Except.ok hSame)
      · exact .inr (.inl ⟨value, List.mem_of_mem_take hMem, congrArg Except.ok hValue⟩)
      · exact .inr (.inr ⟨List.mem_of_mem_take hMem, congrArg Except.ok hValue⟩)

theorem reading_crash_of_unchanged (h : Shows c fs s) (hOpen : c.closed = false) {ops : List Operation}
    (hKey : ∀ op ∈ ops, op.key = key → op.isGet) (m : Moment) :
    c.reading (c.crash ops m fs) key = c.reading fs key := by
  obtain ⟨count, -, -, hLeft⟩ := h.exists_crash hOpen ops m
  rw [hLeft.reading_eq hOpen, h.reading_eq hOpen,
    Space.get?_run_of_unchanged fun op hMem => hKey op (List.mem_of_mem_take hMem)]

end Shows

/-! ## Temporary files do not show -/

theorem isTemporary_append (c : FileClient) (name : String) :
    c.isTemporary (c.directory ++ [name]) = temporaryEnding.toList.isSuffixOf name.toList := by
  simp [isTemporary]

theorem isTemporary_of_ne {p : Place} (h : ∀ name, p ≠ c.directory ++ [name]) :
    c.isTemporary p = false := by
  rcases List.eq_nil_or_concat p with rfl | ⟨front, name, rfl⟩
  · simp [isTemporary]
  · have hFront : front ≠ c.directory := by
      rintro rfl
      exact h name List.concat_eq_append
    simp [isTemporary, hFront]

theorem isTemporary_temporaryPlace (c : FileClient) (key : String) :
    c.isTemporary (c.temporaryPlace key) = true := by
  rw [temporaryPlace, isTemporary_append, List.isSuffixOf_iff_suffix, String.toList_append]
  exact List.suffix_append _ _

theorem not_isTemporary_fileName (c : FileClient) (key : String) :
    c.isTemporary (c.directory ++ [fileName key]) = false := by
  rw [isTemporary_append, Bool.eq_false_iff, Ne, List.isSuffixOf_iff_suffix]
  rintro ⟨front, hFront⟩
  have hPoint : '.' ∈ (fileName key).toList := hFront ▸ List.mem_append_right _ (by decide)
  rw [fileName, Text.hexEncode, String.toList_ofList] at hPoint
  exact (Text.mem_hexEncodeChars hPoint).2 rfl

theorem entryAt?_swept (c : FileClient) (fs : FileSystem) {p : Place} (hSome : p ≠ []) :
    FileSystem.entryAt? (c.swept fs) p = if c.isTemporary p then none else fs.entryAt? p := by
  rw [FileSystem.entryAt?_of_get? hSome, FileSystem.entryAt?_of_get? hSome, swept,
    Table.get?_filter_key fun p => !c.isTemporary p]
  cases c.isTemporary p <;> rfl

/-- No key has a temporary file for its own. -/
theorem place_ne_temporaryPlace (c : FileClient) (key other : String) :
    c.place key ≠ c.temporaryPlace other := by
  by_cases hEmpty : key = ""
  · rw [hEmpty, place_empty, temporaryPlace]
    simp
  · rw [place_of_ne hEmpty]
    exact append_singleton_ne (fileName_ne_temporary key other)

/-- A directory shows the same values without temporary files. -/
theorem Shows.swept (h : Shows c fs s) : Shows c (c.swept fs) s := by
  refine h.of_entryAt? (fun p hp => ?_) (fun key => ?_) fun key => ?_
  · by_cases hRoot : p = []
    · rw [hRoot]
      rfl
    · rw [entryAt?_swept c fs hRoot, isTemporary_of_ne hp, if_neg Bool.false_ne_true]
  · rw [entryAt?_swept c fs (append_singleton_ne_nil _ _), not_isTemporary_fileName,
      if_neg Bool.false_ne_true]
    exact h.values key
  · rw [temporaryPlace, entryAt?_swept c fs (append_singleton_ne_nil _ _), ← temporaryPlace,
      isTemporary_temporaryPlace, if_pos rfl]
    simp

end FileClient

/-! ## Directories that clients have made -/

namespace FileStorage

variable {s : FileStorageSettings} {space : String} {fs fs' : FileSystem} {c : FileClient}

/-- What can be in a storage as far as the clients of a namespace go: they opened its directory and
carried out batches or died on the way, again and again, and what happened besides took no directory
away and did not touch this one. -/
inductive Produced (s : FileStorageSettings) (space : String) : FileSystem → Prop
  | started {before fs : FileSystem} (hStart : start s before = (.ok (), fs))
      (hNone : fs.entryAt? (home s space) = none)
      (hBelow : ∀ name, fs.entryAt? (home s space ++ [name]) = none) : Produced s space fs
  | carried {fs fs' : FileSystem} {c : FileClient} (h : Produced s space fs)
      (hOpen : openClient s space fs = (.ok c, fs')) (ops : List Operation) :
      Produced s space (c.batch ops fs').2
  | died {fs fs' : FileSystem} {c : FileClient} (h : Produced s space fs)
      (hOpen : openClient s space fs = (.ok c, fs')) (ops : List Operation) (m : Moment) :
      Produced s space (c.crash ops m fs')
  | elsewhere {fs fs' : FileSystem} (h : Produced s space fs) (hKept : fs.KeepsDirectories fs')
      (hSame : FileSystem.Agree (FileClient.Sees ⟨home s space, false⟩) fs' fs) :
      Produced s space fs'

/-- Starting a storage again changes nothing. -/
theorem Founded.start_eq (h : Founded s fs) {path : Path} (hPath : Path.ofText s.directory = .ok path) :
    start s fs = (.ok (), fs) := by
  have hWalk : fs.walk [] path.steps = .ok (root s) := ofText_steps hPath ▸ h.walked
  have hFind : fs.find path = .ok (root s, .directory) := by
    rw [FileSystem.find, hWalk]
    simp only [bind, Except.bind]
    rw [h.there]
  have hMade : fs.makeDirectories path = (.ok (), fs) := by
    have hMake : fs.makeDirectory path.steps = .ok fs := by
      rw [FileSystem.makeDirectory, hWalk]
      simp only [bind, Except.bind]
      rw [h.there]
    rw [FileSystem.makeDirectories, FileSystem.makeDirectoriesAlong, hMake]
  have hEither : (if s.createDirectory && !s.directory.isEmpty then fs.makeDirectories path
      else (.ok (), fs)) = (.ok (), fs) := by
    split
    · exact hMade
    · rfl
  rw [start, hPath]
  dsimp only [Except.bind]
  rw [hEither]
  dsimp only
  rw [hFind]

/-- So does opening a client again. -/
theorem openClient_again (hLong : 2 < space.toList.length) (hOpen : openClient s space fs = (.ok c, fs'))
    {later : FileSystem} (hKept : fs'.KeepsDirectories later) :
    openClient s space later = (.ok c, later) := by
  obtain ⟨path, entry, hPath, -⟩ := found_of_openClient hOpen
  have hHoused := (housed_of_openClient hLong hOpen).mono hKept
  have hShort : (directoryName space).utf8ByteSize ≤ FileSystem.longestName := by
    by_contra hTooLong
    have hRoot := FileSystem.standing_of_reach_append (List.cons_ne_nil _ _) hHoused.standing.reached
    have hRefused := FileSystem.reach_append_of_long hRoot.reached hRoot.there (Nat.not_le.mp hTooLong)
    exact absurd (hRefused.symm.trans hHoused.standing.reached) (by simp)
  have hFree : later.content? (home s space) = none := by
    rw [FileSystem.content?, hHoused.standing.there]
  have hClient := hHoused.founded.openClient_ok hLong hPath hShort hFree
  have hSame : (openClient s space later).2 = later :=
    (hHoused.founded.openClient_cases hLong).resolve_right fun hNew =>
      absurd (hNew.1.symm.trans hHoused.standing.there) (by simp)
  rw [directory_of_openClient hLong hOpen]
  exact Prod.ext hClient hSame

/-- A client that was opened shows values. -/
theorem Laid.exists_shows (h : Laid s fs space) (hFounded : Founded s fs)
    (hLong : 2 < space.toList.length) (hOpen : FileStorage.openClient s space fs = (.ok c, fs')) :
    ∃ values, c.Shows fs' values := by
  have hHoused := housed_of_openClient hLong hOpen
  obtain rfl := directory_of_openClient hLong hOpen
  have hLeft : (FileStorage.openClient s space fs).2 = fs' := congrArg Prod.snd hOpen
  rcases h with ⟨values, hShows⟩ | ⟨hNone, hBelow⟩
  · rcases hFounded.openClient_cases hLong with hSame | ⟨hMissing, -⟩
    · exact ⟨values, hLeft ▸ hSame.symm ▸ hShows⟩
    · exact absurd (hMissing.symm.trans hShows.there) (by simp)
  · rcases hFounded.openClient_cases hLong with hSame | ⟨-, hMade⟩
    · obtain rfl : fs = fs' := hSame.symm.trans hLeft
      exact absurd (hNone.symm.trans hHoused.standing.there) (by simp)
    · have hBare : ∀ name, fs'.entryAt? (home s space ++ [name]) = none := by
        intro name
        rw [← hLeft, hMade, FileSystem.entryAt?_insert_of_ne fs (by simp)]
        exact hBelow name
      refine ⟨[], hHoused.standing.reached, hHoused.standing.there, fun key => hBare _, ?_⟩
      intro key hDirectory
      exact absurd ((hBare _).symm.trans hDirectory) (by simp)

namespace Produced

variable (hLong : 2 < space.toList.length)
include hLong

/-- Every directory that clients have made is laid out. -/
theorem laid (h : Produced s space fs) :
    (∃ path, Path.ofText s.directory = .ok path) ∧ Founded s fs ∧ Laid s fs space := by
  have hLater : ∀ {fs fs' later : FileSystem} {c : FileClient} {values : Space}, Founded s fs →
      openClient s space fs = (.ok c, fs') → fs'.KeepsDirectories later → c.Shows later values →
      Founded s later ∧ Laid s later space := by
    intro fs fs' later c values hFounded hOpen hKept hShows
    have hGrown := grown_openClient s space fs
    rw [hOpen] at hGrown
    obtain rfl := directory_of_openClient hLong hOpen
    exact ⟨(hFounded.mono hGrown.keepsDirectories).mono hKept, .inl ⟨values, hShows⟩⟩
  induction h with
  | started hStart hNone hBelow =>
      obtain ⟨path, -, hPath, -⟩ := found_of_start hStart
      exact ⟨⟨path, hPath⟩, founded_of_start hStart, .inr ⟨hNone, hBelow⟩⟩
  | @carried fs fs' c _ hOpen ops ih =>
      obtain ⟨hPath, hFounded, hLaid⟩ := ih
      obtain ⟨values, hShows⟩ := hLaid.exists_shows hFounded hLong hOpen
      have hClosed : c.closed = false := by rw [directory_of_openClient hLong hOpen]
      obtain ⟨last, hBatch, hLast⟩ := hShows.exists_batch hClosed ops
      have hKept := c.keepsDirectories_batch ops fs'
      rw [hBatch] at hKept ⊢
      exact ⟨hPath, hLater hFounded hOpen hKept hLast⟩
  | @died fs fs' c _ hOpen ops m ih =>
      obtain ⟨hPath, hFounded, hLaid⟩ := ih
      obtain ⟨values, hShows⟩ := hLaid.exists_shows hFounded hLong hOpen
      have hClosed : c.closed = false := by rw [directory_of_openClient hLong hOpen]
      obtain ⟨count, -, -, hLast⟩ := hShows.exists_crash hClosed ops m
      exact ⟨hPath, hLater hFounded hOpen (c.keepsDirectories_crash ops m fs') hLast⟩
  | elsewhere _ hKept hSame ih =>
      obtain ⟨hPath, hFounded, hLaid⟩ := ih
      exact ⟨hPath, hFounded.mono hKept, hLaid.of_agree hSame⟩

/-- What clients of other namespaces do, or begin, is of no account. -/
theorem crash_other {other : String} (hOther : 2 < other.toList.length)
    (hName : directoryName space ≠ directoryName other) (h : Produced s space fs)
    (hOpen : openClient s other fs = (.ok c, fs')) (ops : List Operation) (m : Moment) :
    Produced s space (c.crash ops m fs') := by
  have hGrown := grown_openClient s other fs
  rw [hOpen] at hGrown
  refine h.elsewhere (hGrown.keepsDirectories.trans (c.keepsDirectories_crash ops m fs')) ?_
  intro p hSees
  obtain rfl := directory_of_openClient hOther hOpen
  rw [FileClient.entryAt?_crash _ _ _ _ (FileClient.not_owns_of_sees hName rfl rfl hSees)]
  have hLeft : (openClient s other fs).2 = fs' := congrArg Prod.snd hOpen
  rcases (h.laid hLong).2.1.openClient_cases hOther with hSame | ⟨-, hMade⟩
  · rw [← hLeft, hSame]
  · rw [← hLeft, hMade, FileSystem.entryAt?_insert_of_ne fs (ne_home_of_sees hName hSees)]

end Produced

/-- Wherever a process dies during a batch, the storage and the client can be opened again as they were.
Each key then reads as after some of the first steps of the batch: as before it, or as a step made it,
and keys that no step changes read as before. Temporary files are not the files of keys: whatever is
done later is answered as if there were none, and is carried out if its names are not too long. -/
theorem writes_are_never_torn (s : FileStorageSettings) (kind : Kind) (owner : ComponentId)
    (purpose : String) {fs fs' : FileSystem} {c : FileClient}
    (hProduced : Produced s (clientNamespace kind owner purpose) fs)
    (hOpen : openClient s (clientNamespace kind owner purpose) fs = (.ok c, fs'))
    (ops : List Operation) (m : Moment) :
    let left := c.crash ops m fs'
    (start s left = (.ok (), left) ∧
      openClient s (clientNamespace kind owner purpose) left = (.ok c, left)) ∧
    (∃ count ≤ ops.length, (c.batch (ops.take count) fs').1.outcome = .ok () ∧
      ∀ key, c.reading left key = c.reading (c.batch (ops.take count) fs').2 key) ∧
    (∀ key, c.reading left key = c.reading fs' key ∨
      (∃ value, .set key value ∈ ops ∧ c.reading left key = .ok (some value)) ∨
      .delete key ∈ ops ∧ c.reading left key = .ok none) ∧
    (∀ key, (∀ op ∈ ops, op.key = key → op.isGet) → c.reading left key = c.reading fs' key) ∧
    (∀ key other, c.place key ≠ c.temporaryPlace other) ∧
    (∀ (α : Type) (p : Access α), (p.run c.client left).1 = (p.run c.client (c.swept left)).1) ∧
    ∀ later, (∀ op ∈ later, FileClient.Fits op.key) → (c.batch later left).1.outcome = .ok () := by
  intro left
  have hLong := Call.length_space (.getClient kind owner purpose) rfl
  have hHoused := housed_of_openClient hLong hOpen
  have hKept : fs'.KeepsDirectories left := c.keepsDirectories_crash ops m fs'
  have hClosed : c.closed = false := by rw [directory_of_openClient hLong hOpen]
  obtain ⟨⟨path, hPath⟩, hFounded, hLaid⟩ := hProduced.laid hLong
  obtain ⟨values, hShows⟩ := hLaid.exists_shows hFounded hLong hOpen
  obtain ⟨count, -, -, hLeft⟩ := hShows.exists_crash hClosed ops m
  refine ⟨⟨(hHoused.mono hKept).founded.start_eq hPath, openClient_again hLong hOpen hKept⟩,
    hShows.exists_take hClosed ops m, hShows.reading_crash hClosed ops m,
    fun key hKey => hShows.reading_crash_of_unchanged hClosed hKey m,
    c.place_ne_temporaryPlace, fun α p => hLeft.run_eq hLeft.swept hClosed p, fun later hFits => ?_⟩
  obtain ⟨last, hBatch, -⟩ := hLeft.batch hClosed later hFits
  rw [hBatch]

section Restarts

open Storage.Call (dataSettings dataVault entryAt?_dataVault)
open Storage.Vault (plainOwner)

/-- The client of an exporter's queue in the storage below the root. -/
def queueClient : FileClient := ⟨["data", "exporter_otlp_a_queue"], false⟩

/-- The storage with the directory of this client. -/
def queueFiles : FileSystem := dataVault.files.insert queueClient.directory .directory

/-- What a process left that died when it had written one byte of a value. -/
def tornFiles : FileSystem :=
  queueClient.crash [.set "wi" [7], .set "ri" [1, 2]] ⟨2, some 1⟩ queueFiles

theorem openClient_dataVault : openClient dataSettings "exporter_otlp_a_queue" dataVault.files =
    (.ok queueClient, queueFiles) := rfl

theorem produced_tornFiles : Produced dataSettings "exporter_otlp_a_queue" tornFiles := by
  have hStart : start dataSettings [] = (.ok (), dataVault.files) := rfl
  have hNone := fun names => entryAt?_dataVault "exporter_otlp_a_queue" names
  have hStarted : Produced dataSettings "exporter_otlp_a_queue" dataVault.files :=
    .started hStart (List.append_nil (home dataSettings _) ▸ hNone []) fun name => hNone [name]
  exact hStarted.died openClient_dataVault _ _

/-- The second process dies when it has removed one key and written another: the next one reads that, and
still nothing of the third. -/
theorem writes_are_never_torn_twice :
    let left := queueClient.crash [.delete "wi", .set "di" [3], .set "ri" [4, 5]] ⟨3, some 1⟩ tornFiles
    (Produced dataSettings "exporter_otlp_a_queue" tornFiles ∧
      openClient dataSettings "exporter_otlp_a_queue" tornFiles = (.ok queueClient, tornFiles)) ∧
    tornFiles.get? (queueClient.temporaryPlace "ri") = some (.file [1]) ∧
    left.get? (queueClient.temporaryPlace "ri") = some (.file [4]) ∧
    openClient dataSettings "exporter_otlp_a_queue" left = (.ok queueClient, left) ∧
    ["wi", "di", "ri"].map (queueClient.reading tornFiles) = [.ok (some [7]), .ok none, .ok none] ∧
    ["wi", "di", "ri"].map (queueClient.reading left) = [.ok none, .ok (some [3]), .ok none] ∧
    (queueClient.batch [.set "ri" [6]] left).1.outcome = .ok () := by
  intro left
  have hOpen : openClient dataSettings "exporter_otlp_a_queue" tornFiles = (.ok queueClient, tornFiles) :=
    openClient_again (by decide) openClient_dataVault (queueClient.keepsDirectories_crash _ _ _)
  obtain ⟨⟨-, hAgain⟩, -, -, -, -, -, hLater⟩ :=
    writes_are_never_torn dataSettings .exporter plainOwner "queue" produced_tornFiles hOpen
      [.delete "wi", .set "di" [3], .set "ri" [4, 5]] ⟨3, some 1⟩
  refine ⟨⟨produced_tornFiles, hOpen⟩, by decide +kernel, by decide +kernel, hAgain,
    by decide +kernel, by decide +kernel, hLater _ ?_⟩
  rw [List.forall_mem_singleton]
  exact ⟨by decide, by decide⟩

end Restarts

end FileStorage

end Telemetry.Storage

import Telemetry.Proofs.Storage.Mirrors

/-!
# Storage in files refines storage in memory

Where the directory of a storage is there, and the names and the keys are not too long, the file system
refuses nothing, and so clients of files answer whatever they are called for as clients in memory do.
-/

namespace Telemetry.Storage

open Text (Bytes)

open Vault FileStorage

namespace FileClient

variable {c : FileClient} {fs fs' : FileSystem} {values : Space}

/-- What a directory shows depends on what its clients see. -/
theorem Shows.of_agree (h : c.Shows fs values) (hAgree : FileSystem.Agree c.Sees fs' fs) :
    c.Shows fs' values where
  reached := (hAgree.reach (fun _ _ => sees_of_prefix) (.inl List.prefix_rfl)).trans h.reached
  there := (hAgree _ (.inl List.prefix_rfl)).trans h.there
  values := fun key => (hAgree _ (.inr ⟨_, rfl⟩)).trans (h.values key)
  spare := fun key hDirectory => h.spare key ((hAgree _ (.inr ⟨_, rfl⟩)).symm.trans hDirectory)

end FileClient

namespace FileStorage

variable {s : FileStorageSettings} {fs fs' : FileSystem} {space other : String}

/-- The directory of a namespace can be named. -/
structure Nameable (s : FileStorageSettings) (space : String) : Prop where
  path : ∃ path, Path.ofText (Path.join s.directory (directoryName space)) = .ok path
  short : (directoryName space).utf8ByteSize ≤ FileSystem.longestName

/-- The directory of a namespace shows some values, or nothing is at its place nor right below. -/
def Laid (s : FileStorageSettings) (fs : FileSystem) (space : String) : Prop :=
  (∃ values, FileClient.Shows ⟨home s space, false⟩ fs values) ∨
    fs.entryAt? (home s space) = none ∧ ∀ name, fs.entryAt? (home s space ++ [name]) = none

theorem entryAt?_of_find {path : Path} {place : Place} {entry : Entry}
    (h : fs.find path = .ok (place, entry)) : fs.entryAt? place = some entry := by
  have hWalk := FileSystem.walk_of_find h
  rw [FileSystem.find, hWalk] at h
  simp only [bind, Except.bind] at h
  split at h
  · exact absurd h (by simp)
  · next hThere =>
      obtain rfl : .directory = entry := congrArg Prod.snd (Except.ok.inj h)
      exact hThere
  · next content hThere =>
      split at h
      · exact absurd h (by simp)
      · obtain rfl : .file content = entry := congrArg Prod.snd (Except.ok.inj h)
        exact hThere

/-- A start is successful only if the path of the storage leads to a directory. -/
theorem found_of_start (h : start s fs = (.ok (), fs')) : ∃ path place,
    Path.ofText s.directory = .ok path ∧ fs'.find path = .ok (place, .directory) := by
  rw [start] at h
  generalize (if (s.createDirectory && !s.directory.isEmpty) = true then _ else _ :
    Except FileError Unit × FileSystem) = made at h
  obtain ⟨outcome, fs₁⟩ := made
  dsimp only at h
  split at h
  · exact absurd (congrArg Prod.fst h) (by simp)
  · exact absurd (congrArg Prod.fst h) (by simp)
  · exact absurd (congrArg Prod.fst h) (by simp)
  next place hFound =>
  obtain rfl : fs₁ = fs' := congrArg Prod.snd h
  cases hPath : Path.ofText s.directory with
  | error e =>
      rw [hPath] at hFound
      exact absurd hFound (by simp [Except.bind])
  | ok path =>
      rw [hPath] at hFound
      exact ⟨path, place, rfl, hFound⟩

/-- A storage that was started has a directory. -/
theorem founded_of_start (h : start s fs = (.ok (), fs')) : Founded s fs' := by
  obtain ⟨path, place, hPath, hFound⟩ := found_of_start h
  have hWalk := FileSystem.walk_of_find hFound
  rw [ofText_steps hPath] at hWalk
  have hRoot : place = root s := FileSystem.eq_of_walk hWalk
  exact ⟨hRoot ▸ hWalk, hRoot ▸ entryAt?_of_find hFound⟩

theorem Laid.of_agree (h : Laid s fs space)
    (hAgree : FileSystem.Agree (FileClient.Sees ⟨home s space, false⟩) fs' fs) : Laid s fs' space := by
  rcases h with ⟨values, hShows⟩ | ⟨hNone, hBelow⟩
  · exact .inl ⟨values, hShows.of_agree hAgree⟩
  · exact .inr ⟨(hAgree _ (.inl List.prefix_rfl)).trans hNone,
      fun name => (hAgree _ (.inr ⟨name, rfl⟩)).trans (hBelow name)⟩

theorem Laid.of_directoryName (h : Laid s fs space)
    (hSame : directoryName space = directoryName other) : Laid s fs other := by
  rw [Laid, home, ← hSame]
  exact h

theorem Laid.content? (h : Laid s fs space) : fs.content? (home s space) = none := by
  rcases h with ⟨values, hShows⟩ | ⟨hNone, -⟩
  · rw [FileSystem.content?, hShows.there]
  · rw [FileSystem.content?, hNone]

/-- A directory that was just made shows no values. -/
theorem Laid.shows_insert (h : Laid s fs space) (hFounded : Founded s fs)
    (hNone : fs.entryAt? (home s space) = none)
    (hShort : (directoryName space).utf8ByteSize ≤ FileSystem.longestName) :
    FileClient.Shows ⟨home s space, false⟩ (fs.insert (home s space) .directory) [] := by
  have hLater := hFounded.mono (FileSystem.grown_insert hNone).keepsDirectories
  have hBelow : ∀ name, fs.entryAt? (home s space ++ [name]) = none := by
    rcases h with ⟨values, hShows⟩ | ⟨-, hBelow⟩
    · exact absurd (hNone.symm.trans hShows.there) (by simp)
    · exact hBelow
  have hFile : ∀ name, FileSystem.entryAt? (fs.insert (home s space) .directory)
      (home s space ++ [name]) = none := fun name =>
    (FileSystem.entryAt?_insert_of_ne fs (by simp) _).trans (hBelow name)
  refine ⟨?_, ?_, fun key => hFile _, fun key => ?_⟩
  · exact FileSystem.reach_append (FileSystem.reach_of_walk rfl hLater.walked) hLater.there hShort
  · rw [FileSystem.entryAt?_insert fs (home_ne_nil s space), if_pos rfl]
  · rw [FileClient.temporaryPlace, hFile]
    simp

/-- Opening a client leaves every namespace laid out. -/
theorem Laid.openClient (h : Laid s fs space) (hFounded : Founded s fs) (hOther : Laid s fs other)
    (hLong : 2 < other.toList.length)
    (hShort : (directoryName other).utf8ByteSize ≤ FileSystem.longestName) :
    Laid s (FileStorage.openClient s other fs).2 space := by
  rcases hFounded.openClient_cases hLong with hSame | ⟨hNone, hMade⟩
  · rw [hSame]
    exact h
  · rw [hMade]
    by_cases hName : directoryName space = directoryName other
    · have hShows : Laid s (fs.insert (home s other) .directory) other :=
        .inl ⟨[], hOther.shows_insert hFounded hNone hShort⟩
      exact hShows.of_directoryName hName.symm
    · exact h.of_agree fun p hSees =>
        FileSystem.entryAt?_insert_of_ne fs (ne_home_of_sees hName hSees) _

/-- So does a batch of a client, and the file system refuses nothing of it. -/
theorem Laid.batch (h : Laid s fs space) (hOther : Laid s fs other) (hHoused : Housed s fs other)
    (ops : List Operation) (hKeys : ∀ op ∈ ops, FileClient.Fits op.key) :
    (FileClient.batch ⟨home s other, false⟩ ops fs).1.outcome = .ok () ∧
      Laid s (FileClient.batch ⟨home s other, false⟩ ops fs).2 space := by
  obtain ⟨values, hShows⟩ | ⟨hNone, -⟩ := hOther
  · obtain ⟨fs', hBatch, hLater⟩ := hShows.batch rfl ops hKeys
    refine ⟨by rw [hBatch], ?_⟩
    by_cases hName : directoryName space = directoryName other
    · rw [hBatch]
      have hLaid : Laid s fs' other := .inl ⟨_, hLater⟩
      exact hLaid.of_directoryName hName.symm
    · exact h.of_agree fun p hSees =>
        FileClient.entryAt?_batch _ ops fs (FileClient.not_owns_of_sees hName rfl rfl hSees)
  · exact absurd (hNone.symm.trans hHoused.standing.there) (by simp)

end FileStorage

section Runs

variable {s : FileStorageSettings} {spaces : List String} {opened : List (String × Bool)} {v : Vault}

/-- A vault whose storage in files was started, with every namespace laid out. -/
structure Ready (s : FileStorageSettings) (spaces : List String) (opened : List (String × Bool))
    (v : Vault) : Prop where
  given : v.Given (.files s) opened
  among : ∀ o ∈ opened, o.1 ∈ spaces
  founded : Founded s v.files
  laid : ∀ space ∈ spaces, Laid s v.files space

namespace Ready

theorem openClient (h : Ready s spaces opened v) {space : String} (hMem : space ∈ spaces)
    (hLong : 2 < space.toList.length) (hNameable : Nameable s space) :
    (¬∃ cause, (v.openFiles s space).1 = .error (.io cause)) ∧
      ∀ other ∈ spaces, Laid s (v.openFiles s space).2.files other := by
  obtain ⟨⟨path, hPath⟩, hShort⟩ := hNameable
  have hClient := h.founded.openClient_ok hLong hPath hShort (h.laid space hMem).content?
  refine ⟨?_, fun other hOther => ?_⟩
  · rintro ⟨cause, hCause⟩
    rw [openFiles] at hCause
    rcases hResult : FileStorage.openClient s space v.files with ⟨e | c, fs⟩
    · rw [hResult] at hClient
      exact absurd hClient (by simp)
    · rw [hResult] at hCause
      exact absurd hCause (by simp)
  · rw [files_openFiles]
    exact (h.laid other hOther).openClient h.founded (h.laid space hMem) hLong hShort

theorem batch (h : Ready s spaces opened v) (n : Nat) (ops : List Operation)
    (hKeys : ∀ op ∈ ops, FileClient.Fits op.key) :
    (¬∃ cause, (v.batch n ops).1.outcome = .error (.io cause)) ∧
      ∀ space ∈ spaces, Laid s (v.batch n ops).2.files space := by
  have hV := h.given.getElem?_clients n
  rcases hAt : opened[n]? with _ | ⟨other, closed⟩
  · rw [hAt] at hV
    rw [Vault.batch, hV]
    exact ⟨by simp [Reply.failed], h.laid⟩
  have hMem : other ∈ spaces := h.among _ (List.mem_of_getElem? hAt)
  have hHoused : Housed s v.files other := h.given.serves _ (List.mem_of_getElem? hAt)
  rw [hAt] at hV
  rw [batch_files hV]
  cases closed with
  | true => exact ⟨by simp [FileClient.batch, Reply.failed], h.laid⟩
  | false =>
      refine ⟨?_, fun space hSpace => ((h.laid space hSpace).batch (h.laid other hMem) hHoused ops hKeys).2⟩
      rintro ⟨cause, hCause⟩
      have hDone := ((h.laid other hMem).batch (h.laid other hMem) hHoused ops hKeys).1
      exact absurd (hDone.symm.trans hCause) (by simp)

/-- The file system refuses nothing of a call, and stays ready for the next. -/
theorem step (h : Ready s spaces opened v) (hNameable : ∀ space ∈ spaces, Nameable s space) {call : Call}
    (hSpace : ∀ space, call.space? = some space → space ∈ spaces)
    (hKeys : ∀ key ∈ call.keys, FileClient.Fits key) :
    ¬(call.run (.files s) v).1.Faulty ∧
      Ready s spaces (grant opened call (call.run (.files s) v).1) (call.run (.files s) v).2 := by
  suffices hRun : ¬(call.run (.files s) v).1.Faulty ∧
      v.files.KeepsDirectories (call.run (.files s) v).2.files ∧
      ∀ space ∈ spaces, Laid s (call.run (.files s) v).2.files space from
    ⟨hRun.1, h.given.step call, among_of_grant h.among hSpace _, h.founded.mono hRun.2.1, hRun.2.2⟩
  cases call with
  | getClient kind owner purpose =>
      have hMem := hSpace _ rfl
      have hLong := Call.length_space (.getClient kind owner purpose) rfl
      obtain ⟨hFine, hLaid⟩ := h.openClient hMem hLong (hNameable _ hMem)
      have hGrown := grown_openClient s (clientNamespace kind owner purpose) v.files
      rw [← files_openFiles] at hGrown
      exact ⟨hFine, hGrown.keepsDirectories, hLaid⟩
  | use n r =>
      rw [Call.run, r.run_eq, r.faulty_answer_iff]
      obtain ⟨hFine, hLaid⟩ := h.batch n r.ops fun op hMem => hKeys _ (List.mem_map_of_mem hMem)
      exact ⟨hFine, keepsDirectories_batch v n r.ops, hLaid⟩
  | close n =>
      refine ⟨?_, .refl _, h.laid⟩
      rintro ⟨cause, hCause⟩
      exact absurd hCause (by simp)

theorem not_faulty {calls : List Call} (h : Ready s spaces opened v)
    (hNameable : ∀ space ∈ spaces, Nameable s space)
    (hSpaces : ∀ call ∈ calls, ∀ space, call.space? = some space → space ∈ spaces)
    (hKeys : ∀ call ∈ calls, ∀ key ∈ call.keys, FileClient.Fits key) :
    ∀ a ∈ Call.answers (.files s) calls v, ¬a.Faulty := by
  induction calls generalizing opened v with
  | nil => exact fun a hMem => absurd hMem (by simp [Call.answers, Call.runAll])
  | cons call rest ih =>
      obtain ⟨hFine, hNext⟩ := h.step hNameable (hSpaces call List.mem_cons_self)
        (hKeys call List.mem_cons_self)
      rw [Call.answers_cons, List.forall_mem_cons]
      exact ⟨hFine, ih hNext (fun other hMem => hSpaces other (List.mem_cons_of_mem _ hMem))
        fun other hMem => hKeys other (List.mem_cons_of_mem _ hMem)⟩

end Ready

end Runs

namespace Call

/-- The namespaces that clients are called for. -/
def spaces (calls : List Call) : List String := calls.filterMap Call.space?

/-- A storage in files and a store in memory that have given out no clients yet, and of which the files
have as contents the values in memory for some namespaces. -/
structure Alike (s : FileStorageSettings) (store : Nat) (spaces : List String) (v w : Vault) : Prop where
  files : v.clients = []
  memory : w.clients = []
  inVault : store < w.memories.length
  values : ∀ space ∈ spaces, ∀ key, key ≠ "" →
    v.files.content? (home s space ++ [FileClient.fileName key]) = ((w.memory store).space space).get? key

/-- A storage in files and a store in memory are called alike, for clients of namespaces that differ in
the names of their directories if they differ, and for keys that are not empty. If the file system
refuses nothing, all answers are the same. It refuses nothing if the storage was started, each namespace
can be named and is laid out, and the keys are not too long. After these calls no call, whatever its
keys, changes what any client of either reads for a key, unless it closes this client or is about the
same key in the same namespace. -/
theorem files_refine_memory (s : FileStorageSettings) (store : Nat) (calls : List Call) (v w : Vault)
    (hNames : ∀ a ∈ spaces calls, ∀ b ∈ spaces calls, directoryName a = directoryName b → a = b)
    (hKeys : ∀ call ∈ calls, ∀ key ∈ call.keys, key ≠ "") (hStart : Alike s store (spaces calls) v w) :
    ((∀ a ∈ answers (.files s) calls v, ¬a.Faulty) →
      answers (.files s) calls v = answers (.memory store) calls w) ∧
    ((∃ before, FileStorage.start s before = (.ok (), v.files)) →
      (∀ space ∈ spaces calls, Nameable s space ∧ Laid s v.files space) →
      (∀ call ∈ calls, ∀ key ∈ call.keys, FileClient.Fits key) →
      ∀ a ∈ answers (.files s) calls v, ¬a.Faulty) ∧
    ∀ call : Call, call.Isolated (.files s) (left (.files s) calls v) ∧
      call.Isolated (.memory store) (left (.memory store) calls w) := by
  have hSpaces : ∀ call ∈ calls, ∀ space, call.space? = some space → space ∈ spaces calls :=
    fun call hMem space hSpace => List.mem_filterMap.mpr ⟨call, hMem, hSpace⟩
  refine ⟨fun hFine => ?_, ?_, fun call =>
    ⟨isolated_left hStart.files calls call, isolated_left hStart.memory calls call⟩⟩
  · have hMirrored : Mirrored s store (spaces calls) [] v w :=
      ⟨given_nil _ hStart.files, given_nil _ hStart.memory, hStart.inVault, by simp, hStart.values⟩
    exact hMirrored.answers_eq hNames hSpaces hKeys hFine
  · rintro ⟨before, hBefore⟩ hLaid hFits
    have hReady : Ready s (spaces calls) [] v :=
      ⟨given_nil _ hStart.files, by simp, founded_of_start hBefore, fun space hMem =>
        (hLaid space hMem).2⟩
    exact hReady.not_faulty (fun space hMem => (hLaid space hMem).1) hSpaces hFits

section Reopening

/-- A storage in a directory below the root. -/
def dataSettings : FileStorageSettings := ⟨"/data", true⟩

/-- A vault with the directory of this storage and an empty store in memory. -/
def dataVault : Vault := ⟨[[]], [(["data"], .directory)], []⟩

/-- A client writes and is given up, another one of its namespace reads, and one of another
namespace. -/
def reopening : List Call :=
  [.getClient .exporter plainOwner "queue", .use 0 (.set "ri" [1]),
    .use 0 (.batch [.get "ri", .delete "wi"]), .close 0, .use 0 (.get "ri"),
    .getClient .exporter plainOwner "queue", .use 1 (.get "ri"),
    .getClient .receiver namedOwner "", .use 2 (.get "ri")]

theorem entryAt?_dataVault (space : String) (names : List String) :
    dataVault.files.entryAt? (home dataSettings space ++ names) = none := by
  have hRoot : root dataSettings = ["data"] := by decide
  rw [FileSystem.entryAt?_of_get? (by simp [home]), home, hRoot]
  exact Table.get?_cons_of_ne (by simp) _ _

theorem alike_dataVault : Alike dataSettings 0 (spaces reopening) dataVault dataVault := by
  refine ⟨rfl, rfl, by decide, fun space _ key _ => ?_⟩
  rw [FileSystem.content?, entryAt?_dataVault]
  rfl

theorem spaces_reopening : spaces reopening =
    ["exporter_otlp_a_queue", "exporter_otlp_a_queue", "receiver_otlp_a"] := by decide

theorem nameable_reopening : ∀ space ∈ spaces reopening, Nameable dataSettings space := by
  rw [spaces_reopening, List.forall_mem_cons, List.forall_mem_cons, List.forall_mem_singleton]
  exact ⟨⟨⟨_, rfl⟩, by decide⟩, ⟨⟨_, rfl⟩, by decide⟩, ⟨⟨_, rfl⟩, by decide⟩⟩

theorem fits_reopening : ∀ call ∈ reopening, ∀ key ∈ call.keys, FileClient.Fits key := by
  have hKeys : ∀ call ∈ reopening, ∀ key ∈ call.keys, key = "ri" ∨ key = "wi" := by decide
  intro call hCall key hKey
  rcases hKeys call hCall key hKey with rfl | rfl <;> exact ⟨by decide, by decide⟩

/-- The client that was given up is refused, the next one reads what was written, and one of another
namespace does not. -/
theorem files_refine_memory_reopening :
    answers (.files dataSettings) reopening dataVault = answers (.memory 0) reopening dataVault ∧
      (answers (.memory 0) reopening dataVault).drop 4 =
        [.value (.error .closed), .opened (.ok 1), .value (.ok (some [1])), .opened (.ok 2),
          .value (.ok none)] := by
  have hNames : ∀ a ∈ spaces reopening, ∀ b ∈ spaces reopening,
      directoryName a = directoryName b → a = b := by
    rw [spaces_reopening]
    decide
  have hLaid : ∀ space ∈ spaces reopening, Laid dataSettings dataVault.files space := fun space _ =>
    .inr ⟨List.append_nil (home dataSettings space) ▸ entryAt?_dataVault space [],
      fun name => entryAt?_dataVault space [name]⟩
  obtain ⟨hSame, hFine, -⟩ :=
    files_refine_memory dataSettings 0 reopening dataVault dataVault hNames (by decide) alike_dataVault
  refine ⟨hSame (hFine ⟨[], rfl⟩ (fun space hMem => ⟨nameable_reopening space hMem, hLaid space hMem⟩)
    fits_reopening), rfl⟩

end Reopening

end Call

end Telemetry.Storage

import Telemetry.Proofs.Storage.Calls

/-!
# Files that mirror memory

A storage in files and a store in memory are called alike. As long as the file system refuses nothing,
the answers are the same, because the contents of the files stay the values in memory: whatever the keys
are, no two have one file and none has the temporary file of another. Where the directory of the
storage is there and names and keys are not too long, the file system refuses nothing.
-/

namespace Telemetry.Storage

open Text (Bytes)

section Batches

namespace FileAction

variable {fs fs' : FileSystem} {directory place source target : Place} {name : String}
  {found : Option (Option Bytes)}

theorem read_done (hStanding : fs.Standing directory)
    (h : (read (directory ++ [name])).run fs = (.ok found, fs')) :
    found = some (fs.content? (directory ++ [name])) ∧ fs' = fs := by
  rw [run] at h
  cases hRead : fs.readFile (directory ++ [name]) with
  | ok content =>
      rw [hRead] at h
      have hContent := FileSystem.content?_eq_some_iff.mpr (FileSystem.entryAt?_of_readFile hRead)
      rw [hContent]
      exact ⟨(Except.ok.inj (congrArg Prod.fst h)).symm, (congrArg Prod.snd h).symm⟩
  | error e =>
      rw [hRead] at h
      cases e with
      | missing =>
          rw [hStanding.content?_of_missing hRead]
          exact ⟨(Except.ok.inj (congrArg Prod.fst h)).symm, (congrArg Prod.snd h).symm⟩
      | _ => exact absurd (congrArg Prod.fst h) (by simp)

theorem write_done {content : Bytes} (h : (write place content).run fs = (.ok found, fs')) :
    found = none ∧ fs' = fs.insert place (.file content) := by
  rw [run, FileSystem.writeFile_eq] at h
  cases hVacant : fs.vacant place with
  | error e =>
      rw [hVacant] at h
      exact absurd (congrArg Prod.fst h) (by simp [Except.map])
  | ok u =>
      rw [hVacant] at h
      exact ⟨(Except.ok.inj (congrArg Prod.fst h)).symm, (congrArg Prod.snd h).symm⟩

theorem rename_done (h : (rename source target).run fs = (.ok found, fs')) :
    found = none ∧ ∃ content, fs.entryAt? source = some (.file content) ∧
      fs' = (fs.erase source).insert target (.file content) := by
  rw [run, FileSystem.renameFile_eq] at h
  cases hRead : fs.readFile source with
  | error e =>
      rw [hRead] at h
      exact absurd (congrArg Prod.fst h) (by simp [Except.bind])
  | ok content =>
      cases hVacant : fs.vacant target with
      | error e =>
          rw [hRead, hVacant] at h
          exact absurd (congrArg Prod.fst h) (by simp [Except.bind, Except.map])
      | ok u =>
          rw [hRead, hVacant] at h
          exact ⟨(Except.ok.inj (congrArg Prod.fst h)).symm, content,
            FileSystem.entryAt?_of_readFile hRead, (congrArg Prod.snd h).symm⟩

theorem remove_done (hStanding : fs.Standing directory)
    (h : (remove (directory ++ [name])).run fs = (.ok found, fs')) :
    found = none ∧ ∀ p, fs'.content? p = if p = directory ++ [name] then none else fs.content? p := by
  rw [run, FileSystem.removeFile_eq] at h
  cases hRead : fs.readFile (directory ++ [name]) with
  | ok content =>
      rw [hRead] at h
      obtain rfl : fs.erase (directory ++ [name]) = fs' := congrArg Prod.snd h
      exact ⟨(Except.ok.inj (congrArg Prod.fst h)).symm,
        FileSystem.content?_erase (FileClient.append_singleton_ne_nil directory name)⟩
  | error e =>
      rw [hRead] at h
      cases e with
      | missing =>
          obtain rfl : fs = fs' := congrArg Prod.snd h
          refine ⟨(Except.ok.inj (congrArg Prod.fst h)).symm, fun p => ?_⟩
          split
          · next hSame => rw [hSame, hStanding.content?_of_missing hRead]
          · rfl
      | _ => exact absurd (congrArg Prod.fst h) (by simp [Except.map])

end FileAction

theorem FileSystem.Standing.run {fs fs' : FileSystem} {place : Place} (h : fs.Standing place)
    {a : FileAction} {outcome : Except FileError (Option (Option Bytes))}
    (hRun : a.run fs = (outcome, fs')) : fs'.Standing place := by
  have hKept := a.keepsDirectories_run fs
  rw [hRun] at hKept
  exact h.mono hKept

namespace FileClient

variable {c : FileClient} {fs fs' : FileSystem} {values : Space} {key : String}

/-- The files of a directory have the values of a namespace as contents. -/
def Holds (c : FileClient) (fs : FileSystem) (values : Space) : Prop :=
  ∀ key, key ≠ "" → fs.content? (c.directory ++ [fileName key]) = values.get? key

theorem Holds.insert_temporaryPlace (h : c.Holds fs values) (key : String) (content : Bytes) :
    c.Holds (fs.insert (c.temporaryPlace key) (.file content)) values := by
  intro other hOther
  rw [temporaryPlace, FileSystem.content?_insert (append_singleton_ne_nil c.directory _),
    if_neg (append_singleton_ne (fileName_ne_temporary other key))]
  exact h other hOther

theorem Holds.insert_place (h : c.Holds fs values) (key : String) (content : Bytes) :
    c.Holds ((fs.erase (c.temporaryPlace key)).insert (c.directory ++ [fileName key]) (.file content))
      (values.insert key content) := by
  intro other hOther
  rw [FileSystem.content?_insert (append_singleton_ne_nil c.directory _), Space.get?_insert]
  by_cases hSame : other = key
  · rw [hSame, if_pos rfl, if_pos rfl]
  · have hName : fileName other ≠ fileName key := fun hEq => hSame (fileName_injective hEq)
    rw [if_neg (append_singleton_ne hName), if_neg hSame, temporaryPlace,
      FileSystem.content?_erase (append_singleton_ne_nil c.directory _),
      if_neg (append_singleton_ne (fileName_ne_temporary other key))]
    exact h other hOther

theorem Holds.erase_place (h : c.Holds fs values) (key : String)
    (hGone : ∀ p, fs'.content? p = if p = c.directory ++ [fileName key] then none else fs.content? p) :
    c.Holds fs' (values.erase key) := by
  intro other hOther
  rw [hGone, Space.get?_erase]
  by_cases hSame : other = key
  · rw [hSame, if_pos rfl, if_pos rfl]
  · have hName : fileName other ≠ fileName key := fun hEq => hSame (fileName_injective hEq)
    rw [if_neg (append_singleton_ne hName), if_neg hSame]
    exact h other hOther

theorem perform_cons_done {a : FileAction} {rest : List FileAction} {reads : Reads}
    (h : perform fs (a :: rest) = (.ok (), reads, fs')) :
    ∃ found fs₁ later, a.run fs = (.ok found, fs₁) ∧ perform fs₁ rest = (.ok (), later, fs') ∧
      reads = found.toList ++ later := by
  rw [perform] at h
  rcases hRun : a.run fs with ⟨e | found, fs₁⟩
  · rw [hRun] at h
    exact absurd (congrArg Prod.fst h) (by simp)
  · rw [hRun] at h
    rcases hRest : perform fs₁ rest with ⟨outcome, later, fs₂⟩
    dsimp only at h
    rw [hRest] at h
    obtain ⟨rfl, rfl, rfl⟩ : outcome = .ok () ∧ found.toList ++ later = reads ∧ fs₂ = fs' := by
      simpa using h
    exact ⟨found, fs₁, later, rfl, hRest, rfl⟩

/-- A batch that was carried out in files did to their contents what it does to the values, and read
the same. -/
theorem Holds.perform (h : c.Holds fs values) (hStanding : fs.Standing c.directory)
    (ops : List Operation) (hKeys : ∀ op ∈ ops, op.key ≠ "") {reads : Reads}
    (hDone : FileClient.perform fs (ops.flatMap c.actions) = (.ok (), reads, fs')) :
    reads = (values.run ops).1 ∧ c.Holds fs' (values.run ops).2 := by
  induction ops generalizing fs values reads with
  | nil =>
      obtain ⟨rfl, rfl⟩ : reads = [] ∧ fs = fs' := by simpa [FileClient.perform] using hDone
      exact ⟨rfl, h⟩
  | cons op rest ih =>
      have hKey : op.key ≠ "" := hKeys op List.mem_cons_self
      have hRest := fun other hMem => hKeys other (List.mem_cons_of_mem op hMem)
      rw [List.flatMap_cons] at hDone
      cases op with
      | get key =>
          replace hKey : key ≠ "" := hKey
          obtain ⟨found, fs₁, later, hRead, hLater, rfl⟩ := perform_cons_done hDone
          rw [place_of_ne hKey] at hRead
          obtain ⟨rfl, rfl⟩ := FileAction.read_done hStanding hRead
          obtain ⟨rfl, hLast⟩ := ih h hStanding hRest hLater
          refine ⟨?_, hLast⟩
          rw [h key hKey]
          rfl
      | set key value =>
          replace hKey : key ≠ "" := hKey
          obtain ⟨found, fs₁, later, hWrite, hLater, rfl⟩ := perform_cons_done hDone
          obtain ⟨found', fs₂, later', hRename, hLater', rfl⟩ := perform_cons_done hLater
          have hStanding₂ := (hStanding.run hWrite).run hRename
          obtain ⟨rfl, rfl⟩ := FileAction.write_done hWrite
          obtain ⟨rfl, content, hTemporary, rfl⟩ := FileAction.rename_done hRename
          -- What is renamed is what was just written.
          obtain rfl : value = content := by
            rw [temporaryPlace, FileSystem.entryAt?_insert fs (append_singleton_ne_nil c.directory _),
              if_pos rfl] at hTemporary
            exact Entry.file.inj (Option.some.inj hTemporary)
          rw [place_of_ne hKey] at hStanding₂ hLater'
          exact ih ((h.insert_temporaryPlace key value).insert_place key value) hStanding₂ hRest hLater'
      | delete key =>
          replace hKey : key ≠ "" := hKey
          obtain ⟨found, fs₁, later, hRemove, hLater, rfl⟩ := perform_cons_done hDone
          have hStanding₁ := hStanding.run hRemove
          rw [place_of_ne hKey] at hRemove
          obtain ⟨rfl, hGone⟩ := FileAction.remove_done hStanding hRemove
          exact ih (h.erase_place key hGone) hStanding₁ hRest hLater

theorem Holds.batch (h : c.Holds fs values) (hStanding : fs.Standing c.directory)
    (hOpen : c.closed = false) (ops : List Operation) (hKeys : ∀ op ∈ ops, op.key ≠ "")
    (hFine : ¬∃ cause, (c.batch ops fs).1.outcome = .error (.io cause)) :
    (c.batch ops fs).1 = ⟨.ok (), (values.run ops).1⟩ ∧ c.Holds (c.batch ops fs).2 (values.run ops).2 := by
  rw [FileClient.batch, hOpen, if_neg Bool.false_ne_true] at hFine ⊢
  rcases hDone : FileClient.perform fs (ops.flatMap c.actions) with ⟨e | u, reads, fs'⟩
  · rw [hDone] at hFine
    exact absurd ⟨e.message, rfl⟩ hFine
  · obtain ⟨rfl, hLast⟩ := h.perform hStanding ops hKeys hDone
    refine ⟨?_, hLast⟩
    dsimp only
    rw [values.length_run, Nat.sub_self, List.replicate_zero, List.append_nil]
    rfl

end FileClient

end Batches

section Vaults

open Vault FileStorage

/-- A vault with a storage in files and one with a store in memory, of which the same clients were
opened and given up, and which have the same values for some namespaces. -/
structure Mirrored (s : FileStorageSettings) (store : Nat) (spaces : List String)
    (opened : List (String × Bool)) (v w : Vault) : Prop where
  files : v.Given (.files s) opened
  memory : w.Given (.memory store) opened
  inVault : store < w.memories.length
  among : ∀ o ∈ opened, o.1 ∈ spaces
  values : ∀ space ∈ spaces,
    FileClient.Holds ⟨home s space, false⟩ v.files ((w.memory store).space space)

variable {s : FileStorageSettings} {store : Nat} {spaces : List String}
  {opened : List (String × Bool)} {v w : Vault}

/-- What a storage answers instead of a client is that the file system refused something. -/
theorem io_of_openFiles {space : String} {e : StorageError} {v' : Vault}
    (h : v.openFiles s space = (.error e, v')) : ∃ cause, e = .io cause := by
  rw [openFiles, FileStorage.openClient] at h
  cases hPath : Path.ofText (Path.join s.directory (directoryName space)) with
  | error cause =>
      rw [hPath] at h
      exact ⟨cause.message, (Except.error.inj (congrArg Prod.fst h)).symm⟩
  | ok path =>
      rw [hPath] at h
      dsimp only at h
      cases hFound : (v.files.makeDirectories path).1.bind fun _ =>
          (v.files.makeDirectories path).2.find path with
      | error cause =>
          rw [hFound] at h
          exact ⟨cause.message, (Except.error.inj (congrArg Prod.fst h)).symm⟩
      | ok found =>
          rw [hFound] at h
          exact absurd (congrArg Prod.fst h) (by simp)

namespace Mirrored

/-- A batch that the file system does not refuse is answered as in memory, and changes the same
values. -/
theorem batch (h : Mirrored s store spaces opened v w)
    (hNames : ∀ a ∈ spaces, ∀ b ∈ spaces, directoryName a = directoryName b → a = b) (n : Nat)
    (ops : List Operation) (hKeys : ∀ op ∈ ops, op.key ≠ "")
    (hFine : ¬∃ cause, (v.batch n ops).1.outcome = .error (.io cause)) :
    (v.batch n ops).1 = (w.batch n ops).1 ∧ ∀ space ∈ spaces,
      FileClient.Holds ⟨home s space, false⟩ (v.batch n ops).2.files
        (((w.batch n ops).2.memory store).space space) := by
  have hV := h.files.getElem?_clients n
  have hW := h.memory.getElem?_clients n
  rcases hAt : opened[n]? with _ | ⟨space, closed⟩
  · rw [hAt] at hV hW
    rw [Vault.batch, hV, Vault.batch, hW]
    exact ⟨rfl, h.values⟩
  have hMem : space ∈ spaces := h.among _ (List.mem_of_getElem? hAt)
  have hServed : Housed s v.files space := h.files.serves _ (List.mem_of_getElem? hAt)
  rw [hAt] at hV hW
  rw [batch_files hV] at hFine ⊢
  rw [batch_memory hW]
  dsimp only at hFine ⊢
  rw [memory_set, if_pos ⟨rfl, h.inVault⟩]
  cases closed with
  | true => exact ⟨rfl, h.values⟩
  | false =>
      obtain ⟨hReply, hValues⟩ :=
        FileClient.Holds.batch (h.values space hMem) hServed.standing rfl ops hKeys hFine
      refine ⟨hReply, fun other hOther => ?_⟩
      by_cases hSame : other = space
      · subst hSame
        have hSpace := (MemoryClient.space_insert (w.memory store) other other
          (((w.memory store).space other).run ops).2).trans (if_pos rfl)
        exact hSpace ▸ hValues
      · have hName : directoryName other ≠ directoryName space :=
          fun hEq => hSame (hNames other hOther space hMem hEq)
        have hSpace := MemoryClient.space_batch (c := ⟨space, false⟩) ops (w.memory store) hSame
        intro key hKey
        have hSees : FileClient.Sees ⟨home s other, false⟩ (home s other ++ [FileClient.fileName key]) :=
          .inr ⟨_, rfl⟩
        have hFrame := FileClient.entryAt?_batch ⟨home s space, false⟩ ops v.files
          (FileClient.not_owns_of_sees hName rfl rfl hSees)
        rw [hSpace]
        exact (FileSystem.content?_congr hFrame).trans (h.values other hOther key hKey)

/-- A client that the file system does not refuse has the number it has in memory, and no value changes
as it is opened. -/
theorem openClient (h : Mirrored s store spaces opened v w) {space : String}
    (hLong : 2 < space.toList.length)
    (hFine : ¬∃ cause, (v.openFiles s space).1 = .error (.io cause)) :
    (v.openFiles s space).1 = .ok w.clients.length ∧ ∀ other ∈ spaces,
      FileClient.Holds ⟨home s other, false⟩ (v.openFiles s space).2.files
        ((w.memory store).space other) := by
  have hOpen := h.files.openClient hLong
  have hGrown := grown_openClient s space v.files
  rw [← files_openFiles] at hGrown
  rw [Provider.openClient] at hOpen
  rcases hRun : v.openFiles s space with ⟨e | n, v'⟩
  · obtain ⟨cause, rfl⟩ := io_of_openFiles hRun
    rw [hRun] at hFine
    exact absurd ⟨cause, rfl⟩ hFine
  · rw [hRun] at hOpen hGrown
    obtain ⟨rfl, -⟩ := hOpen
    refine ⟨?_, fun other hOther key hKey => (hGrown.content? _).trans (h.values other hOther key hKey)⟩
    rw [h.files.clients, h.memory.clients, List.length_map, List.length_map]

/-- A call that the file system does not refuse is answered as in memory, and the vaults stay alike. -/
theorem step (h : Mirrored s store spaces opened v w)
    (hNames : ∀ a ∈ spaces, ∀ b ∈ spaces, directoryName a = directoryName b → a = b) {call : Call}
    (hSpace : ∀ space, call.space? = some space → space ∈ spaces)
    (hKeys : ∀ key ∈ call.keys, key ≠ "") (hFine : ¬(call.run (.files s) v).1.Faulty) :
    (call.run (.files s) v).1 = (call.run (.memory store) w).1 ∧
      Mirrored s store spaces (grant opened call (call.run (.files s) v).1)
        (call.run (.files s) v).2 (call.run (.memory store) w).2 := by
  suffices hSame : (call.run (.files s) v).1 = (call.run (.memory store) w).1 ∧
      store < (call.run (.memory store) w).2.memories.length ∧
      ∀ space ∈ spaces, FileClient.Holds ⟨home s space, false⟩ (call.run (.files s) v).2.files
        (((call.run (.memory store) w).2.memory store).space space) by
    obtain ⟨hAnswer, hVault, hValues⟩ := hSame
    have hMemory := h.memory.step call
    rw [← hAnswer] at hMemory
    exact ⟨hAnswer, h.files.step call, hMemory, hVault, among_of_grant h.among hSpace _, hValues⟩
  cases call with
  | getClient kind owner purpose =>
      have hLong := Call.length_space (.getClient kind owner purpose) rfl
      obtain ⟨hOpened, hValues⟩ := h.openClient hLong hFine
      exact ⟨congrArg Answer.opened hOpened, h.inVault, hValues⟩
  | use n r =>
      rw [Call.run, r.run_eq, r.faulty_answer_iff] at hFine
      rw [Call.run, r.run_eq, Call.run, r.run_eq]
      obtain ⟨hReply, hValues⟩ :=
        h.batch hNames n r.ops (fun op hMem => hKeys _ (List.mem_map_of_mem hMem)) hFine
      refine ⟨congrArg r.answer hReply, ?_, hValues⟩
      rw [length_memories_batch]
      exact h.inVault
  | close n => exact ⟨rfl, h.inVault, h.values⟩

/-- As long as the file system refuses nothing, files answer as memory does. -/
theorem answers_eq {calls : List Call} (h : Mirrored s store spaces opened v w)
    (hNames : ∀ a ∈ spaces, ∀ b ∈ spaces, directoryName a = directoryName b → a = b)
    (hSpaces : ∀ call ∈ calls, ∀ space, call.space? = some space → space ∈ spaces)
    (hKeys : ∀ call ∈ calls, ∀ key ∈ call.keys, key ≠ "")
    (hFine : ∀ a ∈ Call.answers (.files s) calls v, ¬a.Faulty) :
    Call.answers (.files s) calls v = Call.answers (.memory store) calls w := by
  induction calls generalizing opened v w with
  | nil => rfl
  | cons call rest ih =>
      rw [Call.answers_cons] at hFine
      obtain ⟨hAnswer, hNext⟩ := h.step hNames (hSpaces call List.mem_cons_self)
        (hKeys call List.mem_cons_self) (hFine _ List.mem_cons_self)
      rw [Call.answers_cons, Call.answers_cons, hAnswer, ih hNext
        (fun other hMem => hSpaces other (List.mem_cons_of_mem _ hMem))
        (fun other hMem => hKeys other (List.mem_cons_of_mem _ hMem))
        fun a hMem => hFine a (List.mem_cons_of_mem _ hMem)]

end Mirrored

end Vaults

end Telemetry.Storage

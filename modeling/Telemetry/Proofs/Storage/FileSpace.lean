import Mathlib.Data.List.TakeWhile
import Telemetry.Proofs.Storage.Space
import Telemetry.Proofs.Text.Bytes
import Telemetry.Storage.Files

/-!
# A directory as a namespace

The files of a client's directory show a namespace: the file of a key has the value of the key. Batches
of a client do to the directory what they do to the namespace, as long as the names of the files are
not too long.
-/

namespace Telemetry.Storage

open Text (Bytes)

namespace FileSystem

theorem entryAt?_of_get? {fs : FileSystem} {place : Place} (hSome : place ≠ []) :
    fs.entryAt? place = fs.get? place := by
  rw [entryAt?, if_neg (by simpa using hSome)]

theorem entryAt?_insert (fs : FileSystem) {place : Place} (hSome : place ≠ []) (e : Entry)
    (other : Place) :
    FileSystem.entryAt? (fs.insert place e) other =
      if other = place then some e else fs.entryAt? other := by
  by_cases hRoot : other = []
  · subst hRoot
    rw [if_neg fun hEq => hSome hEq.symm]
    rfl
  rw [entryAt?_of_get? hRoot, entryAt?_of_get? hRoot]
  split
  · next hEq => rw [hEq, Table.get?_insert_self]
  · next hNe => rw [Table.get?_insert_of_ne hNe]

theorem entryAt?_erase (fs : FileSystem) {place : Place} (hSome : place ≠ []) (other : Place) :
    FileSystem.entryAt? (fs.erase place) other =
      if other = place then none else fs.entryAt? other := by
  by_cases hRoot : other = []
  · subst hRoot
    rw [if_neg fun hEq => hSome hEq.symm]
    rfl
  rw [entryAt?_of_get? hRoot, entryAt?_of_get? hRoot]
  split
  · next hEq => rw [hEq, Table.get?_erase_self]
  · next hNe => rw [Table.get?_erase_of_ne hNe]

/-- On the way to a place only what stands above it matters. -/
theorem walk_congr {fs fs' : FileSystem} (names : List String) (place : Place)
    (h : ∀ p : Place, p.length < place.length + names.length → fs'.entryAt? p = fs.entryAt? p) :
    fs'.walk place (names.map .enter) = fs.walk place (names.map .enter) := by
  induction names generalizing place with
  | nil => rfl
  | cons name rest ih =>
      have hHere : fs'.entryAt? place = fs.entryAt? place := h place (by simp)
      have hRest := ih (place ++ [name]) fun p hp => h p (by
        simp only [List.length_append, List.length_cons, List.length_nil] at hp ⊢
        omega)
      rw [List.map_cons, walk, walk, hHere]
      split
      · rfl
      · rfl
      · rw [hRest]

/-- A file can be reached whose directory is there. -/
theorem reach_append {fs : FileSystem} {directory : Place} (hReached : fs.reach directory = .ok directory)
    (hThere : fs.entryAt? directory = some .directory) {name : String}
    (hShort : name.utf8ByteSize ≤ longestName) :
    fs.reach (directory ++ [name]) = .ok (directory ++ [name]) := by
  rw [reach, List.map_append, walk_append, ← reach, hReached]
  change fs.walk directory [.enter name] = _
  rw [walk, hThere]
  dsimp only
  rw [if_neg (by omega)]
  rfl

/-- No file can be reached whose name is too long. -/
theorem reach_append_of_long {fs : FileSystem} {directory : Place}
    (hReached : fs.reach directory = .ok directory) (hThere : fs.entryAt? directory = some .directory)
    {name : String} (hLong : longestName < name.utf8ByteSize) :
    fs.reach (directory ++ [name]) = .error .nameTooLong := by
  rw [reach, List.map_append, walk_append, ← reach, hReached]
  change fs.walk directory [.enter name] = _
  rw [walk, hThere]
  dsimp only
  rw [if_pos hLong]

end FileSystem

namespace Operation

/-- How much longer than the name of the key's file the longest name is that a step needs. -/
def surplus : Operation → Nat
  | set _ _ => FileClient.temporaryEnding.utf8ByteSize
  | get _ | delete _ => 0

/-- Why files refuse a step: the empty key has no file, and a name can be too long. -/
def refusal? (op : Operation) : Option FileError :=
  if op.key = "" then some .isDirectory
  else if FileSystem.longestName < 2 * op.key.utf8ByteSize + op.surplus then some .nameTooLong
  else none

/-- The steps before the first that files refuse. -/
def accepted (ops : List Operation) : List Operation := ops.takeWhile fun op => op.refusal? = none

variable {op : Operation} {e : FileError}

theorem refusal?_eq_none_iff : op.refusal? = none ↔
    op.key ≠ "" ∧ 2 * op.key.utf8ByteSize + op.surplus ≤ FileSystem.longestName := by
  rw [refusal?]
  split
  · next hEmpty => simp [hEmpty]
  · next hKey => simp [hKey]

/-- What refuses a step is the key, if it is empty, or else the length of a name. -/
theorem refusal?_cases (h : op.refusal? = some e) : op.key = "" ∧ e = .isDirectory ∨
    op.key ≠ "" ∧ FileSystem.longestName < 2 * op.key.utf8ByteSize + op.surplus ∧ e = .nameTooLong := by
  rw [refusal?] at h
  split at h
  · next hEmpty => exact .inl ⟨hEmpty, (Option.some.inj h).symm⟩
  · next hKey =>
      split at h
      · next hLong => exact .inr ⟨hKey, hLong, (Option.some.inj h).symm⟩
      · cases h

theorem accepted_cons_of_some {rest : List Operation} (h : op.refusal? = some e) :
    accepted (op :: rest) = [] := List.takeWhile_cons_of_neg (by simp [h])

theorem accepted_cons_of_none {rest : List Operation} (h : op.refusal? = none) :
    accepted (op :: rest) = op :: accepted rest := List.takeWhile_cons_of_pos (by simp [h])

theorem accepted_eq_self {ops : List Operation} (h : ∀ op ∈ ops, op.refusal? = none) :
    accepted ops = ops :=
  List.takeWhile_eq_self_iff.mpr fun op hMem => decide_eq_true (h op hMem)

end Operation

namespace FileClient

variable {c : FileClient} {fs fs' : FileSystem} {s t : Space} {key : String}

/-- A key that has a file with a name that is not too long, and neither is that of its temporary
file. -/
structure Fits (key : String) : Prop where
  nonempty : key.isEmpty = false
  short : 2 * key.utf8ByteSize + temporaryEnding.utf8ByteSize ≤ FileSystem.longestName

/-- A directory that shows a namespace. -/
structure Shows (c : FileClient) (fs : FileSystem) (s : Space) : Prop where
  reached : fs.reach c.directory = .ok c.directory
  there : fs.entryAt? c.directory = some .directory
  values : ∀ key, fs.entryAt? (c.directory ++ [fileName key]) = (s.get? key).map Entry.file
  spare : ∀ key, fs.entryAt? (c.temporaryPlace key) ≠ some .directory

theorem place_of_ne (hKey : key ≠ "") : c.place key = c.directory ++ [fileName key] := by
  rw [place, if_neg fun hEmpty => hKey (String.isEmpty_iff.mp hEmpty)]

theorem place_empty (c : FileClient) : c.place "" = c.directory := by simp [place]

theorem utf8ByteSize_fileName (key : String) : (fileName key).utf8ByteSize = 2 * key.utf8ByteSize := by
  rw [fileName, Text.utf8ByteSize_hexEncode, Text.length_toUTF8]

theorem fileName_injective {other : String} (h : fileName key = fileName other) : key = other := by
  have hBytes := congrArg Text.hexDecode h
  rw [fileName, fileName, Text.hexDecode_hexEncode, Text.hexDecode_hexEncode] at hBytes
  exact Text.toUTF8_toList_injective (Option.some.inj hBytes)

/-- No name of a file is that of a temporary file. -/
theorem fileName_ne_temporary (key other : String) :
    fileName key ≠ fileName other ++ temporaryEnding := by
  intro hEq
  have hChars := congrArg String.toList hEq
  rw [String.toList_append, fileName, Text.hexEncode, String.toList_ofList] at hChars
  have hPoint : '.' ∈ Text.hexEncodeChars key.toUTF8.toList := by
    rw [hChars]
    exact List.mem_append_right _ (by decide)
  exact (Text.mem_hexEncodeChars hPoint).2 rfl

theorem append_singleton_ne {directory : Place} {name other : String} (h : name ≠ other) :
    directory ++ [name] ≠ directory ++ [other] := by simpa using h

theorem append_singleton_ne_nil (directory : Place) (name : String) : directory ++ [name] ≠ [] := by simp

theorem Fits.refusal? {op : Operation} (h : Fits op.key) : op.refusal? = none := by
  refine Operation.refusal?_eq_none_iff.mpr ⟨fun hEmpty => ?_, ?_⟩
  · exact absurd (String.isEmpty_iff.mpr hEmpty) (by simp [h.nonempty])
  · have hSurplus : op.surplus ≤ temporaryEnding.utf8ByteSize := by
      cases op <;> simp [Operation.surplus]
    have hShort := h.short
    omega

/-- Actions that come after others are carried out if none of these fails. -/
theorem perform_append (fs : FileSystem) (actions later : List FileAction) :
    perform fs (actions ++ later) = match perform fs actions with
      | (.error e, reads, fs') => (.error e, reads, fs')
      | (.ok (), reads, fs') =>
        ((perform fs' later).1, reads ++ (perform fs' later).2.1, (perform fs' later).2.2) := by
  induction actions generalizing fs with
  | nil => rfl
  | cons a rest ih =>
      rw [List.cons_append, perform, perform]
      rcases a.run fs with ⟨e | found, fs₁⟩
      · rfl
      · dsimp only
        rw [ih]
        rcases perform fs₁ rest with ⟨e | u, reads, fs₂⟩
        · rfl
        · simp only [List.append_assoc]

/-- A temporary file holds what was written to it. -/
theorem entryAt?_written (c : FileClient) (fs : FileSystem) (key : String) (content : Bytes) :
    FileSystem.entryAt? (fs.insert (c.temporaryPlace key) (.file content)) (c.temporaryPlace key) =
      some (.file content) :=
  (FileSystem.entryAt?_insert fs (append_singleton_ne_nil c.directory _) _ _).trans (if_pos rfl)

namespace Shows

/-- A directory shows each key one value. -/
theorem get?_eq (h : Shows c fs s) (h' : Shows c fs t) (key : String) : t.get? key = s.get? key := by
  have hSame := (h'.values key).symm.trans (h.values key)
  cases hFirst : s.get? key <;> cases hSecond : t.get? key <;> simp_all

theorem reach_file (h : Shows c fs s) (hShort : 2 * key.utf8ByteSize ≤ FileSystem.longestName) :
    fs.reach (c.directory ++ [fileName key]) = .ok (c.directory ++ [fileName key]) :=
  FileSystem.reach_append h.reached h.there (by rwa [utf8ByteSize_fileName])

theorem reach_temporaryPlace (h : Shows c fs s)
    (hShort : 2 * key.utf8ByteSize + temporaryEnding.utf8ByteSize ≤ FileSystem.longestName) :
    fs.reach (c.temporaryPlace key) = .ok (c.temporaryPlace key) := by
  refine FileSystem.reach_append h.reached h.there ?_
  rwa [String.utf8ByteSize_append, utf8ByteSize_fileName]

/-- The way to the directory does not depend on the files in it. -/
theorem of_entryAt? (h : Shows c fs s)
    (hSame : ∀ p : Place, (∀ name, p ≠ c.directory ++ [name]) → fs'.entryAt? p = fs.entryAt? p)
    (hValues : ∀ key, fs'.entryAt? (c.directory ++ [fileName key]) = (t.get? key).map Entry.file)
    (hSpare : ∀ key, fs'.entryAt? (c.temporaryPlace key) ≠ some .directory) : Shows c fs' t where
  reached := by
    have hWay : ∀ p : Place, p.length < ([] : Place).length + c.directory.length →
        fs'.entryAt? p = fs.entryAt? p := by
      intro p hp
      refine hSame p fun name hEq => ?_
      rw [hEq, List.length_append, List.length_nil, List.length_singleton] at hp
      omega
    exact (FileSystem.walk_congr c.directory [] hWay).trans h.reached
  there := by
    rw [hSame _ fun name hEq => by simpa using congrArg List.length hEq]
    exact h.there
  values := hValues
  spare := hSpare

/-- What is in temporary files does not show. -/
theorem insert_temporaryPlace (h : Shows c fs s) (key : String) (value : Bytes) :
    Shows c (fs.insert (c.temporaryPlace key) (.file value)) s := by
  have hEntry := FileSystem.entryAt?_insert fs
    (append_singleton_ne_nil c.directory (fileName key ++ temporaryEnding)) (.file value)
  refine h.of_entryAt? (fun p hp => ?_) (fun other => ?_) fun other => ?_
  · rw [temporaryPlace, hEntry, if_neg (hp _)]
  · rw [temporaryPlace, hEntry, if_neg (append_singleton_ne (fileName_ne_temporary other key))]
    exact h.values other
  · rw [temporaryPlace, hEntry]
    split
    · simp
    · exact h.spare other

theorem insert_place (h : Shows c fs s) (key : String) (value : Bytes) :
    Shows c ((fs.erase (c.temporaryPlace key)).insert (c.directory ++ [fileName key]) (.file value))
      (s.insert key value) := by
  have hErase := FileSystem.entryAt?_erase fs
    (append_singleton_ne_nil c.directory (fileName key ++ temporaryEnding))
  have hEntry := FileSystem.entryAt?_insert (fs.erase (c.temporaryPlace key))
    (append_singleton_ne_nil c.directory (fileName key)) (.file value)
  refine h.of_entryAt? (fun p hp => ?_) (fun other => ?_) fun other => ?_
  · rw [hEntry, if_neg (hp _), temporaryPlace, hErase, if_neg (hp _)]
  · rw [hEntry, Space.get?_insert]
    by_cases hKey : other = key
    · rw [hKey, if_pos rfl, if_pos rfl]
      rfl
    · have hName : fileName other ≠ fileName key := fun hEq => hKey (fileName_injective hEq)
      rw [if_neg (append_singleton_ne hName), if_neg hKey, temporaryPlace, hErase,
        if_neg (append_singleton_ne (fileName_ne_temporary other key))]
      exact h.values other
  · have hName := Ne.symm (fileName_ne_temporary key other)
    rw [hEntry, temporaryPlace, if_neg (append_singleton_ne hName), temporaryPlace, hErase]
    split
    · simp
    · exact h.spare other

theorem erase_place (h : Shows c fs s) (key : String) :
    Shows c (fs.erase (c.directory ++ [fileName key])) (s.erase key) := by
  have hErase := FileSystem.entryAt?_erase fs (append_singleton_ne_nil c.directory (fileName key))
  refine h.of_entryAt? (fun p hp => ?_) (fun other => ?_) fun other => ?_
  · rw [hErase, if_neg (hp _)]
  · rw [hErase, Space.get?_erase]
    by_cases hKey : other = key
    · rw [hKey, if_pos rfl, if_pos rfl]
      rfl
    · have hName : fileName other ≠ fileName key := fun hEq => hKey (fileName_injective hEq)
      rw [if_neg (append_singleton_ne hName), if_neg hKey]
      exact h.values other
  · rw [hErase]
    split
    · simp
    · exact h.spare other

/-- The file of a key has its value. -/
theorem readFile_file (h : Shows c fs s) (hShort : 2 * key.utf8ByteSize ≤ FileSystem.longestName) :
    fs.readFile (c.directory ++ [fileName key]) = (s.get? key).elim (.error .missing) .ok := by
  rw [FileSystem.readFile, h.reach_file hShort]
  simp only [bind, Except.bind]
  rw [h.values key]
  cases s.get? key <;> rfl

theorem readFile_empty (h : Shows c fs s) : fs.readFile (c.place "") = .error .isDirectory := by
  rw [place_empty, FileSystem.readFile, h.reached]
  simp only [bind, Except.bind]
  rw [h.there]

theorem readFile_of_long (h : Shows c fs s) (hKey : key ≠ "")
    (hLong : FileSystem.longestName < 2 * key.utf8ByteSize) :
    fs.readFile (c.place key) = .error .nameTooLong := by
  rw [place_of_ne hKey, FileSystem.readFile,
    FileSystem.reach_append_of_long h.reached h.there (by rwa [utf8ByteSize_fileName])]
  rfl

theorem run_write (h : Shows c fs s)
    (hShort : 2 * key.utf8ByteSize + temporaryEnding.utf8ByteSize ≤ FileSystem.longestName)
    (content : Bytes) :
    (FileAction.write (c.temporaryPlace key) content).run fs =
      (.ok none, fs.insert (c.temporaryPlace key) (.file content)) := by
  have hFile : fs.writeFile (c.temporaryPlace key) content =
      .ok (fs.insert (c.temporaryPlace key) (.file content)) := by
    rw [FileSystem.writeFile, h.reach_temporaryPlace hShort]
    simp only [bind, Except.bind]
    split
    · next hDirectory => exact absurd hDirectory (h.spare key)
    · rfl
  rw [FileAction.run, hFile]

theorem run_write_of_long (h : Shows c fs s)
    (hLong : FileSystem.longestName < 2 * key.utf8ByteSize + temporaryEnding.utf8ByteSize)
    (content : Bytes) :
    (FileAction.write (c.temporaryPlace key) content).run fs = (.error .nameTooLong, fs) := by
  rw [FileAction.run, FileSystem.writeFile, temporaryPlace,
    FileSystem.reach_append_of_long h.reached h.there
      (by rwa [String.utf8ByteSize_append, utf8ByteSize_fileName])]
  rfl

theorem readFile_temporaryPlace (h : Shows c fs s)
    (hShort : 2 * key.utf8ByteSize + temporaryEnding.utf8ByteSize ≤ FileSystem.longestName)
    {content : Bytes} (hTemporary : fs.entryAt? (c.temporaryPlace key) = some (.file content)) :
    fs.readFile (c.temporaryPlace key) = .ok content := by
  rw [FileSystem.readFile, h.reach_temporaryPlace hShort]
  simp only [bind, Except.bind]
  rw [hTemporary]

/-- A temporary file takes the place of the file of its key. -/
theorem run_rename (h : Shows c fs s) (hKey : key ≠ "")
    (hShort : 2 * key.utf8ByteSize + temporaryEnding.utf8ByteSize ≤ FileSystem.longestName)
    {content : Bytes} (hTemporary : fs.entryAt? (c.temporaryPlace key) = some (.file content)) :
    (FileAction.rename (c.temporaryPlace key) (c.place key)).run fs =
      (.ok none, (fs.erase (c.temporaryPlace key)).insert (c.directory ++ [fileName key])
        (.file content)) := by
  have hFile : fs.renameFile (c.temporaryPlace key) (c.directory ++ [fileName key]) =
      .ok ((fs.erase (c.temporaryPlace key)).insert (c.directory ++ [fileName key])
        (.file content)) := by
    rw [FileSystem.renameFile, h.readFile_temporaryPlace hShort hTemporary, h.reach_file (by omega)]
    simp only [bind, Except.bind]
    rw [h.values key]
    cases s.get? key <;> rfl
  rw [place_of_ne hKey, FileAction.run, hFile]

/-- The directory cannot be replaced by a file. -/
theorem run_rename_empty (h : Shows c fs s) {content : Bytes}
    (hTemporary : fs.entryAt? (c.temporaryPlace "") = some (.file content)) :
    (FileAction.rename (c.temporaryPlace "") (c.place "")).run fs = (.error .isDirectory, fs) := by
  rw [place_empty, FileAction.run, FileSystem.renameFile,
    h.readFile_temporaryPlace (by decide) hTemporary, h.reached]
  simp only [bind, Except.bind]
  rw [h.there]

/-- A step that is refused changes no value. -/
theorem perform_of_refusal? (h : Shows c fs s) {op : Operation} {e : FileError}
    (hRefusal : op.refusal? = some e) :
    ∃ fs', FileClient.perform fs (c.actions op) = (.error e, [], fs') ∧ Shows c fs' s := by
  rcases Operation.refusal?_cases hRefusal with ⟨hEmpty, rfl⟩ | ⟨hKey, hLong, rfl⟩
  · cases op with
    | get key | delete key =>
        obtain rfl : key = "" := hEmpty
        refine ⟨fs, ?_, h⟩
        simp only [actions, FileClient.perform, FileAction.run, FileSystem.removeFile,
          h.readFile_empty, bind, Except.bind]
    | set key value =>
        obtain rfl : key = "" := hEmpty
        have hWritten := h.insert_temporaryPlace "" value
        refine ⟨_, ?_, hWritten⟩
        rw [actions, FileClient.perform, h.run_write (by decide)]
        dsimp only
        rw [FileClient.perform, hWritten.run_rename_empty (entryAt?_written c fs "" value)]
        rfl
  · refine ⟨fs, ?_, h⟩
    cases op with
    | get key | delete key =>
        have hRead : fs.readFile (c.place key) = .error .nameTooLong := h.readFile_of_long hKey hLong
        simp only [actions, FileClient.perform, FileAction.run, FileSystem.removeFile, hRead, bind,
          Except.bind]
    | set key value =>
        have hWrite : (FileAction.write (c.temporaryPlace key) value).run fs =
            (.error .nameTooLong, fs) := h.run_write_of_long hLong value
        rw [actions, FileClient.perform, hWrite]

/-- A step that is not refused does what it does to the values. -/
theorem perform_of_accepted (h : Shows c fs s) {op : Operation} (hRefusal : op.refusal? = none) :
    ∃ fs', FileClient.perform fs (c.actions op) = (.ok (), (s.run [op]).1, fs') ∧
      Shows c fs' (s.run [op]).2 := by
  obtain ⟨hKey, hShort⟩ := Operation.refusal?_eq_none_iff.mp hRefusal
  cases op with
  | get key =>
      replace hKey : key ≠ "" := hKey
      replace hShort : 2 * key.utf8ByteSize ≤ FileSystem.longestName := hShort
      refine ⟨fs, ?_, h⟩
      rw [actions, FileClient.perform, place_of_ne hKey, FileAction.run, h.readFile_file hShort]
      cases hValue : s.get? key <;> simp [hValue, FileClient.perform]
  | set key value =>
      replace hKey : key ≠ "" := hKey
      replace hShort : 2 * key.utf8ByteSize + temporaryEnding.utf8ByteSize ≤
        FileSystem.longestName := hShort
      have hWritten := h.insert_temporaryPlace key value
      refine ⟨_, ?_, hWritten.insert_place key value⟩
      rw [actions, FileClient.perform, h.run_write hShort]
      dsimp only
      rw [FileClient.perform, hWritten.run_rename hKey hShort (entryAt?_written c fs key value)]
      rfl
  | delete key =>
      replace hKey : key ≠ "" := hKey
      replace hShort : 2 * key.utf8ByteSize ≤ FileSystem.longestName := hShort
      have hRead := h.readFile_file hShort
      cases hValue : s.get? key with
      | none =>
          refine ⟨fs, ?_, h.reached, h.there, fun other => ?_, h.spare⟩
          · rw [actions, FileClient.perform, place_of_ne hKey, FileAction.run,
              FileSystem.removeFile, hRead, hValue]
            rfl
          · rw [h.values other, Space.run_delete, Space.run_nil, Space.get?_erase]
            split
            · next hSame => rw [hSame, hValue]
            · rfl
      | some value =>
          refine ⟨_, ?_, h.erase_place key⟩
          rw [actions, FileClient.perform, place_of_ne hKey, FileAction.run,
            FileSystem.removeFile, hRead, hValue]
          rfl

/-- A client carries out a batch as the namespace does that its directory shows, up to the first step
that is refused. -/
theorem perform_accepted (h : Shows c fs s) (ops : List Operation) :
    ∃ fs', FileClient.perform fs (ops.flatMap c.actions) =
        ((ops.findSome? Operation.refusal?).elim (.ok ()) .error,
          (s.run (Operation.accepted ops)).1, fs') ∧
      Shows c fs' (s.run (Operation.accepted ops)).2 := by
  induction ops generalizing fs s with
  | nil => exact ⟨fs, rfl, h⟩
  | cons op rest ih =>
      rw [List.flatMap_cons, perform_append, List.findSome?_cons]
      cases hRefusal : op.refusal? with
      | some e =>
          obtain ⟨fs', hPerform, hShows⟩ := h.perform_of_refusal? hRefusal
          rw [Operation.accepted_cons_of_some hRefusal, hPerform]
          exact ⟨fs', rfl, hShows⟩
      | none =>
          obtain ⟨fs₁, hPerform, hShows⟩ := h.perform_of_accepted hRefusal
          obtain ⟨fs', hRest, hLast⟩ := ih hShows
          rw [Operation.accepted_cons_of_none hRefusal, Space.run_cons, hPerform]
          refine ⟨fs', ?_, hLast⟩
          dsimp only
          rw [hRest]

/-- A batch that is not refused is carried out. -/
theorem perform (h : Shows c fs s) (ops : List Operation) (hKeys : ∀ op ∈ ops, Fits op.key) :
    ∃ fs', FileClient.perform fs (ops.flatMap c.actions) = (.ok (), (s.run ops).1, fs') ∧
      Shows c fs' (s.run ops).2 := by
  have hNone : ∀ op ∈ ops, op.refusal? = none := fun op hMem => (hKeys op hMem).refusal?
  obtain ⟨fs', hPerform, hShows⟩ := h.perform_accepted ops
  rw [List.findSome?_eq_none_iff.mpr hNone, Operation.accepted_eq_self hNone] at hPerform
  rw [Operation.accepted_eq_self hNone] at hShows
  exact ⟨fs', hPerform, hShows⟩

theorem batch (h : Shows c fs s) (hOpen : c.closed = false) (ops : List Operation)
    (hKeys : ∀ op ∈ ops, Fits op.key) :
    ∃ fs', c.batch ops fs = (⟨.ok (), (s.run ops).1⟩, fs') ∧ Shows c fs' (s.run ops).2 := by
  obtain ⟨fs', hRun, hShows⟩ := h.perform ops hKeys
  refine ⟨fs', ?_, hShows⟩
  rw [FileClient.batch, hOpen, if_neg Bool.false_ne_true, hRun]
  simp only [s.length_run, Nat.sub_self, List.replicate_zero, List.append_nil]
  rfl

end Shows

/-- A client of a directory. Whoever gives it up uses it no more, and the next one opens another. -/
def client (c : FileClient) : Client FileSystem := ⟨c.batch, id⟩

theorem batch_client (c : FileClient) : c.client.batch = c.batch := rfl

end FileClient

namespace Access

variable {α β : Type} {P : String → Prop}

/-- All keys that a program may address, whatever it is answered. -/
def Within (P : String → Prop) : Access α → Prop
  | done _ => True
  | batch ops next => (∀ op ∈ ops, P op.key) ∧ ∀ answer, (next answer).Within P
  | close next | check _ next => next.Within P

theorem Within.bind {p : Access α} {f : α → Access β} (hFirst : p.Within P)
    (hRest : ∀ a, (f a).Within P) : (p >>= f).Within P := by
  change (p.bind f).Within P
  induction p with
  | done a => exact hRest a
  | batch ops next ih => exact ⟨hFirst.1, fun answer => ih answer (hFirst.2 answer)⟩
  | close next ih | check holds next ih => exact ih hFirst

theorem within_pure (a : α) : (pure a : Access α).Within P := trivial

theorem within_require (holds : Bool) : (require holds).Within P := trivial

theorem within_perform {ops : List Operation} (h : ∀ op ∈ ops, P op.key) :
    (perform ops).Within P := ⟨h, fun _ => trivial⟩

end Access

namespace FileClient.Shows

variable {α : Type} {c : FileClient} {fs : FileSystem} {s : Space} {p : Access α}

/-- A program does to a directory what it does to the namespace that the directory shows. -/
theorem run (h : Shows c fs s) (hOpen : c.closed = false) (hKeys : p.Within Fits) :
    ∃ fs', p.run c.client fs = ((p.run Space.client s).1, fs') ∧
      Shows c fs' (p.run Space.client s).2 := by
  induction p generalizing fs s with
  | done a => exact ⟨fs, rfl, h⟩
  | batch ops next ih =>
      obtain ⟨fs₁, hBatch, hShows⟩ := h.batch hOpen ops hKeys.1
      obtain ⟨fs', hRun, hLast⟩ := ih _ hShows (hKeys.2 _)
      refine ⟨fs', ?_, hLast⟩
      rw [Access.run_batch, batch_client, hBatch]
      exact hRun
  | close next ih | check holds next ih => exact ih h hKeys

/-- So does a process that dies on the way. -/
theorem cut (h : Shows c fs s) (hOpen : c.closed = false) (hKeys : p.Within Fits) (count : Nat) :
    Shows c (p.cut c.client count fs) (p.cut Space.client count s) := by
  induction p generalizing fs s count with
  | done a => exact h
  | batch ops next ih =>
      by_cases hCount : count ≤ ops.length
      · obtain ⟨fs', hBatch, hShows⟩ := h.batch hOpen (ops.take count)
          fun op hMem => hKeys.1 op (List.mem_of_mem_take hMem)
        rw [Access.cut, Access.cut, if_pos hCount, if_pos hCount, batch_client, hBatch]
        exact hShows
      · obtain ⟨fs', hBatch, hShows⟩ := h.batch hOpen ops hKeys.1
        rw [Access.cut, Access.cut, if_neg hCount, if_neg hCount, batch_client, hBatch]
        exact ih _ hShows (hKeys.2 _) _
  | close next ih | check holds next ih => exact ih h hKeys count

end FileClient.Shows

end Telemetry.Storage

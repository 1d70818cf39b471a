import Telemetry.Proofs.Storage.Footprints

/-!
# What stays of a file system

Nothing that storage does to a file system takes a directory away, and so a way that could be gone once
can be gone later. Where clients are opened, directories appear where nothing was, and no file has
another content. A client that was opened has its directory as long as the file system is used through
storage.
-/

namespace Telemetry.Storage

open Text (Bytes)

/-- A step that enters by a name enters by one that is not too long. -/
def PathStep.Short : PathStep → Prop
  | enter name => name.utf8ByteSize ≤ FileSystem.longestName
  | _ => True

namespace FileSystem

/-- The content of the file at a place, if there is one. -/
def content? (fs : FileSystem) (place : Place) : Option Bytes :=
  match fs.entryAt? place with
  | some (.file content) => some content
  | _ => none

/-- What was a directory still is. -/
def KeepsDirectories (fs fs' : FileSystem) : Prop :=
  ∀ p, fs.entryAt? p = some .directory → fs'.entryAt? p = some .directory

/-- Nothing changed, except that there are directories where nothing was. -/
def Grown (fs fs' : FileSystem) : Prop :=
  ∀ p, fs'.entryAt? p = fs.entryAt? p ∨ fs.entryAt? p = none ∧ fs'.entryAt? p = some .directory

/-- One gets to a directory by its names. -/
structure Standing (fs : FileSystem) (place : Place) : Prop where
  reached : fs.reach place = .ok place
  there : fs.entryAt? place = some .directory

variable {fs fs' fs'' : FileSystem} {place last : Place} {steps : List PathStep}

section Contents

theorem content?_eq_some_iff {content : Bytes} :
    fs.content? place = some content ↔ fs.entryAt? place = some (.file content) := by
  rw [content?]
  rcases fs.entryAt? place with _ | _ | found <;> simp

theorem content?_congr (h : fs'.entryAt? place = fs.entryAt? place) :
    fs'.content? place = fs.content? place := by
  rw [content?, content?, h]

theorem content?_insert (hSome : place ≠ []) (content : Bytes) (other : Place) :
    FileSystem.content? (fs.insert place (.file content)) other =
      if other = place then some content else fs.content? other := by
  rw [content?, content?, entryAt?_insert fs hSome]
  by_cases hSame : other = place
  · rw [if_pos hSame, if_pos hSame]
  · rw [if_neg hSame, if_neg hSame]

theorem content?_erase (hSome : place ≠ []) (other : Place) :
    FileSystem.content? (fs.erase place) other = if other = place then none else fs.content? other := by
  rw [content?, content?, entryAt?_erase fs hSome]
  by_cases hSame : other = place
  · rw [if_pos hSame, if_pos hSame]
  · rw [if_neg hSame, if_neg hSame]

end Contents

section Ways

/-- A way can be gone exactly if the first step can be taken and the rest gone from where it leads. -/
theorem walk_cons_eq_ok_iff {step : PathStep} :
    fs.walk place (step :: steps) = .ok last ↔
      fs.entryAt? place = some .directory ∧ step.Short ∧ fs.walk (step.next place) steps = .ok last := by
  rw [walk.eq_def]
  dsimp only
  rcases fs.entryAt? place with _ | _ | found
  · simp
  · cases step with
    | stay | back => simp [PathStep.Short, PathStep.next]
    | enter name =>
        simp only [PathStep.Short, PathStep.next, true_and]
        split
        · next hLong => simp [Nat.not_le.mpr hLong]
        · next hShort => simp [Nat.not_lt.mp hShort]
  · simp

theorem KeepsDirectories.refl (fs : FileSystem) : KeepsDirectories fs fs := fun _ h => h

theorem KeepsDirectories.trans (h : KeepsDirectories fs fs') (h' : KeepsDirectories fs' fs'') :
    KeepsDirectories fs fs'' := fun p hp => h' p (h p hp)

/-- Every step is taken from a directory, so it can be taken again. -/
theorem KeepsDirectories.walk (h : KeepsDirectories fs fs') (hWalk : fs.walk place steps = .ok last) :
    fs'.walk place steps = .ok last := by
  induction steps generalizing place with
  | nil => exact hWalk
  | cons step rest ih =>
      obtain ⟨hHere, hShort, hRest⟩ := walk_cons_eq_ok_iff.mp hWalk
      exact walk_cons_eq_ok_iff.mpr ⟨h place hHere, hShort, ih hRest⟩

theorem Standing.mono (hStanding : Standing fs place) (h : KeepsDirectories fs fs') :
    Standing fs' place := ⟨h.walk hStanding.reached, h place hStanding.there⟩

/-- On the way to a place one passes the directories above it. -/
theorem standing_of_reach_append {rest : Place} (hRest : rest ≠ [])
    (h : fs.reach (place ++ rest) = .ok last) : Standing fs place := by
  rw [reach, List.map_append, walk_append] at h
  cases hFront : fs.walk [] (place.map .enter) with
  | error e =>
      rw [hFront] at h
      exact absurd h (by simp [Except.bind])
  | ok middle =>
      obtain rfl := eq_of_reach hFront
      refine ⟨hFront, ?_⟩
      obtain ⟨name, names, rfl⟩ := List.exists_cons_of_ne_nil hRest
      rw [hFront] at h
      have hWalk : fs.walk middle (.enter name :: names.map .enter) = .ok last := h
      exact (walk_cons_eq_ok_iff.mp hWalk).1

/-- One gets by its names to wherever steps lead. -/
theorem reach_of_walk (hHere : fs.reach place = .ok place) (h : fs.walk place steps = .ok last) :
    fs.reach last = .ok last := by
  induction steps generalizing place with
  | nil => exact Except.ok.inj h ▸ hHere
  | cons step rest ih =>
      obtain ⟨hThere, hShort, hRest⟩ := walk_cons_eq_ok_iff.mp h
      refine ih ?_ hRest
      cases step with
      | stay => exact hHere
      | back =>
          rcases List.eq_nil_or_concat place with rfl | ⟨front, name, rfl⟩
          · exact hHere
          · rw [List.concat_eq_append] at hHere ⊢
            rw [PathStep.next, List.dropLast_concat]
            exact (standing_of_reach_append (List.cons_ne_nil _ _) hHere).reached
      | enter name => exact reach_append hHere hThere hShort

/-- Where a directory is, a file is missing only if there is none. -/
theorem Standing.content?_of_missing (h : Standing fs place) {name : String}
    (hMissing : fs.readFile (place ++ [name]) = .error .missing) :
    fs.content? (place ++ [name]) = none := by
  by_cases hShort : name.utf8ByteSize ≤ longestName
  · rw [readFile, reach_append h.reached h.there hShort] at hMissing
    simp only [bind, Except.bind] at hMissing
    rw [content?]
    split at hMissing <;> simp_all
  · rw [readFile, reach_append_of_long h.reached h.there (by omega)] at hMissing
    exact absurd hMissing (by simp [bind, Except.bind])

end Ways

section Making

theorem Grown.refl (fs : FileSystem) : Grown fs fs := fun _ => .inl rfl

theorem Grown.trans (h : Grown fs fs') (h' : Grown fs' fs'') : Grown fs fs'' := by
  intro p
  rcases h p with hSame | ⟨hNone, hNew⟩ <;> rcases h' p with hSame' | ⟨hNone', hNew'⟩
  · exact .inl (hSame'.trans hSame)
  · exact .inr ⟨hSame.symm.trans hNone', hNew'⟩
  · exact .inr ⟨hNone, hSame'.trans hNew⟩
  · exact .inr ⟨hNone, hNew'⟩

theorem Grown.keepsDirectories (h : Grown fs fs') : KeepsDirectories fs fs' := by
  intro p hp
  rcases h p with hSame | ⟨-, hNew⟩
  · exact hSame.trans hp
  · exact hNew

/-- A directory that was made has no content, and neither had what was there before. -/
theorem Grown.content? (h : Grown fs fs') (place : Place) : fs'.content? place = fs.content? place := by
  rcases h place with hSame | ⟨hNone, hNew⟩
  · exact content?_congr hSame
  · rw [FileSystem.content?, FileSystem.content?, hNone, hNew]

theorem ne_nil_of_entryAt? (h : fs.entryAt? place ≠ some .directory) : place ≠ [] := by
  rintro rfl
  exact h rfl

theorem grown_insert (h : fs.entryAt? place = none) : Grown fs (fs.insert place .directory) := by
  have hSome : place ≠ [] := ne_nil_of_entryAt? (by rw [h]; simp)
  intro p
  rw [entryAt?_insert fs hSome]
  split
  · next hSame => exact .inr ⟨hSame ▸ h, rfl⟩
  · exact .inl rfl

/-- After a directory was made, the steps lead to it. -/
theorem grown_of_makeDirectory (h : fs.makeDirectory steps = .ok fs') :
    Grown fs fs' ∧ ∃ place, fs'.walk [] steps = .ok place ∧ fs'.entryAt? place = some .directory := by
  rw [makeDirectory] at h
  cases hWalk : fs.walk [] steps with
  | error e =>
      rw [hWalk] at h
      exact absurd h (by simp [bind, Except.bind])
  | ok place =>
      rw [hWalk] at h
      simp only [bind, Except.bind] at h
      split at h
      · next hNone =>
          obtain rfl := Except.ok.inj h
          have hGrown := grown_insert hNone
          refine ⟨hGrown, place, hGrown.keepsDirectories.walk hWalk, ?_⟩
          rw [entryAt?_insert fs (ne_nil_of_entryAt? (by rw [hNone]; simp)), if_pos rfl]
      · next hThere =>
          obtain rfl := Except.ok.inj h
          exact ⟨.refl _, place, hWalk, hThere⟩
      · exact absurd h (by simp)

theorem grown_makeDirectoriesAlong (fs : FileSystem) (ways : List (List PathStep)) :
    Grown fs (fs.makeDirectoriesAlong ways).2 := by
  induction ways with
  | nil => exact .refl fs
  | cons way above ih =>
      rw [makeDirectoriesAlong]
      split
      · next fs' hMade => exact (grown_of_makeDirectory hMade).1
      · split
        · next e fs' hAbove => rwa [hAbove] at ih
        · next fs' hAbove =>
            rw [hAbove] at ih
            split
            · next fs'' hMade => exact ih.trans (grown_of_makeDirectory hMade).1
            · exact ih
      · exact .refl fs

theorem directory_of_makeDirectories {path : Path} (h : fs.makeDirectories path = (.ok (), fs')) :
    ∃ place, fs'.walk [] path.steps = .ok place ∧ fs'.entryAt? place = some .directory := by
  rw [makeDirectories, makeDirectoriesAlong] at h
  split at h
  · next fs₁ hMade =>
      obtain rfl : fs₁ = fs' := congrArg Prod.snd h
      exact (grown_of_makeDirectory hMade).2
  · split at h
    · exact absurd (congrArg Prod.fst h) (by simp)
    · split at h
      · next fs₁ hMade =>
          obtain rfl : fs₁ = fs' := congrArg Prod.snd h
          exact (grown_of_makeDirectory hMade).2
      · exact absurd (congrArg Prod.fst h) (by simp)
  · exact absurd (congrArg Prod.fst h) (by simp)

end Making

end FileSystem

namespace FileAction

variable {fs fs' : FileSystem}

/-- No action takes a directory away. -/
theorem keepsDirectories_run (fs : FileSystem) (a : FileAction) :
    FileSystem.KeepsDirectories fs (a.run fs).2 := by
  intro p hp
  have hNe : ∀ {place}, fs.entryAt? place ≠ some .directory → p ≠ place := by
    rintro place hPlace rfl
    exact hPlace hp
  have hFile : ∀ {place content}, fs.readFile place = .ok content → p ≠ place := fun hRead =>
    hNe (by rw [FileSystem.entryAt?_of_readFile hRead]; simp)
  have hVacant : ∀ {place}, fs.vacant place = .ok () → p ≠ place := fun hVacant =>
    hNe (FileSystem.reach_of_vacant hVacant).2
  cases a with
  | read place =>
      rw [run]
      split <;> exact hp
  | write place content =>
      rw [run, FileSystem.writeFile_eq]
      cases hPlace : fs.vacant place with
      | error e => exact hp
      | ok u => exact (FileSystem.entryAt?_insert_of_ne fs (hVacant hPlace) _).trans hp
  | rename source target =>
      rw [run, FileSystem.renameFile_eq]
      cases hSource : fs.readFile source with
      | error e => exact hp
      | ok content =>
          cases hTarget : fs.vacant target with
          | error e => exact hp
          | ok u =>
              refine (FileSystem.entryAt?_insert_of_ne (fs.erase source) (hVacant hTarget) _).trans ?_
              exact (FileSystem.entryAt?_erase_of_ne fs (hFile hSource)).trans hp
  | remove place =>
      rw [run, FileSystem.removeFile_eq]
      cases hPlace : fs.readFile place with
      | error e => cases e <;> exact hp
      | ok content => exact (FileSystem.entryAt?_erase_of_ne fs (hFile hPlace)).trans hp

end FileAction

namespace FileClient

theorem keepsDirectories_perform (fs : FileSystem) (actions : List FileAction) :
    FileSystem.KeepsDirectories fs (perform fs actions).2.2 := by
  induction actions generalizing fs with
  | nil => exact .refl fs
  | cons a rest ih =>
      have hStep := a.keepsDirectories_run fs
      rw [perform]
      split
      · next e fs₁ hRun => rwa [hRun] at hStep
      · next found fs₁ hRun =>
          rw [hRun] at hStep
          exact hStep.trans (ih fs₁)

theorem keepsDirectories_batch (c : FileClient) (ops : List Operation) (fs : FileSystem) :
    FileSystem.KeepsDirectories fs (c.batch ops fs).2 := by
  rw [batch]
  split
  · exact .refl fs
  · exact keepsDirectories_perform fs _

end FileClient

namespace FileStorage

/-- The place of the directory of a namespace. -/
def home (s : FileStorageSettings) (space : String) : Place := root s ++ [directoryName space]

/-- One gets to the place of a storage along its path, and a directory is there. -/
structure Founded (s : FileStorageSettings) (fs : FileSystem) : Prop where
  walked : fs.walk [] (stepsOf s.directory) = .ok (root s)
  there : fs.entryAt? (root s) = some .directory

/-- The directory of a namespace is there, and so is that of the storage. -/
structure Housed (s : FileStorageSettings) (fs : FileSystem) (space : String) : Prop where
  founded : Founded s fs
  standing : fs.Standing (home s space)

variable {s : FileStorageSettings} {fs fs' : FileSystem} {space other : String}

theorem home_ne_nil (s : FileStorageSettings) (space : String) : home s space ≠ [] :=
  List.append_ne_nil_of_right_ne_nil _ (List.cons_ne_nil _ _)

/-- The clients of a namespace do not depend on the directory of one that is kept under another name. -/
theorem ne_home_of_sees (hName : directoryName space ≠ directoryName other) {closed : Bool} {p : Place}
    (hSees : FileClient.Sees ⟨home s space, closed⟩ p) : p ≠ home s other := by
  rintro rfl
  have hOwns : FileClient.Owns ⟨home s other, closed⟩ (home s other) := .inl rfl
  exact FileClient.not_owns_of_sees hName rfl rfl hSees hOwns

theorem Founded.mono (h : Founded s fs) (hKeeps : fs.KeepsDirectories fs') : Founded s fs' :=
  ⟨hKeeps.walk h.walked, hKeeps _ h.there⟩

theorem Housed.mono (h : Housed s fs space) (hKeeps : fs.KeepsDirectories fs') : Housed s fs' space :=
  ⟨h.founded.mono hKeeps, h.standing.mono hKeeps⟩

theorem Housed.of_directoryName (h : Housed s fs space)
    (hSame : directoryName space = directoryName other) : Housed s fs other := by
  refine ⟨h.founded, ?_⟩
  rw [home, ← hSame]
  exact h.standing

theorem openClient_snd {path : Path}
    (hPath : Path.ofText (Path.join s.directory (directoryName space)) = .ok path) :
    (openClient s space fs).2 = (fs.makeDirectories path).2 := by
  rw [openClient, hPath]
  dsimp only
  split <;> rfl

theorem grown_openClient (s : FileStorageSettings) (space : String) (fs : FileSystem) :
    fs.Grown (openClient s space fs).2 := by
  cases hPath : Path.ofText (Path.join s.directory (directoryName space)) with
  | error e =>
      rw [openClient, hPath]
      exact .refl fs
  | ok path =>
      rw [openClient_snd hPath]
      exact FileSystem.grown_makeDirectoriesAlong fs _

/-- A client is opened onto a directory that is there. -/
theorem housed_of_openClient (hLong : 2 < space.toList.length) {c : FileClient}
    (h : openClient s space fs = (.ok c, fs')) : Housed s fs' space := by
  obtain ⟨path, entry, hPath, hMade, hFind, -⟩ := found_of_openClient h
  obtain rfl := directory_of_openClient hLong h
  obtain ⟨last, hWalk, hThere⟩ := FileSystem.directory_of_makeDirectories hMade
  obtain rfl : last = home s space := Except.ok.inj (hWalk.symm.trans (FileSystem.walk_of_find hFind))
  have hStanding : fs'.Standing (home s space) := ⟨FileSystem.reach_of_walk rfl hWalk, hThere⟩
  have hRoot := FileSystem.standing_of_reach_append (List.cons_ne_nil _ _) hStanding.reached
  refine ⟨⟨?_, hRoot.there⟩, hStanding⟩
  rw [steps_of_join hLong hPath, FileSystem.walk_append] at hWalk
  cases hFront : fs'.walk [] (stepsOf s.directory) with
  | error e =>
      rw [hFront] at hWalk
      exact absurd hWalk (by simp [Except.bind])
  | ok place => rw [FileSystem.eq_of_walk hFront, root]

/-- In a storage that is there only the last directory can be missing. -/
theorem Founded.makeDirectories (h : Founded s fs) {path : Path}
    (hSteps : path.steps = stepsOf s.directory ++ [.enter (directoryName space)]) :
    fs.makeDirectories path =
      if FileSystem.longestName < (directoryName space).utf8ByteSize then (.error .nameTooLong, fs)
      else match fs.entryAt? (home s space) with
        | none => (.ok (), fs.insert (home s space) .directory)
        | some .directory => (.ok (), fs)
        | some (.file _) => (.error .occupied, fs) := by
  have hWalk : fs.walk [] path.steps =
      if FileSystem.longestName < (directoryName space).utf8ByteSize then .error .nameTooLong
      else .ok (home s space) := by
    rw [hSteps, FileSystem.walk_append, h.walked]
    change fs.walk (root s) [.enter (directoryName space)] = _
    rw [FileSystem.walk, h.there]
    rfl
  rw [FileSystem.makeDirectories, FileSystem.makeDirectoriesAlong, FileSystem.makeDirectory, hWalk]
  by_cases hShort : FileSystem.longestName < (directoryName space).utf8ByteSize
  · rw [if_pos hShort, if_pos hShort]
    rfl
  · rw [if_neg hShort, if_neg hShort]
    simp only [bind, Except.bind]
    rcases fs.entryAt? (home s space) with _ | _ | found <;> rfl

/-- In a storage that is there, opening a client makes the directory of its namespace at most. -/
theorem Founded.openClient_cases (h : Founded s fs) (hLong : 2 < space.toList.length) :
    (openClient s space fs).2 = fs ∨ fs.entryAt? (home s space) = none ∧
      (openClient s space fs).2 = fs.insert (home s space) .directory := by
  cases hPath : Path.ofText (Path.join s.directory (directoryName space)) with
  | error e => exact .inl (by rw [openClient, hPath])
  | ok path =>
      rw [openClient_snd hPath, h.makeDirectories (steps_of_join hLong hPath)]
      split
      · exact .inl rfl
      · split
        · next hNone => exact .inr ⟨hNone, rfl⟩
        · exact .inl rfl
        · exact .inl rfl

/-- A client is opened if the storage is there, no file is where its directory should be and the path
can be written. -/
theorem Founded.openClient_ok (h : Founded s fs) (hLong : 2 < space.toList.length) {path : Path}
    (hPath : Path.ofText (Path.join s.directory (directoryName space)) = .ok path)
    (hShort : (directoryName space).utf8ByteSize ≤ FileSystem.longestName)
    (hFree : fs.content? (home s space) = none) :
    (openClient s space fs).1 = .ok ⟨home s space, false⟩ := by
  have hSteps := steps_of_join hLong hPath
  have hMade := h.makeDirectories hSteps
  rw [if_neg (Nat.not_lt.mpr hShort)] at hMade
  obtain ⟨fs', hMade, hThere⟩ : ∃ fs', fs.makeDirectories path = (.ok (), fs') ∧
      FileSystem.entryAt? fs' (home s space) = some .directory := by
    rcases hEntry : fs.entryAt? (home s space) with _ | _ | found
    · rw [hEntry] at hMade
      refine ⟨_, hMade, ?_⟩
      rw [FileSystem.entryAt?_insert fs (home_ne_nil s space), if_pos rfl]
    · rw [hEntry] at hMade
      exact ⟨fs, hMade, hEntry⟩
    · exact absurd hFree (by simp [FileSystem.content?, hEntry])
  have hFind : FileSystem.find fs' path = .ok (home s space, .directory) := by
    obtain ⟨last, hWalk, -⟩ := FileSystem.directory_of_makeDirectories hMade
    have hLast : last = home s space := by
      rw [FileSystem.eq_of_walk hWalk, hSteps, List.foldl_append]
      rfl
    rw [FileSystem.find, hWalk, hLast]
    simp only [bind, Except.bind]
    rw [hThere]
  rw [openClient, hPath]
  dsimp only
  rw [hMade, Except.bind, hFind]

end FileStorage

end Telemetry.Storage

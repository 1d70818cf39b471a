import Telemetry.Proofs.Storage.FileSpace
import Telemetry.Proofs.Storage.Names

/-!
# What clients depend on and what they change

Two clients are apart when neither is ever answered otherwise for what was done through the other. A
client in memory depends on the values of its namespace and changes nothing else. A client of files
depends on what is on the way to its directory and in it, and changes only what is in it.
-/

namespace Telemetry.Storage

open Text (Bytes)

section Clients

variable {σ : Type}

/-- One use of a client. -/
inductive Use
  | batch (ops : List Operation)
  | close

namespace Client

/-- What a use is answered, and what it leaves; giving a client up has no answer. -/
def use (c : Client σ) : Use → σ → Option Reply × σ
  | .batch ops, s => (some (c.batch ops s).1, (c.batch ops s).2)
  | .close, s => (none, c.close s)

/-- What the first of two clients is answered, when both are used in some order. -/
def answers (a b : Client σ) : List (Use ⊕ Use) → σ → List (Option Reply)
  | [], _ => []
  | .inl u :: rest, s => (a.use u s).1 :: answers a b rest (a.use u s).2
  | .inr u :: rest, s => answers a b rest (b.use u s).2

/-- The first client is answered as if nothing were done through the second. -/
def Undisturbed (a b : Client σ) (s : σ) : Prop :=
  ∀ uses, answers a b uses s = answers a b (uses.filter Sum.isLeft) s

/-- Neither client is answered otherwise for what was done through the other. -/
def Apart (a b : Client σ) (s : σ) : Prop := a.Undisturbed b s ∧ b.Undisturbed a s

/-- A client is undisturbed if some relation holds what it depends on: related states answer it alike
and stay related under its uses, and the uses of the other leave a state related. -/
theorem undisturbed_of_related {a b : Client σ} {R : σ → σ → Prop}
    (hAnswer : ∀ {s t}, R s t → ∀ u, (a.use u s).1 = (a.use u t).1)
    (hOwn : ∀ {s t}, R s t → ∀ u, R (a.use u s).2 (a.use u t).2)
    (hOther : ∀ {s t}, R s t → ∀ u, R (b.use u s).2 t) {s : σ} (h : R s s) :
    a.Undisturbed b s := by
  have hAll : ∀ uses, ∀ {s t}, R s t →
      answers a b uses s = answers a b (uses.filter Sum.isLeft) t := by
    intro uses
    induction uses with
    | nil => exact fun _ => rfl
    | cons use rest ih =>
        intro s t hRelated
        cases use with
        | inl u =>
            rw [List.filter_cons_of_pos rfl, answers, answers, hAnswer hRelated u,
              ih (hOwn hRelated u)]
        | inr u =>
            rw [List.filter_cons_of_neg Bool.false_ne_true, answers, ih (hOther hRelated u)]
  exact fun uses => hAll uses h

end Client

end Clients

namespace FileSystem

/-- Two file systems have the same at some places. -/
def Agree (P : Place → Prop) (fs fs' : FileSystem) : Prop :=
  ∀ p, P p → fs.entryAt? p = fs'.entryAt? p

theorem entryAt?_insert_of_ne (fs : FileSystem) {place other : Place} (hNe : other ≠ place)
    (e : Entry) : FileSystem.entryAt? (fs.insert place e) other = fs.entryAt? other := by
  by_cases hRoot : other = []
  · rw [hRoot]
    rfl
  · rw [entryAt?_of_get? hRoot, entryAt?_of_get? hRoot, Table.get?_insert_of_ne hNe]

theorem entryAt?_erase_of_ne (fs : FileSystem) {place other : Place} (hNe : other ≠ place) :
    FileSystem.entryAt? (fs.erase place) other = fs.entryAt? other := by
  by_cases hRoot : other = []
  · rw [hRoot]
    rfl
  · rw [entryAt?_of_get? hRoot, entryAt?_of_get? hRoot, Table.get?_erase_of_ne hNe]

theorem eq_of_reach {fs : FileSystem} {place last : Place} (h : fs.reach place = .ok last) :
    last = place := by
  have hSteps : ∀ (names : List String) (from_ : Place),
      (names.map PathStep.enter).foldl PathStep.next from_ = from_ ++ names := by
    intro names
    induction names with
    | nil => exact fun from_ => (List.append_nil from_).symm
    | cons name rest ih =>
        intro from_
        rw [List.map_cons, List.foldl_cons, ih, PathStep.next, List.append_assoc,
          List.singleton_append]
  rw [eq_of_walk h, hSteps, List.nil_append]

/-- Whether a file can be put at a place: one gets there, and no directory is there. -/
def vacant (fs : FileSystem) (place : Place) : Except FileError Unit := do
  match fs.entryAt? (← fs.reach place) with
  | some .directory => .error .isDirectory
  | _ => .ok ()

theorem writeFile_eq (fs : FileSystem) (place : Place) (content : Bytes) :
    fs.writeFile place content = (fs.vacant place).map fun _ => fs.insert place (.file content) := by
  rw [writeFile, vacant]
  cases fs.reach place with
  | error e => rfl
  | ok last =>
      simp only [bind, Except.bind]
      rcases fs.entryAt? last with _ | _ | _ <;> rfl

theorem eq_insert_of_writeFile {fs fs' : FileSystem} {place : Place} {content : Bytes}
    (h : fs.writeFile place content = .ok fs') : fs' = fs.insert place (.file content) := by
  rw [writeFile_eq] at h
  cases hVacant : fs.vacant place with
  | error e =>
      rw [hVacant] at h
      exact absurd h (by simp [Except.map])
  | ok u =>
      rw [hVacant] at h
      exact (Except.ok.inj h).symm

theorem renameFile_eq (fs : FileSystem) (source target : Place) :
    fs.renameFile source target = (fs.readFile source).bind fun content =>
      (fs.vacant target).map fun _ => (fs.erase source).insert target (.file content) := by
  rw [renameFile, vacant]
  cases fs.readFile source with
  | error e => rfl
  | ok content =>
      cases fs.reach target with
      | error e => rfl
      | ok last =>
          simp only [bind, Except.bind]
          rcases fs.entryAt? last with _ | _ | _ <;> rfl

theorem entryAt?_of_readFile {fs : FileSystem} {place : Place} {content : Bytes}
    (h : fs.readFile place = .ok content) : fs.entryAt? place = some (.file content) := by
  rw [readFile] at h
  cases hReach : fs.reach place with
  | error e =>
      rw [hReach] at h
      exact absurd h (by simp [bind, Except.bind])
  | ok last =>
      obtain rfl := eq_of_reach hReach
      rw [hReach] at h
      simp only [bind, Except.bind] at h
      rcases hEntry : fs.entryAt? last with _ | _ | found
      · rw [hEntry] at h
        exact absurd h (by simp)
      · rw [hEntry] at h
        exact absurd h (by simp)
      · rw [hEntry] at h
        rw [Except.ok.inj h]

theorem readFile_of_entryAt? {fs : FileSystem} {place : Place} {content : Bytes}
    (hReach : fs.reach place = .ok place) (hEntry : fs.entryAt? place = some (.file content)) :
    fs.readFile place = .ok content := by
  rw [readFile, hReach]
  simp only [bind, Except.bind]
  rw [hEntry]

theorem reach_of_vacant {fs : FileSystem} {place : Place} (h : fs.vacant place = .ok ()) :
    fs.reach place = .ok place ∧ fs.entryAt? place ≠ some .directory := by
  rw [vacant] at h
  cases hReach : fs.reach place with
  | error e =>
      rw [hReach] at h
      exact absurd h (by simp [bind, Except.bind])
  | ok last =>
      obtain rfl := eq_of_reach hReach
      refine ⟨rfl, fun hEntry => ?_⟩
      rw [hReach] at h
      simp only [bind, Except.bind] at h
      rw [hEntry] at h
      exact absurd h (by simp)

/-- A file that took the place of another is read there. -/
theorem readFile_of_renameFile {fs fs' : FileSystem} {source target : Place} {content : Bytes}
    (hContent : fs.entryAt? source = some (.file content)) (hLength : target.length ≤ source.length)
    (h : fs.renameFile source target = .ok fs') : fs'.readFile target = .ok content := by
  rw [renameFile_eq] at h
  cases hSource : fs.readFile source with
  | error e =>
      rw [hSource] at h
      exact absurd h (by simp [Except.bind])
  | ok found =>
  obtain rfl : content = found :=
    Entry.file.inj (Option.some.inj (hContent.symm.trans (entryAt?_of_readFile hSource)))
  rw [hSource] at h
  cases hVacant : fs.vacant target with
  | error e =>
      rw [hVacant] at h
      exact absurd h (by simp [Except.bind, Except.map])
  | ok u =>
      obtain ⟨hReach, hFree⟩ := reach_of_vacant hVacant
      have hNonempty : target ≠ [] := fun hNil => hFree (by rw [hNil]; rfl)
      rw [hVacant] at h
      obtain rfl : (fs.erase source).insert target (.file content) = fs' := Except.ok.inj h
      refine readFile_of_entryAt? ?_ ?_
      · refine (walk_congr target [] fun p hp => ?_).trans hReach
        rw [List.length_nil, Nat.zero_add] at hp
        rw [entryAt?_insert_of_ne _ (fun hEq => by rw [hEq] at hp; omega),
          entryAt?_erase_of_ne _ (fun hEq => by rw [hEq] at hp; omega)]
      · rw [entryAt?_insert _ hNonempty, if_pos rfl]

theorem removeFile_eq (fs : FileSystem) (place : Place) :
    fs.removeFile place = (fs.readFile place).map fun _ => fs.erase place := by
  rw [removeFile]
  cases fs.readFile place <;> rfl

namespace Agree

variable {P : Place → Prop} {fs fs' : FileSystem}

theorem refl (P : Place → Prop) (fs : FileSystem) : Agree P fs fs := fun _ _ => rfl

theorem insert (h : Agree P fs fs') (place : Place) (e : Entry) :
    Agree P (fs.insert place e) (fs'.insert place e) := by
  intro p hp
  by_cases hSame : p = place
  · by_cases hRoot : place = []
    · rw [hSame, hRoot]
      rfl
    · rw [entryAt?_insert fs hRoot, entryAt?_insert fs' hRoot, if_pos hSame, if_pos hSame]
  · rw [entryAt?_insert_of_ne fs hSame, entryAt?_insert_of_ne fs' hSame]
    exact h p hp

theorem erase (h : Agree P fs fs') (place : Place) :
    Agree P (fs.erase place) (fs'.erase place) := by
  intro p hp
  by_cases hSame : p = place
  · by_cases hRoot : place = []
    · rw [hSame, hRoot]
      rfl
    · rw [entryAt?_erase fs hRoot, entryAt?_erase fs' hRoot, if_pos hSame, if_pos hSame]
  · rw [entryAt?_erase_of_ne fs hSame, entryAt?_erase_of_ne fs' hSame]
    exact h p hp

theorem walk (h : Agree P fs fs') (names : List String) (place : Place)
    (hWay : ∀ p, p <+: place ++ names → P p) :
    fs.walk place (names.map .enter) = fs'.walk place (names.map .enter) := by
  induction names generalizing place with
  | nil => rfl
  | cons name rest ih =>
      have hHere := h place (hWay place (List.prefix_append _ _))
      have hRest := ih (place ++ [name]) (by rwa [List.append_assoc, List.singleton_append])
      rw [List.map_cons, FileSystem.walk, FileSystem.walk, hHere, hRest]

variable (hWay : ∀ p q : Place, q <+: p → P p → P q) {p : Place}
include hWay

/-- Getting to a place depends on what is on the way there. -/
theorem reach (h : Agree P fs fs') (hp : P p) : fs.reach p = fs'.reach p :=
  h.walk p [] fun q hq => hWay p q hq hp

theorem readFile (h : Agree P fs fs') (hp : P p) : fs.readFile p = fs'.readFile p := by
  rw [FileSystem.readFile, FileSystem.readFile, h.reach hWay hp]
  cases hReach : fs'.reach p with
  | error e => rfl
  | ok last =>
      obtain rfl := eq_of_reach hReach
      simp only [bind, Except.bind]
      rw [h last hp]

theorem vacant (h : Agree P fs fs') (hp : P p) : fs.vacant p = fs'.vacant p := by
  rw [FileSystem.vacant, FileSystem.vacant, h.reach hWay hp]
  cases hReach : fs'.reach p with
  | error e => rfl
  | ok last =>
      obtain rfl := eq_of_reach hReach
      simp only [bind, Except.bind]
      rw [h last hp]

end Agree

end FileSystem

namespace FileAction

/-- All places that an action names. -/
def Within (P : Place → Prop) : FileAction → Prop
  | read place | write place _ | remove place => P place
  | rename source target => P source ∧ P target

variable {P : Place → Prop} {fs fs' : FileSystem} {a : FileAction}

/-- An action changes only what is at the places it names. -/
theorem entryAt?_run (h : a.Within P) (fs : FileSystem) {p : Place} (hp : ¬P p) :
    (a.run fs).2.entryAt? p = fs.entryAt? p := by
  have hNe : ∀ {place}, P place → p ≠ place := fun hPlace hEq => hp (hEq ▸ hPlace)
  cases a with
  | read place =>
      rw [run]
      split <;> rfl
  | write place content =>
      rw [run, FileSystem.writeFile_eq]
      cases fs.vacant place with
      | error e => rfl
      | ok u => exact FileSystem.entryAt?_insert_of_ne fs (hNe h) _
  | rename source target =>
      rw [run, FileSystem.renameFile_eq]
      cases fs.readFile source with
      | error e => rfl
      | ok content =>
          cases fs.vacant target with
          | error e => rfl
          | ok u =>
              exact (FileSystem.entryAt?_insert_of_ne (fs.erase source) (hNe h.2) _).trans
                (FileSystem.entryAt?_erase_of_ne fs (hNe h.1))
  | remove place =>
      rw [run, FileSystem.removeFile_eq]
      cases fs.readFile place with
      | error e => cases e <;> rfl
      | ok content => exact FileSystem.entryAt?_erase_of_ne fs (hNe h)

/-- Where two file systems agree, and on the way there, an action does the same. -/
theorem run_agree (hWay : ∀ p q : Place, q <+: p → P p → P q) (h : a.Within P)
    (hAgree : FileSystem.Agree P fs fs') :
    (a.run fs).1 = (a.run fs').1 ∧ FileSystem.Agree P (a.run fs).2 (a.run fs').2 := by
  cases a with
  | read place =>
      rw [run, run, hAgree.readFile hWay h]
      split <;> exact ⟨rfl, hAgree⟩
  | write place content =>
      rw [run, run, FileSystem.writeFile_eq, FileSystem.writeFile_eq, hAgree.vacant hWay h]
      cases fs'.vacant place with
      | error e => exact ⟨rfl, hAgree⟩
      | ok u => exact ⟨rfl, hAgree.insert place _⟩
  | rename source target =>
      rw [run, run, FileSystem.renameFile_eq, FileSystem.renameFile_eq,
        hAgree.readFile hWay h.1, hAgree.vacant hWay h.2]
      cases fs'.readFile source with
      | error e => exact ⟨rfl, hAgree⟩
      | ok content =>
          cases fs'.vacant target with
          | error e => exact ⟨rfl, hAgree⟩
          | ok u => exact ⟨rfl, (hAgree.erase source).insert target _⟩
  | remove place =>
      rw [run, run, FileSystem.removeFile_eq, FileSystem.removeFile_eq, hAgree.readFile hWay h]
      cases fs'.readFile place with
      | error e => cases e <;> exact ⟨rfl, hAgree⟩
      | ok content => exact ⟨rfl, hAgree.erase place⟩

end FileAction

namespace FileClient

/-- The places of the files of a client, and its directory. -/
def Owns (c : FileClient) (p : Place) : Prop := p = c.directory ∨ ∃ name, p = c.directory ++ [name]

/-- What a client depends on: the way to its directory and what is in it. -/
def Sees (c : FileClient) (p : Place) : Prop := p <+: c.directory ∨ ∃ name, p = c.directory ++ [name]

variable {c c' : FileClient} {fs fs' : FileSystem}

theorem sees_of_owns {p : Place} (h : c.Owns p) : c.Sees p := by
  rcases h with rfl | hFile
  · exact .inl List.prefix_rfl
  · exact .inr hFile

theorem sees_of_prefix {p q : Place} (hPrefix : q <+: p) (h : c.Sees p) : c.Sees q := by
  rcases h with hWay | ⟨name, rfl⟩
  · exact .inl (hPrefix.trans hWay)
  · rcases List.prefix_concat_iff.mp hPrefix with rfl | hWay
    · exact .inr ⟨name, rfl⟩
    · exact .inl hWay

/-- Clients of two directories in one place depend on nothing that the other changes. -/
theorem not_owns_of_sees {root : Place} {name name' : String} (hNe : name ≠ name')
    (hHere : c.directory = root ++ [name]) (hThere : c'.directory = root ++ [name']) {p : Place}
    (h : c.Sees p) : ¬c'.Owns p := by
  have hOther : ¬root ++ [name'] <+: root ++ [name] := by
    intro hPrefix
    have hEq := hPrefix.eq_of_length (by simp)
    exact hNe (List.singleton_inj.mp (List.append_cancel_left hEq)).symm
  rintro (rfl | ⟨file', rfl⟩)
  · rw [hThere] at h
    rcases h with hWay | ⟨file, hFile⟩
    · exact hOther (hHere ▸ hWay)
    · rw [hHere] at hFile
      exact absurd (congrArg List.length hFile) (by simp)
  · rw [hThere] at h
    rcases h with hWay | ⟨file, hFile⟩
    · exact hOther ((List.prefix_append _ _).trans (hHere ▸ hWay))
    · rw [hHere] at hFile
      exact hOther ((List.append_inj hFile (by simp)).1 ▸ List.prefix_rfl)

theorem owns_place (c : FileClient) (key : String) : c.Owns (c.place key) := by
  rw [place]
  split
  · exact .inl rfl
  · exact .inr ⟨_, rfl⟩

theorem within_actions (c : FileClient) (op : Operation) : ∀ a ∈ c.actions op, a.Within c.Owns := by
  have hTemporary : ∀ key, c.Owns (c.temporaryPlace key) := fun key => .inr ⟨_, rfl⟩
  cases op with
  | get key =>
      rw [actions, List.forall_mem_singleton]
      exact c.owns_place key
  | set key value =>
      rw [actions, List.forall_mem_cons, List.forall_mem_singleton]
      exact ⟨hTemporary key, hTemporary key, c.owns_place key⟩
  | delete key =>
      rw [actions, List.forall_mem_singleton]
      exact c.owns_place key

theorem entryAt?_perform {P : Place → Prop} {actions : List FileAction}
    (h : ∀ a ∈ actions, a.Within P) (fs : FileSystem) {p : Place} (hp : ¬P p) :
    (perform fs actions).2.2.entryAt? p = fs.entryAt? p := by
  induction actions generalizing fs with
  | nil => rfl
  | cons a rest ih =>
      obtain ⟨hFirst, hRest⟩ := List.forall_mem_cons.mp h
      have hStep := FileAction.entryAt?_run hFirst fs hp
      rw [perform]
      split
      · next e fs₁ hRun => rwa [hRun] at hStep
      · next found fs₁ hRun =>
          rw [hRun] at hStep
          exact (ih hRest fs₁).trans hStep

theorem perform_agree {P : Place → Prop} (hWay : ∀ p q : Place, q <+: p → P p → P q)
    {actions : List FileAction} (h : ∀ a ∈ actions, a.Within P)
    (hAgree : FileSystem.Agree P fs fs') :
    (perform fs actions).1 = (perform fs' actions).1 ∧
      (perform fs actions).2.1 = (perform fs' actions).2.1 ∧
      FileSystem.Agree P (perform fs actions).2.2 (perform fs' actions).2.2 := by
  induction actions generalizing fs fs' with
  | nil => exact ⟨rfl, rfl, hAgree⟩
  | cons a rest ih =>
      obtain ⟨hFirst, hRest⟩ := List.forall_mem_cons.mp h
      obtain ⟨hSame, hNext⟩ := FileAction.run_agree hWay hFirst hAgree
      obtain ⟨fs₁, hRun⟩ : ∃ fs₁, a.run fs = ((a.run fs').1, fs₁) := 
        ⟨(a.run fs).2, Prod.ext hSame rfl⟩
      obtain ⟨fs₁', hRun'⟩ : ∃ fs₁', a.run fs' = ((a.run fs').1, fs₁') := ⟨_, rfl⟩
      rw [hRun, hRun'] at hNext
      rw [perform, perform, hRun, hRun']
      cases (a.run fs').1 with
      | error e => exact ⟨rfl, rfl, hNext⟩
      | ok found =>
          obtain ⟨hOutcome, hReads, hLast⟩ := ih hRest hNext
          exact ⟨hOutcome, congrArg (found.toList ++ ·) hReads, hLast⟩

/-- A batch changes only what the client owns. -/
theorem entryAt?_batch (c : FileClient) (ops : List Operation) (fs : FileSystem) {p : Place}
    (hp : ¬c.Owns p) : (c.batch ops fs).2.entryAt? p = fs.entryAt? p := by
  rw [batch]
  split
  · rfl
  · exact entryAt?_perform
      (fun a hMem => (List.mem_flatMap.mp hMem).elim fun op hOp => c.within_actions op a hOp.2) fs hp

/-- A batch depends on nothing but what the client sees. -/
theorem batch_agree (c : FileClient) (ops : List Operation)
    (hAgree : FileSystem.Agree c.Sees fs fs') :
    (c.batch ops fs).1 = (c.batch ops fs').1 ∧
      FileSystem.Agree c.Sees (c.batch ops fs).2 (c.batch ops fs').2 := by
  have hWithin : ∀ a ∈ ops.flatMap c.actions, a.Within c.Sees := by
    intro a hMem
    obtain ⟨op, -, hAction⟩ := List.mem_flatMap.mp hMem
    have hOwns := c.within_actions op a hAction
    cases a with
    | read place | write place content | remove place => exact sees_of_owns hOwns
    | rename source target => exact ⟨sees_of_owns hOwns.1, sees_of_owns hOwns.2⟩
  obtain ⟨hOutcome, hReads, hLast⟩ :=
    perform_agree (fun p q => sees_of_prefix) hWithin hAgree
  rw [batch, batch]
  split
  · exact ⟨rfl, hAgree⟩
  · refine ⟨?_, hLast⟩
    dsimp only
    rw [hOutcome, hReads]

/-- A write that was carried out went by way of the temporary file. -/
theorem files_of_set {key : String} {value : Bytes} {reads : Reads}
    (h : c.batch [.set key value] fs = (⟨.ok (), reads⟩, fs')) :
    ∃ fs₁, fs.writeFile (c.temporaryPlace key) value = .ok fs₁ ∧
      fs₁.renameFile (c.temporaryPlace key) (c.place key) = .ok fs' := by
  have hOutcome := congrArg (fun answer => answer.1.outcome) h
  have hLeft := congrArg Prod.snd h
  rw [batch] at hOutcome hLeft
  split at hOutcome
  · exact absurd hOutcome (by simp [Reply.failed])
  · next hHeld =>
      rw [List.flatMap_singleton, actions, perform, FileAction.run] at hOutcome
      rw [if_neg hHeld, List.flatMap_singleton, actions, perform, FileAction.run] at hLeft
      cases hWrite : fs.writeFile (c.temporaryPlace key) value with
      | error e =>
          rw [hWrite] at hOutcome
          cases hOutcome
      | ok fs₁ =>
          refine ⟨fs₁, rfl, ?_⟩
          rw [hWrite] at hOutcome hLeft
          dsimp only at hOutcome hLeft
          rw [perform, FileAction.run] at hOutcome hLeft
          cases hRename : fs₁.renameFile (c.temporaryPlace key) (c.place key) with
          | error e =>
              rw [hRename] at hOutcome
              cases hOutcome
          | ok fs₂ =>
              rw [hRename] at hLeft
              exact congrArg Except.ok hLeft

/-- A value that a client wrote is read by every client of its directory. -/
theorem get_of_set {key : String} {value : Bytes} {reads : Reads}
    (h : c.batch [.set key value] fs = (⟨.ok (), reads⟩, fs'))
    (hSame : c'.directory = c.directory) (hOpen : c'.closed = false) :
    (c'.batch [.get key] fs').1 = ⟨.ok (), [some value]⟩ := by
  obtain ⟨fs₁, hWrite, hRename⟩ := files_of_set h
  have hTemporary : fs₁.entryAt? (c.temporaryPlace key) = some (.file value) := by
    rw [FileSystem.eq_insert_of_writeFile hWrite, temporaryPlace,
      FileSystem.entryAt?_insert fs (append_singleton_ne_nil c.directory _), if_pos rfl]
  have hLength : (c.place key).length ≤ (c.temporaryPlace key).length := by
    rw [place, temporaryPlace]
    split <;> simp
  have hRead := FileSystem.readFile_of_renameFile hTemporary hLength hRename
  have hPlace : c'.place key = c.place key := by rw [place, place, hSame]
  rw [batch, hOpen, if_neg Bool.false_ne_true, List.flatMap_singleton, actions, hPlace, perform,
    FileAction.run, hRead]
  rfl

end FileClient

namespace MemoryClient

variable {c : MemoryClient} {m m' : MemoryStore}

theorem space_insert (m : MemoryStore) (name other : String) (s : Space) :
    MemoryStore.space (m.insert name s) other = if other = name then s else m.space other := by
  rw [MemoryStore.space, MemoryStore.space]
  split
  · next hSame => rw [hSame, Table.get?_insert_self, Option.getD_some]
  · next hNe => rw [Table.get?_insert_of_ne hNe]

/-- A batch depends on the values of the client's namespace. -/
theorem batch_agree (ops : List Operation) (h : m.space c.space = m'.space c.space) :
    (c.batch ops m).1 = (c.batch ops m').1 ∧
      (c.batch ops m).2.space c.space = (c.batch ops m').2.space c.space := by
  rw [batch, batch]
  split
  · exact ⟨rfl, h⟩
  · dsimp only
    rw [space_insert, space_insert, if_pos rfl, if_pos rfl, h]
    exact ⟨rfl, rfl⟩

/-- A batch changes no other namespace. -/
theorem space_batch (ops : List Operation) (m : MemoryStore) {other : String}
    (hNe : other ≠ c.space) : (c.batch ops m).2.space other = m.space other := by
  rw [batch]
  split
  · rfl
  · exact (space_insert m c.space other _).trans (if_neg hNe)

theorem get_of_set {c' : MemoryClient} {key : String} {value : Bytes} {reads : Reads}
    (h : c.batch [.set key value] m = (⟨.ok (), reads⟩, m')) (hSame : c'.space = c.space)
    (hOpen : c'.closed = false) : (c'.batch [.get key] m').1 = ⟨.ok (), [some value]⟩ := by
  rw [batch] at h
  split at h
  · exact absurd (congrArg (fun answer => answer.1.outcome) h) (by simp [Reply.failed])
  · obtain rfl : m.insert c.space ((m.space c.space).insert key value) = m' := congrArg Prod.snd h
    rw [batch, hOpen, if_neg Bool.false_ne_true]
    dsimp only
    rw [hSame, space_insert, if_pos rfl, Space.run_get, Table.get?_insert_self]
    rfl

end MemoryClient

end Telemetry.Storage

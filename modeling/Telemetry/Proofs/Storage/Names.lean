import Telemetry.Storage.Vault

/-!
# The names of namespaces and where their directories are

The namespace of a component for a signal is the kind, the component and the signal with an underscore
before and after the component. No kind and no signal holds an underscore, so both can be read off
again, and so can what stands between them. That is the type and the name of the component, which
cannot always be told apart: types hold underscores, too. In a directory name the characters of the
component may be lost as well.
-/

namespace Telemetry.Text

variable {sep : Char}

theorem splitAll_of_not_mem {cs : List Char} (h : sep ∉ cs) : splitAll sep cs = [cs] := by
  induction cs with
  | nil => rfl
  | cons c rest ih =>
      have hFirst : c ≠ sep := fun hEq => h (hEq ▸ List.mem_cons_self)
      rw [splitAll, if_neg hFirst, ih fun hMem => h (List.mem_cons_of_mem c hMem)]

/-- The pieces before an occurrence and those after it are split apart from each other. -/
theorem splitAll_append (before after : List Char) :
    splitAll sep (before ++ sep :: after) = splitAll sep before ++ splitAll sep after := by
  induction before with
  | nil =>
      rw [List.nil_append, splitAll, splitAll, if_pos rfl]
      rfl
  | cons c rest ih =>
      rw [List.cons_append, splitAll, splitAll, ih]
      by_cases hSep : c = sep
      · rw [if_pos hSep, if_pos hSep, List.cons_append]
      · rw [if_neg hSep, if_neg hSep]
        cases hRest : splitAll sep rest with
        | nil => exact absurd hRest (splitAll_ne_nil sep rest)
        | cons piece pieces => rfl

end Telemetry.Text

namespace Telemetry.Storage

/-- A component as its namespaces have it: the type, and an underscore and the name if there is one. -/
def ownerText (owner : ComponentId) : String :=
  match owner.name with
  | none => owner.type.text
  | some name => owner.type.text ++ "_" ++ name.text

/-- A text between a kind and a signal. -/
def framed (kind : Kind) (text : String) (signal : Signal) : String :=
  kind.text ++ "_" ++ text ++ "_" ++ signal.text

theorem clientNamespace_signal (kind : Kind) (owner : ComponentId) (signal : Signal) :
    clientNamespace kind owner signal.text = framed kind (ownerText owner) signal := by
  obtain ⟨type, name⟩ := owner
  have hSome : signal.text.isEmpty = false := by cases signal <;> decide
  cases name with
  | none => simp [clientNamespace, framed, ownerText, hSome, String.append_assoc]
  | some name => simp [clientNamespace, framed, ownerText, hSome, String.append_assoc]

section Frames

theorem kind_text_injective {k k' : Kind} (h : k.text = k'.text) : k = k' := by
  cases k <;> cases k' <;> first | rfl | exact absurd h (by decide)

theorem signal_text_injective {p p' : Signal} (h : p.text = p'.text) : p = p' := by
  cases p <;> cases p' <;> first | rfl | exact absurd h (by decide)

theorem underscore_not_mem_kind (k : Kind) : '_' ∉ k.text.toList := by cases k <;> decide

theorem underscore_not_mem_signal (p : Signal) : '_' ∉ p.text.toList := by cases p <;> decide

/-- What a character that is in no front ends, is the front. -/
theorem front_of_append_eq {sep : Char} {x y x' y' : List Char} (hFront : sep ∉ x)
    (hFront' : sep ∉ x') (h : x ++ sep :: y = x' ++ sep :: y') : x = x' ∧ y = y' := by
  have hSplit := congrArg (Text.splitOnce sep) h
  rw [Text.splitOnce_append hFront, Text.splitOnce_append hFront'] at hSplit
  exact ⟨congrArg Prod.fst hSplit, Option.some.inj (congrArg Prod.snd hSplit)⟩

theorem framed_toList (k : Kind) (x : String) (p : Signal) :
    (framed k x p).toList = k.text.toList ++ '_' :: (x.toList ++ '_' :: p.text.toList) := by
  simp [framed]

/-- The kind, the signal and the text between them can be read off again. -/
theorem framed_inj {k k' : Kind} {x x' : String} {p p' : Signal} :
    framed k x p = framed k' x' p' ↔ k = k' ∧ p = p' ∧ x = x' := by
  constructor
  · intro h
    have hList := congrArg String.toList h
    rw [framed_toList, framed_toList] at hList
    obtain ⟨hKind, hRest⟩ :=
      front_of_append_eq (underscore_not_mem_kind k) (underscore_not_mem_kind k') hList
    have hBack := congrArg List.reverse hRest
    simp only [List.reverse_append, List.reverse_cons, List.append_assoc,
      List.singleton_append] at hBack
    obtain ⟨hSignal, hText⟩ := front_of_append_eq
      (fun hMem => underscore_not_mem_signal p (List.mem_reverse.mp hMem))
      (fun hMem => underscore_not_mem_signal p' (List.mem_reverse.mp hMem)) hBack
    exact ⟨kind_text_injective (String.toList_inj.mp hKind),
      signal_text_injective (String.toList_inj.mp (List.reverse_inj.mp hSignal)),
      String.toList_inj.mp (List.reverse_inj.mp hText)⟩
  · rintro ⟨rfl, rfl, rfl⟩
    rfl

end Frames

section Directories

theorem directoryName_append (x y : String) :
    directoryName (x ++ y) = directoryName x ++ directoryName y := by
  simp [directoryName, String.ofList_append]

/-- In a directory name only the component changes. -/
theorem directoryName_framed (k : Kind) (x : String) (p : Signal) :
    directoryName (framed k x p) = framed k (directoryName x) p := by
  have hKind : directoryName k.text = k.text := by cases k <;> decide
  have hSignal : directoryName p.text = p.text := by cases p <;> decide
  have hUnderscore : directoryName "_" = "_" := by decide
  simp only [framed, directoryName_append, hKind, hSignal, hUnderscore]

/-- A slash becomes a tilde, too. -/
theorem slash_not_mem_directoryName (x : String) : '/' ∉ (directoryName x).toList := by
  intro hMem
  rw [directoryName, String.toList_ofList] at hMem
  obtain ⟨c, -, hSlash⟩ := List.mem_map.mp hMem
  split at hSlash
  · next hKept =>
      rw [hSlash] at hKept
      exact absurd hKept (by decide)
  · exact absurd hSlash (by decide)

theorem length_directoryName (x : String) :
    (directoryName x).toList.length = x.toList.length := by
  rw [directoryName, String.toList_ofList, List.length_map]

end Directories

/-- The place that a step leads to, if it can be taken. -/
def PathStep.next (place : Place) : PathStep → Place
  | enter name => place ++ [name]
  | stay => place
  | back => place.dropLast

namespace FileSystem

theorem walk_of_walk_cons {fs : FileSystem} {step : PathStep} {rest : List PathStep}
    {place last : Place} (h : fs.walk place (step :: rest) = .ok last) :
    fs.walk (step.next place) rest = .ok last := by
  cases step with
  | stay | back =>
      rw [walk] at h
      split at h <;> first | exact h | exact absurd h (by simp)
  | enter name =>
      rw [walk] at h
      split at h <;> try exact absurd h (by simp)
      split at h
      · exact absurd h (by simp)
      · exact h

/-- What is in a file system decides only whether steps can be taken. -/
theorem eq_of_walk {fs : FileSystem} {steps : List PathStep} {place last : Place}
    (h : fs.walk place steps = .ok last) : last = steps.foldl PathStep.next place := by
  induction steps generalizing place with
  | nil => exact (Except.ok.inj h).symm
  | cons step rest ih => exact ih (walk_of_walk_cons h)

theorem walk_of_find {fs : FileSystem} {path : Path} {place : Place} {entry : Entry}
    (h : fs.find path = .ok (place, entry)) : fs.walk [] path.steps = .ok place := by
  rw [find] at h
  cases hWalk : fs.walk [] path.steps with
  | error e =>
      rw [hWalk] at h
      exact absurd h (by simp [bind, Except.bind])
  | ok last =>
      rw [hWalk] at h
      simp only [bind, Except.bind] at h
      have hPlace : last = place := by
        split at h
        · exact absurd h (by simp)
        · exact congrArg Prod.fst (Except.ok.inj h)
        · split at h
          · exact absurd h (by simp)
          · exact congrArg Prod.fst (Except.ok.inj h)
      rw [hPlace]

end FileSystem

namespace FileStorage

/-- The steps that the text of a path writes. -/
def stepsOf (text : String) : List PathStep :=
  (Text.splitAll '/' text.toList).filterMap Path.step?

/-- The place of a storage. -/
def root (s : FileStorageSettings) : Place := (stepsOf s.directory).foldl PathStep.next []

/-- A longer name than that of a step that stays or leads back is the name of an entry. -/
theorem step?_of_length {name : String} (hLong : 2 < name.toList.length) :
    Path.step? name.toList = some (.enter name) := by
  have hNe : ∀ piece : List Char, piece.length ≤ 2 → name.toList ≠ piece := by
    intro piece hShort hEq
    rw [hEq] at hLong
    omega
  rw [Path.step?, if_neg (hNe _ (by simp)), if_neg (hNe _ (by simp)), if_neg (hNe _ (by simp)),
    String.ofList_toList]

theorem stepsOf_join (text : String) {name : String} (hSlash : '/' ∉ name.toList)
    (hLong : 2 < name.toList.length) :
    stepsOf (Path.join text name) = stepsOf text ++ [.enter name] := by
  have hName : Text.splitAll '/' name.toList = [name.toList] := Text.splitAll_of_not_mem hSlash
  have hStep : [name.toList].filterMap Path.step? = [.enter name] := by
    rw [List.filterMap_cons, step?_of_length hLong]
    rfl
  rw [Path.join]
  split
  · next hEnd =>
      rw [Bool.or_eq_true, decide_eq_true_eq] at hEnd
      rcases hEnd with hEmpty | hLast
      · obtain rfl : text = "" := String.isEmpty_iff.mp hEmpty
        rw [String.empty_append, stepsOf, hName, hStep]
        rfl
      · obtain ⟨front, hFront⟩ := List.getLast?_eq_some_iff.mp hLast
        rw [stepsOf, stepsOf, String.toList_append, hFront, List.append_assoc,
          List.singleton_append, Text.splitAll_append, Text.splitAll_append, hName,
          List.filterMap_append, List.filterMap_append, hStep]
        simp [Text.splitAll, Path.step?]
  · rw [stepsOf, String.toList_append, String.toList_append]
    change ((Text.splitAll '/' ((text.toList ++ ['/']) ++ name.toList)).filterMap Path.step?) = _
    rw [List.append_assoc, List.singleton_append, Text.splitAll_append, hName,
      List.filterMap_append, hStep]
    rfl

theorem ofText_steps {text : String} {path : Path} (h : Path.ofText text = .ok path) :
    path.steps = stepsOf text := by
  rw [Path.ofText] at h
  split at h
  · exact absurd h (by simp)
  · split at h
    · exact absurd h (by simp)
    · split at h
      · exact absurd h (by simp)
      · exact (congrArg Path.steps (Except.ok.inj h)).symm

theorem steps_of_join {s : FileStorageSettings} {space : String}
    (hLong : 2 < space.toList.length) {path : Path}
    (h : Path.ofText (Path.join s.directory (directoryName space)) = .ok path) :
    path.steps = stepsOf s.directory ++ [.enter (directoryName space)] := by
  rw [ofText_steps h]
  exact stepsOf_join s.directory (slash_not_mem_directoryName space)
    (by rw [length_directoryName]; exact hLong)

section Opening

variable {s : FileStorageSettings} {space : String} {fs fs' : FileSystem} {c : FileClient}

/-- A client is opened onto what the path of its directory leads to once the directory was made. -/
theorem found_of_openClient (h : openClient s space fs = (.ok c, fs')) :
    ∃ path entry, Path.ofText (Path.join s.directory (directoryName space)) = .ok path ∧
      fs.makeDirectories path = (.ok (), fs') ∧ fs'.find path = .ok (c.directory, entry) ∧
      c.closed = false := by
  rw [openClient] at h
  split at h
  · exact absurd (congrArg Prod.fst h) (by simp)
  next path hPath =>
  rcases hMade : fs.makeDirectories path with ⟨e | u, fs₁⟩
  · rw [hMade] at h
    exact absurd (congrArg Prod.fst h) (by simp [Except.bind])
  · rw [hMade] at h
    dsimp only [Except.bind] at h
    cases hFind : fs₁.find path with
    | error e =>
        rw [hFind] at h
        exact absurd (congrArg Prod.fst h) (by simp)
    | ok found =>
        obtain ⟨place, entry⟩ := found
        rw [hFind] at h
        obtain rfl : ⟨place, false⟩ = c := Except.ok.inj (congrArg Prod.fst h)
        obtain rfl : fs₁ = fs' := congrArg Prod.snd h
        exact ⟨path, entry, hPath, hMade, hFind, rfl⟩

/-- The directory of a client is the one its name has in the place of the storage, whatever else is in
the file system. -/
theorem directory_of_openClient (hLong : 2 < space.toList.length)
    (h : openClient s space fs = (.ok c, fs')) :
    c = ⟨root s ++ [directoryName space], false⟩ := by
  obtain ⟨path, entry, hPath, -, hFind, hOpen⟩ := found_of_openClient h
  have hDirectory : c.directory = root s ++ [directoryName space] := by
    rw [FileSystem.eq_of_walk (FileSystem.walk_of_find hFind), steps_of_join hLong hPath,
      List.foldl_append]
    rfl
  rw [← hDirectory, ← hOpen]

end Opening

end FileStorage

end Telemetry.Storage

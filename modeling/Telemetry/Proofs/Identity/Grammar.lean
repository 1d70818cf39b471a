import Mathlib.Logic.ExistsUnique
import Telemetry.Identity.Id
import Telemetry.Proofs.Text.Trimming

/-!
# The grammar of written ids

A written id is cut at its first slash, and the blanks around the parts do not count. Component ids and
pipeline ids follow this rule alike and differ in what may stand in front: a text is read just if its parts
are of the right form, and the id that is read is written as these parts with a slash between them.
-/

namespace Telemetry

open Text (Trims IsTight isBlank isControl splitOnce splitOnce_append splitOnce_of_not_mem trim trims_iff)

/-! ## The parts of a text -/

/-- What stands before the first slash of a text and what stands after it. -/
@[ext]
structure WrittenParts where
  front : List Char
  /-- There is none where there is no slash. -/
  name : Option (List Char)
deriving DecidableEq

/-- The parts with a slash between them. -/
def WrittenParts.joined (w : WrittenParts) : List Char := w.front ++ w.name.elim [] ('/' :: ·)

/-- The parts of a text, without the blanks around them. -/
inductive HasParts : List Char → WrittenParts → Prop
  | whole {cs front : List Char} (hSlash : '/' ∉ cs) (hFront : Trims cs front) :
      HasParts cs ⟨front, none⟩
  | divided {before after front name : List Char} (hSlash : '/' ∉ before) (hFront : Trims before front)
      (hName : Trims after name) : HasParts (before ++ '/' :: after) ⟨front, some name⟩

/-- The parts of a text, as they are found. -/
def partsOf (cs : List Char) : WrittenParts :=
  ⟨trim (splitOnce '/' cs).1, (splitOnce '/' cs).2.map trim⟩

theorem hasParts_partsOf (cs : List Char) : HasParts cs (partsOf cs) := by
  by_cases hSlash : '/' ∈ cs
  · obtain ⟨before, after, rfl, hBefore⟩ := List.eq_append_cons_of_mem hSlash
    rw [partsOf, splitOnce_append hBefore]
    exact .divided hBefore (trims_iff.mpr rfl) (trims_iff.mpr rfl)
  · rw [partsOf, splitOnce_of_not_mem hSlash]
    exact .whole hSlash (trims_iff.mpr rfl)

theorem hasParts_iff {cs : List Char} {w : WrittenParts} : HasParts cs w ↔ partsOf cs = w := by
  constructor
  · intro h
    cases h with
    | whole hSlash hFront =>
        rw [partsOf, splitOnce_of_not_mem hSlash, trims_iff.mp hFront]
        rfl
    | divided hSlash hFront hName =>
        rw [partsOf, splitOnce_append hSlash, trims_iff.mp hFront, Option.map_some, trims_iff.mp hName]
  · rintro rfl
    exact hasParts_partsOf cs

theorem existsUnique_hasParts (cs : List Char) : ∃! w, HasParts cs w :=
  ⟨partsOf cs, hasParts_partsOf cs, fun _ h => (hasParts_iff.mp h).symm⟩

theorem hasParts_joined {w : WrittenParts} (hSlash : '/' ∉ w.front) (hFront : IsTight w.front)
    (hName : ∀ name ∈ w.name, IsTight name) : HasParts w.joined w := by
  obtain ⟨front, _ | name⟩ := w
  · rw [WrittenParts.joined, Option.elim_none, List.append_nil]
    exact .whole hSlash hFront.trims
  · exact .divided hSlash hFront.trims (hName name rfl).trims

/-! ## What may stand in the parts -/

/-- A letter from `a` to `z` or from `A` to `Z`. -/
def IsLetter (c : Char) : Prop := ('a' ≤ c ∧ c ≤ 'z') ∨ ('A' ≤ c ∧ c ≤ 'Z')

/-- A letter, a digit from `0` to `9`, or an underscore. -/
def IsWordChar (c : Char) : Prop := IsLetter c ∨ ('0' ≤ c ∧ c ≤ '9') ∨ c = '_'

/-- The type of a component: `[a-zA-Z][0-9a-zA-Z_]{0,62}`. -/
def IsTypeText (cs : List Char) : Prop :=
  ∃ c rest, cs = c :: rest ∧ IsLetter c ∧ rest.length ≤ 62 ∧ ∀ d ∈ rest, IsWordChar d

/-- The signal of a pipeline. -/
def IsSignalText (cs : List Char) : Prop :=
  cs ∈ ["traces", "metrics", "logs", "profiles"].map String.toList

/-- A name: some characters, none of them a blank or a control character. -/
def IsNameText (cs : List Char) : Prop := cs ≠ [] ∧ ∀ c ∈ cs, isBlank c = false ∧ isControl c = false

theorem isLetter_iff {c : Char} : c.isAlpha = true ↔ IsLetter c := by
  have hAlpha : c.isAlpha = (decide (c.val ≥ 'A'.val ∧ c.val ≤ 'Z'.val) ||
      (decide (c.val ≥ 'a'.val) && decide (c.val ≤ 'z'.val))) := rfl
  simp [hAlpha, IsLetter, Char.le_def, or_comm]

theorem isWordChar_iff {c : Char} : isTypeChar c = true ↔ IsWordChar c := by
  simp [isTypeChar, Char.isAlphanum, isLetter_iff, Char.isDigit, IsWordChar, Char.le_def, or_assoc]

theorem isTypeName_iff {cs : List Char} : isTypeName cs = true ↔ IsTypeText cs := by
  cases cs with
  | nil => simp [isTypeName, IsTypeText]
  | cons c rest =>
      simp [isTypeName, IsTypeText, isLetter_iff, isWordChar_iff, maxTypeLength, Nat.lt_succ_iff,
        and_assoc]

theorem isIdName_iff {cs : List Char} : isIdName cs = true ↔ IsNameText cs := by
  simp [isIdName, IsNameText]

theorem IsNameText.isTight {cs : List Char} (h : IsNameText cs) : IsTight cs :=
  Text.isTight_of_forall fun c hc => (h.2 c hc).1

theorem IsWordChar.bounds {c : Char} (h : IsWordChar c) : 0x30 ≤ c.toNat ∧ c.toNat ≤ 0x7A := by
  simp only [IsWordChar, IsLetter, Char.le_def, UInt32.le_iff_toNat_le] at h
  change ((0x61 ≤ c.toNat ∧ c.toNat ≤ 0x7A) ∨ (0x41 ≤ c.toNat ∧ c.toNat ≤ 0x5A)) ∨
    (0x30 ≤ c.toNat ∧ c.toNat ≤ 0x39) ∨ c = '_' at h
  rcases h with (h | h) | h | rfl
  · omega
  · omega
  · omega
  · decide

theorem IsWordChar.isBlank_eq {c : Char} (h : IsWordChar c) : isBlank c = false := by
  obtain ⟨hLow, hHigh⟩ := h.bounds
  simp only [isBlank, Text.inRanges, Text.blankRanges, List.any_cons, List.any_nil, Bool.or_false,
    Bool.or_eq_false_iff, Bool.and_eq_false_iff, decide_eq_false_iff_not]
  omega

theorem IsWordChar.ne_slash {c : Char} (h : IsWordChar c) : c ≠ '/' := by
  rintro rfl
  exact absurd h.bounds (by decide)

/-- What may stand in front of a name has neither slashes nor blanks around it. -/
def IsFront (cs : List Char) : Prop := '/' ∉ cs ∧ IsTight cs

theorem isFront_of_forall {cs : List Char} (h : ∀ c ∈ cs, IsWordChar c) : IsFront cs :=
  ⟨fun hSlash => (h _ hSlash).ne_slash rfl, Text.isTight_of_forall fun c hc => (h c hc).isBlank_eq⟩

theorem IsTypeText.isFront {cs : List Char} (h : IsTypeText cs) : IsFront cs := by
  obtain ⟨c, rest, rfl, hFirst, -, hRest⟩ := h
  exact isFront_of_forall (List.forall_mem_cons.mpr ⟨.inl hFirst, hRest⟩)

theorem IsSignalText.isFront {cs : List Char} (h : IsSignalText cs) : IsFront cs := by
  have hAll : (["traces", "metrics", "logs", "profiles"].map String.toList).all (·.all isTypeChar) :=
    by decide
  have hWord := List.all_eq_true.mp (List.all_eq_true.mp hAll cs h)
  exact isFront_of_forall fun c hc => isWordChar_iff.mp (hWord c hc)

/-! ## Ids and their parts -/

section Parsing

theorem ComponentType.parse_eq_ok_iff {s : String} {type : ComponentType} :
    ComponentType.parse s = .ok type ↔ type.text = s := by
  rw [ComponentType.parse]
  split
  · rename_i hValid
    rw [Except.ok.injEq, ComponentType.mk.injEq, eq_comm]
  · rename_i hInvalid
    refine iff_of_false (fun h => ?_) ?_
    · split at h <;> cases h
    · rintro rfl
      exact hInvalid type.valid

theorem IdName.parse_eq_ok_iff {s : String} {name : IdName} :
    IdName.parse s = .ok name ↔ name.text = s := by
  rw [IdName.parse]
  split
  · rename_i hValid
    rw [Except.ok.injEq, IdName.mk.injEq, eq_comm]
  · rename_i hInvalid
    refine iff_of_false (fun h => ?_) ?_
    · split at h <;> cases h
    · rintro rfl
      exact hInvalid name.valid

theorem Signal.parse_eq_ok_iff {s : String} {signal : Signal} :
    Signal.parse s = .ok signal ↔ signal.text = s := by
  constructor
  · intro h
    unfold Signal.parse at h
    split at h <;> cases h <;> rfl
  · rintro rfl
    cases signal <;> rfl

theorem eq_ofList_iff {s : String} {cs : List Char} : s = .ofList cs ↔ s.toList = cs := by
  constructor
  · rintro rfl
    exact String.toList_ofList
  · rintro rfl
    exact String.ofList_toList.symm

/-- Reads what stands after the slash, if there is one. -/
def readName : Option (List Char) → Except IdError (Option IdName)
  | none => .ok none
  | some name => (IdName.parse (.ofList name)).map some

/-- Reads both parts, the first by a reader of its own. -/
def readParts {α : Type} (read : String → Except IdError α) (w : WrittenParts) :
    Except IdError (α × Option IdName) := do
  let a ← read (.ofList w.front)
  return (a, ← readName w.name)

/-- What is read in two ways, with and without a slash, is read from the parts. -/
theorem eq_map_readParts {α ι : Type} {read : String → Except IdError α} {make : α → Option IdName → ι}
    {cs : List Char} {answer : Except IdError ι}
    (hWhole : ∀ {front}, splitOnce '/' cs = (front, none) →
      answer = do return make (← read (.ofList (trim front))) none)
    (hDivided : ∀ {front name}, splitOnce '/' cs = (front, some name) → answer = do
      let a ← read (.ofList (trim front))
      return make a (some (← IdName.parse (.ofList (trim name))))) :
    answer = (readParts read (partsOf cs)).map fun p => make p.1 p.2 := by
  rw [readParts, partsOf]
  rcases hSplit : splitOnce '/' cs with ⟨front, _ | name⟩ <;> dsimp only
  · rw [hWhole hSplit]
    cases read (.ofList (trim front)) <;> rfl
  · rw [hDivided hSplit, Option.map_some, readName]
    cases read (.ofList (trim front)) with
    | error e => rfl
    | ok a =>
        simp only [bind, Except.bind]
        cases IdName.parse (.ofList (trim name)) <;> rfl

theorem readName_eq_ok_iff {after : Option (List Char)} {name : Option IdName} :
    readName after = .ok name ↔ name.map (·.text.toList) = after := by
  cases after with
  | none => cases name <;> simp [readName]
  | some after =>
      cases name with
      | none => cases h : IdName.parse (.ofList after) <;> simp [readName, h, Except.map]
      | some name =>
          have hName : readName (some after) = .ok (some name) ↔
              IdName.parse (.ofList after) = .ok name := by
            cases h : IdName.parse (.ofList after) <;> simp [readName, h, Except.map]
          rw [hName, IdName.parse_eq_ok_iff, eq_ofList_iff, Option.map_some, Option.some.injEq]

theorem readParts_eq_ok_iff {α ι : Type} {read : String → Except IdError α} {word : α → String}
    (hRead : ∀ s a, read s = .ok a ↔ word a = s) {make : α × Option IdName → ι}
    (hMake : Function.Injective make) {w : WrittenParts} {a : α} {name : Option IdName} :
    (readParts read w).map make = .ok (make (a, name)) ↔
      w = ⟨(word a).toList, name.map (·.text.toList)⟩ := by
  have hBoth : (readParts read w).map make = .ok (make (a, name)) ↔
      read (.ofList w.front) = .ok a ∧ readName w.name = .ok name := by
    rw [readParts]
    cases read (.ofList w.front) with
    | error e => exact iff_of_false nofun nofun
    | ok a =>
        cases readName w.name with
        | error e => exact iff_of_false nofun nofun
        | ok name => simp [bind, Except.bind, pure, Except.pure, Except.map, hMake.eq_iff]
  rw [hBoth, hRead, eq_ofList_iff, readName_eq_ok_iff, WrittenParts.mk.injEq, eq_comm (a := w.front),
    eq_comm (a := w.name)]

theorem ComponentType.exists_text_iff {cs : List Char} :
    (∃ type : ComponentType, type.text.toList = cs) ↔ IsTypeText cs := by
  rw [← isTypeName_iff]
  constructor
  · rintro ⟨type, rfl⟩
    exact type.valid
  · exact fun h => ⟨⟨.ofList cs, by rwa [String.toList_ofList]⟩, String.toList_ofList⟩

theorem Signal.exists_text_iff {cs : List Char} :
    (∃ signal : Signal, signal.text.toList = cs) ↔ IsSignalText cs := by
  constructor
  · rintro ⟨signal, rfl⟩
    cases signal <;> simp [Signal.text, IsSignalText]
  · intro h
    simp only [IsSignalText, List.map_cons, List.map_nil, List.mem_cons, List.not_mem_nil, or_false] at h
    rcases h with rfl | rfl | rfl | rfl
    · exact ⟨.traces, rfl⟩
    · exact ⟨.metrics, rfl⟩
    · exact ⟨.logs, rfl⟩
    · exact ⟨.profiles, rfl⟩

theorem exists_name_iff {after : Option (List Char)} :
    (∃ name : Option IdName, name.map (·.text.toList) = after) ↔ ∀ cs ∈ after, IsNameText cs := by
  simp only [← isIdName_iff]
  constructor
  · rintro ⟨_ | name, rfl⟩
    · exact nofun
    · rintro cs ⟨⟩
      exact name.valid
  · intro h
    cases after with
    | none => exact ⟨none, rfl⟩
    | some cs =>
        have hValid : isIdName (String.ofList cs).toList = true := by
          rw [String.toList_ofList]
          exact h cs rfl
        exact ⟨some ⟨_, hValid⟩, congrArg some String.toList_ofList⟩

end Parsing

namespace ComponentId

/-- The parts of which an id is written. -/
def parts (id : ComponentId) : WrittenParts := ⟨id.type.text.toList, id.name.map (·.text.toList)⟩

theorem parse_eq (t : String) :
    parse t = (readParts ComponentType.parse (partsOf t.toList)).map fun p => ⟨p.1, p.2⟩ := by
  refine eq_map_readParts (fun h => ?whole) fun h => ?divided
  case whole => rw [parse, h]
  case divided =>
    rw [parse, h]
    rfl

theorem parse_eq_ok_iff {t : String} {id : ComponentId} :
    parse t = .ok id ↔ HasParts t.toList id.parts := by
  have hMake : Function.Injective fun p : ComponentType × Option IdName => ComponentId.mk p.1 p.2 :=
    fun p q h => Prod.ext (congrArg type h) (congrArg name h)
  rw [parse_eq, hasParts_iff]
  exact readParts_eq_ok_iff (fun _ _ => ComponentType.parse_eq_ok_iff) hMake

theorem toList_text (id : ComponentId) : id.text.toList = id.parts.joined := by
  obtain ⟨type, _ | name⟩ := id <;> simp [text, parts, WrittenParts.joined]

theorem exists_parts_eq_iff {w : WrittenParts} : (∃ id : ComponentId, id.parts = w) ↔
    IsTypeText w.front ∧ ∀ name ∈ w.name, IsNameText name := by
  rw [← ComponentType.exists_text_iff, ← exists_name_iff]
  constructor
  · rintro ⟨id, rfl⟩
    exact ⟨⟨id.type, rfl⟩, id.name, rfl⟩
  · rintro ⟨⟨type, hType⟩, name, hName⟩
    exact ⟨⟨type, name⟩, WrittenParts.ext hType hName⟩

end ComponentId

namespace PipelineId

/-- The parts of which an id is written. -/
def parts (id : PipelineId) : WrittenParts := ⟨id.signal.text.toList, id.name.map (·.text.toList)⟩

theorem parse_eq (t : String) :
    parse t = (readParts Signal.parse (partsOf t.toList)).map fun p => ⟨p.1, p.2⟩ := by
  refine eq_map_readParts (fun h => ?whole) fun h => ?divided
  case whole => rw [parse, h]
  case divided =>
    rw [parse, h]
    rfl

theorem parse_eq_ok_iff {t : String} {id : PipelineId} :
    parse t = .ok id ↔ HasParts t.toList id.parts := by
  have hMake : Function.Injective fun p : Signal × Option IdName => PipelineId.mk p.1 p.2 :=
    fun p q h => Prod.ext (congrArg signal h) (congrArg name h)
  rw [parse_eq, hasParts_iff]
  exact readParts_eq_ok_iff (fun _ _ => Signal.parse_eq_ok_iff) hMake

theorem toList_text (id : PipelineId) : id.text.toList = id.parts.joined := by
  obtain ⟨signal, _ | name⟩ := id <;> simp [text, parts, WrittenParts.joined]

theorem exists_parts_eq_iff {w : WrittenParts} : (∃ id : PipelineId, id.parts = w) ↔
    IsSignalText w.front ∧ ∀ name ∈ w.name, IsNameText name := by
  rw [← Signal.exists_text_iff, ← exists_name_iff]
  constructor
  · rintro ⟨id, rfl⟩
    exact ⟨⟨id.signal, rfl⟩, id.name, rfl⟩
  · rintro ⟨⟨signal, hSignal⟩, name, hName⟩
    exact ⟨⟨signal, name⟩, WrittenParts.ext hSignal hName⟩

end PipelineId

/-! ## Reading and writing -/

/-- Ids are read and written by the grammar, with so much in front. -/
structure IdGrammar {ι : Type} (IsHead : List Char → Prop) (parse : String → Except IdError ι)
    (text : ι → String) : Prop where
  /-- What was written is read back. -/
  round_trip (id : ι) : parse (text id) = .ok id
  /-- A text is read just if its parts are of the right form. -/
  accepts {t : String} {w : WrittenParts} (hParts : HasParts t.toList w) :
    (∃ id, parse t = .ok id) ↔ IsHead w.front ∧ ∀ name ∈ w.name, IsNameText name
  /-- What is read is written as the parts of the text. -/
  prints {t : String} {w : WrittenParts} {id : ι} (hParts : HasParts t.toList w)
    (hRead : parse t = .ok id) : (text id).toList = w.joined
  /-- What is read is written as a text that is read as the same. -/
  settles {t : String} {id : ι} (hRead : parse t = .ok id) : (parse (text id)).map text = .ok (text id)
  /-- Two texts are read as one id just if their parts agree. -/
  tells {t u : String} {v w : WrittenParts} {id j : ι} (hParts : HasParts t.toList v)
    (hParts' : HasParts u.toList w) (hRead : parse t = .ok id) (hRead' : parse u = .ok j) :
    id = j ↔ v = w

/-- Where ids are what their parts are, all follows from how the parts are found. -/
theorem idGrammar_of_parts {ι : Type} {IsHead : List Char → Prop} {parse : String → Except IdError ι}
    {text : ι → String} {parts : ι → WrittenParts} (hHead : ∀ cs, IsHead cs → IsFront cs)
    (hRead : ∀ t id, parse t = .ok id ↔ HasParts t.toList (parts id))
    (hText : ∀ id, (text id).toList = (parts id).joined)
    (hRange : ∀ w, (∃ id, parts id = w) ↔ IsHead w.front ∧ ∀ name ∈ w.name, IsNameText name) :
    IdGrammar IsHead parse text := by
  have hRoundTrip : ∀ id, parse (text id) = .ok id := fun id => by
    obtain ⟨hFront, hName⟩ := (hRange (parts id)).mp ⟨id, rfl⟩
    obtain ⟨hSlash, hTight⟩ := hHead _ hFront
    rw [hRead, hText]
    exact hasParts_joined hSlash hTight fun name hMem => (hName name hMem).isTight
  have hParts : ∀ {t w id}, HasParts t.toList w → parse t = .ok id → parts id = w :=
    fun hParts hId => (existsUnique_hasParts _).unique ((hRead _ _).mp hId) hParts
  refine ⟨hRoundTrip, fun {t w} h => ?accepts, fun h hId => ?prints, fun {t id} _ => ?settles,
    fun {t u v w id j} h h' hId hJ => ?tells⟩
  case accepts =>
    rw [← hRange]
    constructor
    · exact fun ⟨id, hId⟩ => ⟨id, hParts h hId⟩
    · rintro ⟨id, rfl⟩
      exact ⟨id, (hRead t id).mpr h⟩
  case prints => rw [hText, hParts h hId]
  case settles =>
    rw [hRoundTrip id]
    rfl
  case tells =>
    constructor
    · rintro rfl
      exact (hParts h hId).symm.trans (hParts h' hJ)
    · rintro rfl
      have hBoth : parse t = .ok j := (hRead t j).mpr (hParts h' hJ ▸ h)
      exact Except.ok.inj (hId.symm.trans hBoth)

/-- Every text has one pair of parts. Component ids and pipeline ids are read and written by their parts:
what was written is read back, a text is read just if its parts follow the grammar, and then it is told
apart from others by its parts alone. -/
theorem ids_follow_grammar :
    (∀ cs, ∃! w, HasParts cs w) ∧
    IdGrammar IsTypeText ComponentId.parse ComponentId.text ∧
    IdGrammar IsSignalText PipelineId.parse PipelineId.text := by
  refine ⟨existsUnique_hasParts, ?component, ?pipeline⟩
  case component =>
    exact idGrammar_of_parts (fun _ h => h.isFront) (fun _ _ => ComponentId.parse_eq_ok_iff)
      ComponentId.toList_text fun _ => ComponentId.exists_parts_eq_iff
  case pipeline =>
    exact idGrammar_of_parts (fun _ h => h.isFront) (fun _ _ => PipelineId.parse_eq_ok_iff)
      PipelineId.toList_text fun _ => PipelineId.exists_parts_eq_iff

/-- Blanks of every kind are taken off around the parts, and what follows the first slash may hold others. -/
theorem ids_follow_grammar_spaced : ∃ id, ComponentId.parse "\u3000otlp_1 / a/b\u00a0" = .ok id ∧
    id.text.toList = "otlp_1/a/b".toList := by
  obtain ⟨-, hGrammar, -⟩ := ids_follow_grammar
  have hParts : HasParts "\u3000otlp_1 / a/b\u00a0".toList ⟨"otlp_1".toList, some "a/b".toList⟩ :=
    hasParts_iff.mpr (by decide +kernel)
  have hName : IsNameText "a/b".toList := isIdName_iff.mp (by decide +kernel)
  obtain ⟨id, hRead⟩ := (hGrammar.accepts hParts).mpr
    ⟨isTypeName_iff.mp (by decide +kernel), fun name h => Option.some.inj h ▸ hName⟩
  refine ⟨id, hRead, ?_⟩
  rw [hGrammar.prints hParts hRead]
  decide +kernel

end Telemetry

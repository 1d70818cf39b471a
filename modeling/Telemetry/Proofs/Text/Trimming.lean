import Mathlib.Data.List.DropRight
import Telemetry.Text.Blank
import Telemetry.Text.Split

/-!
# Blanks around a text

A text without the blanks around it is what is left of it when blanks are taken off both ends, as many as
there are. There is one such text, and it is the one that trimming gives.
-/

namespace Telemetry.Text

variable {cs core : List Char}

/-- A text that begins and ends with no blank. -/
structure IsTight (core : List Char) : Prop where
  first : ∀ c ∈ core.head?, isBlank c = false
  last : ∀ c ∈ core.getLast?, isBlank c = false

/-- The second text is the first without the blanks around it. -/
structure Trims (cs core : List Char) : Prop where
  tight : IsTight core
  around : ∃ left right, cs = left ++ (core ++ right) ∧
    (∀ c ∈ left, isBlank c = true) ∧ ∀ c ∈ right, isBlank c = true

theorem isTight_of_forall (h : ∀ c ∈ core, isBlank c = false) : IsTight core where
  first c hc := h c (List.mem_of_mem_head? hc)
  last c hc := h c (List.mem_of_getLast? hc)

theorem IsTight.reverse (h : IsTight core) : IsTight core.reverse where
  first c hc := h.last c (List.head?_reverse ▸ hc)
  last c hc := h.first c (List.getLast?_reverse ▸ hc)

theorem IsTight.trims (h : IsTight core) : Trims core core where
  tight := h
  around := ⟨[], [], by simp, List.forall_mem_nil _, List.forall_mem_nil _⟩

/-- Blanks are taken off up to the first other character. -/
theorem dropWhile_tight_append (h : IsTight core) {right : List Char}
    (hRight : ∀ c ∈ right, isBlank c = true) :
    (core ++ right).dropWhile isBlank = if core = [] then [] else core ++ right := by
  cases core with
  | nil => simpa using hRight
  | cons c core => simp [h.first c rfl]

theorem Trims.trim_eq (h : Trims cs core) : trim cs = core := by
  obtain ⟨hTight, left, right, rfl, hLeft, hRight⟩ := h
  rw [trim, stripWhere, List.dropWhile_append_of_pos hLeft, dropWhile_tight_append hTight hRight]
  split
  · rename_i hNone
    rw [hNone]
    rfl
  · rename_i hSome
    have hBack : ∀ c ∈ right.reverse, isBlank c = true := fun c hc => hRight c (List.mem_reverse.mp hc)
    have hStop := dropWhile_tight_append hTight.reverse (List.forall_mem_nil _)
    rw [List.append_nil] at hStop
    rw [List.reverse_append, List.dropWhile_append_of_pos hBack, hStop,
      if_neg (mt List.reverse_eq_nil_iff.mp hSome), List.reverse_reverse]

theorem isBlank_of_mem_head?_dropWhile {c : Char} (h : c ∈ (cs.dropWhile isBlank).head?) :
    isBlank c = false := by
  have hStop := List.head?_dropWhile_not isBlank cs
  rw [Option.mem_def] at h
  rwa [h] at hStop

theorem trims_trim (cs : List Char) : Trims cs (trim cs) := by
  have hFront : cs.takeWhile isBlank ++ cs.dropWhile isBlank = cs := List.takeWhile_append_dropWhile
  have hBack : trim cs ++ (cs.dropWhile isBlank).rtakeWhile isBlank = cs.dropWhile isBlank :=
    List.rdropWhile_append_rtakeWhile
  refine ⟨⟨fun c hc => ?first, fun c hc => ?last⟩,
    cs.takeWhile isBlank, (cs.dropWhile isBlank).rtakeWhile isBlank, ?split, ?left, ?right⟩
  case first =>
    have hHead : c ∈ (cs.dropWhile isBlank).head? := by
      rw [← hBack]
      exact List.mem_head?_append_of_mem_head? hc
    exact isBlank_of_mem_head?_dropWhile hHead
  case last =>
    rw [trim, stripWhere, List.getLast?_reverse] at hc
    exact isBlank_of_mem_head?_dropWhile hc
  case split => rw [hBack, hFront]
  case left => exact fun c hc => List.mem_takeWhile_imp hc
  case right => exact fun c hc => List.mem_rtakeWhile_imp hc

theorem trims_iff : Trims cs core ↔ trim cs = core := by
  constructor
  · exact Trims.trim_eq
  · rintro rfl
    exact trims_trim cs

end Telemetry.Text

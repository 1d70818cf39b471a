/-!
# Splitting

Texts are split at a character: once, at its first occurrence, or at all of them. Nothing else is
lost, and no piece that ends at the character holds it.
-/

namespace Telemetry.Text

/-- The text up to the first occurrence of a character and the text after it, if it occurs. -/
def splitOnce (sep : Char) : List Char → List Char × Option (List Char)
  | [] => ([], none)
  | c :: cs =>
    if c = sep then ([], some cs)
    else let (before, after) := splitOnce sep cs; (c :: before, after)

/-- The pieces of a text between the occurrences of a character: one more than there are. -/
def splitAll (sep : Char) : List Char → List (List Char)
  | [] => [[]]
  | c :: cs =>
    if c = sep then [] :: splitAll sep cs
    else match splitAll sep cs with
      | [] => [[c]]
      | piece :: rest => (c :: piece) :: rest

theorem splitOnce_of_not_mem {sep : Char} {cs : List Char} (h : sep ∉ cs) :
    splitOnce sep cs = (cs, none) := by
  induction cs with
  | nil => rfl
  | cons c cs ih =>
    have hne : c ≠ sep := fun hc => h (by simp [hc])
    have hrest : sep ∉ cs := fun hmem => h (by simp [hmem])
    simp [splitOnce, hne, ih hrest]

theorem splitOnce_append {sep : Char} {before : List Char} (h : sep ∉ before)
    (after : List Char) : splitOnce sep (before ++ sep :: after) = (before, some after) := by
  induction before with
  | nil => simp [splitOnce]
  | cons c cs ih =>
    have hne : c ≠ sep := fun hc => h (by simp [hc])
    have hrest : sep ∉ cs := fun hmem => h (by simp [hmem])
    simp [splitOnce, hne, ih hrest]

theorem splitAll_ne_nil (sep : Char) (cs : List Char) : splitAll sep cs ≠ [] := by
  cases cs with
  | nil => simp [splitAll]
  | cons c cs =>
    rw [splitAll]
    split
    · simp
    · split <;> simp

end Telemetry.Text

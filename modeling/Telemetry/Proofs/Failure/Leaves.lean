import Telemetry.Failure.Consume

/-!
# Leaves of errors

Errors that are joined make a tree, and what a caller should do depends on its leaves.
-/

namespace Telemetry.ConsumeError

variable {es : List ConsumeError} {e leaf : ConsumeError}

theorem leavesOfAll_eq_flatMap (es : List ConsumeError) : leavesOfAll es = es.flatMap leaves := by
  induction es with
  | nil => rfl
  | cons e es ih => rw [leavesOfAll, ih, List.flatMap_cons]

@[simp] theorem leaves_joined : (joined es).leaves = es.flatMap leaves := by
  rw [leaves, leavesOfAll_eq_flatMap]

theorem isPermanent_joined : (joined es).isPermanent = es.any isPermanent := by
  rw [isPermanent, leaves_joined, List.any_flatMap]
  rfl

theorem leaves_of_join (h : join es = .error e) : e.leaves = es.flatMap leaves := by
  rcases es with _ | ⟨d, _ | ⟨d', es⟩⟩ <;> cases h <;> simp

/-- An error that is not joined is its own leaf; the others have the leaves of what was joined. -/
inductive IsLeaf (leaf : ConsumeError) : ConsumeError → Prop
  | single (h : ∀ es, leaf ≠ joined es) : IsLeaf leaf leaf
  | member {e : ConsumeError} {es : List ConsumeError} (hMem : e ∈ es) (h : IsLeaf leaf e) :
      IsLeaf leaf (joined es)

theorem isLeaf_of_mem_leaves (e : ConsumeError) (h : leaf ∈ e.leaves) : leaf.IsLeaf e := by
  match e with
  | joined es =>
      rw [leaves_joined, List.mem_flatMap] at h
      obtain ⟨e', hMem, hLeaf⟩ := h
      have hSmaller := List.sizeOf_lt_of_mem hMem
      exact .member hMem (isLeaf_of_mem_leaves e' hLeaf)
  | transient _ | timedOut _ | permanent _ | exhausted _ | queueFull | cancelled | shutdown _
  | interrupted _ =>
      obtain rfl := List.mem_singleton.mp h
      exact .single (by simp)

theorem mem_leaves_iff : leaf ∈ e.leaves ↔ leaf.IsLeaf e := by
  refine ⟨isLeaf_of_mem_leaves e, fun h => ?_⟩
  induction h with
  | single hSingle =>
      cases leaf with
      | joined es => exact absurd rfl (hSingle es)
      | _ => exact List.mem_singleton_self _
  | member hMem _ ih => exact leaves_joined ▸ List.mem_flatMap.mpr ⟨_, hMem, ih⟩

/-- The errors after which it is of no use to send a batch again. -/
inductive Final : ConsumeError → Prop
  | permanent (cause : String) : Final (permanent cause)
  | exhausted (last : ConsumeError) : Final (exhausted last)
  | queueFull : Final queueFull

theorem refuses_iff : e.refuses = true ↔ e.Final := by
  constructor
  · intro h
    cases e <;> first | constructor | cases h
  · rintro (_ | _ | _) <;> rfl

theorem isPermanent_iff_exists_leaf :
    e.isPermanent = true ↔ ∃ leaf : ConsumeError, leaf.IsLeaf e ∧ leaf.Final := by
  simp only [isPermanent, List.any_eq_true, mem_leaves_iff, refuses_iff]

end Telemetry.ConsumeError

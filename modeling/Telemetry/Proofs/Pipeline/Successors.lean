import Telemetry.Proofs.Pipeline.Building

/-!
# What follows a node

An edge leads from a node to one that takes what the first hands on. The head and the processors of a
pipeline have one node behind them, and exporters have none.
-/

namespace Telemetry

/-- The signal of what a node hands on. -/
def NodeId.output : NodeId → Signal
  | .connector _ _ target => target
  | n => n.signal

namespace Blueprint

variable {σ κ : Type} {b : Blueprint σ κ} {ps : Pipelines} {m n n' : NodeId} {pipeline : PipelineId}

theorem HasEdge.signal_eq (h : b.HasEdge ps m n) : n.signal = m.output := by
  cases h with
  | chain hMem hNext =>
      obtain ⟨rfl | ⟨i, -, rfl⟩, ⟨j, -, rfl⟩ | rfl⟩ := adjacent_stations hNext <;> rfl
  | _ => rfl

theorem HasEdge.ne_receiver (h : b.HasEdge ps m n) (id : ComponentId) (signal : Signal) :
    n ≠ .receiver id signal := by
  rintro rfl
  cases h with
  | chain hMem hNext => simpa using (adjacent_stations hNext).2

theorem successors_exporter (id : ComponentId) (signal : Signal) :
    (b.wiring ps).successors (.exporter id signal) = [] := by
  refine List.eq_nil_iff_forall_not_mem.mpr fun n hEdge => ?_
  cases edge_wiring_iff.mp hEdge with
  | chain hMem hNext => simpa using (adjacent_stations hNext).1

/-- The stations of a pipeline before its tail. -/
def IsStation (pipeline : PipelineId) (n : NodeId) : Prop :=
  n = .capabilities pipeline ∨ ∃ id, n = .processor pipeline id

theorem HasEdge.exists_adjacent (h : b.HasEdge ps m n) (hStation : IsStation pipeline m) :
    ∃ p, (pipeline, p) ∈ ps ∧ [m, n] <:+: stations pipeline p.processors := by
  cases h with
  | @chain pipeline' p _ _ hMem hNext =>
      have hSource := (adjacent_stations hNext).1
      have hSame : pipeline = pipeline' := by
        rcases hStation with rfl | ⟨id, rfl⟩
        · simpa using hSource
        · simp only [reduceCtorEq, NodeId.processor.injEq, false_or] at hSource
          exact hSource.choose_spec.2.1.symm
      subst hSame
      exact ⟨p, hMem, hNext⟩
  | _ => rcases hStation with hStation | ⟨id, hStation⟩ <;> cases hStation

/-- The head and the processors of a pipeline hand everything on to one node. -/
theorem HasEdge.target_unique (hValid : b.validate = .ok ps) (h : b.HasEdge ps m n)
    (h' : b.HasEdge ps m n') (hStation : IsStation pipeline m) : n = n' := by
  obtain ⟨p, hMem, hNext⟩ := h.exists_adjacent hStation
  obtain ⟨p', hMem', hNext'⟩ := h'.exists_adjacent hStation
  have hAscending := Pipelines.ascending_of_ofConfig (validate_eq_ok_iff.mp hValid).1
  cases (hAscending.get?_of_mem hMem).symm.trans (hAscending.get?_of_mem hMem')
  exact eq_of_adjacent (nodup_stations (nodup_processors hValid hMem)) hNext hNext'

end Blueprint

namespace Graph

variable {σ κ : Type} {b : Blueprint σ κ} {ps : Pipelines} {g : Graph κ} {n : NodeId}
  {type : BatchType} {c : Consumer}

theorem length_le_one_of_unique {α : Type} {l : List α} (hNodup : l.Nodup)
    (hUnique : ∀ a ∈ l, ∀ b ∈ l, a = b) : l.length ≤ 1 := by
  rcases l with _ | ⟨a, _ | ⟨b, l⟩⟩
  · exact Nat.zero_le 1
  · exact Nat.le_refl 1
  · cases hUnique a List.mem_cons_self b (by simp)
    exact absurd List.mem_cons_self (List.nodup_cons.mp hNodup).1

/-- A node that hands everything on to one node hands it to the first consumer there is. -/
theorem feed?_of_head? (hValid : b.validate = .ok ps) (hWiring : g.wiring = b.wiring ps)
    {pipeline : PipelineId} (hStation : Blueprint.IsStation pipeline n)
    (hNext : (g.nextConsumers type n).head? = some c) : g.feed? type n = some c := by
  have hSuccessors : (g.wiring.successors n).length ≤ 1 := by
    rw [hWiring]
    refine length_le_one_of_unique (Blueprint.isProper_wiring.nodup n) fun m hm m' hm' => ?_
    exact (Blueprint.edge_wiring_iff.mp hm).target_unique hValid (Blueprint.edge_wiring_iff.mp hm')
      hStation
  have hLength : (g.nextConsumers type n).length ≤ 1 :=
    (List.length_filterMap_le _ _).trans hSuccessors
  rw [feed?]
  rcases hList : g.nextConsumers type n with _ | ⟨c', _ | ⟨d, rest⟩⟩
  · simp [hList] at hNext
  · rw [hList] at hNext
    cases hNext
    rfl
  · simp [hList] at hLength

end Graph

end Telemetry

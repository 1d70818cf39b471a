import Mathlib.Data.List.Nodup
import Telemetry.Pipeline.Validation
import Telemetry.Proofs.Identity.Order
import Telemetry.Proofs.Table

/-!
# What validation vouches for

A blueprint without fault has the pipelines that its configuration declares. If no two of their keys are
read as one id, none of them is left out. No pipeline lists a processor twice.
-/

namespace Telemetry

section Checks

variable {ε α β : Type}

/-- A computation that succeeds does so in both of its steps. -/
theorem bind_eq_ok_iff {x : Except ε α} {f : α → Except ε β} {b : β} :
    (x >>= f) = .ok b ↔ ∃ a, x = .ok a ∧ f a = .ok b := by
  cases x with
  | error e => exact ⟨(nomatch ·), fun ⟨_, h, _⟩ => (nomatch h)⟩
  | ok a => exact ⟨fun h => ⟨a, rfl, h⟩, fun ⟨_, ha, hb⟩ => by cases ha; exact hb⟩

theorem forM_eq_ok_iff {f : α → Except ε Unit} {l : List α} :
    l.forM f = .ok () ↔ ∀ a ∈ l, f a = .ok () := by
  induction l with
  | nil => exact ⟨fun _ _ ha => absurd ha List.not_mem_nil, fun _ => rfl⟩
  | cons a l ih =>
      rw [List.forall_mem_cons, ← ih]
      exact bind_eq_ok_iff.trans ⟨fun ⟨_, ha, hl⟩ => ⟨ha, hl⟩, fun ⟨ha, hl⟩ => ⟨(), ha, hl⟩⟩

theorem bind_eq_error_iff {x : Except ε α} {f : α → Except ε β} {e : ε} :
    (x >>= f) = .error e ↔ x = .error e ∨ ∃ a, x = .ok a ∧ f a = .error e := by
  cases x with
  | error e' => simp [bind, Except.bind]
  | ok a => simp [bind, Except.bind]

/-- The checks of a list fail just if one fails and all before it succeed. -/
theorem forM_eq_error_iff {f : α → Except ε Unit} {l : List α} {e : ε} :
    l.forM f = .error e ↔
      ∃ before a after, l = before ++ a :: after ∧ (∀ x ∈ before, f x = .ok ()) ∧ f a = .error e := by
  induction l with
  | nil => exact iff_of_false nofun (by simp)
  | cons a l ih =>
      rw [show (a :: l).forM f = (f a >>= fun _ => l.forM f) from rfl, bind_eq_error_iff, ih]
      constructor
      · rintro (hHead | ⟨⟨⟩, hHead, before, x, after, rfl, hBefore, hFail⟩)
        · exact ⟨[], a, l, rfl, List.forall_mem_nil _, hHead⟩
        · exact ⟨a :: before, x, after, rfl, List.forall_mem_cons.mpr ⟨hHead, hBefore⟩, hFail⟩
      · rintro ⟨_ | ⟨_, before⟩, x, after, hSplit, hBefore, hFail⟩
        · cases hSplit
          exact .inl hFail
        · cases hSplit
          obtain ⟨hHead, hBefore⟩ := List.forall_mem_cons.mp hBefore
          exact .inr ⟨(), hHead, before, x, after, rfl, hBefore, hFail⟩

theorem forM_congr {f f' : α → Except ε Unit} {l : List α} (h : ∀ a ∈ l, f' a = f a) :
    l.forM f' = l.forM f := by
  induction l with
  | nil => rfl
  | cons a l ih =>
      obtain ⟨hHead, hRest⟩ := List.forall_mem_cons.mp h
      change (f' a >>= fun _ => l.forM f') = (f a >>= fun _ => l.forM f)
      rw [hHead, ih hRest]

end Checks

/-- Whether a configuration declares a pipeline under a key that is read as an id. -/
def ServiceConfig.Declares (c : ServiceConfig) (id : PipelineId) (p : PipelineConfig) : Prop :=
  ∃ key, (key, p) ∈ c.service.pipelines ∧ PipelineId.parse key = .ok id

/-- No two keys of pipelines are read as one id. -/
def ServiceConfig.HasDistinctPipelines (c : ServiceConfig) : Prop :=
  (c.service.pipelines.map fun e => PipelineId.parse e.1).Nodup

/-- The pipeline of the last key that is read as an id. -/
def ServiceConfig.last? (c : ServiceConfig) (id : PipelineId) : Option PipelineConfig :=
  ((c.service.pipelines.filter fun e => PipelineId.parse e.1 = .ok id).getLast?).map Prod.snd

namespace Pipelines

variable {c : ServiceConfig} {ps : Pipelines} {id : PipelineId} {p : PipelineConfig}

theorem parseId_eq_ok_iff {key : String} : parseId key = .ok id ↔ PipelineId.parse key = .ok id := by
  rw [parseId]
  cases PipelineId.parse key <;> simp [Except.mapError]

/-- Reads the ids of pipelines and enters the pipelines into a table. -/
def enter (t : Pipelines) (entries : List (String × PipelineConfig)) : Except GraphError Pipelines :=
  entries.foldlM (fun (t : Pipelines) e => do return t.insert (← parseId e.1) e.2) t

theorem enter_cons_eq_ok_iff {t : Pipelines} {e : String × PipelineConfig}
    {entries : List (String × PipelineConfig)} :
    enter t (e :: entries) = .ok ps ↔
      ∃ id, PipelineId.parse e.1 = .ok id ∧ enter (t.insert id e.2) entries = .ok ps := by
  rw [enter, List.foldlM_cons, bind_eq_ok_iff]
  constructor
  · rintro ⟨t', hStep, hRest⟩
    obtain ⟨id, hId, hInsert⟩ := bind_eq_ok_iff.mp hStep
    cases hInsert
    exact ⟨id, parseId_eq_ok_iff.mp hId, hRest⟩
  · rintro ⟨id, hId, hRest⟩
    exact ⟨_, bind_eq_ok_iff.mpr ⟨id, parseId_eq_ok_iff.mpr hId, rfl⟩, hRest⟩

theorem ascending_enter {t : Pipelines} {entries : List (String × PipelineConfig)}
    (h : enter t entries = .ok ps) (hTable : Table.Ascending t) : Table.Ascending ps := by
  induction entries generalizing t with
  | nil =>
      cases h
      exact hTable
  | cons e entries ih =>
      obtain ⟨id, -, hRest⟩ := enter_cons_eq_ok_iff.mp h
      exact ih hRest hTable.insert

/-- The table has, for each id, the last entry whose key is read as it. -/
theorem get?_enter {t : Pipelines} {entries : List (String × PipelineConfig)}
    (h : enter t entries = .ok ps) : Table.get? id ps =
      (((entries.filter fun e => PipelineId.parse e.1 = .ok id).getLast?).map Prod.snd).or
        (Table.get? id t) := by
  induction entries generalizing t with
  | nil =>
      cases h
      rfl
  | cons e entries ih =>
      obtain ⟨first, hFirst, hRest⟩ := enter_cons_eq_ok_iff.mp h
      rw [ih hRest]
      by_cases hId : id = first
      · subst hId
        rw [List.filter_cons_of_pos (by simpa using hFirst), Table.get?_insert_self, List.getLast?_cons]
        cases List.getLast? (entries.filter fun e => PipelineId.parse e.1 = .ok id) <;> rfl
      · have hNot : ¬ PipelineId.parse e.1 = .ok id := fun hSame =>
          hId (Except.ok.inj (hSame.symm.trans hFirst))
        rw [List.filter_cons_of_neg (by simpa using hNot), Table.get?_insert_of_ne hId]

theorem exists_parse_of_enter {t : Pipelines} {entries : List (String × PipelineConfig)}
    (h : enter t entries = .ok ps) : ∀ e ∈ entries, ∃ id, PipelineId.parse e.1 = .ok id := by
  induction entries generalizing t with
  | nil => exact List.forall_mem_nil _
  | cons e entries ih =>
      obtain ⟨id, hFirst, hRest⟩ := enter_cons_eq_ok_iff.mp h
      exact List.forall_mem_cons.mpr ⟨⟨id, hFirst⟩, ih hRest⟩

theorem enter_of_ofConfig (h : ofConfig c = .ok ps) : enter [] c.service.pipelines = .ok ps := by
  rw [ofConfig] at h
  split at h
  · cases h
  · exact h

theorem ascending_of_ofConfig (h : ofConfig c = .ok ps) : Table.Ascending ps :=
  ascending_enter (enter_of_ofConfig h) List.Pairwise.nil

theorem mem_iff_last? (h : ofConfig c = .ok ps) : (id, p) ∈ ps ↔ c.last? id = some p := by
  rw [(ascending_of_ofConfig h).mem_iff, get?_enter (enter_of_ofConfig h), ServiceConfig.last?]
  exact iff_of_eq (congrArg (· = some p) (Option.or_none))

theorem declares_of_mem (h : ofConfig c = .ok ps) (hMem : (id, p) ∈ ps) : c.Declares id p := by
  obtain ⟨e, hLast, rfl⟩ := Option.map_eq_some_iff.mp ((mem_iff_last? h).mp hMem)
  obtain ⟨hEntry, hParse⟩ := List.mem_filter.mp (List.mem_of_getLast? hLast)
  exact ⟨e.1, hEntry, of_decide_eq_true hParse⟩

/-- An id that some key is read as has a pipeline. -/
theorem exists_mem_of_parse (h : ofConfig c = .ok ps) {e : String × PipelineConfig}
    (hEntry : e ∈ c.service.pipelines) (hParse : PipelineId.parse e.1 = .ok id) :
    ∃ p, (id, p) ∈ ps := by
  have hMem : e ∈ c.service.pipelines.filter fun e => PipelineId.parse e.1 = .ok id :=
    List.mem_filter.mpr ⟨hEntry, decide_eq_true hParse⟩
  have hLast := List.getLast?_eq_some_getLast (List.ne_nil_of_mem hMem)
  exact ⟨_, (mem_iff_last? h).mpr (by rw [ServiceConfig.last?, hLast]; rfl)⟩

theorem mem_iff_declares (h : ofConfig c = .ok ps) (hDistinct : c.HasDistinctPipelines) :
    (id, p) ∈ ps ↔ c.Declares id p := by
  refine ⟨declares_of_mem h, fun ⟨key, hKey, hParse⟩ => ?_⟩
  obtain ⟨q, hMem⟩ := exists_mem_of_parse h hKey hParse
  obtain ⟨key', hKey', hParse'⟩ := declares_of_mem h hMem
  have hSame := List.inj_on_of_nodup_map hDistinct hKey' hKey (hParse'.trans hParse.symm)
  cases hSame
  exact hMem

end Pipelines

namespace Blueprint

variable {σ κ : Type} {b : Blueprint σ κ} {ps : Pipelines} {id : PipelineId} {p : PipelineConfig}

theorem validate_eq_ok_iff : b.validate = .ok ps ↔
    Pipelines.ofConfig b.config = .ok ps ∧ (∀ e ∈ ps, b.checkPipeline e.1 e.2 = .ok ()) ∧
      ∀ e ∈ b.config.connectors, b.checkConnector ps e.1 = .ok () := by
  rw [validate, bind_eq_ok_iff]
  constructor
  · rintro ⟨ps', hPipelines, h⟩
    obtain ⟨⟨⟩, hChecks, h⟩ := bind_eq_ok_iff.mp h
    obtain ⟨⟨⟩, hConnectors, h⟩ := bind_eq_ok_iff.mp h
    cases h
    exact ⟨hPipelines, forM_eq_ok_iff.mp hChecks, forM_eq_ok_iff.mp hConnectors⟩
  · rintro ⟨hPipelines, hChecks, hConnectors⟩
    exact ⟨ps, hPipelines, bind_eq_ok_iff.mpr ⟨(), forM_eq_ok_iff.mpr hChecks,
      bind_eq_ok_iff.mpr ⟨(), forM_eq_ok_iff.mpr hConnectors, rfl⟩⟩⟩

theorem nodup_of_checkProcessors {seen ids : List ComponentId}
    (h : b.checkProcessors id seen ids = .ok ()) : ids.Nodup ∧ ∀ a ∈ ids, a ∉ seen := by
  induction ids generalizing seen with
  | nil => exact ⟨List.nodup_nil, fun a ha => absurd ha List.not_mem_nil⟩
  | cons a ids ih =>
      rw [checkProcessors] at h
      split at h
      · cases h
      split at h
      · cases h
      rename_i hNew
      split at h
      · cases h
      obtain ⟨hNodup, hApart⟩ := ih h
      refine ⟨List.nodup_cons.mpr ⟨fun ha => hApart a ha List.mem_cons_self, hNodup⟩, ?_⟩
      rw [List.forall_mem_cons]
      exact ⟨fun ha => hNew (List.contains_iff_mem.mpr ha),
        fun c hc hSeen => hApart c hc (List.mem_cons_of_mem _ hSeen)⟩

theorem nodup_processors (hValid : b.validate = .ok ps) (hMem : (id, p) ∈ ps) :
    p.processors.Nodup := by
  have hCheck := (validate_eq_ok_iff.mp hValid).2.1 _ hMem
  rw [checkPipeline] at hCheck
  split at hCheck
  · cases hCheck
  simp only at hCheck
  split at hCheck
  · cases hCheck
  obtain ⟨⟨⟩, -, hCheck⟩ := bind_eq_ok_iff.mp hCheck
  obtain ⟨⟨⟩, hProcessors, -⟩ := bind_eq_ok_iff.mp hCheck
  exact (nodup_of_checkProcessors hProcessors).1

end Blueprint

end Telemetry

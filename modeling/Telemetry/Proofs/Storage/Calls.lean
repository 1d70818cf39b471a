import Telemetry.Proofs.Storage.Growth
import Telemetry.Proofs.Storage.Isolation

/-!
# Calls on a storage

A storage is called for clients, and its clients, by their numbers, for the values of keys. What is
called in some order has answers and leaves a vault. No call changes what a client reads for a key,
unless it gives this client up or is about the same key of the same namespace.
-/

namespace Telemetry.Storage

open Text (Bytes)

/-- What a client is called for. -/
inductive Request
  | batch (ops : List Operation)
  | get (key : String)
  | set (key : String) (value : Bytes)
  | delete (key : String)

/-- A call on a storage or on one of its clients. -/
inductive Call
  | getClient (kind : Kind) (owner : ComponentId) (purpose : String)
  | use (n : Nat) (request : Request)
  | close (n : Nat)

/-- The answer to a call. A client that was opened goes by its number. -/
inductive Answer
  | opened (outcome : Except StorageError Nat)
  | batch (reply : Reply)
  | value (outcome : Except StorageError (Option Bytes))
  | done (outcome : Except StorageError Unit)

/-- Whether the answer is that the file system refused something. -/
def Answer.Faulty : Answer → Prop
  | opened outcome => ∃ cause, outcome = .error (.io cause)
  | batch reply => ∃ cause, reply.outcome = .error (.io cause)
  | value outcome => ∃ cause, outcome = .error (.io cause)
  | done outcome => ∃ cause, outcome = .error (.io cause)

namespace Request

/-- Asks a client. Reading, writing and removing one key are programs of accesses. -/
def run (n : Nat) (v : Vault) : Request → Answer × Vault
  | batch ops =>
    let (reply, v) := v.batch n ops
    (.batch reply, v)
  | get key =>
    let (outcome, v) := (Access.get key).run (Vault.client n) v
    (.value outcome, v)
  | set key value =>
    let (outcome, v) := (Access.set key value).run (Vault.client n) v
    (.done outcome, v)
  | delete key =>
    let (outcome, v) := (Access.delete key).run (Vault.client n) v
    (.done outcome, v)

/-- The batch that carries a request out. -/
def ops : Request → List Operation
  | batch ops => ops
  | get key => [.get key]
  | set key value => [.set key value]
  | delete key => [.delete key]

/-- What is answered, once the batch was. -/
def answer (reply : Reply) : Request → Answer
  | batch _ => .batch reply
  | get _ => .value (reply.outcome.map fun _ => reply.reads.head?.join)
  | set _ _ | delete _ => .done (reply.outcome.map fun _ => ())

/-- Every request is one batch. -/
theorem run_eq (r : Request) (n : Nat) (v : Vault) :
    r.run n v = (r.answer (v.batch n r.ops).1, (v.batch n r.ops).2) := by
  rcases hBatch : v.batch n r.ops with ⟨⟨outcome, reads⟩, w⟩
  cases r with
  | batch ops =>
      rw [Request.ops] at hBatch
      rw [run, hBatch]
      rfl
  | get key | set key value | delete key =>
      rw [Request.ops] at hBatch
      simp only [run, Access.get, Access.set, Access.delete, Access.run_batch, Access.run_done,
        Vault.client, hBatch, answer]
      cases outcome <;> rfl

theorem faulty_answer_iff (r : Request) (reply : Reply) :
    (r.answer reply).Faulty ↔ ∃ cause, reply.outcome = .error (.io cause) := by
  obtain ⟨outcome, reads⟩ := reply
  cases r <;> cases outcome <;> simp [answer, Answer.Faulty, Except.map]

end Request

namespace Call

/-- The namespace that a client is called for. -/
def space? : Call → Option String
  | getClient kind owner purpose => some (clientNamespace kind owner purpose)
  | _ => none

/-- The keys that a call addresses. -/
def keys : Call → List String
  | use _ r => r.ops.map Operation.key
  | _ => []

/-- Carries out a call on a storage. -/
def run (x : Provider) (v : Vault) : Call → Answer × Vault
  | getClient kind owner purpose =>
    let (outcome, v) := x.openClient (clientNamespace kind owner purpose) v
    (.opened outcome, v)
  | use n r => r.run n v
  | close n => (.done (.ok ()), v.close n)

/-- Carries out calls in order. -/
def runAll (x : Provider) : List Call → Vault → List Answer × Vault
  | [], v => ([], v)
  | call :: rest, v =>
    let (a, v) := call.run x v
    let (answers, v) := runAll x rest v
    (a :: answers, v)

/-- The answers to calls. -/
def answers (x : Provider) (calls : List Call) (v : Vault) : List Answer := (runAll x calls v).1

/-- The vault that calls leave. -/
def left (x : Provider) (calls : List Call) (v : Vault) : Vault := (runAll x calls v).2

variable {x : Provider} {call : Call} {rest : List Call} {v : Vault}

theorem answers_cons :
    answers x (call :: rest) v = (call.run x v).1 :: answers x rest (call.run x v).2 := rfl

theorem length_space (call : Call) {space : String} (h : call.space? = some space) :
    2 < space.toList.length := by
  cases call with
  | getClient kind owner purpose =>
      obtain rfl : clientNamespace kind owner purpose = space := Option.some.inj h
      have hKind : 2 < kind.text.toList.length := by cases kind <;> decide
      simp only [clientNamespace, String.toList_append, List.length_append]
      omega
  | use n r => cases h
  | close n => cases h

end Call

namespace Provider

/-- A client tells under which name its namespace is kept. -/
theorem keptText_of_clientOf (x : Provider) {space other : String} {closed closed' : Bool}
    (h : x.clientOf space closed = x.clientOf other closed') : x.keptText space = x.keptText other := by
  cases x with
  | memory store =>
      injection h with _ hClient
      exact congrArg MemoryClient.space hClient
  | files s =>
      injection h with hClient
      exact List.singleton_inj.mp (List.append_cancel_left (congrArg FileClient.directory hClient))

/-- What a storage needs of a vault to serve a namespace that a client was opened for. -/
def Serves : Provider → Vault → String → Prop
  | memory _, _, _ => True
  | files s, v, space => FileStorage.Housed s v.files space

theorem Serves.of_keptText {x : Provider} {v : Vault} {space other : String} (h : x.Serves v space)
    (hSame : x.keptText space = x.keptText other) : x.Serves v other := by
  cases x with
  | memory store => trivial
  | files s => exact FileStorage.Housed.of_directoryName h hSame

end Provider

namespace Vault

/-- All clients of a vault were opened by one storage, for these namespaces in this order, and some
were given up. -/
structure Given (x : Provider) (opened : List (String × Bool)) (v : Vault) : Prop where
  clients : v.clients = opened.map fun o => x.clientOf o.1 o.2
  serves : ∀ o ∈ opened, x.Serves v o.1

variable {x : Provider} {opened : List (String × Bool)} {v w : Vault} {n m : Nat} {space : String}
  {key : String}

section Histories

theorem keepsDirectories_batch (v : Vault) (n : Nat) (ops : List Operation) :
    v.files.KeepsDirectories (v.batch n ops).2.files := by
  rw [batch]
  split
  · exact .refl _
  · exact .refl _
  · next c _ => exact c.keepsDirectories_batch ops v.files

theorem files_openFiles (v : Vault) (s : FileStorageSettings) (space : String) :
    (v.openFiles s space).2.files = (FileStorage.openClient s space v.files).2 := by
  rw [openFiles]
  rcases FileStorage.openClient s space v.files with ⟨e | c, fs⟩ <;> rfl

theorem Given.mono (h : Given x opened v) (hClients : w.clients = v.clients)
    (hFiles : v.files.KeepsDirectories w.files) : Given x opened w := by
  refine ⟨hClients.trans h.clients, fun o hMem => ?_⟩
  have hServes := h.serves o hMem
  cases x with
  | memory store => trivial
  | files s => exact FileStorage.Housed.mono hServes hFiles

theorem given_nil (x : Provider) (hNone : v.clients = []) : Given x [] v :=
  ⟨hNone, fun o hMem => absurd hMem (by simp)⟩

theorem Given.getElem?_clients (h : Given x opened v) (n : Nat) :
    v.clients[n]? = opened[n]?.map fun o => x.clientOf o.1 o.2 := by
  rw [h.clients, List.getElem?_map]

/-- A client is of a namespace that the storage serves. -/
theorem Given.serves_of_client (h : Given x opened v) {closed : Bool}
    (hClient : v.clients[n]? = some (x.clientOf space closed)) : x.Serves v space := by
  rw [h.getElem?_clients, Option.map_eq_some_iff] at hClient
  obtain ⟨o, hAt, hSame⟩ := hClient
  exact (h.serves o (List.mem_of_getElem? hAt)).of_keptText (x.keptText_of_clientOf hSame)

/-- The clients there are once a call was answered. -/
def grant (opened : List (String × Bool)) : Call → Answer → List (String × Bool)
  | .getClient kind owner purpose, .opened (.ok _) =>
    opened ++ [(clientNamespace kind owner purpose, false)]
  | .close n, _ => opened.modify n fun o => (o.1, true)
  | _, _ => opened

/-- No client is of a namespace that was not called for. -/
theorem spaces_of_grant {call : Call} {answer : Answer} {o : String × Bool}
    (h : o ∈ grant opened call answer) : (∃ o' ∈ opened, o'.1 = o.1) ∨ call.space? = some o.1 := by
  cases call with
  | getClient kind owner purpose =>
      rcases answer with (_ | _) | _ | _ | _ <;> try exact .inl ⟨o, h, rfl⟩
      rcases List.mem_append.mp h with hOld | hNew
      · exact .inl ⟨o, hOld, rfl⟩
      · exact .inr (congrArg some (congrArg Prod.fst (List.mem_singleton.mp hNew)).symm)
  | use n r => exact .inl ⟨o, h, rfl⟩
  | close n =>
      obtain ⟨i, hAt⟩ := List.mem_iff_getElem?.mp h
      rw [grant, List.getElem?_modify, Option.map_eq_map, Option.map_eq_some_iff] at hAt
      obtain ⟨o', hAt, rfl⟩ := hAt
      refine .inl ⟨o', List.mem_of_getElem? hAt, ?_⟩
      split <;> rfl

theorem among_of_grant {spaces : List String} (h : ∀ o ∈ opened, o.1 ∈ spaces) {call : Call}
    (hSpace : ∀ space, call.space? = some space → space ∈ spaces) (answer : Answer) :
    ∀ o ∈ grant opened call answer, o.1 ∈ spaces := by
  intro o hMem
  rcases spaces_of_grant hMem with ⟨o', hOld, hSame⟩ | hNew
  · exact hSame ▸ h o' hOld
  · exact hSpace o.1 hNew

theorem Given.openClient (h : Given x opened v) (hLong : 2 < space.toList.length) :
    match x.openClient space v with
    | (.ok n, w) => n = v.clients.length ∧ Given x (opened ++ [(space, false)]) w
    | (.error _, w) => Given x opened w := by
  cases x with
  | memory store =>
      refine ⟨rfl, ?_, fun o _ => trivial⟩
      change v.clients ++ [.memory store (.ofSpace space)] = _
      rw [h.clients, List.map_append]
      rfl
  | files s =>
      have hGrown := (FileStorage.grown_openClient s space v.files).keepsDirectories
      rw [Provider.openClient, openFiles]
      rcases hOpen : FileStorage.openClient s space v.files with ⟨e | c, fs⟩
      · rw [hOpen] at hGrown
        exact h.mono rfl hGrown
      · rw [hOpen] at hGrown
        obtain rfl := FileStorage.directory_of_openClient hLong hOpen
        refine ⟨rfl, ?_, fun o hMem => ?_⟩
        · change v.clients ++ [_] = _
          rw [h.clients, List.map_append]
          rfl
        · rcases List.mem_append.mp hMem with hOld | hNew
          · exact FileStorage.Housed.mono (h.serves o hOld) hGrown
          · obtain rfl := List.mem_singleton.mp hNew
            exact FileStorage.housed_of_openClient hLong hOpen

/-- Each call keeps account of the clients. -/
theorem Given.step (h : Given x opened v) (call : Call) :
    Given x (grant opened call (call.run x v).1) (call.run x v).2 := by
  cases call with
  | getClient kind owner purpose =>
      have hOpen := h.openClient (Call.length_space (.getClient kind owner purpose) rfl)
      rw [Call.run]
      rcases hResult : x.openClient (clientNamespace kind owner purpose) v with ⟨e | n, w⟩
      · rw [hResult] at hOpen
        exact hOpen
      · rw [hResult] at hOpen
        exact hOpen.2
  | use n r =>
      rw [Call.run, r.run_eq]
      exact h.mono (clients_batch v n r.ops) (keepsDirectories_batch v n r.ops)
  | close n =>
      refine ⟨List.ext_getElem? fun m => ?_, fun o hMem => ?_⟩
      · change (v.close n).clients[m]? = _
        rw [getElem?_close, h.getElem?_clients, grant, List.getElem?_map, List.getElem?_modify]
        rcases opened[m]? with _ | o
        · rfl
        · by_cases hSame : n = m
          · cases x <;> simp [hSame, closedClient, Provider.clientOf]
          · simp [hSame]
      · obtain ⟨o', hOld, hSpace⟩ := (spaces_of_grant hMem).resolve_right (by simp [Call.space?])
        have hServes := h.serves o' hOld
        rw [hSpace] at hServes
        cases x <;> exact hServes

theorem Given.exists_left (h : Given x opened v) (calls : List Call) :
    ∃ opened', Given x opened' (Call.left x calls v) := by
  induction calls generalizing opened v with
  | nil => exact ⟨opened, h⟩
  | cons call rest ih => exact ih (h.step call)

end Histories

section Isolation

/-- What a client reads for a key. -/
def read (n : Nat) (key : String) (v : Vault) : Except StorageError (Option Bytes) :=
  ((Access.get key).run (client n) v).1

theorem read_congr (h : (v.batch m [.get key]).1 = (w.batch m [.get key]).1) :
    read m key v = read m key w := by
  change (Except.map _ (Except.map (fun _ => (v.batch m [.get key]).1.reads)
    (v.batch m [.get key]).1.outcome)) = _
  rw [h]
  rfl

/-- A client whose number and closing are the same reads what it depends on. -/
theorem read_eq_of_sees {k : VaultClient} (hV : v.clients[m]? = some k) (hW : w.clients[m]? = some k)
    (h : k.Sees v w) : read m key v = read m key w :=
  read_congr (batch_own hV hW h [.get key]).1

end Isolation

end Vault

/-- Opening a client changes nothing that a client depends on whose directory is there. -/
theorem FileStorage.Housed.agree_openClient {s : FileStorageSettings} {fs : FileSystem}
    {space other : String} (h : Housed s fs space) (closed : Bool) (hLong : 2 < other.toList.length) :
    FileSystem.Agree (FileClient.Sees ⟨home s space, closed⟩) fs (openClient s other fs).2 := by
  intro p hSees
  rcases h.founded.openClient_cases hLong with hSame | ⟨hNone, hMade⟩
  · rw [hSame]
  · rw [hMade]
    refine (FileSystem.entryAt?_insert_of_ne fs (ne_home_of_sees ?_ hSees) _).symm
    intro hName
    rw [home, ← hName] at hNone
    exact absurd (hNone.symm.trans h.standing.there) (by simp)

namespace FileClient

variable {c c' : FileClient} {fs : FileSystem} {ops : List Operation} {key : String}

/-- The places of the keys that a batch addresses, and of their temporary files. -/
def Touches (c : FileClient) (ops : List Operation) (p : Place) : Prop :=
  ∃ op ∈ ops, p = c.place op.key ∨ p = c.temporaryPlace op.key

theorem within_touches : ∀ a ∈ ops.flatMap c.actions, a.Within (c.Touches ops) := by
  intro a hMem
  obtain ⟨op, hOp, hAction⟩ := List.mem_flatMap.mp hMem
  have hPlace : c.Touches ops (c.place op.key) := ⟨op, hOp, .inl rfl⟩
  have hTemporary : c.Touches ops (c.temporaryPlace op.key) := ⟨op, hOp, .inr rfl⟩
  cases op with
  | get key =>
      obtain rfl := List.mem_singleton.mp hAction
      exact hPlace
  | set key value =>
      rcases List.mem_cons.mp hAction with rfl | hRename
      · exact hTemporary
      · obtain rfl := List.mem_singleton.mp hRename
        exact ⟨hTemporary, hPlace⟩
  | delete key =>
      obtain rfl := List.mem_singleton.mp hAction
      exact hPlace

/-- On the way to a key there is the directory, and else nothing that a batch about other keys
touches. -/
theorem eq_directory_of_touches (hOther : key ∉ ops.map Operation.key) {p : Place}
    (hWay : p <+: c.place key) (hTouched : c.Touches ops p) : p = c.directory := by
  -- A file of the directory on this way is that of the key.
  have hAt : ∀ name, p = c.directory ++ [name] → name = fileName key := by
    rintro name rfl
    by_cases hKey : key = ""
    · rw [hKey, place_empty] at hWay
      exact absurd hWay.length_le (by simp)
    · rw [place_of_ne hKey] at hWay
      have hEq := hWay.eq_of_length (by simp)
      exact List.singleton_inj.mp (List.append_cancel_left hEq)
  obtain ⟨op, hOp, hFile | hTemporary⟩ := hTouched
  · by_cases hEmpty : op.key = ""
    · rw [hFile, hEmpty, place_empty]
    · rw [place_of_ne hEmpty] at hFile
      exact absurd (List.mem_map.mpr ⟨op, hOp, fileName_injective (hAt _ hFile)⟩) hOther
  · exact absurd (hAt _ hTemporary).symm (fileName_ne_temporary key op.key)

/-- A batch about other keys leaves what is read for a key in the same directory. -/
theorem get_batch_of_not_mem (hSame : c'.directory = c.directory) (hStanding : fs.Standing c.directory)
    (hOther : key ∉ ops.map Operation.key) :
    (c'.batch [.get key] (c.batch ops fs).2).1 = (c'.batch [.get key] fs).1 := by
  have hPlace : c'.place key = c.place key := by rw [place, place, hSame]
  have hAgree : FileSystem.Agree (fun p => p <+: c.place key) (c.batch ops fs).2 fs := by
    intro p hWay
    by_cases hTouched : c.Touches ops p
    · rw [eq_directory_of_touches hOther hWay hTouched, hStanding.there]
      exact c.keepsDirectories_batch ops fs _ hStanding.there
    · rw [batch]
      split
      · rfl
      · exact entryAt?_perform within_touches fs hTouched
  have hWithin : ∀ a ∈ [Operation.get key].flatMap c'.actions,
      a.Within fun p => p <+: c.place key := by
    intro a hMem
    obtain rfl := List.mem_singleton.mp hMem
    have hHere : c.place key <+: c.place key := List.prefix_rfl
    exact hPlace ▸ hHere
  obtain ⟨hOutcome, hReads, -⟩ :=
    perform_agree (fun p q hPrefix hp => hPrefix.trans hp) hWithin hAgree
  generalize (c.batch ops fs).2 = fs' at hOutcome hReads ⊢
  rw [batch, batch]
  split
  · rfl
  · dsimp only
    rw [hOutcome, hReads]

end FileClient

/-- Steps about other keys leave the value of a key. -/
theorem Space.get?_run_of_not_mem (s : Space) {ops : List Operation} {key : String}
    (hOther : key ∉ ops.map Operation.key) : (s.run ops).2.get? key = s.get? key := by
  induction ops generalizing s with
  | nil => rfl
  | cons op rest ih =>
      obtain ⟨hNe, hRest⟩ := not_or.mp fun hMem => hOther (List.mem_cons.mpr hMem)
      cases op with
      | get other => exact ih s hRest
      | set other value =>
          rw [run_set, ih _ hRest, get?_insert]
          exact if_neg hNe
      | delete other =>
          rw [run_delete, ih _ hRest, get?_erase]
          exact if_neg hNe

namespace MemoryClient

variable {c c' : MemoryClient} {m : MemoryStore} {ops : List Operation} {key : String}

theorem batch_get (c : MemoryClient) (key : String) (m : MemoryStore) :
    (c.batch [.get key] m).1 =
      if c.closed then .failed .closed [.get key] else ⟨.ok (), [(m.space c.space).get? key]⟩ := by
  rw [batch]
  split <;> rfl

/-- A batch about other keys leaves what is read for a key in the same namespace. -/
theorem get_batch_of_not_mem (hSame : c'.space = c.space) (hOther : key ∉ ops.map Operation.key) :
    (c'.batch [.get key] (c.batch ops m).2).1 = (c'.batch [.get key] m).1 := by
  have hValue : ((c.batch ops m).2.space c'.space).get? key = (m.space c'.space).get? key := by
    rw [batch]
    split
    · rfl
    · exact (congrArg (Table.get? key) ((space_insert m c.space _ _).trans (if_pos hSame))).trans
        (hSame ▸ Space.get?_run_of_not_mem _ hOther)
  rw [batch_get, batch_get, hValue]

end MemoryClient

namespace Vault

variable {x : Provider} {opened : List (String × Bool)} {v : Vault} {n m : Nat} {space : String}
  {key : String}

section Isolation

/-- A client that is clear of another reads what it read before a batch of that one. -/
theorem read_batch_of_clear {k j : VaultClient} (hN : v.clients[n]? = some j)
    (hM : v.clients[m]? = some k) (hClear : k.Clear j) (ops : List Operation) :
    read m key (v.batch n ops).2 = read m key v :=
  read_eq_of_sees ((congrArg (·[m]?) (clients_batch v n ops)).trans hM) hM
    (batch_other hN hClear (.refl k v) ops)

/-- A batch about other keys leaves what a client of the same namespace reads for a key. -/
theorem read_batch_of_not_mem {other : String} {closed closed' : Bool} {ops : List Operation}
    (hN : v.clients[n]? = some (x.clientOf other closed))
    (hM : v.clients[m]? = some (x.clientOf space closed'))
    (hSame : x.keptText space = x.keptText other) (hServes : x.Serves v other)
    (hOther : key ∉ ops.map Operation.key) : read m key (v.batch n ops).2 = read m key v := by
  have hLater : (v.batch n ops).2.clients[m]? = some (x.clientOf space closed') :=
    (congrArg (·[m]?) (clients_batch v n ops)).trans hM
  refine read_congr ?_
  cases x with
  | memory store =>
      rw [batch_memory hLater, batch_memory hM]
      rw [batch_memory hN]
      dsimp only
      rw [memory_set]
      split
      · exact MemoryClient.get_batch_of_not_mem hSame hOther
      · rfl
  | files s =>
      rw [batch_files hLater, batch_files hM, batch_files hN]
      exact FileClient.get_batch_of_not_mem (congrArg (fun name => FileStorage.root s ++ [name]) hSame)
        (FileStorage.Housed.standing hServes) hOther

end Isolation

end Vault

namespace Call

/-- A call that neither gives a client up nor is about the key of its namespace. -/
def Spares (x : Provider) (v : Vault) (m : Nat) (space key : String) : Call → Prop
  | getClient _ _ _ => True
  | use n r => key ∉ r.ops.map Operation.key ∨
      ∃ other, v.Keeps x other n ∧ x.keptText other ≠ x.keptText space
  | close n => n ≠ m

/-- No client that was opened before reads anything else after a call that spares what it reads. -/
def Isolated (x : Provider) (call : Call) (v : Vault) : Prop :=
  ∀ m space key, v.Keeps x space m → call.Spares x v m space key →
    Vault.read m key (call.run x v).2 = Vault.read m key v

variable {x : Provider} {opened : List (String × Bool)} {v : Vault}

theorem isolated_use (h : v.Given x opened) (n : Nat) (r : Request) : (use n r).Isolated x v := by
  rintro m space key ⟨hVault, closed, hM⟩ hSpares
  rw [run, r.run_eq]
  change Vault.read m key (v.batch n r.ops).2 = _
  cases hN : v.clients[n]? with
  | none => rw [Vault.batch, hN]
  | some k =>
      obtain ⟨o, rfl⟩ : ∃ o : String × Bool, k = x.clientOf o.1 o.2 := by
        rw [h.getElem?_clients, Option.map_eq_some_iff] at hN
        obtain ⟨o, -, rfl⟩ := hN
        exact ⟨o, rfl⟩
      by_cases hSame : x.keptText space = x.keptText o.1
      · refine Vault.read_batch_of_not_mem hN hM hSame (h.serves_of_client hN) ?_
        refine hSpares.resolve_right ?_
        rintro ⟨other, ⟨-, closed', hOther⟩, hNe⟩
        have hKept := x.keptText_of_clientOf (Option.some.inj (hN.symm.trans hOther))
        exact hNe (hKept.symm.trans hSame.symm)
      · exact Vault.read_batch_of_clear hN hM (x.clear_of_keptText_ne hSame) r.ops

theorem isolated_getClient (h : v.Given x opened) (kind : Kind) (owner : ComponentId)
    (purpose : String) : (getClient kind owner purpose).Isolated x v := by
  rintro m space key ⟨hVault, closed, hM⟩ -
  have hLong := length_space (getClient kind owner purpose) rfl
  generalize hOther : clientNamespace kind owner purpose = other at hLong
  rw [run, hOther]
  change Vault.read m key (x.openClient other v).2 = _
  obtain ⟨more, hMore⟩ : ∃ more, (x.openClient other v).2.clients = v.clients ++ more := by
    cases x with
    | memory store => exact ⟨[_], rfl⟩
    | files s => exact (Vault.clients_openFiles v s other).2
  refine Vault.read_eq_of_sees ?_ hM ?_
  · rw [hMore, List.getElem?_append_left (List.getElem?_eq_some_iff.mp hM).1, hM]
  · cases x with
    | memory store => exact ⟨rfl, rfl⟩
    | files s =>
        have hAgree := FileStorage.Housed.agree_openClient (h.serves_of_client hM) closed hLong
        rw [← Vault.files_openFiles] at hAgree
        exact fun p hSees => (hAgree p hSees).symm

theorem isolated_close (n : Nat) : (close n).Isolated x v := by
  rintro m space key ⟨hVault, closed, hM⟩ hNe
  refine Vault.read_eq_of_sees ?_ hM ?_
  · exact (Vault.getElem?_close v n m).trans (by rw [hM, Option.map_some, if_neg hNe])
  · cases x with
    | memory store => exact ⟨rfl, rfl⟩
    | files s => exact FileSystem.Agree.refl _ _

theorem isolated_of_given (h : v.Given x opened) (call : Call) : call.Isolated x v := by
  cases call with
  | getClient kind owner purpose => exact isolated_getClient h kind owner purpose
  | use n r => exact isolated_use h n r
  | close n => exact isolated_close n

/-- Whatever was called, the next call is isolated, if no client was there before. -/
theorem isolated_left (hNone : v.clients = []) (calls : List Call) (call : Call) :
    call.Isolated x (left x calls v) := by
  obtain ⟨opened, hGiven⟩ := (Vault.given_nil x hNone).exists_left calls
  exact isolated_of_given hGiven call

end Call

end Telemetry.Storage

import Telemetry.Proofs.Storage.Footprints

/-!
# Clients that do not interfere

Whatever happened since two clients were given out by one storage, a store in memory or a storage in
files, they are apart if their namespaces differ, or the directories of these, and share every value if
they do not. Namespaces of different components can be the same.
-/

namespace Telemetry.Storage

open Text (Bytes)

namespace VaultClient

/-- Whether a client was given up. -/
def closed : VaultClient → Bool
  | memory _ c => c.closed
  | files c => c.closed

/-- What a client depends on is alike in two vaults. -/
def Sees : VaultClient → Vault → Vault → Prop
  | memory store c, v, w =>
    v.memories.length = w.memories.length ∧
      (v.memory store).space c.space = (w.memory store).space c.space
  | files c, v, w => FileSystem.Agree c.Sees v.files w.files

/-- A client depends on nothing that the other changes. -/
def Clear : VaultClient → VaultClient → Prop
  | memory store c, memory store' c' => store ≠ store' ∨ c.space ≠ c'.space
  | files c, files c' => ∀ p, c.Sees p → ¬c'.Owns p
  | _, _ => True

theorem Sees.refl (k : VaultClient) (v : Vault) : k.Sees v v := by
  cases k with
  | memory store c => exact ⟨rfl, rfl⟩
  | files c => exact FileSystem.Agree.refl _ _

theorem not_clear_self (k : VaultClient) : ¬k.Clear k := by
  cases k with
  | memory store c => exact fun h => h.elim (fun hNe => hNe rfl) fun hNe => hNe rfl
  | files c => exact fun h => h c.directory (.inl List.prefix_rfl) (.inl rfl)

theorem clear_closed {k j : VaultClient} (h : k.Clear j) :
    (Vault.closedClient k).Clear j ∧ k.Clear (Vault.closedClient j) := by
  cases k <;> cases j <;> exact ⟨h, h⟩

end VaultClient

namespace Vault

variable {v w : Vault} {n m : Nat} {k j : VaultClient}

theorem batch_memory {store : Nat} {c : MemoryClient} (h : v.clients[n]? = some (.memory store c))
    (ops : List Operation) : v.batch n ops = ((c.batch ops (v.memory store)).1,
      { v with memories := v.memories.set store (c.batch ops (v.memory store)).2 }) := by
  rw [batch, h]

theorem batch_files {c : FileClient} (h : v.clients[n]? = some (.files c)) (ops : List Operation) :
    v.batch n ops = ((c.batch ops v.files).1, { v with files := (c.batch ops v.files).2 }) := by
  rw [batch, h]

theorem clients_batch (v : Vault) (n : Nat) (ops : List Operation) :
    (v.batch n ops).2.clients = v.clients := by
  rw [batch]
  split <;> rfl

theorem length_memories_batch (v : Vault) (n : Nat) (ops : List Operation) :
    (v.batch n ops).2.memories.length = v.memories.length := by
  rw [batch]
  split
  · rfl
  · exact List.length_set
  · rfl

theorem memory_set (v : Vault) (store : Nat) (m : MemoryStore) (other : Nat) :
    Vault.memory { v with memories := v.memories.set store m } other =
      if store = other ∧ store < v.memories.length then m else v.memory other := by
  rw [memory, memory, List.getD_eq_getElem?_getD, List.getD_eq_getElem?_getD, List.getElem?_set]
  by_cases hSame : store = other
  · subst hSame
    by_cases hMade : store < v.memories.length
    · simp [hMade]
    · simp [hMade]
  · simp [hSame]

theorem getElem?_close (v : Vault) (n m : Nat) :
    (v.close n).clients[m]? = (v.clients[m]?).map fun k => if n = m then closedClient k else k := by
  rw [close, List.getElem?_modify]
  rcases v.clients[m]? with _ | k
  · rfl
  · split <;> rfl

/-- A batch does the same where what its client depends on is alike. -/
theorem batch_own (hV : v.clients[n]? = some k) (hW : w.clients[n]? = some k) (h : k.Sees v w)
    (ops : List Operation) :
    (v.batch n ops).1 = (w.batch n ops).1 ∧ k.Sees (v.batch n ops).2 (w.batch n ops).2 := by
  cases k with
  | memory store c =>
      obtain ⟨hLength, hSpace⟩ := h
      obtain ⟨hReply, hLast⟩ := MemoryClient.batch_agree ops hSpace
      rw [batch_memory hV, batch_memory hW]
      refine ⟨hReply, by simpa using hLength, ?_⟩
      rw [memory_set, memory_set, ← hLength]
      split
      · exact hLast
      · exact hSpace
  | files c =>
      obtain ⟨hReply, hLast⟩ := c.batch_agree ops h
      rw [batch_files hV, batch_files hW]
      exact ⟨hReply, hLast⟩

/-- A batch leaves what the clients depend on that are clear of its own. -/
theorem batch_other (hM : v.clients[m]? = some j) (hClear : k.Clear j) (h : k.Sees v w)
    (ops : List Operation) : k.Sees (v.batch m ops).2 w := by
  cases j with
  | memory store' c' =>
      rw [batch_memory hM]
      cases k with
      | memory store c =>
          obtain ⟨hLength, hSpace⟩ := h
          refine ⟨by simpa using hLength, ?_⟩
          rw [memory_set, ← hSpace]
          split
          · next hSame =>
              rw [hSame.1]
              exact MemoryClient.space_batch ops _
                (hClear.resolve_left fun hNe => hNe hSame.1.symm)
          · rfl
      | files c => exact h
  | files c' =>
      rw [batch_files hM]
      cases k with
      | memory store c => exact h
      | files c => exact fun p hp => (c'.entryAt?_batch ops v.files (hClear p hp)).trans (h p hp)

/-- One client has all it depends on alike in two vaults, and is clear of another in the first. -/
def Related (n m : Nat) (v w : Vault) : Prop :=
  ∃ k j, v.clients[n]? = some k ∧ w.clients[n]? = some k ∧ v.clients[m]? = some j ∧
    k.Clear j ∧ k.Sees v w

theorem Related.own (h : Related n m v w) (u : Use) :
    ((client n).use u v).1 = ((client n).use u w).1 ∧
      Related n m ((client n).use u v).2 ((client n).use u w).2 := by
  obtain ⟨k, j, hV, hW, hM, hClear, hSees⟩ := h
  cases u with
  | batch ops =>
      obtain ⟨hReply, hLast⟩ := batch_own hV hW hSees ops
      refine ⟨congrArg some hReply, k, j, ?_, ?_, ?_, hClear, hLast⟩
      · exact (congrArg (·[n]?) (clients_batch v n ops)).trans hV
      · exact (congrArg (·[n]?) (clients_batch w n ops)).trans hW
      · exact (congrArg (·[m]?) (clients_batch v n ops)).trans hM
  | close =>
      have hNe : n ≠ m := by
        rintro rfl
        exact k.not_clear_self (Option.some.inj (hV.symm.trans hM) ▸ hClear)
      refine ⟨rfl, closedClient k, j, ?_, ?_, ?_, (VaultClient.clear_closed hClear).1, ?_⟩
      · exact (getElem?_close v n n).trans (by rw [hV, Option.map_some, if_pos rfl])
      · exact (getElem?_close w n n).trans (by rw [hW, Option.map_some, if_pos rfl])
      · exact (getElem?_close v n m).trans (by rw [hM, Option.map_some, if_neg hNe])
      · cases k <;> exact hSees

theorem Related.other (h : Related n m v w) (u : Use) : Related n m ((client m).use u v).2 w := by
  obtain ⟨k, j, hV, hW, hM, hClear, hSees⟩ := h
  cases u with
  | batch ops =>
      refine ⟨k, j, ?_, hW, ?_, hClear, batch_other hM hClear hSees ops⟩
      · exact (congrArg (·[n]?) (clients_batch v m ops)).trans hV
      · exact (congrArg (·[m]?) (clients_batch v m ops)).trans hM
  | close =>
      have hNe : m ≠ n := by
        rintro rfl
        exact k.not_clear_self (Option.some.inj (hV.symm.trans hM) ▸ hClear)
      refine ⟨k, closedClient j, ?_, hW, ?_, (VaultClient.clear_closed hClear).2, ?_⟩
      · exact (getElem?_close v m n).trans (by rw [hV, Option.map_some, if_neg hNe])
      · exact (getElem?_close v m m).trans (by rw [hM, Option.map_some, if_pos rfl])
      · cases k <;> exact hSees

theorem undisturbed_of_clear (hN : v.clients[n]? = some k) (hM : v.clients[m]? = some j)
    (hClear : k.Clear j) : (client n).Undisturbed (client m) v :=
  Client.undisturbed_of_related (fun h u => (Related.own h u).1) (fun h u => (Related.own h u).2)
    (fun h u => Related.other h u) ⟨k, j, hN, hN, hM, hClear, .refl k v⟩

end Vault

/-- What gives out clients: a store in memory, by its number, or a storage in files. -/
inductive Provider
  | memory (store : Nat)
  | files (settings : FileStorageSettings)

namespace Provider

/-- Whether a vault has it. -/
def InVault : Provider → Vault → Prop
  | memory store, v => store < v.memories.length
  | files _, _ => True

/-- Opens a client for a namespace. -/
def openClient : Provider → String → Vault → Except StorageError Nat × Vault
  | memory store, space, v => (.ok (v.openMemory store space).1, (v.openMemory store space).2)
  | files settings, space, v => v.openFiles settings space

/-- What of a text is left in the name under which a namespace is kept. -/
def keptText : Provider → String → String
  | memory _, text => text
  | files _, text => directoryName text

/-- The client for a namespace. -/
def clientOf (x : Provider) (space : String) (closed : Bool) : VaultClient :=
  match x with
  | memory store => .memory store ⟨space, closed⟩
  | files settings => .files ⟨FileStorage.root settings ++ [directoryName space], closed⟩

/-- A namespace is kept under the kind, the signal and what is left of the component. -/
theorem keptText_clientNamespace (x : Provider) (kind : Kind) (owner : ComponentId)
    (signal : Signal) : x.keptText (clientNamespace kind owner signal.text) =
      framed kind (x.keptText (ownerText owner)) signal := by
  rw [clientNamespace_signal]
  cases x with
  | memory store => rfl
  | files settings => exact directoryName_framed kind (ownerText owner) signal

theorem clear_of_keptText_ne (x : Provider) {space space' : String} {closed closed' : Bool}
    (hNe : x.keptText space ≠ x.keptText space') :
    (x.clientOf space closed).Clear (x.clientOf space' closed') := by
  cases x with
  | memory store => exact .inr hNe
  | files settings => exact fun p => FileClient.not_owns_of_sees hNe rfl rfl

end Provider

namespace Vault

/-- What may happen to a vault between two moments. -/
inductive Leads : Vault → Vault → Prop
  | refl (v : Vault) : Leads v v
  | newMemory {v w : Vault} (h : Leads v w) : Leads v w.newMemory.2
  | startFiles {v w : Vault} (h : Leads v w) (settings : FileStorageSettings) :
      Leads v (w.startFiles settings).2
  | openClient {v w : Vault} (h : Leads v w) (x : Provider) (space : String) :
      Leads v (x.openClient space w).2
  | use {v w : Vault} (h : Leads v w) (n : Nat) (u : Use) : Leads v ((client n).use u w).2

/-- A client was opened for a namespace of a storage some time ago. -/
def Obtained (x : Provider) (space : String) (n : Nat) (v : Vault) : Prop :=
  ∃ before after, x.InVault before ∧ x.openClient space before = (.ok n, after) ∧ Leads after v

variable {v w : Vault} {n m : Nat} {x : Provider} {space space' : String}

/-- A client keeps what it is a client of, and a storage stays in the vault. -/
def Keeps (x : Provider) (space : String) (n : Nat) (v : Vault) : Prop :=
  x.InVault v ∧ ∃ closed, v.clients[n]? = some (x.clientOf space closed)

theorem Keeps.of_grown (h : Keeps x space n v) (hMemories : v.memories.length ≤ w.memories.length)
    (more : List VaultClient) (hClients : w.clients = v.clients ++ more) : Keeps x space n w := by
  obtain ⟨hVault, closed, hClient⟩ := h
  refine ⟨?_, closed, ?_⟩
  · cases x with
    | memory store => exact Nat.lt_of_lt_of_le hVault hMemories
    | files settings => trivial
  · rw [hClients, List.getElem?_append_left (List.getElem?_eq_some_iff.mp hClient).1, hClient]

theorem clients_openFiles (v : Vault) (settings : FileStorageSettings) (space : String) :
    (v.openFiles settings space).2.memories = v.memories ∧
      ∃ more, (v.openFiles settings space).2.clients = v.clients ++ more := by
  rw [openFiles]
  split
  · exact ⟨rfl, [], (List.append_nil _).symm⟩
  · exact ⟨rfl, [_], rfl⟩

theorem Keeps.openClient (h : Keeps x space n v) (y : Provider) (other : String) :
    Keeps x space n (y.openClient other v).2 := by
  cases y with
  | memory store => exact h.of_grown (Nat.le_refl _) [.memory store (.ofSpace other)] rfl
  | files settings =>
      obtain ⟨hMemories, more, hClients⟩ := clients_openFiles v settings other
      exact h.of_grown (Nat.le_of_eq (congrArg List.length hMemories.symm)) more hClients

theorem Keeps.use (h : Keeps x space n v) (m : Nat) (u : Use) :
    Keeps x space n ((client m).use u v).2 := by
  cases u with
  | batch ops =>
      exact h.of_grown (Nat.le_of_eq (length_memories_batch v m ops).symm) []
        ((clients_batch v m ops).trans (List.append_nil _).symm)
  | close =>
      obtain ⟨hVault, closed, hClient⟩ := h
      refine ⟨?_, closed || m = n, (getElem?_close v m n).trans ?_⟩
      · cases x <;> exact hVault
      · rw [hClient, Option.map_some]
        by_cases hSame : m = n
        · cases x <;> simp [hSame, closedClient, Provider.clientOf]
        · cases x <;> simp [hSame, Provider.clientOf]

theorem Keeps.leads (h : Keeps x space n v) (hLeads : Leads v w) : Keeps x space n w := by
  induction hLeads with
  | refl => exact h
  | newMemory _ ih =>
      exact ih.of_grown (by simp [Vault.newMemory]) [] (List.append_nil _).symm
  | startFiles _ settings ih =>
      exact ih.of_grown (Nat.le_refl _) [] (List.append_nil _).symm
  | openClient _ y other ih => exact ih.openClient y other
  | use _ m u ih => exact ih.use m u

theorem Obtained.keeps (h : Obtained x space n v) (hLong : 2 < space.toList.length) :
    Keeps x space n v := by
  obtain ⟨before, after, hVault, hOpen, hLeads⟩ := h
  suffices hKeeps : Keeps x space n after from hKeeps.leads hLeads
  cases x with
  | memory store =>
      have hNumber : n = before.clients.length :=
        (Except.ok.inj (congrArg Prod.fst hOpen)).symm
      obtain rfl : (before.openMemory store space).2 = after := congrArg Prod.snd hOpen
      refine ⟨hVault, false, ?_⟩
      rw [hNumber]
      exact List.getElem?_concat_length
  | files settings =>
      rw [Provider.openClient, openFiles] at hOpen
      split at hOpen
      · exact absurd (congrArg Prod.fst hOpen) (by simp)
      · next c fs hClient =>
          have hNumber : n = before.clients.length :=
            (Except.ok.inj (congrArg Prod.fst hOpen)).symm
          rw [FileStorage.directory_of_openClient hLong hClient] at hOpen
          obtain rfl := congrArg Prod.snd hOpen
          refine ⟨trivial, false, ?_⟩
          rw [hNumber]
          exact List.getElem?_concat_length

/-- What one client of a namespace wrote, every other reads. -/
theorem Keeps.get_of_set (h : Keeps x space n v) (h' : Keeps x space' m v)
    (hSame : x.keptText space = x.keptText space') {key : String} {value : Bytes} {reads : Reads}
    (hSet : (v.batch n [.set key value]).1 = ⟨.ok (), reads⟩)
    (hOpen : (v.clients[m]?).map VaultClient.closed = some false) :
    ((v.batch n [.set key value]).2.batch m [.get key]).1 = ⟨.ok (), [some value]⟩ := by
  obtain ⟨hVault, closed, hN⟩ := h
  obtain ⟨-, closed', hM⟩ := h'
  have hLater : (v.batch n [.set key value]).2.clients[m]? = v.clients[m]? :=
    congrArg (·[m]?) (clients_batch v n _)
  rw [hM, Option.map_some, Option.some_inj] at hOpen
  cases x with
  | memory store =>
      obtain rfl : closed' = false := hOpen
      rw [batch_memory (hLater.trans hM)]
      rw [batch_memory hN] at hSet ⊢
      dsimp only
      rw [memory_set, if_pos ⟨rfl, hVault⟩]
      exact MemoryClient.get_of_set (Prod.ext hSet rfl) hSame.symm rfl
  | files settings =>
      obtain rfl : closed' = false := hOpen
      rw [batch_files (hLater.trans hM)]
      rw [batch_files hN] at hSet ⊢
      exact FileClient.get_of_set (Prod.ext hSet rfl)
        (congrArg (fun name => FileStorage.root settings ++ [name]) hSame.symm) rfl

theorem length_clientNamespace (kind : Kind) (owner : ComponentId) (signal : Signal) :
    2 < (clientNamespace kind owner signal.text).toList.length := by
  have hKind : 2 < kind.text.toList.length := by cases kind <;> decide
  rw [clientNamespace_signal, framed_toList, List.length_append]
  omega

/-- Two clients that one storage gave out, a store in memory or a storage in files, at any time after
that. Their namespaces, or the names of the directories of these, are the same exactly if the kinds and
the signals are and what is left of the two components. If not, no use of one client changes what the
other is answered. If they are, each value that one client set is read by the other. -/
theorem clients_apart_or_shared (x : Provider) (k k' : Kind) (o o' : ComponentId) (p p' : Signal)
    (n m : Nat) (v : Vault) (h : Obtained x (clientNamespace k o p.text) n v)
    (h' : Obtained x (clientNamespace k' o' p'.text) m v) :
    let same := k = k' ∧ p = p' ∧ x.keptText (ownerText o) = x.keptText (ownerText o')
    (x.keptText (clientNamespace k o p.text) = x.keptText (clientNamespace k' o' p'.text) ↔ same) ∧
      (¬same → (client n).Apart (client m) v) ∧
      (same → ∀ key value reads, (v.batch n [.set key value]).1 = ⟨.ok (), reads⟩ →
        (v.clients[m]?).map VaultClient.closed = some false →
        ((v.batch n [.set key value]).2.batch m [.get key]).1 = ⟨.ok (), [some value]⟩) := by
  intro same
  have hNames : x.keptText (clientNamespace k o p.text) = x.keptText (clientNamespace k' o' p'.text) ↔
      same := by
    rw [x.keptText_clientNamespace, x.keptText_clientNamespace, framed_inj]
  have hKeeps := h.keeps (length_clientNamespace k o p)
  have hKeeps' := h'.keeps (length_clientNamespace k' o' p')
  refine ⟨hNames, fun hDiffer => ?_, fun hSame key value reads hSet hOpen =>
    hKeeps.get_of_set hKeeps' (hNames.mpr hSame) hSet hOpen⟩
  have hNe := fun hEq => hDiffer (hNames.mp hEq)
  obtain ⟨-, closed, hN⟩ := hKeeps
  obtain ⟨-, closed', hM⟩ := hKeeps'
  exact ⟨undisturbed_of_clear hN hM (x.clear_of_keptText_ne hNe),
    undisturbed_of_clear hM hN (x.clear_of_keptText_ne (Ne.symm hNe))⟩

theorem isTypeName_otlp : isTypeName "otlp".toList = true := by decide

/-- The component `otlp/a`. -/
def namedOwner : ComponentId := ⟨⟨"otlp", isTypeName_otlp⟩, some ⟨"a", by decide⟩⟩

/-- The component `otlp_a`. -/
def plainOwner : ComponentId := ⟨⟨"otlp_a", by decide⟩, none⟩

/-- A vault after a client of its first store in memory was opened for an exporter. -/
def withExporter (owner : ComponentId) (signal : Signal) (v : Vault) : Vault :=
  ((Provider.memory 0).openClient (clientNamespace .exporter owner signal.text) v).2

/-- A store in memory and its client for the logs of the first component. -/
def oneClient : Vault := Vault.empty.newMemory.2.withExporter namedOwner .logs

/-- There is also one for the logs of the second. -/
def twoClients : Vault := oneClient.withExporter plainOwner .logs

/-- There is also one for the traces of the second. -/
def threeClients : Vault := twoClients.withExporter plainOwner .traces

theorem obtained_withExporter (v : Vault) (owner : ComponentId) (signal : Signal)
    (hVault : 0 < v.memories.length) (hLeads : Leads (v.withExporter owner signal) w) :
    Obtained (.memory 0) (clientNamespace .exporter owner signal.text) v.clients.length w :=
  ⟨v, _, hVault, rfl, hLeads⟩

theorem obtained_threeClients :
    Obtained (.memory 0) (clientNamespace .exporter namedOwner Signal.logs.text) 0 threeClients ∧
      Obtained (.memory 0) (clientNamespace .exporter plainOwner Signal.logs.text) 1 threeClients ∧
      Obtained (.memory 0) (clientNamespace .exporter plainOwner Signal.traces.text) 2
        threeClients := by
  have hLast : Leads twoClients threeClients := (Leads.refl twoClients).openClient (.memory 0) _
  have hLater : Leads oneClient threeClients :=
    ((Leads.refl oneClient).openClient (.memory 0) _).openClient (.memory 0) _
  exact ⟨obtained_withExporter Vault.empty.newMemory.2 namedOwner .logs (by decide) hLater,
    obtained_withExporter oneClient plainOwner .logs (by decide) hLast,
    obtained_withExporter twoClients plainOwner .traces (by decide) (.refl _)⟩

/-- The clients of one component for two signals are apart, and those of two components for one signal
share a value. -/
theorem clients_apart_or_shared_colliding :
    (client 1).Apart (client 2) threeClients ∧
      ((threeClients.batch 0 [.set "ri" [1]]).2.batch 1 [.get "ri"]).1 = ⟨.ok (), [some [1]]⟩ := by
  obtain ⟨hFirst, hSecond, hThird⟩ := obtained_threeClients
  constructor
  · have hSignals := clients_apart_or_shared (.memory 0) _ _ _ _ _ _ 1 2 threeClients hSecond hThird
    exact hSignals.2.1 (by decide)
  · have hOwners := clients_apart_or_shared (.memory 0) _ _ _ _ _ _ 0 1 threeClients hFirst hSecond
    exact hOwners.2.2 (by decide) "ri" [1] [] rfl rfl

/-- Components that differ can have clients of one namespace, so that one reads what the other wrote. -/
theorem clients_of_two_components_interfere :
    ¬∀ (x : Provider) (k k' : Kind) (o o' : ComponentId) (p p' : Signal) (n m : Nat) (v : Vault),
      (k, o, p) ≠ (k', o', p') → Obtained x (clientNamespace k o p.text) n v →
        Obtained x (clientNamespace k' o' p'.text) m v → (client n).Apart (client m) v := by
  intro hAll
  obtain ⟨hFirst, hSecond, -⟩ := obtained_threeClients
  have hApart := hAll (.memory 0) _ _ _ _ _ _ 0 1 threeClients (by decide) hFirst hSecond
  have hAnswers := hApart.2 [.inr (.batch [.set "ri" [1]]), .inl (.batch [.get "ri"])]
  have hSpaces : clientNamespace .exporter namedOwner Signal.logs.text =
      clientNamespace .exporter plainOwner Signal.logs.text := by decide
  have hSet : (threeClients.batch 0 [.set "ri" [1]]).1 = ⟨.ok (), []⟩ := rfl
  have hGet := (hFirst.keeps (by decide)).get_of_set (hSecond.keeps (by decide))
    (congrArg (Provider.memory 0).keptText hSpaces) hSet rfl
  have hRead : some ((threeClients.batch 1 [.get "ri"]).1) =
      some ((threeClients.batch 0 [.set "ri" [1]]).2.batch 1 [.get "ri"]).1 :=
    (List.cons.inj hAnswers).1.symm
  rw [hGet] at hRead
  exact absurd (congrArg Reply.reads (Option.some.inj hRead)) (by decide)

end Vault

end Telemetry.Storage

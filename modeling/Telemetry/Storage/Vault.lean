import Telemetry.Storage.Files

/-!
# Vaults

Everything that storage keeps for one process: stores in memory, a file system, and the clients that
were opened onto them, by number.
-/

namespace Telemetry.Storage

/-- A client and what it is a client of. -/
inductive VaultClient
  /-- A client of a store in memory, by the number of the store. -/
  | memory (store : Nat) (client : MemoryClient)
  /-- A client of the file system. -/
  | files (client : FileClient)
deriving DecidableEq, Repr

/-- Stores, files and clients. -/
structure Vault where
  /-- The stores in memory, by number. -/
  memories : List MemoryStore
  /-- The file system. -/
  files : FileSystem
  /-- The clients that were opened, by number. -/
  clients : List VaultClient

namespace Vault

/-- Nothing is kept. -/
def empty : Vault := ⟨[], [], []⟩

/-- A store in memory; one that was never made is empty. -/
def memory (v : Vault) (store : Nat) : MemoryStore := v.memories.getD store []

/-- Adds an empty store in memory. -/
def newMemory (v : Vault) : Nat × Vault :=
  (v.memories.length, { v with memories := v.memories ++ [[]] })

/-- Adds a client. -/
def addClient (v : Vault) (c : VaultClient) : Nat × Vault :=
  (v.clients.length, { v with clients := v.clients ++ [c] })

/-- Opens a client for a namespace of a store in memory. -/
def openMemory (v : Vault) (store : Nat) (space : String) : Nat × Vault :=
  v.addClient (.memory store (.ofSpace space))

/-- Opens a client for a namespace of a storage in files. -/
def openFiles (v : Vault) (s : FileStorageSettings) (space : String) :
    Except StorageError Nat × Vault :=
  match FileStorage.openClient s space v.files with
  | (.error e, fs) => (.error e, { v with files := fs })
  | (.ok c, fs) =>
    let (n, v) := { v with files := fs }.addClient (.files c)
    (.ok n, v)

/-- Makes sure that the directory of a storage in files is there. -/
def startFiles (v : Vault) (s : FileStorageSettings) : Except ComponentError Unit × Vault :=
  let (outcome, fs) := FileStorage.start s v.files
  (outcome, { v with files := fs })

/-- Carries out a batch of the client with a number. -/
def batch (n : Nat) (ops : List Operation) (v : Vault) : Reply × Vault :=
  match v.clients[n]? with
  | none => (.failed .closed ops, v)
  | some (.memory store c) =>
    let (reply, m) := c.batch ops (v.memory store)
    (reply, { v with memories := v.memories.set store m })
  | some (.files c) =>
    let (reply, fs) := c.batch ops v.files
    (reply, { v with files := fs })

/-- A client that was given up. -/
def closedClient : VaultClient → VaultClient
  | .memory store c => .memory store { c with closed := true }
  | .files c => .files { c with closed := true }

/-- Gives the client with a number up. -/
def close (n : Nat) (v : Vault) : Vault := { v with clients := v.clients.modify n closedClient }

/-- The client with a number as programs use it. -/
def client (n : Nat) : Client Vault := ⟨batch n, close n⟩

end Vault

end Telemetry.Storage

import Telemetry.Storage.Vault

/-!
# Trying out storage

Storage in memory or in files whose clients are called by name.
-/

namespace Telemetry.Testbed

open Storage (Vault FileSystem Operation Reply)

/-- Storage and its clients. -/
structure StorageTrial where
  /-- What is kept. -/
  vault : Vault
  /-- The settings of storage in files; without them it is in memory. -/
  files : Option FileStorageSettings
  /-- The clients, the latest first. -/
  clients : List (String × Nat)

namespace StorageTrial

/-- Storage in memory. -/
def inMemory : StorageTrial := ⟨Vault.empty.newMemory.2, none, []⟩

/-- Storage in a directory below a root that holds nothing else, or one file at most. -/
def inFiles (root directory : String) (create : Bool) (file : Option String) : StorageTrial :=
  let start : FileSystem := [([root], .directory)]
  let fs := file.elim start fun name => start.insert [root, name] (.file [120])
  ⟨{ Vault.empty with files := fs }, some ⟨root ++ "/" ++ directory, create⟩, []⟩

/-- Starts the storage. -/
def start (t : StorageTrial) : Except ComponentError Unit × StorageTrial :=
  match t.files with
  | none => (.ok (), t)
  | some s =>
    let (outcome, v) := t.vault.startFiles s
    (outcome, { t with vault := v })

/-- Opens a client for a namespace and names it. -/
def openClient (name space : String) (t : StorageTrial) :
    Except StorageError Unit × StorageTrial :=
  let (opened, v) : Except StorageError Nat × Vault := match t.files with
    | none =>
      let (n, v) := t.vault.openMemory 0 space
      (.ok n, v)
    | some s => t.vault.openFiles s space
  match opened with
  | .error e => (.error e, { t with vault := v })
  | .ok n => (.ok (), { t with vault := v, clients := (name, n) :: t.clients })

/-- The number of the client with a name. -/
def client (t : StorageTrial) (name : String) : Nat :=
  (t.clients.lookup name).getD t.vault.clients.length

/-- Carries out a batch. -/
def batch (name : String) (ops : List Operation) (t : StorageTrial) : Reply × StorageTrial :=
  let (reply, v) := t.vault.batch (t.client name) ops
  (reply, { t with vault := v })

/-- Gives a client up. -/
def close (name : String) (t : StorageTrial) : StorageTrial :=
  { t with vault := t.vault.close (t.client name) }

/-- The number of keys of a namespace in memory. -/
def keyCount (t : StorageTrial) (space : String) : Nat := (t.vault.memory 0).keyCount space

/-- Everything below a root: the contents of files, and directories without any. -/
def listing (t : StorageTrial) (root : String) : List (String × Option Text.Bytes) :=
  (FileSystem.below t.vault.files [root]).map fun (path, entry) =>
    match entry with
    | .directory => ("/".intercalate path ++ "/", none)
    | .file content => ("/".intercalate path, some content)

end StorageTrial

end Telemetry.Testbed

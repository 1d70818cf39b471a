import Telemetry.Component.Settings
import Telemetry.Storage.FileSystem
import Telemetry.Storage.Memory

/-!
# Storage in files

Every namespace is a directory and every key a file in it, named by the hexadecimal form of the key.
A value is first written to a temporary file, which is then renamed, so that a key has either its
old value or its new one whenever the process ends.
-/

namespace Telemetry.Storage

open Text (Bytes)

/-- One action on a file. A file that is not there counts as read and as removed. -/
inductive FileAction
  | read (place : Place)
  | write (place : Place) (content : Bytes)
  | rename (source target : Place)
  | remove (place : Place)
deriving DecidableEq, Repr

/-- The outcome of an action: what was read, if it reads, and what is left. -/
def FileAction.run (fs : FileSystem) : FileAction → Except FileError (Option (Option Bytes)) × FileSystem
  | read place =>
    match fs.readFile place with
    | .ok content => (.ok (some (some content)), fs)
    | .error .missing => (.ok (some none), fs)
    | .error e => (.error e, fs)
  | write place content =>
    match fs.writeFile place content with
    | .ok fs => (.ok none, fs)
    | .error e => (.error e, fs)
  | rename source target =>
    match fs.renameFile source target with
    | .ok fs => (.ok none, fs)
    | .error e => (.error e, fs)
  | remove place =>
    match fs.removeFile place with
    | .ok fs => (.ok none, fs)
    | .error .missing => (.ok none, fs)
    | .error e => (.error e, fs)

/-- A client of storage in files. -/
structure FileClient where
  /-- The directory of its namespace. -/
  directory : Place
  /-- Whether it was given up. -/
  closed : Bool
deriving DecidableEq, Repr

namespace FileClient

/-- The ending of the names of temporary files. -/
def temporaryEnding : String := ".tmp"

/-- The name of the file of a key. -/
def fileName (key : String) : String := Text.hexEncode key.toUTF8.toList

/-- The place of the file of a key; the empty key has the directory itself. -/
def place (c : FileClient) (key : String) : Place :=
  if key.isEmpty then c.directory else c.directory ++ [fileName key]

/-- The place of the temporary file of a key. -/
def temporaryPlace (c : FileClient) (key : String) : Place :=
  c.directory ++ [fileName key ++ temporaryEnding]

/-- The actions that carry out a step, in order. -/
def actions (c : FileClient) : Operation → List FileAction
  | .get key => [.read (c.place key)]
  | .set key value =>
    [.write (c.temporaryPlace key) value, .rename (c.temporaryPlace key) (c.place key)]
  | .delete key => [.remove (c.place key)]

/-- Carries out actions in order up to the first that fails. -/
def perform (fs : FileSystem) : List FileAction → Except FileError Unit × Reads × FileSystem
  | [] => (.ok (), [], fs)
  | a :: rest =>
    match a.run fs with
    | (.error e, fs) => (.error e, [], fs)
    | (.ok found, fs) =>
      let (outcome, reads, fs) := perform fs rest
      (outcome, found.toList ++ reads, fs)

/-- Carries out a batch; a step that fails is the last one. -/
def batch (c : FileClient) (ops : List Operation) (fs : FileSystem) : Reply × FileSystem :=
  if c.closed then (.failed .closed ops, fs)
  else
    let (outcome, reads, fs) := perform fs (ops.flatMap c.actions)
    let missing := (ops.filter Operation.isGet).length - reads.length
    (⟨outcome.mapError fun e => .io e.message, reads ++ List.replicate missing none⟩, fs)

end FileClient

/-- A namespace as the name of a directory: whatever is no letter, digit, underscore, hyphen or point
becomes a tilde. -/
def directoryName (space : String) : String :=
  String.ofList (space.toList.map fun c =>
    if c.isAlphanum || c = '_' || c = '-' || c = '.' then c else '~')

namespace FileStorage

/-- Makes sure that the directory of a storage is there. The empty text names no directory that could
be made. -/
def start (s : FileStorageSettings) (fs : FileSystem) : Except ComponentError Unit × FileSystem :=
  let path := Path.ofText s.directory
  let (made, fs) : Except FileError Unit × FileSystem :=
    if s.createDirectory && !s.directory.isEmpty then
      match path with
      | .error e => (.error e, fs)
      | .ok path => fs.makeDirectories path
    else (.ok (), fs)
  match made, path.bind fs.find with
  | .error e, _ => (.error (.start e.message), fs)
  | .ok (), .error e =>
    (.error (.start ("storage directory " ++ s.directory ++ ": " ++ e.message)), fs)
  | .ok (), .ok (_, .file _) =>
    (.error (.start ("storage path " ++ s.directory ++ " is not a directory")), fs)
  | .ok (), .ok (_, .directory) => (.ok (), fs)

/-- Opens a client for a namespace, making its directory if it is missing. -/
def openClient (s : FileStorageSettings) (space : String) (fs : FileSystem) :
    Except StorageError FileClient × FileSystem :=
  match Path.ofText (Path.join s.directory (directoryName space)) with
  | .error e => (.error (.io e.message), fs)
  | .ok path =>
    let (made, fs) := fs.makeDirectories path
    match made.bind fun () => fs.find path with
    | .error e => (.error (.io e.message), fs)
    | .ok (place, _) => (.ok ⟨place, false⟩, fs)

end FileStorage

end Telemetry.Storage

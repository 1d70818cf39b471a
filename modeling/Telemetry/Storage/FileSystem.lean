import Telemetry.Table
import Telemetry.Text.Hex
import Telemetry.Text.Split

/-!
# File systems

A file system is a table of directories and files by place: the names on the way there from the
root. A path is written as steps, which enter a directory or a file by its name, stay or lead back.
It is followed step by step, so that a step back is taken only from a directory that is there. No
name may be longer than 255 bytes.
-/

namespace Telemetry.Storage

open Text (Bytes)

/-- The names on the way from the root. -/
abbrev Place := List String

/-- What is at a place. -/
inductive Entry
  | directory
  | file (content : Bytes)
deriving DecidableEq, Repr

/-- Why a file system refuses something. -/
inductive FileError
  | missing
  | occupied
  | notDirectory
  | isDirectory
  | nameTooLong
  | zeroInPath
deriving DecidableEq, Repr

/-- The wording of a refusal. -/
def FileError.message : FileError → String
  | missing => "No such file or directory (os error 2)"
  | .occupied => "File exists (os error 17)"
  | notDirectory => "Not a directory (os error 20)"
  | isDirectory => "Is a directory (os error 21)"
  | nameTooLong => "File name too long (os error 36)"
  | zeroInPath => "file name contained an unexpected NUL byte"

/-- One step along a path. -/
inductive PathStep
  | enter (name : String)
  | stay
  | back
deriving DecidableEq, Repr

/-- A path as it is written. -/
structure Path where
  /-- The steps from the root. -/
  steps : List PathStep
  /-- Whether a slash ends it, so that only a directory can be what it leads to. -/
  toDirectory : Bool
deriving DecidableEq, Repr

namespace Path

/-- The longest text of a path, in bytes. -/
def longestText : Nat := 4095

/-- The step that a piece between slashes writes, if it is not empty. -/
def step? (piece : List Char) : Option PathStep :=
  if piece = [] then none
  else if piece = ['.'] then some .stay
  else if piece = ['.', '.'] then some .back
  else some (.enter (String.ofList piece))

/-- Reads a path. -/
def ofText (text : String) : Except FileError Path :=
  if '\x00' ∈ text.toList then .error .zeroInPath
  else if text.isEmpty then .error .missing
  else if longestText < text.utf8ByteSize then .error .nameTooLong
  else
    let pieces := Text.splitAll '/' text.toList
    .ok ⟨pieces.filterMap step?, pieces.getLast? = some []⟩

/-- The text of a path with another name at its end. -/
def join (text name : String) : String :=
  if text.isEmpty || text.toList.getLast? = some '/' then text ++ name else text ++ "/" ++ name

/-- The ways to the directories above the last of some steps, the longest first. Steps that stay do
not count as the last, and no way ends in one. -/
def above (steps : List PathStep) : List (List PathStep) :=
  let told := (steps.reverse.dropWhile (· = .stay)).reverse
  ((List.range told.length).reverse.map told.take).filter fun way =>
    way.getLast? ≠ none ∧ way.getLast? ≠ some .stay

end Path

/-- What is at every place but the root, which is a directory. -/
abbrev FileSystem := Table Place Entry

namespace FileSystem

/-- The longest name, in bytes. -/
def longestName : Nat := 255

/-- What is at a place. -/
def entryAt? (fs : FileSystem) (place : Place) : Option Entry :=
  if place.isEmpty then some .directory else fs.get? place

/-- Where steps lead. Every step is taken from a directory; nothing need be where the last leads. -/
def walk (fs : FileSystem) (place : Place) : List PathStep → Except FileError Place
  | [] => .ok place
  | step :: rest =>
    match fs.entryAt? place with
    | none => .error .missing
    | some (.file _) => .error .notDirectory
    | some .directory =>
      match step with
      | .stay => fs.walk place rest
      | .back => fs.walk place.dropLast rest
      | .enter name =>
        if longestName < name.utf8ByteSize then .error .nameTooLong
        else fs.walk (place ++ [name]) rest

/-- Steps can be taken in two goes. -/
theorem walk_append (fs : FileSystem) (place : Place) (first second : List PathStep) :
    fs.walk place (first ++ second) = (fs.walk place first).bind (fs.walk · second) := by
  induction first generalizing place with
  | nil => rfl
  | cons step rest ih =>
    simp only [List.cons_append, walk]
    split <;> try rfl
    cases step with
    | stay => exact ih place
    | back => exact ih place.dropLast
    | enter name =>
      dsimp only
      split
      · rfl
      · exact ih (place ++ [name])

/-- Goes to a place by its names. -/
def reach (fs : FileSystem) (place : Place) : Except FileError Place :=
  fs.walk [] (place.map .enter)

/-- What a path leads to, and where that is. -/
def find (fs : FileSystem) (path : Path) : Except FileError (Place × Entry) := do
  let place ← fs.walk [] path.steps
  match fs.entryAt? place with
  | none => .error .missing
  | some .directory => .ok (place, .directory)
  | some (.file content) =>
    if path.toDirectory then .error .notDirectory else .ok (place, .file content)

/-- The content of a file. -/
def readFile (fs : FileSystem) (place : Place) : Except FileError Bytes := do
  match fs.entryAt? (← fs.reach place) with
  | none => .error .missing
  | some (.file content) => .ok content
  | some .directory => .error .isDirectory

/-- Writes a file, whether or not there was one. -/
def writeFile (fs : FileSystem) (place : Place) (content : Bytes) : Except FileError FileSystem := do
  match fs.entryAt? (← fs.reach place) with
  | some .directory => .error .isDirectory
  | _ => .ok (fs.insert place (.file content))

/-- Puts a file in the place of another, whether or not there was one. -/
def renameFile (fs : FileSystem) (source target : Place) : Except FileError FileSystem := do
  let content ← fs.readFile source
  match fs.entryAt? (← fs.reach target) with
  | some .directory => .error .isDirectory
  | _ => .ok ((fs.erase source).insert target (.file content))

/-- Removes a file. -/
def removeFile (fs : FileSystem) (place : Place) : Except FileError FileSystem := do
  let _ ← fs.readFile place
  return fs.erase place

/-- Makes sure that steps lead to a directory, making it if nothing is there. -/
def makeDirectory (fs : FileSystem) (steps : List PathStep) : Except FileError FileSystem := do
  let place ← fs.walk [] steps
  match fs.entryAt? place with
  | none => .ok (fs.insert place .directory)
  | some .directory => .ok fs
  | some (.file _) => .error .occupied

/-- Makes the directory that the first way leads to. If that fails because something on the way is
missing, the directories of the other ways are made before it is tried again. What was made stays. -/
def makeDirectoriesAlong (fs : FileSystem) :
    List (List PathStep) → Except FileError Unit × FileSystem
  | [] => (.ok (), fs)
  | way :: above =>
    match fs.makeDirectory way with
    | .ok fs => (.ok (), fs)
    | .error .missing =>
      match fs.makeDirectoriesAlong above with
      | (.error e, fs) => (.error e, fs)
      | (.ok (), fs) =>
        match fs.makeDirectory way with
        | .ok fs => (.ok (), fs)
        | .error e => (.error e, fs)
    | .error e => (.error e, fs)

/-- Makes the directory of a path and those on the way to it, as far as they are missing. -/
def makeDirectories (fs : FileSystem) (path : Path) : Except FileError Unit × FileSystem :=
  fs.makeDirectoriesAlong (path.steps :: Path.above path.steps)

/-- What is below a directory, by the rest of the way. -/
def below (fs : FileSystem) (place : Place) : List (Place × Entry) :=
  fs.filterMap fun (p, e) =>
    if place.isPrefixOf p && place.length < p.length then some (p.drop place.length, e) else none

end FileSystem

end Telemetry.Storage

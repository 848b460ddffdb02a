import Mailroom.Path
import Mailroom.Storage

/-!
# A disk

A tree of directories and files, with a directory that relative paths start from. A path is followed
name by name: whatever is gone through has to be a directory, two dots lead to the directory above,
and the root is its own parent. The first obstacle on the way is the one that is reported.
-/

namespace Mailroom

inductive Disk.Entry where
  | directory
  | file (data : Bytes)
  deriving DecidableEq

inductive Disk.Error where
  | notFound
  | notDirectory
  | alreadyThere
  | isDirectory
  | nameTooLong
  | nulInName
  deriving DecidableEq

def Disk.Error.message : Disk.Error → String
  | .notFound => "No such file or directory (os error 2)"
  | .notDirectory => "Not a directory (os error 20)"
  | .alreadyThere => "File exists (os error 17)"
  | .isDirectory => "Is a directory (os error 21)"
  | .nameTooLong => "File name too long (os error 36)"
  | .nulInName => "file name contained an unexpected NUL byte"

/-- Entries by the names that lead to them from the root. The root itself is always there. -/
structure Disk where
  workingDirectory : List String
  entries : Keyed (List String) Disk.Entry

namespace Disk

/-- A disk with nothing but an empty working directory. -/
def empty : Disk := ⟨["work"], Keyed.empty.insert ["work"] .directory⟩

def entry? (d : Disk) (place : List String) : Option Entry :=
  if place = [] then some .directory
  else d.entries.get? place

def put (d : Disk) (place : List String) (e : Entry) : Disk :=
  { d with entries := d.entries.insert place e }

/-- Most bytes of one name. -/
def maxName : Nat := 255

/-- Most bytes of a path. -/
def maxPath : Nat := 4095

/-- Follows names from a place that exists to another one. -/
def walk (d : Disk) : (place : List String) → (names : List String) → Except Error (List String)
  | place, [] => .ok place
  | place, name :: names =>
    if d.entry? place ≠ some .directory then .error .notDirectory
    else if name = "" || name = "." then d.walk place names
    else if name = ".." then d.walk place.dropLast names
    else if maxName < name.utf8ByteSize then .error .nameTooLong
    else if d.entry? (place ++ [name]) = none then .error .notFound
    else d.walk (place ++ [name]) names

/-- A path as the place it starts from and the names that follow. -/
def start (d : Disk) (path : String) : Except Error (List String × List String) :=
  if path.toList.contains '\x00' then .error .nulInName
  else if path = "" then .error .notFound
  else if maxPath < path.utf8ByteSize then .error .nameTooLong
  else
    let names := (Path.segments path.toList).map String.ofList
    .ok (if Path.isAbsolute path then [] else d.workingDirectory, names)

/-- The place a path leads to. -/
def resolve (d : Disk) (path : String) : Except Error (List String) := do
  let (place, names) ← d.start path
  d.walk place names

def isDirectory (d : Disk) (path : String) : Bool :=
  match d.resolve path with
  | .ok place => d.entry? place = some .directory
  | .error _ => false

/-- The directory a path is in, and its last name. Slashes at the end do not count. -/
def resolveParent (d : Disk) (path : String) : Except Error (List String × String) := do
  let (place, names) ← d.start path
  let names := (names.reverse.dropWhile (· = "")).reverse
  let parent ← d.walk place names.dropLast
  if d.entry? parent ≠ some .directory then .error .notDirectory
  else .ok (parent, names.getLast?.getD ".")

def makeDirectory (d : Disk) (path : String) : Except Error Disk := do
  let (parent, name) ← d.resolveParent path
  if name = "." || name = ".." then .error .alreadyThere
  else if maxName < name.utf8ByteSize then .error .nameTooLong
  else if d.entry? (parent ++ [name]) ≠ none then .error .alreadyThere
  else .ok (d.put (parent ++ [name]) .directory)

/-- The paths of the directories above the last component of a path, the nearest first. -/
def ancestors (path : String) : List String :=
  let lead := if Path.isAbsolute path then "/" else ""
  let names := Path.components path
  (List.range (names.length - 1)).reverse.map fun n =>
    lead ++ String.intercalate "/" (names.take (n + 1))

/-- Makes the first of the paths that can be made, the others being above it, and tells which were
passed because what is above them is missing. -/
def climb (d : Disk) : (paths missing : List String) → Except Error (Disk × List String)
  | [], missing => .ok (d, missing)
  | path :: paths, missing =>
    match d.makeDirectory path with
    | .ok d => .ok (d, missing)
    | .error .notFound => d.climb paths (path :: missing)
    | .error e => if d.isDirectory path then .ok (d, missing) else .error e

/-- Makes directories from the top down; one that is there already will do. -/
def descend (d : Disk) : (paths : List String) → Except Error Unit × Disk
  | [] => (.ok (), d)
  | path :: paths =>
    match d.makeDirectory path with
    | .ok d => d.descend paths
    | .error e => if d.isDirectory path then d.descend paths else (.error e, d)

/-- Makes a directory and whatever is missing above it. -/
def makeDirectories (d : Disk) (path : String) : Except Error Unit × Disk :=
  if (Path.components path).isEmpty then (.ok (), d)
  else match d.climb (path :: ancestors path) [] with
    | .error e => (.error e, d)
    | .ok (d, missing) => d.descend missing

/-- Writes a file anew or over an old one. -/
def writeFile (d : Disk) (path : String) (data : Bytes) : Except Error Disk := do
  let (parent, name) ← d.resolveParent path
  if name = "." || name = ".." then .error .isDirectory
  else if maxName < name.utf8ByteSize then .error .nameTooLong
  else if d.entry? (parent ++ [name]) = some .directory then .error .isDirectory
  else if path.toList.getLast? = some '/' then
    .error (if d.entry? (parent ++ [name]) = none then .isDirectory else .notDirectory)
  else .ok (d.put (parent ++ [name]) (.file data))

instance : Storage Disk where
  ensureDirectory d path :=
    let (result, d) := d.makeDirectories path
    (result.mapError Error.message, d)
  write d path data :=
    match d.writeFile path data with
    | .ok d => (.ok (), d)
    | .error e => (.error e.message, d)

/-- What a path leads to when it is opened for reading. -/
def open? (d : Disk) (path : String) : Except Error Entry := do
  let place ← d.resolve path
  match d.entry? place with
  | some e => .ok e
  | none => .error .notFound

/-- The files below the working directory by the names that lead to them from there. -/
def files (d : Disk) : List (List String × Bytes) :=
  d.entries.entries.filterMap fun (place, e) =>
    match e with
    | .directory => none
    | .file data =>
      if d.workingDirectory <+: place then
        some (place.drop d.workingDirectory.length, data)
      else none

/-- Puts a file at a path together with the directories above it. -/
def install (d : Disk) (path : String) (data : Bytes) : Disk :=
  let d := match ancestors path with
    | [] => d
    | parent :: _ => (d.makeDirectories parent).2
  match d.writeFile path data with
  | .ok d => d
  | .error _ => d

end Disk

end Mailroom

/-!
# Paths

A path is text in which a slash separates names. Empty names and single dots name nothing, so they
are not components; two dots name the directory above.

`outputPath` is where a received file goes: one component below the download directory, made of the
sender and of the last name of the file.
-/

namespace Mailroom.Path

/-- The text between slashes, at least one piece. -/
def segments : List Char → List (List Char)
  | [] => [[]]
  | c :: s =>
    if c = '/' then [] :: segments s
    else match segments s with
      | [] => [[c]]
      | first :: rest => (c :: first) :: rest

def isAbsolute (p : String) : Bool := p.toList.head? = some '/'

/-- The names of a path. -/
def components (p : String) : List String :=
  ((segments p.toList).filter fun s => s ≠ [] && s ≠ ['.']).map String.ofList

/-- The last name of a path, unless it has none or goes up there. -/
def fileName? (p : String) : Option String :=
  match (components p).getLast? with
  | none => none
  | some name => if name = ".." then none else some name

/-- A path as seen from a directory. The empty path is the directory one is in, and an absolute path
is the same from everywhere. -/
def join (dir path : String) : String :=
  if isAbsolute path then path
  else match dir.toList.getLast? with
    | none => path
    | some c => if c = '/' then dir ++ path else dir ++ "/" ++ path

/-- An id with slashes of either kind replaced, which makes it part of one name. -/
def flatten (id : String) : String :=
  String.ofList (id.toList.map fun c => if c = '/' || c = '\\' then '_' else c)

/-- The name under which a file of a sender is stored. -/
def outputName (fromId fileName : String) : String :=
  flatten fromId ++ "_" ++ (fileName? fileName).getD "unnamed"

/-- The place of a file of a sender. What it is made of matters to nobody who stores the file. -/
@[irreducible]
def outputPath (downloadDir fromId fileName : String) : String :=
  join downloadDir (outputName fromId fileName)

end Mailroom.Path

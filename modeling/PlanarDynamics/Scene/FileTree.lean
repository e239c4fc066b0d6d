import PlanarDynamics.Scene.Error

/-!
# File trees

A snapshot of files and folders below a working folder, and the walk that opens a path in it.
Nothing is known of what lies outside, except that it holds folders only.
-/

namespace PlanarDynamics

/-- Files with their contents and folders, by path from the working folder. -/
structure FileTree where
  files : List (String × ByteArray)
  folders : List String

namespace FileTree

/-- A place on the way along a path. -/
inductive Place where
  /-- A folder, by the names on the way to it from the working folder. -/
  | folder (names : List String)
  | file (content : ByteArray)
  | outside

/-- The names that a path goes through, without the steps that stay in place. -/
def steps (path : String) : List String :=
  (path.splitOn "/").filter fun name => name != "" && name != "."

/-- The file at the given names. -/
def file? (t : FileTree) (names : List String) : Option ByteArray :=
  (t.files.find? fun f => steps f.1 == names).map (·.2)

/-- There is a folder at the given names, or something below them. -/
def isFolder (t : FileTree) (names : List String) : Bool :=
  (t.folders ++ t.files.map (·.1)).any fun path =>
    names.isPrefixOf (steps path)

/-- One step along a path. -/
def follow (t : FileTree) (place : Place) (name : String) : Except ReadError Place :=
  match place with
  | .file _ => .error .notADirectory
  | .outside => if name = ".." then .ok .outside else .error .notFound
  | .folder names =>
    if name = ".." then
      .ok (if names.isEmpty then .outside else .folder names.dropLast)
    else
      match t.file? (names ++ [name]) with
      | some content => .ok (.file content)
      | none =>
        if t.isFolder (names ++ [name]) then .ok (.folder (names ++ [name])) else .error .notFound

/-- The place that a path leads to. A path with a slash or a dot at its end leads to a folder
only. -/
def locate (t : FileTree) (path : String) : Except ReadError Place :=
  if path.isEmpty then
    .error .notFound
  else do
    let start := if path.startsWith "/" then Place.outside else .folder []
    let place ← (steps path).foldlM (follow t) start
    match place, (path.splitOn "/").getLast? with
    | .file _, some "" => throw .notADirectory
    | .file _, some "." => throw .notADirectory
    | place, _ => return place

/-- The text of the file at a path. -/
def readText (t : FileTree) (path : String) : Except ReadError String := do
  match ← t.locate path with
  | .file content =>
    match String.fromUTF8? content with
    | some text => return text
    | none => throw .invalidText
  | _ => throw .isADirectory

end FileTree

end PlanarDynamics

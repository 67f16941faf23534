import JsonShape.Files.Basic
import JsonShape.Files.Path

/-!
# A file system in memory

Files and directories as a tree, with a working directory from which relative paths start. A path is
followed name by name: a name has at most 255 bytes and a path fewer than 4096, two dots lead to the
directory around, and whatever a name is looked up in has to be a directory.
-/

namespace JsonShape

/-- A file or a directory with all that is in it. -/
inductive FileTree where
  /-- A file with its content. -/
  | file (bytes : List UInt8)
  /-- A directory with the entries in it. -/
  | directory (entries : List (String × FileTree))

namespace FileTree

/-- The tree at a place, which is given by the names that lead to it. -/
def at? (tree : FileTree) : List String → Option FileTree
  | [] => some tree
  | name :: rest =>
    match tree with
    | .file _ => none
    | .directory entries => (entries.lookup name).bind fun t => t.at? rest

/-- The entries of a directory with one of them replaced, or added at the end. -/
def replace (name : String) (new : FileTree) : List (String × FileTree) → List (String × FileTree)
  | [] => [(name, new)]
  | (key, old) :: rest =>
    if key = name then (key, new) :: rest else (key, old) :: replace name new rest

/-- The tree with another tree at a place. The directories that lead there have to exist. -/
def put (new : FileTree) : List String → FileTree → FileTree
  | [], _ => new
  | name :: rest, .directory entries =>
    match entries.lookup name with
    | some t => .directory (replace name (put new rest t) entries)
    | none => .directory (replace name new entries)
  | _ :: _, .file bytes => .file bytes

mutual

/-- All files of a tree with their paths from a directory; `above` are the names that lead to the
tree, the last one first. -/
def allFiles (above : List String) : FileTree → List (String × List UInt8)
  | .file bytes => [("/".intercalate above.reverse, bytes)]
  | .directory entries => allFilesOf above entries

/-- All files of some entries. -/
def allFilesOf (above : List String) : List (String × FileTree) → List (String × List UInt8)
  | [] => []
  | (name, tree) :: rest => allFiles (name :: above) tree ++ allFilesOf above rest

end

end FileTree

/-- A file system. -/
structure FileSystem where
  /-- All files and directories. -/
  root : FileTree
  /-- The names that lead to the working directory, the last one first. -/
  working : List String

namespace FileSystem

/-- A file system with nothing but an empty working directory. -/
def empty : FileSystem :=
  ⟨.directory [("home", .directory [("work", .directory [])])], ["work", "home"]⟩

/-- The greatest number of bytes of a name. -/
def longestName : Nat := 255

/-- The number of bytes that a path must not reach. -/
def pathLimit : Nat := 4096

/-- A place in the tree: the names that lead to it, the last one first. -/
abbrev Place := List String

/-- The tree at a place. -/
def at? (fs : FileSystem) (place : Place) : Option FileTree := fs.root.at? place.reverse

/-- The place one part of a path leads to. -/
def step (fs : FileSystem) (place : Place) (part : List Char) : Except FileError Place :=
  match fs.at? place with
  | some (.directory entries) =>
    let name := String.ofList part
    if Path.isIdle part then .ok place
    else if part = ['.', '.'] then .ok place.tail
    else if longestName < name.utf8ByteSize then .error .nameTooLong
    else if (entries.lookup name).isSome then .ok (name :: place)
    else .error .notFound
  | _ => .error .notDirectory

/-- The parts of a path that can be looked up, and the place from which it starts. -/
def start (fs : FileSystem) (path : String) : Except FileError (Place × List (List Char)) :=
  if path.toList.contains '\x00' then .error .invalidPath
  else if path.isEmpty then .error .notFound
  else if pathLimit ≤ path.utf8ByteSize then .error .nameTooLong
  else if path.startsWith "/" then .ok ([], Path.split path.toList)
  else .ok (fs.working, Path.split path.toList)

/-- The place of what is at a path. -/
def place (fs : FileSystem) (path : String) : Except FileError Place := do
  let (from_, parts) ← fs.start path
  parts.foldlM fs.step from_

/-- What is at a path. -/
def look (fs : FileSystem) : Files := fun path => do
  match fs.at? (← fs.place path) with
  | some (.file bytes) => return .file bytes
  | some (.directory entries) => return .directory (entries.map Prod.fst)
  | none => throw .notFound

/-! ## Changing it -/

/-- The place of the directory that a path names something in, and the part that names it. -/
def target (fs : FileSystem) (path : String) : Except FileError (Place × List Char) := do
  let (from_, parts) ← fs.start path
  let kept := (parts.reverse.dropWhile (· = [])).reverse
  let directory ← kept.dropLast.foldlM fs.step from_
  match fs.at? directory with
  | some (.directory _) => return (directory, kept.getLastD [])
  | _ => throw .notDirectory

/-- Whether a part of a path is the name of something. -/
def isName (part : List Char) : Bool := !Path.isIdle part && part ≠ ['.', '.']

/-- The file system with a tree at a place. -/
def put (fs : FileSystem) (place : Place) (tree : FileTree) : FileSystem :=
  { fs with root := FileTree.put tree place.reverse fs.root }

/-- Makes a directory, where there is nothing yet. -/
def makeDirectory (fs : FileSystem) (path : String) : Except FileError FileSystem := do
  let (directory, part) ← fs.target path
  if !isName part then throw .alreadyExists
  match fs.step directory part with
  | .ok _ => throw .alreadyExists
  | .error .notFound => return fs.put (String.ofList part :: directory) (.directory [])
  | .error e => throw e

/-- Makes a directory and all directories that lead to it, as far as they are missing, going up at
most `budget` times. -/
def makeDirectoriesFrom : (budget : Nat) → FileSystem → String → Except FileError FileSystem
  | 0, _, _ => .error .notFound
  | budget + 1, fs, path =>
    if path.isEmpty then .ok fs
    else
      let finish (fs : FileSystem) (e : FileError) : Except FileError FileSystem :=
        if fs.look.hasDirectory path then .ok fs else .error e
      match fs.makeDirectory path with
      | .ok fs => .ok fs
      | .error .notFound =>
        match Path.parent? path with
        | none => .error (.other "failed to create whole tree")
        | some parent =>
          match makeDirectoriesFrom budget fs parent with
          | .error e => .error e
          | .ok fs =>
            match fs.makeDirectory path with
            | .ok fs => .ok fs
            | .error e => finish fs e
      | .error e => finish fs e

/-- Makes a directory and all directories that lead to it, as far as they are missing. -/
def makeDirectories (fs : FileSystem) (path : String) : Except FileError FileSystem :=
  makeDirectoriesFrom (path.length + 1) fs path

/-- Writes a file. A path that ends with a slash names no file. -/
def write (fs : FileSystem) (path : String) (bytes : List UInt8) : Except FileError FileSystem := do
  let (directory, part) ← fs.target path
  if !isName part || path.endsWith "/" then throw .isDirectory
  match fs.step directory part with
  | .ok place =>
    match fs.at? place with
    | some (.directory _) => throw .isDirectory
    | _ => return fs.put place (.file bytes)
  | .error .notFound => return fs.put (String.ofList part :: directory) (.file bytes)
  | .error e => throw e

/-- The files below the working directory, with their paths from there. -/
def workingFiles (fs : FileSystem) : List (String × List UInt8) :=
  match fs.at? fs.working with
  | some tree => tree.allFiles []
  | none => []

end FileSystem

end JsonShape

/-!
# Files

A program asks the file system what is at a path. The answer is the content of a file, the names in
a directory, or the reason why there is no answer. All that is read during a run is read from such
answers, so files can be any function that gives them: a tree kept in memory, or what was found on a
disk.
-/

namespace JsonShape

/-- Why a file could not be used. -/
inductive FileError where
  /-- There is nothing at the path. -/
  | notFound
  /-- A part of the path that should be a directory is a file. -/
  | notDirectory
  /-- A directory stands where a file is needed. -/
  | isDirectory
  /-- A part of the path, or the whole path, is too long. -/
  | nameTooLong
  /-- Something already stands where a directory is to be made. -/
  | alreadyExists
  /-- The path cannot be spelled. -/
  | invalidPath
  /-- The file holds malformed bytes. -/
  | malformedText
  /-- Any other reason, in the words of the file system. -/
  | other (reason : String)
  deriving DecidableEq

/-- The wording of a file error. -/
def FileError.message : FileError → String
  | .notFound => "No such file or directory (os error 2)"
  | .notDirectory => "Not a directory (os error 20)"
  | .isDirectory => "Is a directory (os error 21)"
  | .nameTooLong => "File name too long (os error 36)"
  | .alreadyExists => "File exists (os error 17)"
  | .invalidPath => "file name contained an unexpected NUL byte"
  | .malformedText => "stream did not contain valid UTF-8"
  | .other reason => reason

/-- What is at a path. -/
inductive Stored where
  /-- A file with its content. -/
  | file (bytes : List UInt8)
  /-- A directory with the names in it. -/
  | directory (names : List String)

/-- What is at each path. -/
abbrev Files := String → Except FileError Stored

namespace Files

/-- Whether there is a directory at a path. -/
def hasDirectory (files : Files) (path : String) : Bool :=
  match files path with
  | .ok (.directory _) => true
  | _ => false

/-- Whether there is a file at a path. -/
def hasFile (files : Files) (path : String) : Bool :=
  match files path with
  | .ok (.file _) => true
  | _ => false

/-- The names in the directory at a path. -/
def names (files : Files) (path : String) : Except FileError (List String) :=
  match files path with
  | .ok (.directory names) => .ok names
  | .ok (.file _) => .error .notDirectory
  | .error e => .error e

/-- The content of the file at a path. -/
def bytes (files : Files) (path : String) : Except FileError (List UInt8) :=
  match files path with
  | .ok (.file bytes) => .ok bytes
  | .ok (.directory _) => .error .isDirectory
  | .error e => .error e

end Files

end JsonShape

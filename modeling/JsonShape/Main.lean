import JsonShape.CommandLine.Session
import JsonShape.Text.Instant
import Std.Time.DateTime.Timestamp

/-!
# The program

Looks at the files that the arguments name, carries out the command, prints what it has produced or
saves it, and reports what went wrong.
-/

namespace JsonShape.CommandLine

/-- The paths whose files or directories a command reads. -/
def Command.paths : Command → List String
  | .generate inputs settings .. => settings.toList ++ inputs
  | .check inputs _ value _ settings => settings.toList ++ inputs ++ [value]
  | .create inputs _ value => inputs ++ [value]
  | .schema inputs _ => inputs
  | .list inputs => inputs

/-- Whether a command reads the standard input. -/
def Command.readsInput : Command → Bool
  | .check _ _ value .. => value == "-"
  | .create _ _ value => value == "-"
  | _ => false

/-- What the system says about a file that could not be used. -/
def fileError : IO.Error → FileError
  | .noFileOrDirectory .. => .notFound
  | .inappropriateType _ code _ => if code = 20 then .notDirectory else .isDirectory
  | .alreadyExists .. => .alreadyExists
  | e => .other (toString e)

/-- What is at a path. -/
def inspect (path : String) : IO (Except FileError Stored) := do
  try
    let entries ← ((← IO.currentDir) / path).readDir
    return .ok (.directory (entries.toList.map fun entry => entry.fileName))
  catch _ =>
    try
      return .ok (.file (← IO.FS.readBinFile path).toList)
    catch e => return .error (fileError e)

/-- What is at some paths, and at the paths of the documents in directories there. -/
def gather (paths : List String) : IO (List (String × Except FileError Stored)) := do
  let mut found := []
  for path in paths do
    let stored ← inspect path
    found := (path, stored) :: found
    if let .ok (.directory names) := stored then
      for name in names do
        let file := Path.join path name
        if (Format.ofPath? file).isSome then found := (file, ← inspect file) :: found
  return found

/-- Reads a stream to its end. -/
partial def readAll (stream : IO.FS.Stream) (before : ByteArray) : IO ByteArray := do
  let part ← stream.read 65536
  if part.isEmpty then return before else readAll stream (before ++ part)

/-- Saves a text, and makes the directory for it if need be. -/
def saveFile (path : String) (text : List Char) : IO (Except Problem Unit) := do
  if let some directory := directoryOf? path then
    try IO.FS.createDirAll directory
    catch e => return .error (.directory directory (fileError e))
  try
    IO.FS.writeFile path (String.ofList text)
    return .ok ()
  catch e => return .error (.output path (fileError e))

/-- Reports a problem and gives the exit code for it. -/
def fail (problem : Problem) : IO UInt32 := do
  IO.eprint problem.report
  return 1

/-- Carries out a command. -/
def execute (command : Command) : IO UInt32 := do
  let found ← gather command.paths
  let input ← if command.readsInput then readAll (← IO.getStdin) .empty else pure .empty
  let now := Text.Instant.text (← Std.Time.Timestamp.now).toSecondsSinceUnixEpoch.toInt.toNat
  let files : Files := fun path => (found.lookup path).getD (.error .notFound)
  match (Surroundings.mk files input.toList now).run command with
  | .error problem => fail problem
  | .ok (.print text) =>
    IO.print (String.ofList text)
    return 0
  | .ok (.save path text count) =>
    match ← saveFile path text with
    | .error problem => fail problem
    | .ok () =>
      IO.eprintln (savedMessage path count)
      return 0

end JsonShape.CommandLine

open JsonShape.CommandLine in
/-- Runs the program with the arguments of the command line. -/
def main (arguments : List String) : IO UInt32 := do
  match Request.ofArguments arguments with
  | .misuse =>
    IO.eprint Topic.program.text
    return 2
  | .help topic =>
    IO.print topic.text
    return 0
  | .run command => execute command

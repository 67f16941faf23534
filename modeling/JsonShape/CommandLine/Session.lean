import JsonShape.CommandLine.Help
import JsonShape.CommandLine.Run
import JsonShape.Files.Tree

/-!
# A run of the program on a file system in memory
-/

namespace JsonShape.CommandLine

/-- What a run leaves behind. -/
structure Session where
  /-- The exit code: 0 for success, 1 for a problem, 2 for arguments that are not understood. -/
  exit : Nat
  /-- What is printed. -/
  output : List Char
  /-- The problem that is reported, if there is one. -/
  problem : Option Problem
  /-- What else is reported. -/
  notice : String
  /-- The files after the run. -/
  files : FileSystem

/-- Saves a text, and makes the directory for it if need be. -/
def save (fs : FileSystem) (path : String) (text : List Char) : Except Problem FileSystem := do
  let fs ← match directoryOf? path with
    | some directory => (fs.makeDirectories directory).mapError (.directory directory)
    | none => .ok fs
  (fs.write path (String.ofList text).toUTF8.toList).mapError (.output path)

/-- Runs the program: on a file system, with a standard input, at a point in time. -/
def session (fs : FileSystem) (input : List UInt8) (now : String) (arguments : List String) :
    Session :=
  match Request.ofArguments arguments with
  | .misuse => ⟨2, [], none, Topic.program.text, fs⟩
  | .help topic => ⟨0, topic.text.toList, none, "", fs⟩
  | .run command =>
    match (Surroundings.mk fs.look input now).run command with
    | .error problem => ⟨1, [], some problem, "", fs⟩
    | .ok (.print text) => ⟨0, text, none, "", fs⟩
    | .ok (.save path text count) =>
      match save fs path text with
      | .ok fs => ⟨0, [], none, savedMessage path count ++ "\n", fs⟩
      | .error problem => ⟨1, [], some problem, "", fs⟩

/-- The line that reports a problem. -/
def Problem.report (p : Problem) : String := "error: " ++ p.message ++ "\n"

/-- All that is reported. -/
def Session.report (s : Session) : String :=
  match s.problem with
  | some problem => problem.report
  | none => s.notice

end JsonShape.CommandLine

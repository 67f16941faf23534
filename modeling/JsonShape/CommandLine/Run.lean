import JsonShape.Artifact.Document
import JsonShape.CommandLine.Arguments
import JsonShape.Settings.Loading

/-!
# Running a command

A command reads files and perhaps the standard input. It gives a text to print or to save, or the
problem that kept it from doing so. Settings are read first, then the definitions, and the value last.
-/

namespace JsonShape.CommandLine

/-- Why a command could not be carried out. -/
inductive Problem where
  /-- An input could not be loaded. -/
  | input (path : String) (e : LoadError)
  /-- The settings could not be loaded. -/
  | settings (path : String) (e : LoadError)
  /-- The inputs do not go together, or do not compile. -/
  | definitions (e : LoadError)
  /-- No shape has the name. -/
  | unknownName (name : String)
  /-- The standard input could not be read. -/
  | standardInput (e : FileError)
  /-- The file of the value could not be read. -/
  | valueFile (path : String) (e : FileError)
  /-- The value is no JSON. -/
  | value (f : Fault)
  /-- The value does not have the shape. -/
  | refused (f : Failure)
  /-- The directory of the output could not be made. -/
  | directory (path : String) (e : FileError)
  /-- The output could not be written. -/
  | output (path : String) (e : FileError)

/-- A path between single quotes. -/
def named (path : String) : String := "'" ++ path ++ "'"

/-- The wording of a problem. -/
def Problem.message : Problem → String
  | .input path e => "Failed to load " ++ named path ++ ": " ++ e.message
  | .settings path e => "Failed to load config " ++ named path ++ ": " ++ e.message
  | .definitions e => e.message
  | .unknownName name => "Unknown type " ++ named name
  | .standardInput e => "Failed to read stdin: " ++ e.message
  | .valueFile path e => "Failed to read " ++ named path ++ ": " ++ e.message
  | .value f => "Invalid JSON value: " ++ f.message
  | .refused f => f.message
  | .directory path e => "Failed to create output directory " ++ named path ++ ": " ++ e.message
  | .output path e => "Failed to write " ++ named path ++ ": " ++ e.message

/-- The fault of a JSON text that a problem reports. -/
def Problem.fault? : Problem → Option Fault
  | .input _ (.json f) => some f
  | .value f => some f
  | _ => none

/-- What a command has produced. -/
inductive Product where
  /-- A text to print. -/
  | print (text : List Char)
  /-- A text to save, and the number of names in it. -/
  | save (path : String) (text : List Char) (count : Nat)

/-- What a command reads. -/
structure Surroundings where
  /-- The files. -/
  files : Files
  /-- The standard input. -/
  input : List UInt8
  /-- The point in time. -/
  now : String

namespace Surroundings

/-- The settings in a file, or those that hold when there is none. -/
def settings (s : Surroundings) : Option String → Except Problem Settings
  | none => .ok {}
  | some path => (Settings.ofFile s.files path).mapError (.settings path)

/-- The catalog of an input. -/
def catalog (s : Surroundings) (path : String) : Except Problem Catalog :=
  (Catalog.ofPath s.files path).mapError (.input path)

/-- The merged catalog of the inputs, and its registry. -/
def registry (s : Surroundings) (inputs : List String) : Except Problem (Catalog × Registry) := do
  let catalogs ← inputs.mapM s.catalog
  let merged ← (Catalog.merge catalogs).mapError .definitions
  return (merged, ← merged.compile.mapError .definitions)

/-- The binding of a name. -/
def binding (s : Surroundings) (inputs : List String) (name : String) : Except Problem Binding := do
  let (_, registry) ← s.registry inputs
  match registry.get? name with
  | some binding => return binding
  | none => throw (.unknownName name)

/-- The text of a file that has been read. -/
def textOf (bytes : List UInt8) : Except FileError (List Symbol) :=
  let symbols := Symbol.ofBytes bytes
  if symbols.all Option.isSome then .ok symbols else .error .malformedText

/-- The value in a file; a dash stands for the standard input. -/
def value (s : Surroundings) (path : String) : Except Problem Json := do
  let text ←
    if path = "-" then (textOf s.input).mapError .standardInput
    else (s.files.bytes path >>= textOf).mapError (.valueFile path)
  (Json.ofText text).mapError .value

/-- Publishes the definitions in the inputs. -/
def generate (s : Surroundings) (inputs : List String) (settings output : Option String)
    (encoding : Option Encoding) (timestamp : Bool) : Except Problem Product := do
  let settings ← s.settings settings
  let (catalog, registry) ← s.registry inputs
  let artifact := { Artifact.ofRegistry registry with
    header := settings.header.toList
    sourceHash := some catalog.checksum
    generatedAt := if timestamp then some s.now else none }
  let artifact := artifact.retain settings.selects
  let text := match encoding.getD settings.encoding with
    | .text => artifact.render
    | .json => artifact.toJson.pretty.toList
  match output with
  | some path => return .save path text artifact.types.length
  | none => return .print text

/-- A text as a line of its own. -/
def line (text : String) : List Char := text.toList ++ ['\n']

/-- Carries out a command. -/
def run (s : Surroundings) : Command → Except Problem Product
  | .generate inputs settings output encoding timestamp =>
    s.generate inputs settings output encoding timestamp
  | .check inputs name value allowsExtra settings => do
    let settings ← s.settings settings
    let binding ← s.binding inputs name
    let value ← s.value value
    (binding.validate (allowsExtra || settings.allowsExtra) value).mapError .refused
    return .print (line "valid")
  | .create inputs name value => do
    let binding ← s.binding inputs name
    let value ← s.value value
    let created ← (binding.create value).mapError .refused
    return .print (line created.pretty)
  | .schema inputs name => do
    let binding ← s.binding inputs name
    return .print (line binding.schema.toJson.pretty)
  | .list inputs => do
    let (_, registry) ← s.registry inputs
    return .print (registry.bindings.flatMap fun b => line (b.name ++ ": " ++ b.declaration.render))

end Surroundings

/-- The directory that has to be there before a file can be saved, if it has a name. -/
def directoryOf? (path : String) : Option String :=
  (Path.parent? path).filter fun directory => !directory.isEmpty

/-- What is reported when a text has been saved. -/
def savedMessage (path : String) (count : Nat) : String :=
  "Generated " ++ toString count ++ " type(s) into " ++ named path ++ "."

end JsonShape.CommandLine

import JsonShape.Files.Basic
import JsonShape.Json.Fault
import JsonShape.Registry.CompileError
import JsonShape.Text.Quoted

/-!
# What can go wrong while definitions are loaded
-/

namespace JsonShape

/-- Why definitions could not be loaded. -/
inductive LoadError where
  /-- A file could not be used. -/
  | file (e : FileError)
  /-- A JSON file was found, but could not be read. -/
  | jsonFile (e : FileError)
  /-- A JSON text was refused. -/
  | json (f : Fault)
  /-- A YAML text was refused. -/
  | yaml
  /-- The extension of a file says nothing about its format. -/
  | unsupportedFormat (path : String)
  /-- A name is no identifier. -/
  | invalidName (name : String)
  /-- Two definitions share a name. -/
  | duplicateName (name : String)
  /-- No source of definitions could be used. -/
  | noSources
  /-- The definitions do not compile. -/
  | compile (e : CompileError)

/-- The wording of a load error. -/
def LoadError.message : LoadError → String
  | .file e => "I/O error: " ++ e.message
  | .jsonFile e => "JSON error: " ++ e.message
  | .json f => "JSON error: " ++ f.message
  | .yaml => "YAML error: not a readable document of this kind"
  | .unsupportedFormat path => "unsupported definition file: " ++ path
  | .invalidName name => "invalid type name: " ++ Text.quoted name
  | .duplicateName name => "duplicate type name: " ++ name
  | .noSources => "no definition sources available"
  | .compile e => "compile error: " ++ e.message

end JsonShape

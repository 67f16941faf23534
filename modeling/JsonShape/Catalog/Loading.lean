import JsonShape.Catalog.Format
import JsonShape.Files.Basic

/-!
# Catalogs out of files

A document is read in the format that its extension shows. A directory is as good as all documents
in it, merged in the order of their names; files with other extensions, and directories in it, do not
count. A list of sources may be tried one after the other until one can be used.
-/

namespace JsonShape

/-- Refuses a file that could not be used. -/
def usable {α : Type} : Except FileError α → Except LoadError α
  | .ok x => .ok x
  | .error e => .error (.file e)

/-- The definitions in the file at a path. -/
def Definitions.ofFile (files : Files) (path : String) : Except LoadError Definitions :=
  match Format.ofPath? path with
  | none => .error (.unsupportedFormat path)
  | some format =>
    match files path, format with
    | .error e, _ => .error (.file e)
    | .ok (.directory _), .json => .error (.jsonFile .isDirectory)
    | .ok (.directory _), .yaml => .error .yaml
    | .ok (.file bytes), format => format.definitions (Symbol.ofBytes bytes)

namespace Catalog

/-- The catalog in the file at a path. -/
def ofFile (files : Files) (path : String) : Except LoadError Catalog := do
  ofDefinitions (← Definitions.ofFile files path) (.file path)

/-- The paths of the documents in the directory at a path, in the order of their names. -/
def documents (files : Files) (path : String) : Except FileError (List String) := do
  let names ← files.names path
  let isDocument (file : String) : Bool := files.hasFile file && (Format.ofPath? file).isSome
  let sorted := names.mergeSort fun a b => decide (a ≤ b)
  return (sorted.map (Path.join path)).filter isDocument

/-- The catalog of all documents in the directory at a path. -/
def ofDirectory (files : Files) (path : String) : Except LoadError Catalog := do
  let documents ← usable (documents files path)
  let definitions ← documents.mapM (Definitions.ofFile files)
  ofDefinitions ⟨some formatVersion, definitions.flatMap Definitions.types⟩ (.directory path)

/-- The catalog in the directory or file at a path. -/
def ofPath (files : Files) (path : String) : Except LoadError Catalog :=
  if files.hasDirectory path then ofDirectory files path else ofFile files path

/-- The catalog of a source; only files and directories can be loaded. -/
def ofSource? (files : Files) : Source → Option Catalog
  | .file path => (ofFile files path).toOption
  | .directory path => (ofDirectory files path).toOption
  | _ => none

/-- The catalog of the first source that can be loaded. All sources are named as its source. -/
def ofFirst (files : Files) (sources : List Source) : Except LoadError Catalog :=
  match sources.findSome? (ofSource? files) with
  | some c => .ok { c with source := .several sources }
  | none => .error .noSources

end Catalog

end JsonShape

import JsonShape.Artifact.Basic

/-!
# Artifacts as documents

The header is left out of the document when it is empty, and the time and the digest when they are
unknown. Reading accepts the document as an object or as the sequence of its five fields.
-/

namespace JsonShape

/-- An entry as a document. -/
def ArtifactEntry.toJson (entry : ArtifactEntry) : Json :=
  .object [("name", .string entry.name), ("declaration", .string entry.declaration),
    ("schema", entry.schema.toJson)]

/-- An artifact as a document. -/
def Artifact.toJson (a : Artifact) : Json :=
  let header := if a.header.isEmpty then [] else [("header", Json.array (a.header.map .string))]
  let fact (key : String) (value : Option String) : List (String × Json) :=
    match value with
    | some v => [(key, .string v)]
    | none => []
  .object ([("format_version", .string a.version)] ++ header
    ++ fact "generated_at" a.generatedAt ++ fact "source_hash" a.sourceHash
    ++ [("types", .array (a.types.map ArtifactEntry.toJson))])

namespace ArtifactEntry

/-- The fields of an entry, by place. -/
def fields : List String := ["name", "declaration", "schema"]

/-- What a reader of an entry asks for. -/
def interest : Interest := .record [("name", .whole), ("declaration", .whole), ("schema", .whole)]

/-- What is known of an entry while its fields are read. -/
structure Partial where
  /-- The name. -/
  name : Option String := none
  /-- The text of the declaration. -/
  declaration : Option String := none
  /-- The schema. -/
  schema : Option Schema := none

/-- Adds a field to what is known. -/
def step (known : Partial) (place : Nat) (node : Node) : Except Fault Partial :=
  match place with
  | 0 => do
    fresh "name" known.name
    return { known with name := some (← node.string?) }
  | 1 => do
    fresh "declaration" known.declaration
    return { known with declaration := some (← node.string?) }
  | _ => do
    fresh "schema" known.schema
    return { known with schema := some (← Schema.ofNode true node) }

/-- The entry of which all fields have been read. -/
def complete (isSequence : Bool) (known : Partial) : Except Fault ArtifactEntry := do
  let required {α : Type} := @required α "struct ArtifactEntry" fields
  let name ← required 0 isSequence known.name
  let declaration ← required 1 isSequence known.declaration
  let schema ← required 2 isSequence known.schema
  return ⟨name, declaration, schema⟩

/-- The entry a node spells. -/
def ofNode : Node → Except Fault ArtifactEntry
  | .mapping entries => do complete false (← Node.foldEntries fields step {} entries)
  | .sequence items => do complete true (← Node.foldItems step {} 0 items)
  | node => node.refuse "struct ArtifactEntry"

end ArtifactEntry

namespace Artifact

/-- The fields of an artifact, by place. -/
def fields : List String := ["format_version", "header", "generated_at", "source_hash", "types"]

/-- What a reader of an artifact asks for. -/
def interest : Interest :=
  .record [("format_version", .whole), ("header", .whole), ("generated_at", .whole),
    ("source_hash", .whole), ("types", .listOf ArtifactEntry.interest)]

/-- What is known of an artifact while its fields are read. -/
structure Partial where
  /-- The version. -/
  version : Option String := none
  /-- The header texts. -/
  header : Option (List String) := none
  /-- The time, which may be stated to be unknown. -/
  generatedAt : Option (Option String) := none
  /-- The digest, which may be stated to be unknown. -/
  sourceHash : Option (Option String) := none
  /-- The names. -/
  types : Option (List ArtifactEntry) := none

/-- Adds a field to what is known. -/
def step (known : Partial) (place : Nat) (node : Node) : Except Fault Partial :=
  match place with
  | 0 => do
    fresh "format_version" known.version
    return { known with version := some (← node.string?) }
  | 1 => do
    fresh "header" known.header
    return { known with header := some (← node.listOf Node.string?) }
  | 2 => do
    fresh "generated_at" known.generatedAt
    return { known with generatedAt := some (← node.optionalString?) }
  | 3 => do
    fresh "source_hash" known.sourceHash
    return { known with sourceHash := some (← node.optionalString?) }
  | _ => do
    fresh "types" known.types
    return { known with types := some (← node.listOf ArtifactEntry.ofNode) }

/-- The artifact of which all fields have been read. -/
def complete (isSequence : Bool) (known : Partial) : Except Fault Artifact := do
  let required {α : Type} := @required α "struct Artifact" fields
  let version ← required 0 isSequence known.version
  let types ← required 4 isSequence known.types
  return ⟨version, known.header.getD [], known.generatedAt.getD none, known.sourceHash.getD none,
    types⟩

/-- The artifact a node spells. -/
def ofNode : Node → Except Fault Artifact
  | .mapping entries => do complete false (← Node.foldEntries fields step {} entries)
  | .sequence items => do complete true (← Node.foldItems step {} 0 items)
  | node => node.refuse "struct Artifact"

/-- The artifact a JSON text spells. -/
def ofJsonText (text : List Symbol) : Except Fault Artifact := Json.decodeText interest ofNode text

end Artifact

end JsonShape

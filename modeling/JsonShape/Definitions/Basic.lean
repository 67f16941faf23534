import JsonShape.Shape.Writer
import JsonShape.Shape.Reader
import JsonShape.Json.Reader

/-!
# Definitions

A list of shapes with their names, in the order in which they were declared. A name may be looked up
before it is known whether all names are distinct; the first definition of a name is the one that is
found.

As a document the definitions are a record of the version of the format, if one is stated, and the
list of named shapes. The version is left out of the document when there is none.
-/

namespace JsonShape

/-- The version of the definition format that this library writes. -/
def formatVersion : String := "1.0.0"

/-- A shape with its name. -/
structure Definition where
  /-- The name by which other shapes refer to it. -/
  name : String
  /-- The shape. -/
  shape : Shape

/-- Named shapes in the order of their declaration. -/
structure Definitions where
  /-- The version of the format, if it is stated. -/
  version : Option String
  /-- The named shapes. -/
  types : List Definition

namespace Definitions

/-- No definitions, in the current version of the format. -/
def empty : Definitions := ⟨some formatVersion, []⟩

/-- The definitions with one more at the end. -/
def push (definitions : Definitions) (name : String) (shape : Shape) : Definitions :=
  { definitions with types := definitions.types ++ [⟨name, shape⟩] }

/-- The names in the order of declaration. -/
def names (definitions : Definitions) : List String := definitions.types.map Definition.name

/-- The shape of the first definition of a name. -/
def get? (definitions : Definitions) (name : String) : Option Shape :=
  (definitions.types.find? fun d => d.name == name).map Definition.shape

end Definitions

/-! ## As documents -/

/-- A definition as a document. -/
def Definition.toJson (d : Definition) : Json :=
  .object [("name", .string d.name), ("type", d.shape.toJson .definition)]

/-- The named shapes as a document. -/
def Definitions.typesToJson (types : List Definition) : Json := .array (types.map Definition.toJson)

/-- Definitions as a document. -/
def Definitions.toJson (definitions : Definitions) : Json :=
  let version := match definitions.version with
    | some v => [("format_version", Json.string v)]
    | none => []
  .object (version ++ [("types", typesToJson definitions.types)])

namespace Definition

/-- The fields of a definition, by place. -/
def fields : List String := ["name", "type"]

/-- What a reader of a definition asks for. -/
def interest : Interest := .record [("name", .whole), ("type", .whole)]

/-- What is known of a definition while its fields are read. -/
structure Partial where
  /-- The name. -/
  name : Option String := none
  /-- The shape. -/
  shape : Option Shape := none

/-- Adds a field to what is known. -/
def step (known : Partial) (place : Nat) (node : Node) : Except Fault Partial :=
  match place with
  | 0 => do
    fresh "name" known.name
    return { known with name := some (← node.string?) }
  | _ => do
    fresh "type" known.shape
    return { known with shape := some (← Shape.ofNode .definition true node) }

/-- The definition of which all fields have been read. -/
def complete (isSequence : Bool) (known : Partial) : Except Fault Definition := do
  let required {α : Type} := @required α "struct TypeDefinition" fields
  let name ← required 0 isSequence known.name
  let shape ← required 1 isSequence known.shape
  return ⟨name, shape⟩

/-- The definition a node spells. -/
def ofNode : Node → Except Fault Definition
  | .mapping entries => do complete false (← Node.foldEntries fields step {} entries)
  | .sequence items => do complete true (← Node.foldItems step {} 0 items)
  | node => node.refuse "struct TypeDefinition"

end Definition

namespace Definitions

/-- The fields of definitions, by place. -/
def fields : List String := ["format_version", "types"]

/-- What a reader of definitions asks for. -/
def interest : Interest :=
  .record [("format_version", .whole), ("types", .listOf Definition.interest)]

/-- What is known of definitions while their fields are read. -/
structure Partial where
  /-- The version, which may be stated to be none. -/
  version : Option (Option String) := none
  /-- The named shapes. -/
  types : Option (List Definition) := none

/-- Adds a field to what is known. -/
def step (known : Partial) (place : Nat) (node : Node) : Except Fault Partial :=
  match place with
  | 0 => do
    fresh "format_version" known.version
    return { known with version := some (← node.optionalString?) }
  | _ => do
    fresh "types" known.types
    return { known with types := some (← node.listOf Definition.ofNode) }

/-- The definitions of which all fields have been read. Both fields may be left out. -/
def complete (known : Partial) : Definitions :=
  ⟨known.version.getD none, known.types.getD []⟩

/-- The definitions a node spells. -/
def ofNode : Node → Except Fault Definitions
  | .mapping entries => do return complete (← Node.foldEntries fields step {} entries)
  | .sequence items => do return complete (← Node.foldItems step {} 0 items)
  | node => node.refuse "struct TypeDefinitions"

/-- The definitions a value spells. -/
def ofJson (value : Json) : Except Fault Definitions := ofNode (Node.ofJson interest value)

/-- The definitions a JSON text spells. -/
def ofJsonText (text : List Symbol) : Except Fault Definitions :=
  Json.decodeText interest ofNode text

end Definitions

end JsonShape

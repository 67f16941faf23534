import JsonShape.Registry.Basic
import JsonShape.Text.Tidy

/-!
# Artifacts

An artifact lists the declaration and the schema of every compiled name, with what is known about
its making. As text it begins with comment lines; then follow two lines for each name, the type and
the schema, after a blank line. A header may have any number of lines, each of which becomes a
comment line of its own.
-/

namespace JsonShape

/-- A name in an artifact. -/
structure ArtifactEntry where
  /-- The name. -/
  name : String
  /-- The text of its declaration. -/
  declaration : String
  /-- Its schema. -/
  schema : Schema

/-- The published form of a registry. -/
structure Artifact where
  /-- The version of the definition format. -/
  version : String
  /-- Texts that are put in front as comments. -/
  header : List String
  /-- When the artifact was made. -/
  generatedAt : Option String
  /-- The digest of the definitions it was made from. -/
  sourceHash : Option String
  /-- The names in the order of their definitions. -/
  types : List ArtifactEntry

/-- A binding as it is listed in an artifact. -/
def Binding.toArtifactEntry (b : Binding) : ArtifactEntry :=
  ⟨b.name, b.declaration.render, b.schema⟩

namespace Artifact

/-- An artifact without names. -/
def empty : Artifact := ⟨formatVersion, [], none, none, []⟩

/-- The artifact of a registry. -/
def ofRegistry (r : Registry) : Artifact :=
  { empty with types := r.bindings.map Binding.toArtifactEntry }

/-- The artifact with one more header text. -/
def addHeader (a : Artifact) (text : String) : Artifact := { a with header := a.header ++ [text] }

/-- The artifact with only the names that `keep` approves. -/
def retain (a : Artifact) (keep : String → Bool) : Artifact :=
  { a with types := a.types.filter fun entry => keep entry.name }

/-- The first entry of a name. -/
def get? (a : Artifact) (name : String) : Option ArtifactEntry :=
  a.types.find? fun entry => entry.name == name

/-- A comment line. -/
def comment (line : List Char) : List Char := '/' :: '/' :: ' ' :: line ++ ['\n']

/-- The comment lines of a header text. -/
def headerText (header : String) : List Char := (Text.lines header.toList).flatMap comment

/-- A comment line that states a fact, if it is known. -/
def factText (label : String) : Option String → List Char
  | some fact => comment (label.toList ++ fact.toList)
  | none => []

/-- The blank line and the two lines of a name. -/
def entryText (entry : ArtifactEntry) : List Char :=
  '\n' :: "type ".toList ++ entry.name.toList ++ " = ".toList ++ entry.declaration.toList
    ++ ';' :: '\n' :: "schema ".toList ++ entry.name.toList ++ " = ".toList
    ++ entry.schema.toJson.compactChars ++ [';', '\n']

/-- The text of an artifact. -/
def text (a : Artifact) : List Char :=
  comment ("typeshape artifact ".toList ++ a.version.toList)
    ++ a.header.flatMap headerText
    ++ factText "generated-at: " a.generatedAt
    ++ factText "source-hash: " a.sourceHash
    ++ a.types.flatMap entryText

/-- The tidy text of an artifact. -/
def render (a : Artifact) : List Char := Text.tidy a.text

end Artifact

end JsonShape

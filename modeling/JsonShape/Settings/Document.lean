import JsonShape.Json.Record
import JsonShape.Settings.Basic
import JsonShape.Yaml.Form
import JsonShape.Yaml.Writer

/-!
# Settings as documents

Settings are kept in a YAML document. All of its fields but the version may be left out.
-/

namespace JsonShape

/-! ## Decoding -/

/-- The encoding that a word names. -/
def Encoding.ofWord (word : String) : Except Fault Encoding :=
  if word = "text" then .ok .text
  else if word = "json" then .ok .json
  else mismatch (.unknownVariant word ["text", "json"])

/-- The encoding a node names, by its word or by an object with the word as its only key, under
which there is nothing. -/
def Encoding.ofNode : Node → Except Fault Encoding
  | .string word => ofWord word
  | .mapping [(key, value)] => do
    let encoding ← ofWord (← key.string?)
    match value with
    | .null => return encoding
    | value => value.refuse "unit"
  | .mapping _ => mismatch (.wrongValue .map "map with a single key")
  | node => node.refuse "string or map"

namespace Settings

/-- The fields that decide about values. -/
def valueFields : List String := ["allow_additional_properties"]

/-- What a node says about values. -/
def valuesOfNode (node : Node) : Except Fault Bool := do
  let step (known : Option Bool) (_ : Nat) (node : Node) : Except Fault (Option Bool) := do
    fresh "allow_additional_properties" known
    return some (← node.bool?)
  let known ← match node with
    | .mapping entries => Node.foldEntries valueFields step none entries
    | .sequence items => Node.foldItems step none 0 items
    | node => node.refuse "struct ValidationConfig"
  return known.getD false

/-- The fields that decide about the output. -/
def outputFields : List String := ["format", "header"]

/-- What a node says about the output, as far as it is known. -/
structure PartialOutput where
  /-- The encoding. -/
  encoding : Option Encoding := none
  /-- The header, which may be stated to be none. -/
  header : Option (Option String) := none

/-- Adds a field to what is known of the output. -/
def PartialOutput.step (known : PartialOutput) (place : Nat) (node : Node) :
    Except Fault PartialOutput :=
  match place with
  | 0 => do
    fresh "format" known.encoding
    return { known with encoding := some (← Encoding.ofNode node) }
  | _ => do
    fresh "header" known.header
    return { known with header := some (← node.optionalString?) }

/-- What a node says about the output. -/
def outputOfNode : Node → Except Fault PartialOutput
  | .mapping entries => Node.foldEntries outputFields PartialOutput.step {} entries
  | .sequence items => Node.foldItems PartialOutput.step {} 0 items
  | node => node.refuse "struct OutputConfig"

/-- The fields of settings, by place. -/
def fields : List String := ["version", "include", "exclude", "validation", "output"]

/-- What is known of settings while their fields are read. -/
structure Partial where
  /-- The version. -/
  version : Option String := none
  /-- The selected names. -/
  included : Option (List String) := none
  /-- The excluded names. -/
  excluded : Option (List String) := none
  /-- Whether values may hold undeclared keys. -/
  allowsExtra : Option Bool := none
  /-- What is said about the output. -/
  output : Option PartialOutput := none

/-- Adds a field to what is known. -/
def step (known : Partial) (place : Nat) (node : Node) : Except Fault Partial :=
  match place with
  | 0 => do
    fresh "version" known.version
    return { known with version := some (← node.string?) }
  | 1 => do
    fresh "include" known.included
    return { known with included := some (← node.listOf Node.string?) }
  | 2 => do
    fresh "exclude" known.excluded
    return { known with excluded := some (← node.listOf Node.string?) }
  | 3 => do
    fresh "validation" known.allowsExtra
    return { known with allowsExtra := some (← valuesOfNode node) }
  | _ => do
    fresh "output" known.output
    return { known with output := some (← outputOfNode node) }

/-- The settings of which all fields have been read. -/
def complete (isSequence : Bool) (known : Partial) : Except Fault Settings := do
  let version ← required "struct GenerateConfig" fields 0 isSequence known.version
  let output := known.output.getD {}
  return {
    version
    included := known.included.getD []
    excluded := known.excluded.getD []
    allowsExtra := known.allowsExtra.getD false
    encoding := output.encoding.getD .text
    header := output.header.getD none }

/-- The settings a node spells. -/
def ofNode : Node → Except Fault Settings
  | .mapping entries => do complete false (← Node.foldEntries fields step {} entries)
  | .sequence items => do complete true (← Node.foldItems step {} 0 items)
  | node => node.refuse "struct GenerateConfig"

/-- What a reader of settings asks for. -/
def interest : Interest :=
  .record [("version", .whole), ("include", .listOf .whole), ("exclude", .listOf .whole),
    ("validation", .record [("allow_additional_properties", .whole)]),
    ("output", .record [("format", .whole), ("header", .whole)])]

/-- The settings a value spells. -/
def ofJson (value : Json) : Except Fault Settings := ofNode (Node.ofJson interest value)

/-- What is expected of a YAML document of settings. -/
def form : Yaml.Form :=
  .record [("version", .text), ("include", .listOf .text), ("exclude", .listOf .text),
    ("validation", .record [("allow_additional_properties", .flag)]),
    ("output", .record [("format", .choice), ("header", .optionalText)])]

/-- The settings a YAML text spells. -/
def ofYamlText? (text : List Symbol) : Option Settings := do
  (ofNode (← Yaml.read? form text)).toOption

/-! ## Writing -/

/-- Settings as a value. -/
def toJson (s : Settings) : Json :=
  let header := match s.header with
    | some text => [("header", Json.string text)]
    | none => []
  .object [("version", .string s.version), ("include", .array (s.included.map .string)),
    ("exclude", .array (s.excluded.map .string)),
    ("validation", .object [("allow_additional_properties", .bool s.allowsExtra)]),
    ("output", .object (("format", .string s.encoding.word) :: header))]

/-- A key in front of its value. -/
def key (name : String) : List Char := name.toList ++ [':']

/-- A list of texts after its key. -/
def list (texts : List String) : List Char :=
  if texts.isEmpty then [' ', '[', ']', '\n']
  else '\n' :: texts.flatMap fun text => '-' :: Yaml.Writer.scalar 2 text

/-- Settings as a YAML document. -/
def toYaml (s : Settings) : List Char :=
  let header := match s.header with
    | some text => key "  header" ++ Yaml.Writer.scalar 4 text
    | none => []
  key "version" ++ Yaml.Writer.scalar 2 s.version
    ++ key "include" ++ list s.included
    ++ key "exclude" ++ list s.excluded
    ++ key "validation" ++ ['\n']
    ++ key "  allow_additional_properties"
    ++ (if s.allowsExtra then " true\n" else " false\n").toList
    ++ key "output" ++ ['\n']
    ++ key "  format" ++ Yaml.Writer.scalar 4 s.encoding.word
    ++ header

end Settings

end JsonShape

import JsonShape.Settings.Basic

/-!
# The commands and their options

Every command has a guide, which lists its options. Arguments are read by it, and it is what help is
written from; so an option that is explained is one that is understood.
-/

namespace JsonShape.CommandLine

/-- What an option takes. -/
inductive OptionKind where
  /-- Nothing. -/
  | flag
  /-- A path, which is not empty. -/
  | path
  /-- Any text. -/
  | text
  /-- The word for an encoding. -/
  | encoding

/-- The words for encodings. -/
def encodingWords : List String := [Encoding.text.word, Encoding.json.word]

/-- Whether an option of some kind can take a value. -/
def OptionKind.takes (kind : OptionKind) (value : String) : Bool :=
  match kind with
  | .flag => false
  | .path => !value.isEmpty
  | .text => true
  | .encoding => encodingWords.contains value

/-- An option of a command. -/
structure CommandOption where
  /-- Its name, which is written after two dashes. -/
  name : String
  /-- What it takes. -/
  kind : OptionKind
  /-- What help calls its value. -/
  placeholder : String := ""
  /-- Whether it has to be given. -/
  isRequired : Bool := false
  /-- What it is for. -/
  about : String

/-- What a command is for and which options it has. Every command takes inputs as well. -/
structure Guide where
  /-- The word for the command. -/
  name : String
  /-- What it does. -/
  about : String
  /-- Its options. -/
  options : List CommandOption

/-- The kind of the option with a name. -/
def Guide.kind? (guide : Guide) (name : String) : Option OptionKind :=
  (guide.options.find? fun option => option.name == name).map CommandOption.kind

/-- The option that names a shape. -/
def nameOption (about : String) : CommandOption := ⟨"type", .text, "TYPE_NAME", true, about⟩

/-- The option that says where a value is. -/
def valueOption : CommandOption :=
  ⟨"value", .path, "VALUE", true, "JSON value file, or \x60-\x60 for stdin"⟩

/-- The guides of all commands. -/
def guides : List Guide :=
  [⟨"generate", "Compile definitions and emit the formatted artifact",
      [⟨"config", .path, "CONFIG", false, "Path to a typeshape.yml generation config"⟩,
        ⟨"output", .path, "OUTPUT", false, "Output file (default: stdout)"⟩,
        ⟨"format", .encoding, "FORMAT", false, "Output format (overrides the config)"⟩,
        ⟨"no-timestamp", .flag, "", false,
          "Omit the generation timestamp for reproducible output"⟩]⟩,
    ⟨"check", "Validate a JSON value against a named type",
      [nameOption "Named type to check against", valueOption,
        ⟨"allow-additional-properties", .flag, "", false, "Tolerate undeclared object keys"⟩,
        ⟨"config", .path, "CONFIG", false,
          "Path to a typeshape.yml whose validation policy applies"⟩]⟩,
    ⟨"create", "Validate a JSON value and print its sanitized form",
      [nameOption "Named type to build", valueOption]⟩,
    ⟨"schema", "Print the schema descriptor of a named type",
      [nameOption "Named type to describe"]⟩,
    ⟨"list", "List named types with their declarations", []⟩]

/-- The word that asks for help. -/
def helpName : String := "help"

/-- What can be explained. -/
inductive Topic where
  /-- The program with all its commands. -/
  | program
  /-- A command. -/
  | command (guide : Guide)
  /-- How to ask for help. -/
  | help

end JsonShape.CommandLine

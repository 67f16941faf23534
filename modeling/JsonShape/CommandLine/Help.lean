import JsonShape.CommandLine.Guide

/-!
# Help

A help text says in one line what something is for and in another how it is written. Then follow
sections of two columns: what can be written on the left, and what it means on the right. The right
column begins two blanks after the widest entry of the left.
-/

namespace JsonShape.CommandLine

/-- A row of a section: what can be written, and what it means. -/
abbrev Row := String × String

/-- A section with its title. -/
def columns (title : String) (rows : List Row) : String :=
  let width := (rows.map fun row => row.1.length).foldl max 0
  let line (row : Row) : String :=
    "  " ++ row.1 ++ String.ofList (List.replicate (width - row.1.length + 2) ' ') ++ row.2 ++ "\n"
  "\n" ++ title ++ ":\n" ++ String.join (rows.map line)

/-- The first lines of a help text. -/
def headline (about usage : String) : String :=
  about ++ "\n\nUsage: typeshape " ++ usage ++ "\n"

/-- What the word for help does. -/
def aboutHelp : String := "Print this message or the help of the given subcommand(s)"

/-- The row of the option that asks for help. -/
def helpRow : Row := ("-h, --help", "Print help")

namespace CommandOption

/-- An option as it is written, with a placeholder for its value. -/
def written (option : CommandOption) : String :=
  "--" ++ option.name ++
    (if option.placeholder.isEmpty then "" else " <" ++ option.placeholder ++ ">")

/-- The row of an option. No option but that for help has a short form; the names of all stand in one
column. -/
def row (option : CommandOption) : Row :=
  let words := match option.kind with
    | .encoding => " [possible values: " ++ ", ".intercalate encodingWords ++ "]"
    | _ => ""
  ("    " ++ option.written, option.about ++ words)

end CommandOption

/-- How a command is written: the options that have to be given are spelled out. -/
def Guide.usage (guide : Guide) : String :=
  let required := guide.options.filter CommandOption.isRequired
  guide.name ++ (if required.length < guide.options.length then " [OPTIONS]" else "") ++
    String.join (required.map fun option => " " ++ option.written) ++ " <INPUTS>..."

/-- The help text on a topic. -/
def Topic.text : Topic → String
  | .program =>
    headline "Compile structural type definitions into schemas, validators, and sanitizers"
        "<COMMAND>" ++
      columns "Commands"
        ((guides.map fun guide => (guide.name, guide.about)) ++ [(helpName, aboutHelp)]) ++
      columns "Options" [helpRow]
  | .command guide =>
    headline guide.about guide.usage ++
      columns "Arguments"
        [("<INPUTS>...", "Definition files and/or directories of definition files")] ++
      columns "Options" (guide.options.map CommandOption.row ++ [helpRow])
  | .help =>
    headline aboutHelp (helpName ++ " [COMMAND]...") ++
      columns "Arguments" [("[COMMAND]...", "Print help for the subcommand(s)")]

end JsonShape.CommandLine

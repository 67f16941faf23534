import JsonShape.Catalog.Basic
import JsonShape.Definitions.Yaml
import JsonShape.Files.Path

/-!
# Formats of definition documents
-/

namespace JsonShape

/-- A format of definition documents. -/
inductive Format where
  /-- JSON. -/
  | json
  /-- YAML. -/
  | yaml
  deriving DecidableEq

/-- The format that the extension of a path shows; upper case is as good as lower case. -/
def Format.ofPath? (path : String) : Option Format := do
  let extension := String.ofList ((← Path.extension? path).map Char.toLower)
  if extension = "json" then some .json
  else if extension = "yaml" ∨ extension = "yml" then some .yaml
  else none

/-- The definitions that a text in a format spells. -/
def Format.definitions (format : Format) (text : List Symbol) : Except LoadError Definitions :=
  match format with
  | .json =>
    match Definitions.ofJsonText text with
    | .ok definitions => .ok definitions
    | .error f => .error (.json f)
  | .yaml =>
    match Definitions.ofYamlText? text with
    | some definitions => .ok definitions
    | none => .error .yaml

/-- The catalog that a text in a format spells. -/
def Catalog.ofText (format : Format) (text : String) : Except LoadError Catalog := do
  ofDefinitions (← format.definitions (Symbol.ofString text)) .inline

end JsonShape

import JsonShape.Definitions.Basic
import JsonShape.Yaml.Form

/-!
# Shapes and definitions in YAML

A YAML document of definitions has the parts of a JSON document of definitions. The names and the
version are texts, whatever they look like, but inside a shape everything is read for what it looks
like: there, a name that looks like a number is one, and is refused.
-/

namespace JsonShape

/-- What is expected of a shape. -/
def Shape.form : Yaml.Form := .tagged Dialect.definition.tag

/-- The shape a YAML text spells. -/
def Shape.ofYamlText? (text : List Symbol) : Option Shape := do
  (Shape.ofNode .definition true (← Yaml.read? form text)).toOption

/-- What is expected of a definition. -/
def Definition.form : Yaml.Form := .record [("name", .text), ("type", Shape.form)]

namespace Definitions

/-- What is expected of definitions. -/
def form : Yaml.Form :=
  .record [("format_version", .optionalText), ("types", .listOf Definition.form)]

/-- The definitions a YAML text spells. -/
def ofYamlText? (text : List Symbol) : Option Definitions := do
  (ofNode (← Yaml.read? form text)).toOption

end Definitions

end JsonShape

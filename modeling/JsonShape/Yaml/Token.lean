/-!
# The tokens of a YAML text
-/

namespace JsonShape.Yaml

/-- The name of a kind of node. Its bytes need not spell a text; a zero byte ends it. -/
abbrev Tag := List UInt8

/-- How a scalar is written. -/
inductive Style where
  /-- Without any marks around it. -/
  | plain
  /-- On lines of its own that are kept as they are. -/
  | literal
  /-- Between quotes, or on lines of its own that are folded. -/
  | other
  deriving DecidableEq

/-- A token. -/
inductive Token where
  /-- The stated version of YAML. -/
  | version (major minor : Nat)
  /-- A short form for the beginning of tags. -/
  | abbreviation (handle : String) (expansion : Tag)
  /-- The mark of the start of a document. -/
  | documentStart
  /-- The mark of the end of a document. -/
  | documentEnd
  /-- A sequence begins, one item under the other. -/
  | sequenceStart
  /-- A mapping begins, one entry under the other. -/
  | mappingStart
  /-- The indentation of a sequence or mapping ends. -/
  | blockEnd
  /-- An opening bracket. -/
  | openBracket
  /-- A closing bracket. -/
  | closeBracket
  /-- An opening brace. -/
  | openBrace
  /-- A closing brace. -/
  | closeBrace
  /-- A comma between items or entries. -/
  | comma
  /-- A dash in front of an item. -/
  | dash
  /-- A key follows. -/
  | key
  /-- A value follows. -/
  | value
  /-- A reference to the node with a name. -/
  | alias (name : String)
  /-- The name of the node that follows. -/
  | anchor (name : String)
  /-- The tag of the node that follows; the handle is short for the beginning of it. -/
  | tag (handle : String) (suffix : Tag)
  /-- A scalar. -/
  | scalar (style : Style) (text : String)
  deriving DecidableEq

end JsonShape.Yaml

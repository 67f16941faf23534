import JsonShape.Shape.Basic

/-!
# Two ways to write a shape

Shapes are written as JSON objects that carry their kind under a tag. There are two vocabularies for
them: that of *definitions*, in which users write shapes down, and that of *schemas*, in which the
compiled shapes are published. They differ in words and in the order of a property's fields, and
nothing else, so one record of words serves both the reader and the writer of either.
-/

namespace JsonShape

/-- The words in which shapes are written. -/
structure Dialect where
  /-- What a written shape is called in messages. -/
  title : String
  /-- What a written property is called in messages. -/
  propertyTitle : String
  /-- What a written reference is called in messages. -/
  referenceTitle : String
  /-- What a written literal is called in messages. -/
  literalTitle : String
  /-- The key of the tag. -/
  tag : String
  /-- The tag of a reference. -/
  aliasTag : String
  /-- The tag of a literal. -/
  literalTag : String
  /-- The field of an array that holds the shape of its items. -/
  elementField : String
  /-- The field of a property that holds its shape. -/
  shapeField : String
  /-- Whether a property states first whether it is required and then its shape. The field then has
  to be there; otherwise it comes last and may be left out, which means that it is required. -/
  requiredFirst : Bool

namespace Dialect

/-- The words of definition documents. -/
def definition : Dialect where
  title := "Type"
  propertyTitle := "Property"
  referenceTitle := "struct variant Type::Alias"
  literalTitle := "Literal"
  tag := "kind"
  aliasTag := "alias"
  literalTag := "literal"
  elementField := "element"
  shapeField := "type"
  requiredFirst := false

/-- The words of published schemas. -/
def schema : Dialect where
  title := "Schema"
  propertyTitle := "SchemaProperty"
  referenceTitle := "struct SchemaRef"
  literalTitle := "Const"
  tag := "type"
  aliasTag := "ref"
  literalTag := "const"
  elementField := "items"
  shapeField := "schema"
  requiredFirst := true

/-- The tag of a kind. -/
def word (d : Dialect) : Kind → String
  | .alias => d.aliasTag
  | .literal => d.literalTag
  | kind => kind.word

/-- All tags, in the order in which messages list them. -/
def words (d : Dialect) : List String := Kind.all.map d.word

end Dialect

end JsonShape

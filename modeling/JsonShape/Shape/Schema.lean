import JsonShape.Shape.Reader
import JsonShape.Shape.Writer

/-!
# Schemas

A schema describes a shape to tools. It follows the shape node by node and is never executed.
References stay references, so the schema of a shape that refers to itself is finite; what a
reference points to is looked up by its name.

Schemas are written in a vocabulary of their own (`Dialect.schema`). As a tree a schema says exactly
what the shape says: `Schema.shape` takes it back.
-/

namespace JsonShape

mutual

/-- A published description of a shape. -/
inductive Schema where
  /-- A pointer to the schema of a name. -/
  | ref (name : String)
  /-- Every value, and absence. -/
  | any
  /-- Arrays of items. -/
  | array (items : Schema)
  /-- The two truth values. -/
  | boolean
  /-- One single value. -/
  | const (value : Literal)
  /-- The null value. -/
  | null
  /-- Every number. -/
  | number
  /-- Objects with the listed properties. -/
  | object (properties : List SchemaProperty)
  /-- Every string. -/
  | string
  /-- Absence. -/
  | undefined
  /-- Alternatives in the order of trial. -/
  | union (members : List Schema)

/-- A property inside an object schema. -/
structure SchemaProperty where
  /-- The key. -/
  name : String
  /-- Whether an absent property is checked too. -/
  required : Bool
  /-- The schema of the value. -/
  schema : Schema

end

namespace Schema

mutual

/-- The schema of a shape. -/
def ofShape : Shape → Schema
  | .alias name => .ref name
  | .any => .any
  | .array element => .array (ofShape element)
  | .boolean => .boolean
  | .literal value => .const value
  | .null => .null
  | .number => .number
  | .object properties => .object (ofProperties properties)
  | .string => .string
  | .undefined => .undefined
  | .union members => .union (ofShapes members)

/-- The schemas of properties. -/
def ofProperties : List Property → List SchemaProperty
  | [] => []
  | ⟨name, shape, required⟩ :: rest => ⟨name, required, ofShape shape⟩ :: ofProperties rest

/-- The schemas of union members. -/
def ofShapes : List Shape → List Schema
  | [] => []
  | shape :: rest => ofShape shape :: ofShapes rest

end

mutual

/-- The shape a schema describes. -/
def shape : Schema → Shape
  | .ref name => .alias name
  | .any => .any
  | .array items => .array (shape items)
  | .boolean => .boolean
  | .const value => .literal value
  | .null => .null
  | .number => .number
  | .object properties => .object (propertyShapes properties)
  | .string => .string
  | .undefined => .undefined
  | .union members => .union (shapes members)

/-- The properties that property schemas describe. -/
def propertyShapes : List SchemaProperty → List Property
  | [] => []
  | ⟨name, required, schema⟩ :: rest => ⟨name, shape schema, required⟩ :: propertyShapes rest

/-- The shapes that schemas describe. -/
def shapes : List Schema → List Shape
  | [] => []
  | schema :: rest => shape schema :: shapes rest

end

/-- A schema as a document. -/
def toJson (schema : Schema) : Json := schema.shape.toJson .schema

/-- The schema a node spells. -/
def ofNode (outermost : Bool) (node : Node) : Except Fault Schema := do
  return ofShape (← Shape.ofNode .schema outermost node)

end Schema

end JsonShape

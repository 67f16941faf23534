import JsonShape.Shape.Dialect

/-!
# Shapes as JSON documents

The tag comes first and then the field of the kind, if it has one. Whether a property is required is
always written.
-/

namespace JsonShape.Shape

mutual

/-- A shape as a document in the words of a dialect. -/
def toJson (d : Dialect) : Shape → Json
  | .alias name => .object [(d.tag, .string d.aliasTag), ("name", .string name)]
  | .any => .object [(d.tag, .string (d.word .any))]
  | .array element =>
    .object [(d.tag, .string (d.word .array)), (d.elementField, toJson d element)]
  | .boolean => .object [(d.tag, .string (d.word .boolean))]
  | .literal value => .object [(d.tag, .string d.literalTag), ("value", value.toJson)]
  | .null => .object [(d.tag, .string (d.word .null))]
  | .number => .object [(d.tag, .string (d.word .number))]
  | .object properties =>
    .object [(d.tag, .string (d.word .object)), ("properties", .array (propertiesToJson d properties))]
  | .string => .object [(d.tag, .string (d.word .string))]
  | .undefined => .object [(d.tag, .string (d.word .undefined))]
  | .union members =>
    .object [(d.tag, .string (d.word .union)), ("members", .array (membersToJson d members))]

/-- Properties as documents. -/
def propertiesToJson (d : Dialect) : List Property → List Json
  | [] => []
  | ⟨name, shape, required⟩ :: rest =>
    let written :=
      if d.requiredFirst then
        [("name", .string name), ("required", .bool required), (d.shapeField, toJson d shape)]
      else
        [("name", .string name), (d.shapeField, toJson d shape), ("required", .bool required)]
    .object written :: propertiesToJson d rest

/-- Union members as documents. -/
def membersToJson (d : Dialect) : List Shape → List Json
  | [] => []
  | member :: rest => toJson d member :: membersToJson d rest

end

end JsonShape.Shape

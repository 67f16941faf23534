import JsonShape.Json.Printer

/-!
# Shapes

A *shape* describes what a JSON value may look like. Shapes are closed descriptions: the only way to
reach beyond a shape is an alias, which names another shape of the same set of definitions and is
looked up when a value is checked. That is what lets a shape refer to itself.

A shape may also describe the absence of a value: `any` and `undefined` accept it, and a union does
if one of its members does. Absence arises where an object lacks a property.
-/

namespace JsonShape

/-- A single value that a shape may stand for. -/
inductive Literal where
  /-- A truth value. -/
  | bool (b : Bool)
  /-- A number. -/
  | number (n : Number)
  /-- A string. -/
  | string (s : String)
  deriving DecidableEq

namespace Literal

/-- The literal as a value. -/
def toJson : Literal → Json
  | .bool b => .bool b
  | .number n => .number n
  | .string s => .string s

/-- Whether a value is the literal. Numbers are compared as numbers, and values of different kinds
never match. -/
def accepts : Literal → Json → Bool
  | .bool a, .bool b => a == b
  | .number a, .number b => a.sameValue b
  | .string a, .string b => a == b
  | _, _ => false

/-- The literal as it is written in declarations and messages: its JSON text. -/
def text (l : Literal) : List Char := l.toJson.compactChars

end Literal

mutual

/-- A description of JSON values. -/
inductive Shape where
  /-- The shape defined under a name. -/
  | alias (name : String)
  /-- Every value, and absence. -/
  | any
  /-- Arrays whose every item has the element shape. -/
  | array (element : Shape)
  /-- The two truth values. -/
  | boolean
  /-- One single value. -/
  | literal (value : Literal)
  /-- The null value. -/
  | null
  /-- Every number. -/
  | number
  /-- Objects with the declared properties. -/
  | object (properties : List Property)
  /-- Every string. -/
  | string
  /-- Absence. -/
  | undefined
  /-- Whatever one of the members describes; they are tried in order. -/
  | union (members : List Shape)

/-- A declared property of an object. -/
structure Property where
  /-- The key. -/
  name : String
  /-- The shape of the value. -/
  shape : Shape
  /-- Whether an absent property is checked too, as an absent value. -/
  required : Bool

end

/-- The kinds of shapes. -/
inductive Kind where
  /-- A reference by name. -/
  | alias
  /-- Every value. -/
  | any
  /-- Arrays. -/
  | array
  /-- Truth values. -/
  | boolean
  /-- A single value. -/
  | literal
  /-- The null value. -/
  | null
  /-- Numbers. -/
  | number
  /-- Objects. -/
  | object
  /-- Strings. -/
  | string
  /-- Absence. -/
  | undefined
  /-- Alternatives. -/
  | union
  deriving DecidableEq

/-- All kinds, in alphabetical order. -/
def Kind.all : List Kind :=
  [.alias, .any, .array, .boolean, .literal, .null, .number, .object, .string, .undefined, .union]

/-- The word for a kind. -/
def Kind.word : Kind → String
  | .alias => "alias"
  | .any => "any"
  | .array => "array"
  | .boolean => "boolean"
  | .literal => "literal"
  | .null => "null"
  | .number => "number"
  | .object => "object"
  | .string => "string"
  | .undefined => "undefined"
  | .union => "union"

namespace Shape

/-- The kind of a shape. -/
def kind : Shape → Kind
  | .alias _ => .alias
  | .any => .any
  | .array _ => .array
  | .boolean => .boolean
  | .literal _ => .literal
  | .null => .null
  | .number => .number
  | .object _ => .object
  | .string => .string
  | .undefined => .undefined
  | .union _ => .union

mutual

/-- The names of all aliases in a shape, in the order of its text, with repetitions. -/
def references : Shape → List String
  | .alias name => [name]
  | .array element => references element
  | .object properties => propertyReferences properties
  | .union members => memberReferences members
  | _ => []

/-- The names of all aliases in the shapes of properties. -/
def propertyReferences : List Property → List String
  | [] => []
  | ⟨_, shape, _⟩ :: rest => references shape ++ propertyReferences rest

/-- The names of all aliases in the members of a union. -/
def memberReferences : List Shape → List String
  | [] => []
  | member :: rest => references member ++ memberReferences rest

end

mutual

/-- The names of the aliases that are followed with the very value the shape is given: those reached
through union members only. The members after `any` are never tried, so they do not count. -/
def unguarded : Shape → List String
  | .alias name => [name]
  | .union members => unguardedMembers members
  | _ => []

/-- The unguarded names of union members, up to the first that is `any`. -/
def unguardedMembers : List Shape → List String
  | [] => []
  | .any :: _ => []
  | member :: rest => unguarded member ++ unguardedMembers rest

end

end Shape

end JsonShape

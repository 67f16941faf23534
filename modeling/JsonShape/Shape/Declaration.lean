import JsonShape.Shape.Basic

/-!
# Declarations

A declaration shows a shape to people, in the notation of record types:
an object is a list of fields in braces, an optional field has a question mark after its key, an
array is `Array<…>`, and the members of a union stand in parentheses with bars between them. A union
without members is `never`. A key that is no identifier is written as a JSON string, and so is a
literal string; so whatever a key or a literal contains, it cannot be mistaken for structure.
-/

namespace JsonShape

mutual

/-- The form in which a shape is shown. -/
inductive Declaration where
  /-- A reference to a name. -/
  | named (name : String)
  /-- The word for a kind of values. -/
  | primitive (keyword : String)
  /-- A single value, as text. -/
  | literal (text : List Char)
  /-- An array of elements. -/
  | array (element : Declaration)
  /-- An object with its fields. -/
  | record (fields : List Field)
  /-- Alternatives. -/
  | union (members : List Declaration)

/-- A field of a record. -/
structure Field where
  /-- The key. -/
  name : String
  /-- Whether the field may be missing. -/
  optional : Bool
  /-- The declaration of the value. -/
  declaration : Declaration

end

namespace Declaration

mutual

/-- The declaration of a shape. -/
def ofShape : Shape → Declaration
  | .alias name => .named name
  | .array element => .array (ofShape element)
  | .literal value => .literal value.text
  | .object properties => .record (ofProperties properties)
  | .union members => .union (ofShapes members)
  | .any => .primitive "any"
  | .boolean => .primitive "boolean"
  | .null => .primitive "null"
  | .number => .primitive "number"
  | .string => .primitive "string"
  | .undefined => .primitive "undefined"

/-- The fields that properties become. -/
def ofProperties : List Property → List Field
  | [] => []
  | ⟨name, shape, required⟩ :: rest => ⟨name, !required, ofShape shape⟩ :: ofProperties rest

/-- The declarations of union members. -/
def ofShapes : List Shape → List Declaration
  | [] => []
  | shape :: rest => ofShape shape :: ofShapes rest

end

/-- Whether a character may begin a key that is written without quotes. -/
def isKeyStart (c : Char) : Bool := c.isAlpha || c == '_' || c == '$'

/-- Whether a key is written without quotes. -/
def isPlainKey : List Char → Bool
  | [] => false
  | c :: rest => isKeyStart c && rest.all fun c => isKeyStart c || c.isDigit

/-- A key as it is written. -/
def keyText (name : String) : List Char :=
  if isPlainKey name.toList then name.toList else Json.quote name

mutual

/-- The text of a declaration. -/
def text : Declaration → List Char
  | .named name => name.toList
  | .primitive keyword => keyword.toList
  | .literal text => text
  | .array element => "Array<".toList ++ text element ++ ['>']
  | .record [] => ['{', '}']
  | .record (field :: rest) => '{' :: ' ' :: fieldText field ++ moreFields rest
  | .union [] => "never".toList
  | .union (member :: rest) => '(' :: text member ++ ')' :: moreMembers rest

/-- The text of a field. -/
def fieldText : Field → List Char
  | ⟨name, optional, declaration⟩ =>
    keyText name ++ (if optional then ['?'] else []) ++ ':' :: ' ' :: text declaration

/-- The fields after the first and the closing brace. -/
def moreFields : List Field → List Char
  | [] => [' ', '}']
  | field :: rest => ';' :: ' ' :: fieldText field ++ moreFields rest

/-- The members after the first. -/
def moreMembers : List Declaration → List Char
  | [] => []
  | member :: rest => ' ' :: '|' :: ' ' :: '(' :: text member ++ ')' :: moreMembers rest

end

/-- The text of a declaration. -/
def render (declaration : Declaration) : String := String.ofList declaration.text

end Declaration

end JsonShape

import JsonShape.Json.Number
import JsonShape.Text.Quoted

/-!
# What can be wrong with a JSON text

A *fault* is the one reason why a text was refused. Faults of form say where the text stops being
JSON; faults of content (`Mismatch`) say where a well-formed document stops being the document that
was asked for. `Fault.message` has the wording of each and `Fault.category` sorts them.
-/

namespace JsonShape

/-- What stands where something else was expected. -/
inductive Found where
  /-- The null value. -/
  | null
  /-- A truth value. -/
  | boolean (b : Bool)
  /-- An integer. -/
  | integer (i : Int)
  /-- A number that is not an integer. -/
  | float (x : Double)
  /-- A string. -/
  | string (s : String)
  /-- A sequence. -/
  | sequence
  /-- A map. -/
  | map

/-- A well-formed document that is not the one asked for. -/
inductive Mismatch where
  /-- A value of the wrong kind. -/
  | wrongKind (found : Found) (expected : String)
  /-- A field that must be present is not. -/
  | missingField (field : String)
  /-- A field occurs twice. -/
  | duplicateField (field : String)
  /-- A tag that is none of the known ones. -/
  | unknownVariant (name : String) (known : List String)
  /-- A value of the right kind that is not one of those expected. -/
  | wrongValue (found : Found) (expected : String)
  /-- A sequence of the wrong length. -/
  | wrongLength (length : Nat) (expected : String)
  /-- A value that is neither a boolean, a number nor a string. -/
  | notLiteral

/-- Why a text was refused. -/
inductive Fault where
  /-- The text ends where a value is due. -/
  | endOfValue
  /-- The text ends inside an array. -/
  | endOfList
  /-- The text ends inside an object. -/
  | endOfObject
  /-- The text ends inside a string. -/
  | endOfString
  /-- No value starts here. -/
  | expectedValue
  /-- A misspelt `true`, `false` or `null`. -/
  | expectedWord
  /-- A number that breaks off, or has a superfluous leading zero. -/
  | invalidNumber
  /-- A number that is no finite double. -/
  | numberOutOfRange
  /-- No colon after a key. -/
  | expectedColon
  /-- Neither a comma nor the closing bracket after an item. -/
  | expectedListSeparator
  /-- Neither a comma nor the closing brace after an entry. -/
  | expectedObjectSeparator
  /-- Something else than a string where a key is due. -/
  | keyNotString
  /-- A comma before the closing bracket or brace. -/
  | trailingComma
  /-- Something after the end of the document. -/
  | trailingCharacters
  /-- An unknown escape, or a digit that is not hexadecimal. -/
  | invalidEscape
  /-- The first half of a surrogate pair without a second escape. -/
  | halfPair
  /-- A second half alone, or a first half before an escape that is no second half. -/
  | loneSurrogate
  /-- A control character inside a string. -/
  | controlCharacter
  /-- A malformed byte inside a string. -/
  | malformedByte
  /-- Too many nested arrays and objects. -/
  | tooDeep
  /-- The document is well-formed, but not the one asked for. -/
  | mismatch (m : Mismatch)

/-- The class of a fault. -/
inductive Category where
  /-- The text is no JSON. -/
  | form
  /-- The text breaks off. -/
  | ended
  /-- The document is not the one asked for. -/
  | content

/-- The phrase for what was found. -/
def Found.phrase : Found → String
  | .null => "null"
  | .boolean b => "boolean `" ++ (if b then "true" else "false") ++ "`"
  | .integer i => "integer `" ++ String.ofList (Decimal.ofInt i) ++ "`"
  | .float x => "floating point `" ++ String.ofList (Decimal.Layout.json.write x) ++ "`"
  | .string s => "string " ++ Text.quoted s
  | .sequence => "sequence"
  | .map => "map"

/-- What a number is found to be. -/
def Found.ofNumber (n : Number) : Found :=
  match n with
  | .double x => .float x
  | .natural n => .integer n.val
  | .negative below => .integer (-1 - below.val)

/-- A list of names as a message shows it: two are joined by "or", more are introduced as a
choice. -/
def Mismatch.choices : List String → String
  | [] => "there are no variants"
  | [a] => "expected `" ++ a ++ "`"
  | [a, b] => "expected `" ++ a ++ "` or `" ++ b ++ "`"
  | names => "expected one of " ++ ", ".intercalate (names.map fun n => "`" ++ n ++ "`")

/-- The wording of a mismatch. -/
def Mismatch.message : Mismatch → String
  | .wrongKind found expected => "invalid type: " ++ found.phrase ++ ", expected " ++ expected
  | .missingField field => "missing field `" ++ field ++ "`"
  | .duplicateField field => "duplicate field `" ++ field ++ "`"
  | .unknownVariant name known =>
    "unknown variant `" ++ name ++ "`, " ++ choices known
  | .wrongValue found expected => "invalid value: " ++ found.phrase ++ ", expected " ++ expected
  | .wrongLength length expected =>
    "invalid length " ++ toString length ++ ", expected " ++ expected
  | .notLiteral => "data did not match any variant of untagged enum Literal"

/-- The wording of a fault. -/
def Fault.message : Fault → String
  | .endOfValue => "EOF while parsing a value"
  | .endOfList => "EOF while parsing a list"
  | .endOfObject => "EOF while parsing an object"
  | .endOfString => "EOF while parsing a string"
  | .expectedValue => "expected value"
  | .expectedWord => "expected ident"
  | .invalidNumber => "invalid number"
  | .numberOutOfRange => "number out of range"
  | .expectedColon => "expected `:`"
  | .expectedListSeparator => "expected `,` or `]`"
  | .expectedObjectSeparator => "expected `,` or `\x7d`"
  | .keyNotString => "key must be a string"
  | .trailingComma => "trailing comma"
  | .trailingCharacters => "trailing characters"
  | .invalidEscape => "invalid escape"
  | .halfPair => "unexpected end of hex escape"
  | .loneSurrogate => "lone leading surrogate in hex escape"
  | .controlCharacter => "control character (\\u0000-\\u001F) found while parsing a string"
  | .malformedByte => "invalid unicode code point"
  | .tooDeep => "recursion limit exceeded"
  | .mismatch m => m.message

/-- The class of a fault. -/
def Fault.category : Fault → Category
  | .endOfValue | .endOfList | .endOfObject | .endOfString => .ended
  | .mismatch _ => .content
  | _ => .form

end JsonShape

import JsonShape.Shape.Basic

/-!
# Failed checks

A failed check says where in the value it failed, what is wrong there, and what stands there. The
place is a path that begins with the name of a shape; an item of an array is the segment `*`.
Following a reference starts a new path at the name that is referred to.

A check can also be *stuck*: the budget of references that it may follow is used up, or a reference
points nowhere. Neither happens in a registry that has been compiled.
-/

namespace JsonShape

/-- What is wrong with a value. -/
inductive Problem where
  /-- Not an array. -/
  | notArray
  /-- Not a truth value. -/
  | notBoolean
  /-- Not the one value that is allowed. -/
  | notLiteral (literal : Literal)
  /-- Not the null value. -/
  | notNull
  /-- Not a number. -/
  | notNumber
  /-- Not an object. -/
  | notObject
  /-- Not a string. -/
  | notString
  /-- Present where nothing may be. -/
  | notUndefined
  /-- A union without members accepts nothing. -/
  | noMember
  /-- A key that the object shape does not declare. -/
  | undeclaredKey (key : String)

/-- The wording of a problem. -/
def Problem.text : Problem → List Char
  | .notArray => "is not an array".toList
  | .notBoolean => "is not a boolean".toList
  | .notLiteral literal => "is not ".toList ++ literal.text
  | .notNull => "is not null".toList
  | .notNumber => "is not a number".toList
  | .notObject => "is not an object".toList
  | .notString => "is not a string".toList
  | .notUndefined => "is not undefined".toList
  | .noMember => "matches no union member".toList
  | .undeclaredKey key => "does not allow key \"".toList ++ key.toList ++ ['"']

/-- A failed check. -/
structure Failure where
  /-- Where it failed, from the name of a shape down. -/
  path : List String
  /-- What is wrong there. -/
  problem : Problem
  /-- What stands there; `none` if nothing does. -/
  value : Option Json

/-- The segment of a path that stands for an item of an array. -/
def itemSegment : String := "*"

namespace Failure

/-- The text of a value, or the word for absence. -/
def valueText : Option Json → List Char
  | some value => value.compactChars
  | none => "undefined".toList

/-- The message of a failure: the place and the problem on the first line, the value on the
second. -/
def message (f : Failure) : String :=
  String.ofList
    ((".".intercalate f.path).toList ++ ' ' :: f.problem.text ++ ':' :: '\n' :: valueText f.value)

end Failure

/-- Why a check did not go through. -/
inductive Refusal where
  /-- The value was found wanting. -/
  | failed (failure : Failure)
  /-- The check could not be carried out. -/
  | stuck

/-- The result of a check, or of rebuilding a value. -/
abbrev Outcome (α : Type) := Except Refusal α

/-- The outcome of a check that fails. -/
def Outcome.fail {α : Type} (path : List String) (problem : Problem) (value : Option Json) :
    Outcome α := .error (.failed ⟨path, problem, value⟩)

/-- The outcome of a test. -/
def Outcome.require (ok : Bool) (path : List String) (problem : Problem) (value : Option Json) :
    Outcome Unit := if ok then .ok () else .fail path problem value

end JsonShape

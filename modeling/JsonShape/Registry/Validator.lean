import JsonShape.Registry.CompileError
import JsonShape.Registry.Failure

/-!
# Validators

A validator is a shape made ready for checking: every alias has been replaced by the place of its
target among the definitions, its *slot*. A slot is followed only when a value is checked, so a
shape can refer to itself and to shapes declared after it.

Checking is written against a function `enter` that checks a value against the shape in a slot.
A check stops at the first thing it finds wrong. The members of a union are tried in order and the
first that accepts decides; if none does, the failure of the last is reported.
-/

namespace JsonShape

/-- A map of names to slots. -/
structure Slots where
  /-- The names that have slots, the last one first. A name that was given a slot again has the one
  that stands in front. -/
  pairs : List (String × Nat)

namespace Slots

/-- The map in which no name has a slot. -/
def empty : Slots := ⟨[]⟩

/-- Gives a name a slot, in place of any that it had. -/
def insert (slots : Slots) (name : String) (slot : Nat) : Slots := ⟨(name, slot) :: slots.pairs⟩

/-- The slot of a name. -/
def find? (slots : Slots) (name : String) : Option Nat := slots.pairs.lookup name

/-- The slot of an alias inside the shape `owner`. -/
def resolve (slots : Slots) (owner target : String) : Except CompileError Nat :=
  match slots.find? target with
  | some slot => .ok slot
  | none => .error (.unresolvedAlias owner target)

end Slots

mutual

/-- A shape made ready for checking. -/
inductive Validator where
  /-- Whatever the shape in a slot accepts. -/
  | alias (slot : Nat)
  /-- Everything. -/
  | any
  /-- Arrays of accepted items. -/
  | array (element : Validator)
  /-- Truth values. -/
  | boolean
  /-- One value. -/
  | literal (value : Literal)
  /-- The null value. -/
  | null
  /-- Numbers. -/
  | number
  /-- Objects. -/
  | object (properties : List PropertyValidator)
  /-- Strings. -/
  | string
  /-- Absence. -/
  | undefined
  /-- Whatever a member accepts. -/
  | union (members : List Validator)

/-- A property made ready for checking. -/
structure PropertyValidator where
  /-- The key. -/
  name : String
  /-- Whether the property is checked even when it is absent. -/
  required : Bool
  /-- The check of its value. -/
  validator : Validator

end

namespace Validator

mutual

/-- The validator of a shape inside the definition `owner`. -/
def compile (slots : Slots) (owner : String) : Shape → Except CompileError Validator
  | .alias name => do return .alias (← slots.resolve owner name)
  | .any => .ok .any
  | .array element => do return .array (← compile slots owner element)
  | .boolean => .ok .boolean
  | .literal value => .ok (.literal value)
  | .null => .ok .null
  | .number => .ok .number
  | .object properties => do return .object (← compileProperties slots owner [] properties)
  | .string => .ok .string
  | .undefined => .ok .undefined
  | .union members => do return .union (← compileMembers slots owner members)

/-- The validators of properties; the names of those before them are `seen`. -/
def compileProperties (slots : Slots) (owner : String) (seen : List String) :
    List Property → Except CompileError (List PropertyValidator)
  | [] => .ok []
  | ⟨name, shape, required⟩ :: rest =>
    if name ∈ seen then .error (.duplicateProperty owner name)
    else do
      let validator ← compile slots owner shape
      return ⟨name, required, validator⟩ :: (← compileProperties slots owner (name :: seen) rest)

/-- The validators of union members. -/
def compileMembers (slots : Slots) (owner : String) :
    List Shape → Except CompileError (List Validator)
  | [] => .ok []
  | member :: rest => do
    let validator ← compile slots owner member
    return validator :: (← compileMembers slots owner rest)

end

/-- The first key that no property declares. -/
def undeclared? (properties : List PropertyValidator) (entries : List (String × Json)) :
    Option String :=
  (Json.keys entries).find? fun key => !(properties.map PropertyValidator.name).contains key

mutual

/-- Checks a value, or absence, at a path. With `lenient` keys that are not declared are
tolerated. -/
def check (enter : Nat → Option Json → Outcome Unit) (lenient : Bool) (path : List String) :
    Validator → Option Json → Outcome Unit
  | .alias slot, value => enter slot value
  | .any, _ => .ok ()
  | .array element, value =>
    match value with
    | some (.array items) =>
      items.forM fun item => check enter lenient (path ++ [itemSegment]) element (some item)
    | _ => .fail path .notArray value
  | .boolean, value => .require (value matches some (.bool _)) path .notBoolean value
  | .literal expected, value =>
    .require (value.any expected.accepts) path (.notLiteral expected) value
  | .null, value => .require (value matches some .null) path .notNull value
  | .number, value => .require (value matches some (.number _)) path .notNumber value
  | .object properties, value =>
    match value with
    | some (.object entries) =>
      match if lenient then none else undeclared? properties entries with
      | some key => .fail path (.undeclaredKey key) value
      | none => checkProperties enter lenient path entries properties
    | _ => .fail path .notObject value
  | .string, value => .require (value matches some (.string _)) path .notString value
  | .undefined, value => .require value.isNone path .notUndefined value
  | .union members, value => checkMembers enter lenient path none members value

/-- Checks the properties of an object in their order. An optional property that is absent is
passed over. -/
def checkProperties (enter : Nat → Option Json → Outcome Unit) (lenient : Bool)
    (path : List String) (entries : List (String × Json)) :
    List PropertyValidator → Outcome Unit
  | [] => .ok ()
  | ⟨name, required, validator⟩ :: rest =>
    let child := Json.find? name entries
    if required || child.isSome then
      match check enter lenient (path ++ [name]) validator child with
      | .ok () => checkProperties enter lenient path entries rest
      | .error refusal => .error refusal
    else checkProperties enter lenient path entries rest

/-- Tries the members of a union. The failure of the last member tried so far is `last`. -/
def checkMembers (enter : Nat → Option Json → Outcome Unit) (lenient : Bool)
    (path : List String) (last : Option Failure) :
    List Validator → Option Json → Outcome Unit
  | [], value =>
    match last with
    | some failure => .error (.failed failure)
    | none => .fail path .noMember value
  | member :: rest, value =>
    match check enter lenient path member value with
    | .ok () => .ok ()
    | .error (.failed failure) => checkMembers enter lenient path (some failure) rest value
    | .error .stuck => .error .stuck

end

end Validator

end JsonShape

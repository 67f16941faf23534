import JsonShape.Registry.Validator

/-!
# Sanitizers

A sanitizer rebuilds a value that a shape accepts and keeps exactly what the shape declares: of an
object it keeps the declared properties that are present, and nothing else. At a union the value is
checked again, and the first member that accepts it decides how it is rebuilt; so a sanitizer
carries the validators of union members.

Rebuilding is written against two functions, one that checks a value against the shape in a slot and
one that rebuilds it.
-/

namespace JsonShape

mutual

/-- A shape made ready for rebuilding values. -/
inductive Sanitizer where
  /-- Whatever the shape in a slot makes of the value. -/
  | alias (slot : Nat)
  /-- The value as it is. -/
  | keep
  /-- An array with every item rebuilt. -/
  | array (element : Sanitizer)
  /-- An object of the declared properties. -/
  | object (properties : List PropertySanitizer)
  /-- Whatever the first accepting member makes of the value. -/
  | union (branches : List Branch)

/-- A property made ready for rebuilding. -/
structure PropertySanitizer where
  /-- The key. -/
  name : String
  /-- How its value is rebuilt. -/
  sanitizer : Sanitizer

/-- A union member made ready for rebuilding. -/
structure Branch where
  /-- Whether the member applies. -/
  validator : Validator
  /-- How it rebuilds the value. -/
  sanitizer : Sanitizer

end

namespace Sanitizer

mutual

/-- The sanitizer of a shape inside the definition `owner`. -/
def compile (slots : Slots) (owner : String) : Shape → Except CompileError Sanitizer
  | .alias name => do return .alias (← slots.resolve owner name)
  | .array element => do return .array (← compile slots owner element)
  | .object properties => do return .object (← compileProperties slots owner properties)
  | .union members => do return .union (← compileMembers slots owner members)
  | .any | .boolean | .literal _ | .null | .number | .string | .undefined => .ok .keep

/-- The sanitizers of properties. -/
def compileProperties (slots : Slots) (owner : String) :
    List Property → Except CompileError (List PropertySanitizer)
  | [] => .ok []
  | ⟨name, shape, _⟩ :: rest => do
    let sanitizer ← compile slots owner shape
    return ⟨name, sanitizer⟩ :: (← compileProperties slots owner rest)

/-- The branches of union members. -/
def compileMembers (slots : Slots) (owner : String) :
    List Shape → Except CompileError (List Branch)
  | [] => .ok []
  | member :: rest => do
    let validator ← Validator.compile slots owner member
    let sanitizer ← compile slots owner member
    return ⟨validator, sanitizer⟩ :: (← compileMembers slots owner rest)

end

mutual

/-- Rebuilds a value at a path. -/
def rebuild (enter : Nat → Option Json → Outcome Unit) (enterRebuild : Nat → Json → Outcome Json)
    (lenient : Bool) (path : List String) : Sanitizer → Json → Outcome Json
  | .alias slot, value => enterRebuild slot value
  | .keep, value => .ok value
  | .array element, value =>
    match value with
    | .array items => do
      return .array (← items.mapM fun item =>
        rebuild enter enterRebuild lenient (path ++ [itemSegment]) element item)
    | _ => .fail path .notArray (some value)
  | .object properties, value =>
    match value with
    | .object entries => do
      return .object (← rebuildProperties enter enterRebuild lenient path entries properties)
    | _ => .fail path .notObject (some value)
  | .union branches, value => rebuildBranches enter enterRebuild lenient path none branches value

/-- The entries of the declared properties that are present, sorted by key. -/
def rebuildProperties (enter : Nat → Option Json → Outcome Unit)
    (enterRebuild : Nat → Json → Outcome Json) (lenient : Bool) (path : List String)
    (entries : List (String × Json)) : List PropertySanitizer → Outcome (List (String × Json))
  | [] => .ok []
  | ⟨name, sanitizer⟩ :: rest =>
    match Json.find? name entries with
    | none => rebuildProperties enter enterRebuild lenient path entries rest
    | some child => do
      let rebuilt ← rebuild enter enterRebuild lenient (path ++ [name]) sanitizer child
      let others ← rebuildProperties enter enterRebuild lenient path entries rest
      return Json.insert name rebuilt others

/-- What the first accepting member makes of a value. The failure of the last member tried so far is
`last`. -/
def rebuildBranches (enter : Nat → Option Json → Outcome Unit)
    (enterRebuild : Nat → Json → Outcome Json) (lenient : Bool) (path : List String)
    (last : Option Failure) : List Branch → Json → Outcome Json
  | [], value =>
    match last with
    | some failure => .error (.failed failure)
    | none => .fail path .noMember (some value)
  | ⟨validator, sanitizer⟩ :: rest, value =>
    match validator.check enter lenient path (some value) with
    | .ok () => rebuild enter enterRebuild lenient path sanitizer value
    | .error (.failed failure) =>
      rebuildBranches enter enterRebuild lenient path (some failure) rest value
    | .error .stuck => .error .stuck

end

end Sanitizer

end JsonShape

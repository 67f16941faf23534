import JsonShape.Json.Node

/-!
# Decoding records

A record is a document with a fixed list of fields, each of which has a place. It is written as an
object, or as the sequence of its fields by place. Either way the fields are decoded in the order of
the text, one step for each: `step known place node` adds what the node says about the field at
`place` to what is known so far.
-/

namespace JsonShape

/-- A refusal of the content of a document. -/
def mismatch {α : Type} (m : Mismatch) : Except Fault α := .error (.mismatch m)

/-- A member that has to be there. -/
def present {α : Type} (field : String) : Option α → Except Fault α
  | some x => .ok x
  | none => mismatch (.missingField field)

/-- Refuses a field that is known already. -/
def fresh {α : Type} (field : String) : Option α → Except Fault Unit
  | none => .ok ()
  | some _ => mismatch (.duplicateField field)

/-- The field that a key names: by its name, or by its number. Other names and numbers name none. -/
def fieldOf? (fields : List String) : Node → Except Fault (Option Nat)
  | .string key => .ok (fields.idxOf? key)
  | .number (.natural n) => .ok (if n.val < fields.length then some n.val else none)
  | node => node.refuse "field identifier"

/-- The phrase for a number of elements. -/
def elements (n : Nat) : String :=
  String.ofList (Decimal.digitsOf n) ++ (if n = 1 then " element" else " elements")

namespace Node

/-- What the entries of an object say, in their order. A member that is no field only has to be
well-formed. -/
def foldEntries {σ : Type} (fields : List String) (step : σ → Nat → Node → Except Fault σ)
    (known : σ) : List (Node × Node) → Except Fault σ
  | [] => .ok known
  | (key, value) :: rest =>
    match fieldOf? fields key with
    | .error f => .error f
    | .ok none =>
      match value.whole with
      | .ok () => foldEntries fields step known rest
      | .error f => .error f
    | .ok (some place) =>
      match step known place value with
      | .ok known => foldEntries fields step known rest
      | .error f => .error f

/-- What the items of a sequence say, the first of them at `place`. -/
def foldItems {σ : Type} (step : σ → Nat → Node → Except Fault σ) (known : σ) (place : Nat) :
    List Node → Except Fault σ
  | [] => .ok known
  | .broken f :: _ => .error f
  | item :: rest =>
    match step known place item with
    | .ok known => foldItems step known (place + 1) rest
    | .error f => .error f

/-- The items of a sequence, decoded one by one. -/
def listOf {α : Type} (decode : Node → Except Fault α) : Node → Except Fault (List α)
  | .sequence items => items.mapM decode
  | node => node.refuse "a sequence"

end Node

/-- How a required field is missed: by its name where the record is an object, and by the length of
the sequence where it is one. -/
def required {α : Type} (title : String) (fields : List String) (place : Nat) (isSequence : Bool)
    (x : Option α) : Except Fault α :=
  match x with
  | some x => .ok x
  | none =>
    if isSequence then
      mismatch (.wrongLength place (title ++ " with " ++ elements fields.length))
    else mismatch (.missingField (fields.getD place ""))

end JsonShape

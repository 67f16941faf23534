import JsonShape.Definitions.Basic
import JsonShape.Registry.Cycle
import JsonShape.Registry.Sanitizer
import JsonShape.Shape.Declaration
import JsonShape.Shape.Schema
import JsonShape.Text.Blank

/-!
# The registry

Compiling definitions gives a registry: for every name its schema, its declaration, its validator
and its sanitizer. All names are given their slots before any shape is compiled, so references may
point forward, backward, or at the shape they stand in.

A reference is followed when a value is checked. The registry has no circle of references that
passes through no array element and no object property, so following references without going deeper
into the value ends; and a value is only finitely deep. `Registry.budget` turns this into the number
of references that a check may follow in a row.
-/

namespace JsonShape

/-- What is compiled for one name. -/
structure Entry where
  /-- The name. -/
  name : String
  /-- The shape as it was defined. -/
  shape : Shape
  /-- Its schema. -/
  schema : Schema
  /-- Its declaration. -/
  declaration : Declaration
  /-- Its check. -/
  validator : Validator
  /-- How it rebuilds values. -/
  sanitizer : Sanitizer

/-- The compiled shapes, in the order of their definitions. -/
structure Registry where
  /-- The entries; the place of an entry is its slot. -/
  entries : List Entry
  /-- The slots of the names. -/
  slots : Slots

/-- A name bound to its compiled shape. -/
structure Binding where
  /-- The registry in which references are followed. -/
  registry : Registry
  /-- The slot of the name. -/
  slot : Nat
  /-- What is compiled for the name. -/
  entry : Entry

/-! ## Compiling -/

/-- Gives names their slots in their order, from `next` on. Each has to have a character that is not
white space, and none may have a slot already. -/
def Slots.assign (slots : Slots) (next : Nat) : List String → Except CompileError Slots
  | [] => .ok slots
  | name :: rest =>
    if Text.allBlank name.toList then .error .emptyName
    else if (slots.find? name).isSome then .error (.duplicateName name)
    else assign (slots.insert name next) (next + 1) rest

/-- Compiles one definition. -/
def Entry.compile (slots : Slots) (d : Definition) : Except CompileError Entry := do
  let validator ← Validator.compile slots d.name d.shape
  let sanitizer ← Sanitizer.compile slots d.name d.shape
  return ⟨d.name, d.shape, .ofShape d.shape, .ofShape d.shape, validator, sanitizer⟩

namespace Registry

/-- The names, in order. -/
def names (r : Registry) : List String := r.entries.map Entry.name

/-- The slots that the shape in a slot refers to without a guard. -/
def unguardedTargets (r : Registry) (slot : Nat) : List Nat :=
  match r.entries[slot]? with
  | some entry => entry.shape.unguarded.filterMap r.slots.find?
  | none => []

/-- The names on a circle of unguarded references, if there is one. -/
def unguardedCycle? (r : Registry) : Option (List String) :=
  (Cycle.find? r.unguardedTargets r.entries.length).map fun slots =>
    slots.filterMap fun slot => r.names[slot]?

/-- Compiles definitions. -/
def compile (definitions : Definitions) : Except CompileError Registry := do
  let slots ← Slots.empty.assign 0 definitions.names
  let registry : Registry := ⟨← definitions.types.mapM (Entry.compile slots), slots⟩
  match registry.unguardedCycle? with
  | some cycle => throw (.unguardedCycle cycle)
  | none => return registry

/-! ## Looking up -/

/-- The binding of a name. -/
def get? (r : Registry) (name : String) : Option Binding :=
  match r.slots.find? name with
  | some slot => r.entries[slot]?.map fun entry => ⟨r, slot, entry⟩
  | none => none

/-- Whether a name is defined. -/
def contains (r : Registry) (name : String) : Bool := (r.slots.find? name).isSome

/-- All bindings in the order of the definitions. -/
def bindings (r : Registry) : List Binding :=
  (List.range r.entries.length).zipWith (fun slot entry => ⟨r, slot, entry⟩) r.entries

/-! ## Checking and rebuilding -/

/-- Checks a value, or absence, against the shape in a slot, following at most `budget` references
in a row. The path starts at the name of the shape. -/
def checkWithin (r : Registry) (lenient : Bool) :
    (budget : Nat) → (slot : Nat) → Option Json → Outcome Unit
  | 0, _, _ => .error .stuck
  | budget + 1, slot, value =>
    match r.entries[slot]? with
    | none => .error .stuck
    | some entry =>
      entry.validator.check (checkWithin r lenient budget) lenient [entry.name] value

/-- Rebuilds a value as the shape in a slot declares it, following at most `budget` references in a
row. -/
def rebuildWithin (r : Registry) (lenient : Bool) :
    (budget : Nat) → (slot : Nat) → Json → Outcome Json
  | 0, _, _ => .error .stuck
  | budget + 1, slot, value =>
    match r.entries[slot]? with
    | none => .error .stuck
    | some entry =>
      entry.sanitizer.rebuild (checkWithin r lenient budget) (rebuildWithin r lenient budget)
        lenient [entry.name] value

/-- How many references a check of a value can follow in a row: between two steps into the value, or
into absence, each shape is entered at most once. -/
def budget (r : Registry) (value : Json) : Nat := r.entries.length * (value.depth + 2) + 1

end Registry

namespace Binding

/-- The name. -/
def name (b : Binding) : String := b.entry.name

/-- The schema. -/
def schema (b : Binding) : Schema := b.entry.schema

/-- The declaration. -/
def declaration (b : Binding) : Declaration := b.entry.declaration

/-- The result of a check or a rebuilding as it is reported. A stuck one counts as a failure at the
name itself; compiled registries have none. -/
def report {α : Type} (b : Binding) (value : Json) : Outcome α → Except Failure α
  | .ok x => .ok x
  | .error (.failed failure) => .error failure
  | .error .stuck => .error ⟨[b.name], .noMember, some value⟩

/-- Checks a value. With `lenient` keys that are not declared are tolerated, in every object that is
reached. -/
def validate (b : Binding) (lenient : Bool) (value : Json) : Except Failure Unit :=
  b.report value (b.registry.checkWithin lenient (b.registry.budget value) b.slot (some value))

/-- Whether a value passes the strict check. -/
def isValid (b : Binding) (value : Json) : Bool := (b.validate false value).isOk

/-- Checks a value leniently and then rebuilds it from what the shape declares. -/
def create (b : Binding) (value : Json) : Except Failure Json := do
  b.validate true value
  b.report value (b.registry.rebuildWithin true (b.registry.budget value) b.slot value)

/-- The binding a reference points to, where the shape itself is a reference. -/
def target? (b : Binding) : Option Binding :=
  match b.schema with
  | .ref name => b.registry.get? name
  | _ => none

end Binding

/-! ## Catching failures -/

/-- A place that keeps the message of the last failure that it caught. -/
structure Catcher where
  /-- The message, if there is one. -/
  message : Option String := none

namespace Catcher

/-- The message, and the catcher without it. -/
def take (c : Catcher) : Option String × Catcher := (c.message, {})

end Catcher

/-- How a value is checked. -/
structure CheckOptions where
  /-- What keeps the message of a failure; without it the failure itself is returned. -/
  catcher : Option Catcher := none
  /-- Whether keys that are not declared are tolerated. -/
  lenient : Bool := false

/-- The answer to a check, and the catcher after it. A success leaves the catcher as it is. -/
def CheckOptions.finish (o : CheckOptions) :
    Except Failure Unit → Except Failure Bool × Option Catcher
  | .ok () => (.ok true, o.catcher)
  | .error failure =>
    match o.catcher with
    | some _ => (.ok false, some ⟨some failure.message⟩)
    | none => (.error failure, none)

namespace Binding

/-- Checks a value as the options say. -/
def validateWith (b : Binding) (o : CheckOptions) (value : Json) :
    Except Failure Bool × Option Catcher := o.finish (b.validate o.lenient value)

/-- Checks a value with a catcher: whether it passes, and the catcher after it. -/
def validateInto (b : Binding) (lenient : Bool) (value : Json) (c : Catcher) : Bool × Catcher :=
  match b.validateWith ⟨some c, lenient⟩ value with
  | (.ok valid, kept) => (valid, kept.getD c)
  | (.error _, kept) => (false, kept.getD c)

end Binding

end JsonShape

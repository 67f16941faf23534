import JsonShape.Shape.Dialect
import JsonShape.Json.Record

/-!
# Shapes out of document trees

A shape is written as an object that carries its kind under a tag, or as the sequence of the tag and
the fields of the kind. Objects may carry further members; sequences may not. The tag is decoded
where it stands, and everything else only after the whole object has been read, in the order of the
text. The outermost tag is a word; a tag below it may also be the number of a kind, and a member may
be named by the number of a field.

A property may be written as an object or as the sequence of its fields.
-/

namespace JsonShape

/-- Refuses entries in which a field occurs that has been read before. -/
def noRepetition (field : String) : List (Node × Node) → Except Fault Unit
  | [] => .ok ()
  | (key, _) :: rest =>
    match fieldOf? [field] key with
    | .error f => .error f
    | .ok (some _) => mismatch (.duplicateField field)
    | .ok none => noRepetition field rest

/-- Refuses what is left of a sequence after `used` items have been decoded. -/
def noSurplus (used : Nat) (rest : List Node) : Except Fault Unit :=
  if rest.isEmpty then .ok ()
  else mismatch (.wrongLength (used + rest.length) (elements used ++ " in sequence"))

/-- A literal. -/
def Literal.ofNode : Node → Except Fault Literal
  | .bool b => .ok (.bool b)
  | .number n => .ok (.number n)
  | .minusZero => .ok (.number .zero)
  | .string s => .ok (.string s)
  | .broken f => .error f
  | _ => mismatch .notLiteral

/-- The member of a field that is decoded by `decode`, if it is there. -/
def memberOf? {α : Type} (field : String) (decode : Node → Except Fault α) :
    List (Node × Node) → Except Fault (Option α)
  | [] => .ok none
  | (key, value) :: rest =>
    match fieldOf? [field] key with
    | .error f => .error f
    | .ok none => memberOf? field decode rest
    | .ok (some _) => do
      let x ← decode value
      noRepetition field rest
      return some x

namespace Dialect

/-- The kind that a tag names. `outermost` says that the tag has to be a word. -/
def kindOf (d : Dialect) (outermost : Bool) : Node → Except Fault Kind
  | .string word =>
    match Kind.all.find? fun kind => d.word kind = word with
    | some kind => .ok kind
    | none => mismatch (.unknownVariant word d.words)
  | .number (.natural n) =>
    if outermost then (Node.number (.natural n)).refuse "variant identifier"
    else match Kind.all[n.val]? with
      | some kind => .ok kind
      | none =>
        mismatch (.wrongValue (.integer n.val)
          ("variant index 0 <= i < " ++ toString Kind.all.length))
  | node => node.refuse "variant identifier"

/-- The kind among the entries of an object, all of which have to be read first. -/
def kindAmong (d : Dialect) (outermost : Bool) (known : Option Kind) :
    List (Node × Node) → Except Fault Kind
  | [] => present d.tag known
  | (key, value) :: rest =>
    match key with
    | .string word =>
      if word = d.tag then
        if known.isSome then mismatch (.duplicateField d.tag)
        else match d.kindOf outermost value with
          | .ok kind => kindAmong d outermost (some kind) rest
          | .error f => .error f
      else match value.whole with
        | .ok () => kindAmong d outermost known rest
        | .error f => .error f
    | _ =>
      match (Node.sequence [key, value]).whole with
      | .ok () => kindAmong d outermost known rest
      | .error f => .error f

/-- How messages name a kind together with the number of its fields. -/
def arity (d : Dialect) (kind : Kind) : String :=
  let variant := "struct variant " ++ d.title ++ "::"
  let name := match kind with
    | .alias => d.referenceTitle
    | .literal => variant ++ d.literalTitle
    | .array => variant ++ "Array"
    | .object => variant ++ "Object"
    | _ => variant ++ "Union"
  name ++ " with 1 element"

/-- The fields of a property in the order of its sequence form. -/
def propertyFields (d : Dialect) : List String :=
  if d.requiredFirst then ["name", "required", d.shapeField] else ["name", d.shapeField, "required"]

/-- A field of a property. -/
inductive PropertyField where
  /-- The key. -/
  | name
  /-- The shape of the value. -/
  | shape
  /-- Whether it is required. -/
  | required

/-- The field with a place in the sequence form. -/
def propertyField (d : Dialect) (place : Nat) : PropertyField :=
  if place = 0 then .name
  else if decide (place = 1) == d.requiredFirst then .required
  else .shape

/-- What is known of a property while its members are read. -/
structure Partial where
  /-- The key. -/
  name : Option String := none
  /-- The shape of the value. -/
  shape : Option Shape := none
  /-- Whether it is required. -/
  required : Option Bool := none

/-- The property of which all members have been read. -/
def complete (d : Dialect) (known : Partial) : Except Fault Property :=
  if d.requiredFirst then do
    let name ← present "name" known.name
    let required ← present "required" known.required
    let shape ← present d.shapeField known.shape
    return ⟨name, shape, required⟩
  else do
    let name ← present "name" known.name
    let shape ← present d.shapeField known.shape
    return ⟨name, shape, known.required.getD true⟩

/-- The refusal of a sequence that is too short for a property. -/
def shortProperty {α : Type} (d : Dialect) (length : Nat) : Except Fault α :=
  mismatch (.wrongLength length ("struct " ++ d.propertyTitle ++ " with 3 elements"))

end Dialect

mutual

/-- The shape a node spells. -/
def Shape.ofNode (d : Dialect) (outermost : Bool) : Node → Except Fault Shape
  | .mapping entries => do
    let kind ← d.kindAmong outermost none entries
    match kind with
    | .alias => return .alias (← present "name" (← memberOf? "name" Node.string? entries))
    | .any => return .any
    | .array => return .array (← present d.elementField (← Shape.elementAmong d entries))
    | .boolean => return .boolean
    | .literal => return .literal (← present "value" (← memberOf? "value" Literal.ofNode entries))
    | .null => return .null
    | .number => return .number
    | .object => return .object (← present "properties" (← Shape.propertiesAmong d entries))
    | .string => return .string
    | .undefined => return .undefined
    | .union => return .union (← present "members" (← Shape.membersAmong d entries))
  | .sequence [] => mismatch (.missingField d.tag)
  | .sequence (tag :: fields) => do
    let kind ← d.kindOf outermost tag
    (Node.sequence fields).whole
    Shape.ofFields d kind fields
  | node => node.refuse ("internally tagged enum " ++ d.title)

/-- The shape of a kind whose fields have the values of the given nodes. -/
def Shape.ofFields (d : Dialect) : Kind → List Node → Except Fault Shape
  | .alias, name :: rest => do
    let name ← name.string?
    noSurplus 1 rest
    return .alias name
  | .array, element :: rest => do
    let element ← Shape.ofNode d false element
    noSurplus 1 rest
    return .array element
  | .literal, value :: rest => do
    let value ← Literal.ofNode value
    noSurplus 1 rest
    return .literal value
  | .object, properties :: rest => do
    let properties ← Shape.propertiesOf d properties
    noSurplus 1 rest
    return .object properties
  | .union, members :: rest => do
    let members ← Shape.membersOf d members
    noSurplus 1 rest
    return .union members
  | .any, fields => do
    noSurplus 0 fields
    return .any
  | .boolean, fields => do
    noSurplus 0 fields
    return .boolean
  | .null, fields => do
    noSurplus 0 fields
    return .null
  | .number, fields => do
    noSurplus 0 fields
    return .number
  | .string, fields => do
    noSurplus 0 fields
    return .string
  | .undefined, fields => do
    noSurplus 0 fields
    return .undefined
  | kind, [] => mismatch (.wrongLength 0 (d.arity kind))

/-- The element shape among the entries of an array shape. -/
def Shape.elementAmong (d : Dialect) : List (Node × Node) → Except Fault (Option Shape)
  | [] => .ok none
  | (key, value) :: rest =>
    match fieldOf? [d.elementField] key with
    | .error f => .error f
    | .ok none => Shape.elementAmong d rest
    | .ok (some _) => do
      let element ← Shape.ofNode d false value
      noRepetition d.elementField rest
      return some element

/-- The members among the entries of a union shape. -/
def Shape.membersAmong (d : Dialect) : List (Node × Node) → Except Fault (Option (List Shape))
  | [] => .ok none
  | (key, value) :: rest =>
    match fieldOf? ["members"] key with
    | .error f => .error f
    | .ok none => Shape.membersAmong d rest
    | .ok (some _) => do
      let members ← Shape.membersOf d value
      noRepetition "members" rest
      return some members

/-- The properties among the entries of an object shape. -/
def Shape.propertiesAmong (d : Dialect) : List (Node × Node) → Except Fault (Option (List Property))
  | [] => .ok none
  | (key, value) :: rest =>
    match fieldOf? ["properties"] key with
    | .error f => .error f
    | .ok none => Shape.propertiesAmong d rest
    | .ok (some _) => do
      let properties ← Shape.propertiesOf d value
      noRepetition "properties" rest
      return some properties

/-- The members a node lists. -/
def Shape.membersOf (d : Dialect) : Node → Except Fault (List Shape)
  | .sequence items => Shape.ofNodes d items
  | node => node.refuse "a sequence"

/-- The shapes that nodes spell. -/
def Shape.ofNodes (d : Dialect) : List Node → Except Fault (List Shape)
  | [] => .ok []
  | node :: rest => do
    let shape ← Shape.ofNode d false node
    return shape :: (← Shape.ofNodes d rest)

/-- The properties a node lists. -/
def Shape.propertiesOf (d : Dialect) : Node → Except Fault (List Property)
  | .sequence items => Property.ofNodes d items
  | node => node.refuse "a sequence"

/-- The properties that nodes spell. -/
def Property.ofNodes (d : Dialect) : List Node → Except Fault (List Property)
  | [] => .ok []
  | node :: rest => do
    let property ← Property.ofNode d node
    return property :: (← Property.ofNodes d rest)

/-- The property a node spells. -/
def Property.ofNode (d : Dialect) : Node → Except Fault Property
  | .mapping entries => Property.ofEntries d {} entries
  | .sequence [] => d.shortProperty 0
  | .sequence (name :: fields) => do
    let name ← name.string?
    Property.ofFields d name d.requiredFirst fields
  | node => node.refuse ("struct " ++ d.propertyTitle)

/-- The property with a name whose other fields have the values of the given nodes. -/
def Property.ofFields (d : Dialect) (name : String) :
    (requiredFirst : Bool) → List Node → Except Fault Property
  | _, [] => d.shortProperty 1
  | true, [required] => do
    let _ ← required.bool?
    d.shortProperty 2
  | true, required :: shape :: rest => do
    let required ← required.bool?
    let shape ← Shape.ofNode d false shape
    noSurplus 3 rest
    return ⟨name, shape, required⟩
  | false, [shape] => do
    let shape ← Shape.ofNode d false shape
    return ⟨name, shape, true⟩
  | false, shape :: required :: rest => do
    let shape ← Shape.ofNode d false shape
    let required ← required.bool?
    noSurplus 3 rest
    return ⟨name, shape, required⟩

/-- The property whose remaining members are the given entries. -/
def Property.ofEntries (d : Dialect) (known : Dialect.Partial) :
    List (Node × Node) → Except Fault Property
  | [] => d.complete known
  | (key, value) :: rest =>
    match fieldOf? d.propertyFields key with
    | .error f => .error f
    | .ok none => Property.ofEntries d known rest
    | .ok (some place) =>
      match d.propertyField place with
      | .name => do
        fresh "name" known.name
        let name ← value.string?
        Property.ofEntries d { known with name := some name } rest
      | .shape => do
        fresh d.shapeField known.shape
        let shape ← Shape.ofNode d false value
        Property.ofEntries d { known with shape := some shape } rest
      | .required => do
        fresh "required" known.required
        let required ← value.bool?
        Property.ofEntries d { known with required := some required } rest

end

end JsonShape

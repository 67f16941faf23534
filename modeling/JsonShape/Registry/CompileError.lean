/-!
# What can be wrong with definitions

These are mistakes in the definitions themselves. They are reported once, when the definitions are
compiled, and never while a value is checked.
-/

namespace JsonShape

/-- Why definitions were not compiled. -/
inductive CompileError where
  /-- A name consists of white space only. -/
  | emptyName
  /-- Two definitions share a name. -/
  | duplicateName (name : String)
  /-- An object inside the shape `name` declares a property twice. -/
  | duplicateProperty (name property : String)
  /-- The shape `name` refers to a name without a definition. -/
  | unresolvedAlias (name target : String)
  /-- The names refer to each other in a circle that passes through no array element and no object
  property, so that following them would consume nothing. The first name is repeated at the end. -/
  | unguardedCycle (names : List String)
  deriving DecidableEq

/-- The wording of an error. -/
def CompileError.message : CompileError → String
  | .emptyName => "type name cannot be empty"
  | .duplicateName name => "duplicate type name: " ++ name
  | .duplicateProperty name property =>
    "type " ++ name ++ " declares property " ++ property ++ " more than once"
  | .unresolvedAlias name target => "type " ++ name ++ " references undefined type " ++ target
  | .unguardedCycle names => "unguarded reference cycle: " ++ " -> ".intercalate names

end JsonShape

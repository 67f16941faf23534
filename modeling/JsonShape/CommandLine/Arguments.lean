import JsonShape.CommandLine.Guide

/-!
# The arguments of the command line

The first argument names a command. After it come the inputs, of which there is at least one, and
options in any order. The value of an option is the next argument, or follows an equals sign. After
two dashes every argument is an input. Every option may be given once.
-/

namespace JsonShape.CommandLine

/-- What a user wants to be done. -/
inductive Command where
  /-- Publish the definitions. -/
  | generate (inputs : List String) (settings output : Option String) (encoding : Option Encoding)
    (timestamp : Bool)
  /-- Check a value. -/
  | check (inputs : List String) (name value : String) (allowsExtra : Bool)
    (settings : Option String)
  /-- Check a value and print what the shape declares of it. -/
  | create (inputs : List String) (name value : String)
  /-- Print a schema. -/
  | schema (inputs : List String) (name : String)
  /-- Print all names with their declarations. -/
  | list (inputs : List String)

/-- What the arguments ask for. -/
inductive Request where
  /-- Do something. -/
  | run (command : Command)
  /-- Explain something. -/
  | help (topic : Topic)
  /-- The arguments are not understood. -/
  | misuse

/-! ## Options -/

/-- The arguments of a command. -/
structure Arguments where
  /-- The inputs. -/
  inputs : List String := []
  /-- The options with their values; the value of a flag is empty. -/
  given : List (String × String) := []

/-- Whether an argument can be the value of the option before it: it does not look like an option. A
single dash does not. -/
def isValue (argument : String) : Bool := !argument.startsWith "-" || argument == "-"

/-- The name of a long option and the value after its equals sign, if there is one. -/
def splitLong (argument : String) : String × Option String :=
  match (argument.toList.drop 2).span (· ≠ '=') with
  | (name, _ :: value) => (String.ofList name, some (String.ofList value))
  | (name, []) => (String.ofList name, none)

namespace Arguments

/-- The result of reading arguments. -/
abbrev Reading := Except Request Arguments

/-- The arguments with an option, if it has not been given yet and the value suits it. -/
def give (a : Arguments) (name value : String) (suits : Bool) : Reading :=
  if suits && (a.given.lookup name).isNone then .ok { a with given := a.given ++ [(name, value)] }
  else .error .misuse

/-- The arguments with one more input, which must not be empty. -/
def addInput (a : Arguments) (input : String) : Reading :=
  if input.isEmpty then .error .misuse else .ok { a with inputs := a.inputs ++ [input] }

/-- The arguments with a long option; `next` is the argument after it. Says also whether that was
used as its value. -/
def addLong (guide : Guide) (a : Arguments) (argument : String) (next : Option String) :
    Except Request (Arguments × Bool) := do
  let (name, attached) := splitLong argument
  if name = "help" then throw (if attached.isNone then .help (.command guide) else .misuse)
  match guide.kind? name, attached with
  | none, _ => throw .misuse
  | some .flag, none => return (← a.give name "" true, false)
  | some kind, some value => return (← a.give name value (kind.takes value), false)
  | some kind, none =>
    match next with
    | none => throw .misuse
    | some value => return (← a.give name value (isValue value && kind.takes value), true)

/-- Reads the arguments of a command. `taken` says that the first one has been used as a value. -/
def read (guide : Guide) (taken : Bool) (a : Arguments) : List String → Reading
  | [] => .ok a
  | argument :: rest =>
    if taken then read guide false a rest
    else if argument = "--" then rest.foldlM addInput a
    else if argument.startsWith "--" then
      match addLong guide a argument rest.head? with
      | .ok (a, used) => read guide used a rest
      | .error r => .error r
    else if isValue argument then
      match a.addInput argument with
      | .ok a => read guide false a rest
      | .error r => .error r
    else if argument.startsWith "-h" then .error (.help (.command guide))
    else .error .misuse

/-- The value of an option. -/
def value? (a : Arguments) (name : String) : Option String := a.given.lookup name

/-- Whether a flag is given. -/
def hasFlag (a : Arguments) (name : String) : Bool := (a.value? name).isSome

end Arguments

/-! ## Commands -/

/-- The command of a name with its arguments, if all that it needs is given. -/
def Command.of? (name : String) (a : Arguments) : Option Command :=
  if a.inputs.isEmpty then none
  else if name = "generate" then
    let encoding := (a.value? "format").map fun word => if word = "json" then .json else .text
    some (.generate a.inputs (a.value? "config") (a.value? "output") encoding
      (!a.hasFlag "no-timestamp"))
  else if name = "check" then do
    some (.check a.inputs (← a.value? "type") (← a.value? "value")
      (a.hasFlag "allow-additional-properties") (a.value? "config"))
  else if name = "create" then do
    some (.create a.inputs (← a.value? "type") (← a.value? "value"))
  else if name = "schema" then do some (.schema a.inputs (← a.value? "type"))
  else if name = "list" then some (.list a.inputs)
  else none

/-- What the arguments after the word for help ask for: help on at most one command. -/
def helpRequest : List String → Request
  | [] => .help .program
  | [name] =>
    match guides.find? fun guide => guide.name == name with
    | some guide => .help (.command guide)
    | none => if name = helpName then .help .help else .misuse
  | _ => .misuse

/-- What arguments ask for. -/
def Request.ofArguments : List String → Request
  | [] => .misuse
  | first :: rest =>
    match guides.find? fun guide => guide.name == first with
    | some guide =>
      match Arguments.read guide false {} rest with
      | .error request => request
      | .ok a =>
        match Command.of? first a with
        | some command => .run command
        | none => .misuse
    | none =>
      if first = helpName then helpRequest rest
      else if first = "--help" ∨ first.startsWith "-h" then .help .program
      else .misuse

end JsonShape.CommandLine

/-!
# Settings

What a user decides about the output: which named shapes go into it, in which encoding, under which
header, and whether values may hold keys that are not declared.
-/

namespace JsonShape

/-- An encoding of an artifact. -/
inductive Encoding where
  /-- Readable text. -/
  | text
  /-- JSON. -/
  | json
  deriving DecidableEq

/-- The word for an encoding. -/
def Encoding.word : Encoding → String
  | .text => "text"
  | .json => "json"

/-- What a user decides. -/
structure Settings where
  /-- The version of the format of the settings. -/
  version : String := "1.0"
  /-- The names to select; none means all. -/
  included : List String := []
  /-- The names not to select. -/
  excluded : List String := []
  /-- Whether values may hold undeclared keys. -/
  allowsExtra : Bool := false
  /-- The encoding of the output. -/
  encoding : Encoding := .text
  /-- A header for the output. -/
  header : Option String := none
  deriving DecidableEq

namespace Settings

/-- Whether a name is excluded. -/
def excludes (s : Settings) (name : String) : Bool := s.excluded.contains name

/-- Whether a name is selected. An excluded name never is. -/
def selects (s : Settings) (name : String) : Bool :=
  !s.excludes name && (s.included.isEmpty || s.included.contains name)

end Settings

end JsonShape

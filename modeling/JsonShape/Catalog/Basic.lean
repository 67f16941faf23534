import JsonShape.Catalog.LoadError
import JsonShape.Digest.Sha256
import JsonShape.Registry.Basic

/-!
# Catalogs

A catalog is a list of definitions that may be published: every name is an identifier, and no two
definitions share a name. It also knows where it came from. The only ways to get a catalog go
through `Catalog.ofDefinitions`, which reports the first definition whose name is no identifier or
has been used before.
-/

namespace JsonShape

/-- Where a catalog came from. -/
inductive Source where
  /-- A text, or definitions built in memory. -/
  | inline
  /-- One document. -/
  | file (path : String)
  /-- All documents of a directory. -/
  | directory (path : String)
  /-- Several sources. -/
  | several (sources : List Source)

/-- Whether a character may begin an identifier. -/
def isIdentifierStart (c : Char) : Bool := c.isAlpha || c == '_'

/-- Whether a name is an identifier: an ASCII letter or underscore, and then letters, digits and
underscores to its end. -/
def isIdentifier (name : String) : Bool :=
  match name.toList with
  | [] => false
  | c :: rest => isIdentifierStart c && rest.all fun c => isIdentifierStart c || c.isDigit

/-- The error for the first name that is no identifier or occurs before it; the names before the
list are `seen`. -/
def firstOffence? (seen : List String) : List String → Option LoadError
  | [] => none
  | name :: rest =>
    if !isIdentifier name then some (.invalidName name)
    else if name ∈ seen then some (.duplicateName name)
    else firstOffence? (name :: seen) rest

/-- Definitions with distinct identifiers as names. -/
structure Catalog where
  /-- The definitions. -/
  definitions : Definitions
  /-- Where they came from. -/
  source : Source
  /-- No name offends. -/
  inoffensive : firstOffence? [] definitions.names = none

namespace Catalog

/-- The catalog of definitions from a source, if their names permit. -/
def ofDefinitions (definitions : Definitions) (source : Source) : Except LoadError Catalog :=
  match h : firstOffence? [] definitions.names with
  | none => .ok ⟨definitions, source, h⟩
  | some e => .error e

/-- All definitions of some catalogs, one catalog after the other, in the current version of the
format. -/
def joined (catalogs : List Catalog) : Definitions :=
  ⟨some formatVersion, catalogs.flatMap fun c => c.definitions.types⟩

/-- The source of definitions from several sources; a single one stays as it is. -/
def joinedSource : List Source → Source
  | [source] => source
  | sources => .several sources

/-- Merges catalogs. There has to be at least one, and no name may occur twice. -/
def merge (catalogs : List Catalog) : Except LoadError Catalog :=
  match catalogs with
  | [] => .error .noSources
  | _ => ofDefinitions (joined catalogs) (joinedSource (catalogs.map Catalog.source))

/-- The shape of a name. -/
def get? (c : Catalog) (name : String) : Option Shape := c.definitions.get? name

/-- The names in order. -/
def names (c : Catalog) : List String := c.definitions.names

/-- The digest of the definitions: that of the compact JSON text of the named shapes. The version of
the format and the source do not enter, so the same shapes have the same digest wherever they come
from. -/
def checksum (c : Catalog) : String :=
  Sha256.digestText (Definitions.typesToJson c.definitions.types).compact

/-- Compiles the definitions. -/
def compile (c : Catalog) : Except LoadError Registry :=
  match Registry.compile c.definitions with
  | .ok r => .ok r
  | .error e => .error (.compile e)

end Catalog

end JsonShape

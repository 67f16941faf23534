import JsonShape.Json.Basic

/-!
# JSON text

Compact text has no white space. Pretty text puts every item and every entry on a line of its own,
indented by two spaces for each level, with a space after the colon; an empty array or object stays
on one line.

In a string the quote, the backslash and the characters below U+0020 are escaped, with a short
escape where there is one; everything else stands for itself.
-/

namespace JsonShape.Json

/-- The lower-case hexadecimal digit of a number below 16. -/
def hexDigit (n : Nat) : Char := if n < 10 then Char.ofNat (48 + n) else Char.ofNat (87 + n)

/-- A character inside a string. -/
def escape (c : Char) : List Char :=
  if c = '"' then ['\\', '"']
  else if c = '\\' then ['\\', '\\']
  else if c = '\n' then ['\\', 'n']
  else if c = '\r' then ['\\', 'r']
  else if c = '\t' then ['\\', 't']
  else if c.toNat = 8 then ['\\', 'b']
  else if c.toNat = 12 then ['\\', 'f']
  else if c.toNat < 32 then ['\\', 'u', '0', '0', hexDigit (c.toNat / 16), hexDigit (c.toNat % 16)]
  else [c]

/-- A string with its quotes. -/
def quote (s : String) : List Char := '"' :: (s.toList.flatMap escape ++ ['"'])

/-- A truth value. -/
def word (b : Bool) : List Char := if b then ['t', 'r', 'u', 'e'] else ['f', 'a', 'l', 's', 'e']

mutual

/-- Compact text of a value. -/
def compactChars : Json → List Char
  | .null => ['n', 'u', 'l', 'l']
  | .bool b => word b
  | .number n => n.write
  | .string s => quote s
  | .array items => '[' :: compactItems items
  | .object entries => '{' :: compactEntries entries

/-- The items and the closing bracket. -/
def compactItems : List Json → List Char
  | [] => [']']
  | item :: rest => compactChars item ++ compactMoreItems rest

/-- The items after the first, each after a comma, and the closing bracket. -/
def compactMoreItems : List Json → List Char
  | [] => [']']
  | item :: rest => ',' :: compactChars item ++ compactMoreItems rest

/-- The entries and the closing brace. -/
def compactEntries : List (String × Json) → List Char
  | [] => ['}']
  | (key, value) :: rest => quote key ++ ':' :: compactChars value ++ compactMoreEntries rest

/-- The entries after the first, each after a comma, and the closing brace. -/
def compactMoreEntries : List (String × Json) → List Char
  | [] => ['}']
  | (key, value) :: rest =>
    ',' :: quote key ++ ':' :: compactChars value ++ compactMoreEntries rest

end

/-- A line feed and the indentation of a level. -/
def newline (level : Nat) : List Char := '\n' :: List.replicate (2 * level) ' '

mutual

/-- Pretty text of a value that stands at a level. -/
def prettyChars (level : Nat) : Json → List Char
  | .null => ['n', 'u', 'l', 'l']
  | .bool b => word b
  | .number n => n.write
  | .string s => quote s
  | .array items => '[' :: prettyItems level items
  | .object entries => '{' :: prettyEntries level entries

/-- The items, one to a line, and the closing bracket. -/
def prettyItems (level : Nat) : List Json → List Char
  | [] => [']']
  | item :: rest =>
    newline (level + 1) ++ prettyChars (level + 1) item ++ prettyMoreItems level rest

/-- The items after the first and the closing bracket. -/
def prettyMoreItems (level : Nat) : List Json → List Char
  | [] => newline level ++ [']']
  | item :: rest =>
    ',' :: newline (level + 1) ++ prettyChars (level + 1) item ++ prettyMoreItems level rest

/-- The entries, one to a line, and the closing brace. -/
def prettyEntries (level : Nat) : List (String × Json) → List Char
  | [] => ['}']
  | (key, value) :: rest =>
    newline (level + 1) ++ quote key ++ ':' :: ' ' :: prettyChars (level + 1) value
      ++ prettyMoreEntries level rest

/-- The entries after the first and the closing brace. -/
def prettyMoreEntries (level : Nat) : List (String × Json) → List Char
  | [] => newline level ++ ['}']
  | (key, value) :: rest =>
    ',' :: newline (level + 1) ++ quote key ++ ':' :: ' ' :: prettyChars (level + 1) value
      ++ prettyMoreEntries level rest

end

/-- Compact text of a value. -/
def compact (value : Json) : String := String.ofList (compactChars value)

/-- Pretty text of a value. -/
def pretty (value : Json) : String := String.ofList (prettyChars 0 value)

end JsonShape.Json

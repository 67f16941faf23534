/-!
# Paths

A path is a text of names with slashes between them. Repeated slashes, a slash at the end, and single
dots that do not stand at the beginning say nothing.
-/

namespace JsonShape.Path

/-- The parts of a path between its slashes, empty ones too. -/
def split : List Char → List (List Char)
  | [] => [[]]
  | c :: rest =>
    if c = '/' then [] :: split rest
    else match split rest with
      | part :: parts => (c :: part) :: parts
      | [] => [[c]]

/-- Whether a part of a path, where it does not stand at the beginning, says nothing. -/
def isIdle (part : List Char) : Bool := part = [] || part = ['.']

/-- The last part of a path, if it is a name. -/
def fileName? (path : String) : Option (List Char) :=
  match (split path.toList).reverse.dropWhile isIdle with
  | [] => none
  | part :: _ => if part = ['.', '.'] then none else some part

/-- The letters after the last dot of a name, unless the dot is its first character. -/
def extensionOf? (name : List Char) : Option (List Char) :=
  match name.reverse.span (· ≠ '.') with
  | (letters, _ :: _ :: _) => some letters.reverse
  | _ => none

/-- The extension of a path: the letters after the last dot of the name at its end. -/
def extension? (path : String) : Option (List Char) := (fileName? path).bind extensionOf?

/-- The text of a path without what says nothing at its end, last character first. A slash or a dot
at the beginning stays. -/
def trimEnd : List Char → List Char
  | '/' :: c :: rest => trimEnd (c :: rest)
  | '.' :: '/' :: c :: rest => trimEnd (c :: rest)
  | ['.', '/'] => ['/']
  | text => text

/-- The path without its last name; `none` if there is nothing to take away. -/
def parent? (path : String) : Option String :=
  let text := trimEnd path.toList.reverse
  if text = [] ∨ text = ['/'] then none
  else some (String.ofList (trimEnd (text.dropWhile (· ≠ '/'))).reverse)

/-- The path of a name in a directory. -/
def join (directory name : String) : String :=
  if directory.isEmpty ∨ directory.endsWith "/" then directory ++ name
  else directory ++ "/" ++ name

end JsonShape.Path

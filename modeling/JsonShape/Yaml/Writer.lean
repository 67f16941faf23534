import JsonShape.Yaml.Scalar

/-!
# Writing texts as YAML scalars

A text is written plainly where that reads back as the same text, between single quotes where plain
writing would not, and between double quotes where it holds characters that cannot stand for
themselves. A text of several lines is written on lines of its own. Lines are never broken.
-/

namespace JsonShape.Yaml.Writer

/-- Whether a character can be written as itself. -/
def isPrintable (c : Char) : Bool :=
  let n := c.toNat
  n == 0xA || (0x20 ≤ n && n ≤ 0x7E) || (0xA0 ≤ n && n ≤ 0xD7FF)
    || (0xE000 ≤ n && n ≤ 0xFFFD && n != 0xFEFF) || 0x10000 ≤ n

/-- Whether a character ends a line. -/
def isBreak (c : Char) : Bool := c ∈ ['\n', '\r', '\u0085', '\u2028', '\u2029']

/-- Whether nothing or white space follows. -/
def endsWord : List Char → Bool
  | [] => true
  | c :: _ => c == ' ' || c == '\t' || isBreak c

/-- Whether a character that satisfies one test comes directly before one that satisfies another. -/
def hasPair (first second : Char → Bool) : List Char → Bool
  | a :: b :: rest => (first a && second b) || hasPair first second (b :: rest)
  | _ => false

/-- Whether a later part of a text would end a plain scalar: a colon at the end of a word, or a number
sign at the beginning of one. -/
def hasLaterMark : List Char → Bool
  | a :: b :: rest =>
    (b == ':' && endsWord rest) || (b == '#' && endsWord [a]) || hasLaterMark (b :: rest)
  | _ => false

/-- Whether a text begins with something else than a plain scalar. -/
def beginsWithMark (text : List Char) : Bool :=
  match text with
  | [] => false
  | c :: rest =>
    ['-', '-', '-'].isPrefixOf text || ['.', '.', '.'].isPrefixOf text
      || c ∈ ['#', ',', '[', ']', '{', '}', '&', '*', '!', '|', '>', '\'', '"', '%', '@', '\x60']
      || (c ∈ ['?', ':', '-'] && endsWord rest)

/-- Whether a text can only be written with escapes. -/
def needsEscapes (text : List Char) : Bool :=
  !text.all isPrintable || hasPair (· == ' ') isBreak text

/-- Whether a text can be written plainly. -/
def canBePlain (text : List Char) : Bool :=
  !isAmbiguous (String.ofList text) && !needsEscapes text && !text.any isBreak
    && text.head? != some ' ' && text.getLast? != some ' '
    && !beginsWithMark text && !hasLaterMark text

/-- Whether a text can be written between single quotes. -/
def canBeSingleQuoted (text : List Char) : Bool :=
  !needsEscapes text && !hasPair isBreak (· == ' ') text

/-- Whether a text can be written on lines of its own. -/
def canBeLiteral (text : List Char) : Bool := !needsEscapes text && text.getLast? != some ' '

/-- Spaces in front of a line. -/
def margin (indentation : Nat) : List Char := List.replicate indentation ' '

/-- The characters of a text between single quotes. A quote is written twice, and the content of a
new line is indented; `fresh` says that a new line has just begun. -/
def singleQuotedFrom (indentation : Nat) (fresh : Bool) : List Char → List Char
  | [] => if fresh then margin indentation else []
  | c :: rest =>
    if isBreak c then c :: singleQuotedFrom indentation true rest
    else
      (if fresh then margin indentation else [])
        ++ (if c = '\'' then ['\'', '\''] else [c]) ++ singleQuotedFrom indentation false rest

/-- A text between single quotes. -/
def singleQuoted (indentation : Nat) (text : List Char) : List Char :=
  '\'' :: singleQuotedFrom indentation false text ++ ['\'']

/-- Upper-case hexadecimal digits of a number, with zeros in front to make up a width. -/
def hexadecimal (width n : Nat) : List Char :=
  let digits := (Text.hexDigits n).map Char.toUpper
  List.replicate (width - digits.length) '0' ++ digits

/-- A character between double quotes. -/
def escaped (c : Char) : List Char :=
  let n := c.toNat
  if isPrintable c && !isBreak c && c != '"' && c != '\\' then [c]
  else
    '\\' ::
      if n = 0 then ['0']
      else if n = 0x7 then ['a']
      else if n = 0x8 then ['b']
      else if n = 0x9 then ['t']
      else if n = 0xA then ['n']
      else if n = 0xB then ['v']
      else if n = 0xC then ['f']
      else if n = 0xD then ['r']
      else if n = 0x1B then ['e']
      else if c = '"' ∨ c = '\\' then [c]
      else if n = 0x85 then ['N']
      else if n = 0x2028 then ['L']
      else if n = 0x2029 then ['P']
      else if n ≤ 0xFF then 'x' :: hexadecimal 2 n
      else if n ≤ 0xFFFF then 'u' :: hexadecimal 4 n
      else 'U' :: hexadecimal 8 n

/-- A text between double quotes. -/
def doubleQuoted (text : List Char) : List Char := '"' :: text.flatMap escaped ++ ['"']

/-- The lines of a text, each indented if it is not empty; `fresh` says that a line has just
begun. -/
def literalFrom (indentation : Nat) (fresh : Bool) : List Char → List Char
  | [] => []
  | c :: rest =>
    if isBreak c then c :: literalFrom indentation true rest
    else (if fresh then margin indentation else []) ++ c :: literalFrom indentation false rest

/-- What is said about the line ends at the end of a text. -/
def chomping (text : List Char) : List Char :=
  match text.reverse with
  | last :: before :: _ =>
    if !isBreak last then ['-'] else if isBreak before then ['+'] else []
  | [last] => if isBreak last then ['+'] else ['-']
  | [] => ['-']

/-- A text on lines of its own. If its first line does not show the indentation, the mark says it;
the content of a collection is indented by two. -/
def literal (indentation : Nat) (text : List Char) : List Char :=
  let hint := match text with
    | c :: _ => if c == ' ' || isBreak c then ['2'] else []
    | [] => []
  '|' :: hint ++ chomping text ++ '\n' :: literalFrom indentation true text

/-- A text as a scalar after a key or a dash, to the end of its line. `indentation` is that of a
further line. -/
def scalar (indentation : Nat) (text : String) : List Char :=
  let chars := text.toList
  if chars.contains '\n' && canBeLiteral chars then
    let written := literal indentation chars
    ' ' :: written ++ (if chars.getLast?.any isBreak then [] else ['\n'])
  else
    let written :=
      if canBePlain chars then chars
      else if !chars.contains '\n' && canBeSingleQuoted chars then singleQuoted indentation chars
      else doubleQuoted chars
    ' ' :: written ++ ['\n']

end JsonShape.Yaml.Writer

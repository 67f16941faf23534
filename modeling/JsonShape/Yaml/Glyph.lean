/-!
# The characters of a YAML text

In a YAML text it matters where a character stands: indentation nests, a key has to be on one line
with its colon, and a mark at the start of a line ends a document. So before anything else every
character is given its place, as a *glyph*. A line ends at a carriage return, a line feed, both
together, or a next-line character, and each of these counts as one line feed; a line or paragraph
separator ends a line as well, but stays what it is.
-/

namespace JsonShape.Yaml

/-! ## Classes of characters -/

/-- Whether a character may occur in a YAML text at all. -/
def isAllowed (c : Char) : Bool :=
  let n := c.toNat
  n == 0x9 || n == 0xA || n == 0xD || (0x20 ≤ n && n ≤ 0x7E) || n == 0x85
    || (0xA0 ≤ n && n ≤ 0xD7FF) || (0xE000 ≤ n && n ≤ 0xFFFD) || 0x10000 ≤ n

/-- Whether a character ends a line. -/
def isBreak (c : Char) : Bool := c == '\n' || c == '\u2028' || c == '\u2029'

/-- Whether a character separates words on a line. -/
def isGap (c : Char) : Bool := c == ' ' || c == '\t'

/-- Whether a character separates words or lines. -/
def isWhite (c : Char) : Bool := isGap c || isBreak c

/-- Whether a character may be part of a name. -/
def isNameChar (c : Char) : Bool := c.isAlphanum || c == '_' || c == '-'

/-- Whether a character separates or brackets the parts of a collection on one line. -/
def isFlowMark (c : Char) : Bool := c ∈ [',', '[', ']', '{', '}']

/-! ## Glyphs -/

/-- A character with its place in the text. -/
structure Glyph where
  /-- The character. -/
  char : Char
  /-- The number of lines before it. -/
  line : Nat
  /-- The number of characters before it on its line. -/
  column : Nat
  /-- The number of bytes before it, where every line end but the two separators counts as one. -/
  offset : Nat

/-- The characters of a text with every line end but the two separators as a line feed. -/
def lineEnds : List Char → List Char
  | [] => []
  | '\r' :: '\n' :: rest => '\n' :: lineEnds rest
  | c :: rest => (if c == '\r' || c == '\u0085' then '\n' else c) :: lineEnds rest

/-- Gives every character its place, the first one the given place. -/
def placed (line column offset : Nat) : List Char → List Glyph
  | [] => []
  | c :: rest =>
    ⟨c, line, column, offset⟩ ::
      if isBreak c then placed (line + 1) 0 (offset + c.utf8Size) rest
      else placed line (column + 1) (offset + c.utf8Size) rest

/-- The glyphs of a text, if all of its characters are allowed. -/
def glyphs? (text : List Char) : Option (List Glyph) :=
  if text.all isAllowed then some (placed 0 0 0 (lineEnds text)) else none

/-! ## What a text begins with -/

/-- Whether a text begins with a character that satisfies a test. -/
def begins (test : Char → Bool) : List Glyph → Bool
  | [] => false
  | g :: _ => test g.char

/-- Whether a text is at its end or begins with white space. -/
def endsWord : List Glyph → Bool
  | [] => true
  | g :: _ => isWhite g.char

/-- Whether a line begins here with three times the same character and nothing else in the word. -/
def beginsMark (c : Char) : List Glyph → Bool
  | a :: b :: d :: rest =>
    a.column == 0 && a.char == c && b.char == c && d.char == c && endsWord rest
  | _ => false

/-- Whether the mark of a document's start or end stands here. -/
def beginsDocumentMark (text : List Glyph) : Bool := beginsMark '-' text || beginsMark '.' text

/-- The text after the words gaps in front of it. -/
def skipGap (text : List Glyph) : List Glyph := text.dropWhile fun g => isGap g.char

/-- The text at the next line end. -/
def skipLine (text : List Glyph) : List Glyph := text.dropWhile fun g => !isBreak g.char

/-- The text after what may follow the content of a line: gaps, a comment and the line end. -/
def finishLine? (text : List Glyph) : Option (List Glyph) :=
  let text := skipGap text
  match (if begins (· == '#') text then skipLine text else text) with
  | [] => some []
  | g :: rest => if isBreak g.char then some rest else none

/-! ## White space between words -/

/-- What the white space between two words of a scalar stands for. On one line it stands for itself.
Of the line ends in it, a first line feed stands for a space if it is the only one, and for nothing
if more follow. -/
def fold (white : List Char) : List Char :=
  match white.filter isBreak with
  | [] => white
  | first :: more =>
    if first == '\n' then (if more.isEmpty then [' '] else more) else first :: more

/-- Puts characters in front of those of a scalar. -/
def extend (cs : List Char) : List Char × List Glyph → List Char × List Glyph
  | (text, rest) => (cs ++ text, rest)

end JsonShape.Yaml

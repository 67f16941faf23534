import JsonShape.Text.Hex
import JsonShape.Yaml.Glyph

/-!
# Scalars between quotes

Between single quotes every character stands for itself, and a quote is written twice. Between
double quotes a backslash begins an escape; an escaped line end joins two lines without a space.
White space between words that contains a line end is folded. The text must not end before the
closing quote, and no line may begin with the mark of a document's start or end.
-/

namespace JsonShape.Yaml

/-- The rest of a scalar between single quotes, and the text after the closing quote. `white` is the
white space just read, the last character first. -/
def singleQuotedFrom (white : List Char) : List Glyph → Option (List Char × List Glyph)
  | [] => none
  | g :: rest =>
    if isWhite g.char then singleQuotedFrom (g.char :: white) rest
    else if beginsDocumentMark (g :: rest) then none
    else if g.char = '\'' then
      match rest with
      | [] => some (fold white.reverse, [])
      | q :: more =>
        if q.char = '\'' then
          (singleQuotedFrom [] more).map (extend (fold white.reverse ++ ['\'']))
        else some (fold white.reverse, q :: more)
    else (singleQuotedFrom [] rest).map (extend (fold white.reverse ++ [g.char]))

/-- The scalar whose opening single quote has been read. -/
def singleQuoted? (text : List Glyph) : Option (List Char × List Glyph) := singleQuotedFrom [] text

/-- The character of an escape of one letter. -/
def escape? (c : Char) : Option Char :=
  if c = '0' then some '\x00'
  else if c = 'a' then some '\x07'
  else if c = 'b' then some '\x08'
  else if c = 't' ∨ c = '\t' then some '\t'
  else if c = 'n' then some '\n'
  else if c = 'v' then some '\x0b'
  else if c = 'f' then some '\x0c'
  else if c = 'r' then some '\r'
  else if c = 'e' then some '\x1b'
  else if c = ' ' ∨ c = '"' ∨ c = '/' ∨ c = '\\' then some c
  else if c = 'N' then some '\u0085'
  else if c = '_' then some '\u00a0'
  else if c = 'L' then some '\u2028'
  else if c = 'P' then some '\u2029'
  else none

/-- How many hexadecimal digits an escape of a letter has. -/
def escapeDigits? (c : Char) : Option Nat :=
  if c = 'x' then some 2 else if c = 'u' then some 4 else if c = 'U' then some 8 else none

/-- Where a reader between double quotes stands. -/
inductive Place where
  /-- Between two characters. -/
  | ordinary
  /-- In the white space after an escaped line end. -/
  | joined
  /-- After a backslash. -/
  | escape
  /-- Inside a numeric escape, with `due` digits to come. -/
  | digits (due value : Nat)

/-- What the white space in front of a character stands for. After an escaped line end only the
further line ends count. -/
def Place.fold (place : Place) (white : List Char) : List Char :=
  match place with
  | .joined => white.filter isBreak
  | _ => Yaml.fold white

/-- The rest of a scalar between double quotes, and the text after the closing quote. `white` is the
white space just read, the last character first. -/
def doubleQuotedFrom (place : Place) (white : List Char) :
    List Glyph → Option (List Char × List Glyph)
  | [] => none
  | g :: rest =>
    match place with
    | .escape =>
      if isBreak g.char then doubleQuotedFrom .joined [] rest
      else match escapeDigits? g.char with
        | some due => doubleQuotedFrom (.digits due 0) [] rest
        | none =>
          match escape? g.char with
          | some c => (doubleQuotedFrom .ordinary [] rest).map (extend [c])
          | none => none
    | .digits due value =>
      match Text.hexValue? g.char with
      | none => none
      | some d =>
        let value := value * 16 + d
        if 1 < due then doubleQuotedFrom (.digits (due - 1) value) [] rest
        else if value.isValidChar then
          (doubleQuotedFrom .ordinary [] rest).map (extend [Char.ofNat value])
        else none
    | place =>
      if isWhite g.char then doubleQuotedFrom place (g.char :: white) rest
      else if beginsDocumentMark (g :: rest) then none
      else if g.char = '"' then some (place.fold white.reverse, rest)
      else if g.char = '\\' then
        (doubleQuotedFrom .escape [] rest).map (extend (place.fold white.reverse))
      else
        (doubleQuotedFrom .ordinary [] rest).map (extend (place.fold white.reverse ++ [g.char]))

/-- The scalar whose opening double quote has been read. -/
def doubleQuoted? (text : List Glyph) : Option (List Char × List Glyph) :=
  doubleQuotedFrom .ordinary [] text

end JsonShape.Yaml

import JsonShape.Yaml.Glyph

/-!
# Scalars on lines of their own

A scalar may be written on lines of its own, which are indented more than what they belong to. The
mark in front says whether its lines are kept or folded, what becomes of the line ends behind the
last line, and how far the lines are indented; if it does not say how far, the first line decides.
-/

namespace JsonShape.Yaml

/-- What becomes of the line ends behind the last line. -/
inductive Chomping where
  /-- All are dropped. -/
  | strip
  /-- The first stays. -/
  | clip
  /-- All stay. -/
  | keep

/-- What the mark of a scalar says besides its style. -/
structure Header where
  /-- What becomes of the line ends at the end. -/
  chomping : Chomping
  /-- How far the lines are indented, if it is said. -/
  indentation : Option Nat

/-- A sign for the line ends at the end, if there is one. -/
def chompingAt : List Glyph → Chomping × List Glyph
  | g :: rest =>
    if g.char = '+' then (.keep, rest)
    else if g.char = '-' then (.strip, rest)
    else (.clip, g :: rest)
  | [] => (.clip, [])

/-- A digit for the indentation, if there is one. It must not be zero. -/
def indentationAt? : List Glyph → Option (Option Nat × List Glyph)
  | g :: rest =>
    if g.char = '0' then none
    else if g.char.isDigit then some (some (g.char.toNat - 48), rest)
    else some (none, g :: rest)
  | [] => some (none, [])

/-- What follows the mark of a scalar on its line: a sign and a digit in any order, and then at most
a comment. -/
def header? (text : List Glyph) : Option (Header × List Glyph) := do
  let isSign := begins (fun c => c == '+' || c == '-') text
  if isSign then
    let (chomping, rest) := chompingAt text
    let (indentation, rest) ← indentationAt? rest
    return (⟨chomping, indentation⟩, ← finishLine? rest)
  else
    let (indentation, rest) ← indentationAt? text
    let (chomping, rest) :=
      if indentation.isSome then chompingAt rest else (Chomping.clip, rest)
    return (⟨chomping, indentation⟩, ← finishLine? rest)

/-- Empty lines in front of a line. -/
structure Blanks where
  /-- The ends of the lines. -/
  ends : List Char
  /-- The greatest number of spaces on one of the lines, or in front of the line that follows. -/
  widest : Nat
  /-- The text from the first column of the content of the line that follows. -/
  rest : List Glyph

/-- The empty lines in front of a line. Spaces up to the indentation belong to it; while it is not
known, all spaces do. A tab may not stand there. -/
def blanks? (indentation : Option Nat) (widest : Nat) : List Glyph → Option Blanks
  | [] => some ⟨[], widest, []⟩
  | g :: rest =>
    let inside := match indentation with
      | some n => decide (g.column < n)
      | none => true
    if inside && g.char == ' ' then blanks? indentation widest rest
    else if inside && g.char == '\t' then none
    else if isBreak g.char then
      (blanks? indentation (max widest g.column) rest).map fun b => { b with ends := g.char :: b.ends }
    else some ⟨[], max widest g.column, g :: rest⟩

/-- The lines of a scalar. -/
structure Lines where
  /-- The characters of the lines without the end of the last one. -/
  chars : List Char
  /-- The end of the last line. -/
  lineEnd : List Char
  /-- The ends of the empty lines after it. -/
  blanks : List Char
  /-- The text after the lines. -/
  rest : List Glyph

/-- What stands between two lines. Folding makes a space of a line feed between two lines that begin
with a word, unless there are empty lines between them, which then stand for themselves. -/
def between (folded : Bool) (lineEnd blanks : List Char) (beginsWithGap : Bool) : List Char :=
  if folded && lineEnd == ['\n'] && !beginsWithGap then
    if blanks.isEmpty then [' '] else blanks
  else lineEnd ++ blanks

/-- The lines that are indented to a column, reading at most `budget` of them. `lineEnd`, `blanks`
and `gap` tell of the line before: its end, the ends of the empty lines after it, and whether it
began with white space. -/
def lines? (folded : Bool) (column : Nat) :
    (budget : Nat) → (lineEnd blanks : List Char) → (gap : Bool) → List Glyph → Option Lines
  | 0, _, _, _, _ => none
  | _, lineEnd, blanks, _, [] => some ⟨[], lineEnd, blanks, []⟩
  | budget + 1, lineEnd, blanks, gap, g :: rest =>
    if g.column ≠ column then some ⟨[], lineEnd, blanks, g :: rest⟩
    else do
      let joint := between folded lineEnd blanks (gap || isGap g.char)
      let line := (g :: rest).takeWhile fun g => !isBreak g.char
      let after := skipLine (g :: rest)
      let next ← blanks? (some column) 0 (after.drop 1)
      let more ← lines? folded column budget ((after.take 1).map Glyph.char) next.ends
        (isGap g.char) next.rest
      return { more with chars := joint ++ line.map Glyph.char ++ more.chars }

/-- The scalar after its mark, inside content whose least column is `inner`. -/
def block? (folded : Bool) (inner : Nat) (text : List Glyph) :
    Option (List Char × List Glyph) := do
  let (header, rest) ← header? text
  let stated := header.indentation.map fun n => inner - 1 + n
  let first ← blanks? stated 0 rest
  let column := stated.getD (max first.widest (max inner 1))
  let lines ← lines? folded column (first.rest.length + 1) [] first.ends false first.rest
  let ending := match header.chomping with
    | .strip => []
    | .clip => lines.lineEnd
    | .keep => lines.lineEnd ++ lines.blanks
  return (lines.chars ++ ending, lines.rest)

end JsonShape.Yaml

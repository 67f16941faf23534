import JsonShape.Yaml.Glyph

/-!
# Plain scalars

A plain scalar is written without marks. It may go on over several lines, as long as they are
indented, and its white space is folded. It ends before a colon that ends a word, before a comment,
before the mark of a document's start or end, and between brackets before a comma or bracket.
-/

namespace JsonShape.Yaml

/-- A plain scalar as it is read. -/
structure Plain where
  /-- The characters of the scalar. -/
  chars : List Char
  /-- Whether there is a line end between the scalar and what follows it. -/
  ended : Bool
  /-- The text after the scalar and the white space behind it. -/
  rest : List Glyph

/-- The rest of a plain scalar. `flow` says that it stands between brackets, `inner` is the least
column of a further line, and `white` the white space just read, the last character first. -/
def plainFrom (flow : Bool) (inner : Nat) (white : List Char) : List Glyph → Option Plain
  | [] => some ⟨[], white.any isBreak, []⟩
  | g :: rest =>
    let ended := white.any isBreak
    let isEnd :=
      (!white.isEmpty &&
        ((!flow && g.column < inner) || beginsDocumentMark (g :: rest) || g.char == '#'))
      || (g.char == ':' && endsWord rest)
    if isWhite g.char then
      if ended && g.char == '\t' && g.column < inner then none
      else plainFrom flow inner (g.char :: white) rest
    else if !isEnd && flow && g.char == ':' && begins (fun c => c == '?' || isFlowMark c) rest then
      none
    else if isEnd || (flow && isFlowMark g.char) then some ⟨[], ended, g :: rest⟩
    else
      (plainFrom flow inner [] rest).map fun plain =>
        { plain with chars := fold white.reverse ++ g.char :: plain.chars }

/-- The plain scalar a text begins with. -/
def plain? (flow : Bool) (inner : Nat) (text : List Glyph) : Option Plain :=
  plainFrom flow inner [] text

end JsonShape.Yaml

import JsonShape.Text.Hex
import JsonShape.Yaml.Glyph
import JsonShape.Yaml.Token

/-!
# Names, tags and directives

The parts of a YAML text that are no content of their own: the names by which nodes are referred to,
the tags that name a kind of node, and the lines at the head of a document that state the version of
YAML or introduce a handle, which is short for the beginning of tags. Each reader takes the text
after the mark that announces the part, and gives what it read with the text after it.
-/

namespace JsonShape.Yaml

/-- The characters of glyphs. -/
def charsOf (text : List Glyph) : List Char := text.map Glyph.char

/-- The name at the front of a text, and the text after it. -/
def nameAt (text : List Glyph) : List Char × List Glyph :=
  (charsOf (text.takeWhile fun g => isNameChar g.char), text.dropWhile fun g => isNameChar g.char)

/-- A name of a node. It must not be empty, and white space or certain marks have to follow. -/
def reference? (text : List Glyph) : Option (String × List Glyph) :=
  let (name, rest) := nameAt text
  let ends := endsWord rest || begins (· ∈ ['?', ':', ',', ']', '}', '%', '@', '\x60']) rest
  if !name.isEmpty && ends then some (String.ofList name, rest) else none

/-! ## Tags -/

/-- Whether a character may stand in a tag as itself. In a tag between angle brackets and in the
expansion of a handle it may also be a comma or a bracket. -/
def isTagChar (wide : Bool) (c : Char) : Bool :=
  isNameChar c || c ∈ [';', '/', '?', ':', '@', '&', '=', '+', '$', '.', '!', '~', '*', '\'', '(',
    ')'] || (wide && c ∈ [',', '[', ']'])

/-- How many bytes follow the first byte of a character. -/
def tailCount? (first : Nat) : Option Nat :=
  if first < 0x80 then some 0
  else if first / 0x20 = 6 then some 1
  else if first / 0x10 = 14 then some 2
  else if first / 0x08 = 30 then some 3
  else none

/-- The bytes of a tag, and the text after it. A byte may be written as a per cent sign and two
hexadecimal digits; then the `due` other bytes of its character have to be written in the same
way. -/
def tagBytes (wide : Bool) (due : Nat) : List Glyph → Option (List UInt8 × List Glyph)
  | [] => if due = 0 then some ([], []) else none
  | g :: rest =>
    if g.char = '%' then
      match rest with
      | a :: b :: more => do
        let octet := (← Text.hexValue? a.char) * 16 + (← Text.hexValue? b.char)
        let due ←
          if due = 0 then tailCount? octet else if octet / 0x40 = 2 then some (due - 1) else none
        let (bytes, after) ← tagBytes wide due more
        return (octet.toUInt8 :: bytes, after)
      | _ => none
    else if due ≠ 0 then none
    else if isTagChar wide g.char then do
      let (bytes, after) ← tagBytes wide 0 rest
      return (g.char.toNat.toUInt8 :: bytes, after)
    else some ([], g :: rest)

/-- A tag without what follows a zero byte. -/
def endAtZero (bytes : List UInt8) : Tag := bytes.takeWhile (· != 0)

/-- The bytes of a tag of which at least one has to be there. -/
def tagPart? (wide : Bool) (text : List Glyph) : Option (Tag × List Glyph) := do
  let (bytes, rest) ← tagBytes wide 0 text
  if bytes.isEmpty then none else return (endAtZero bytes, rest)

/-- The tag between angle brackets. -/
def verbatimTag? (text : List Glyph) : Option (Token × List Glyph) := do
  let (bytes, rest) ← tagPart? true text
  match rest with
  | g :: after => if g.char = '>' then return (.tag "" bytes, after) else none
  | [] => none

/-- The tag whose exclamation mark has been read. A second one ends its handle. A tag that is
nothing but the mark is not short for anything. -/
def shortTag? (text : List Glyph) : Option (Token × List Glyph) := do
  let (name, rest) := nameAt text
  if begins (· == '!') rest then
    let (bytes, after) ← tagPart? false (rest.drop 1)
    return (.tag (String.ofList ('!' :: name ++ ['!'])) bytes, after)
  else
    let (bytes, after) ← tagBytes false 0 text
    let bytes := endAtZero bytes
    return (if bytes.isEmpty then .tag "" [33] else .tag "!" bytes, after)

/-- The tag whose exclamation mark has been read. White space has to follow it; a comma may follow
it between brackets. -/
def tag? (flow : Bool) (text : List Glyph) : Option (Token × List Glyph) := do
  let (token, rest) ←
    if begins (· == '<') text then verbatimTag? (text.drop 1) else shortTag? text
  if endsWord rest || (flow && begins (· == ',') rest) then return (token, rest) else none

/-! ## Directives -/

/-- A number of at most nine digits. -/
def shortNumber? (text : List Glyph) : Option (Nat × List Glyph) :=
  let digits := text.takeWhile fun g => g.char.isDigit
  if digits.isEmpty || 9 < digits.length then none
  else some (digits.foldl (fun n g => n * 10 + (g.char.toNat - 48)) 0, text.drop digits.length)

/-- The version of YAML. -/
def version? (text : List Glyph) : Option (Token × List Glyph) := do
  let (major, rest) ← shortNumber? (skipGap text)
  if begins (· == '.') rest then
    let (minor, rest) ← shortNumber? (rest.drop 1)
    return (.version major minor, rest)
  else none

/-- A handle and what it is short for. -/
def abbreviation? (text : List Glyph) : Option (Token × List Glyph) := do
  let text := skipGap text
  let (name, afterName) := nameAt (text.drop 1)
  let (handle, rest) ←
    if begins (· == '!') afterName then some ('!' :: name ++ ['!'], afterName.drop 1)
    else if name.isEmpty then some (['!'], afterName)
    else none
  let (expansion, after) ← tagPart? true (skipGap rest)
  if begins (· == '!') text && begins isGap rest && endsWord after then
    return (.abbreviation (String.ofList handle) expansion, after)
  else none

/-- The directive whose per cent sign has been read, with the rest of its line. -/
def directive? (text : List Glyph) : Option (Token × List Glyph) := do
  let (name, rest) := nameAt text
  let (token, rest) ←
    if !endsWord rest then none
    else if name = ['Y', 'A', 'M', 'L'] then version? rest
    else if name = ['T', 'A', 'G'] then abbreviation? rest
    else none
  return (token, ← finishLine? rest)

end JsonShape.Yaml

import JsonShape.Yaml.Block
import JsonShape.Yaml.Names
import JsonShape.Yaml.Plain
import JsonShape.Yaml.Quoted

/-!
# From the layout of a YAML text to tokens

Outside brackets, indentation says where sequences and mappings begin and end; the tokens say it in
words. A key that is not announced by a question mark is recognised only at its colon: until then
every node that could be a key is remembered, and when the colon comes, the token that announces the
key is put in front of it. Such a key has to be on one line with its colon, and not more than 1024
bytes before it.
-/

namespace JsonShape.Yaml

/-- A node that turns out to be a key if a colon follows it. -/
structure Candidate where
  /-- Whether it stands where only a key can stand. -/
  isDue : Bool
  /-- How many tokens are before it. -/
  tokens : Nat
  /-- Where it begins. -/
  start : Glyph

/-- Whether a candidate is too far away from a place to be a key. -/
def Candidate.isOver (c : Candidate) (here : Glyph) : Bool :=
  c.start.line < here.line || c.start.offset + 1024 < here.offset

/-- What is known of a text while it is turned into tokens. -/
structure Layout where
  /-- The tokens so far, the last one first. -/
  tokens : List Token
  /-- The columns of the open sequences and mappings outside brackets, the innermost first. -/
  columns : List Nat
  /-- The candidate between the innermost brackets, or outside all of them. -/
  candidate : Option Candidate
  /-- The candidates around each of the open brackets, the innermost first. -/
  outer : List (Option Candidate)
  /-- Whether a key may begin here. -/
  keyAllowed : Bool

namespace Layout

/-- Nothing is known at the start of a text. -/
def start : Layout := ⟨[], [], none, [], true⟩

/-- Whether the text is between brackets. -/
def isFlow (l : Layout) : Bool := !l.outer.isEmpty

/-- The least column of content that belongs to the innermost open sequence or mapping. -/
def inner (l : Layout) : Nat :=
  match l.columns with
  | [] => 0
  | column :: _ => column + 1

/-- One more token. -/
def push (l : Layout) (token : Token) : Layout := { l with tokens := token :: l.tokens }

/-- One more token, after which a key may or may not begin. -/
def mark (l : Layout) (token : Token) (keyAllowed : Bool) : Layout :=
  { l with tokens := token :: l.tokens, keyAllowed }

/-! ## Candidates -/

/-- Forgets a candidate that is over. It must not be one that has to be a key. -/
def expired? (here : Glyph) : Option Candidate → Option (Option Candidate)
  | none => some none
  | some c =>
    if c.isOver here then (if c.isDue then none else some none) else some (some c)

/-- Forgets all candidates that are over. -/
def expire? (l : Layout) (here : Glyph) : Option Layout := do
  let candidate ← expired? here l.candidate
  let outer ← l.outer.mapM (expired? here)
  return { l with candidate, outer }

/-- Forgets the candidate. It must not be one that has to be a key. -/
def drop? (l : Layout) : Option Layout :=
  match l.candidate with
  | some c => if c.isDue then none else some { l with candidate := none }
  | none => some l

/-- Remembers that the node that begins here may be a key, if a key may begin here. -/
def remember? (l : Layout) (start : Glyph) : Option Layout :=
  if l.keyAllowed then do
    let l ← l.drop?
    let isDue := !l.isFlow && l.columns.head? == some start.column
    return { l with candidate := some ⟨isDue, l.tokens.length, start⟩ }
  else some l

/-! ## Indentation -/

/-- Ends the sequences and mappings whose column is greater than one of the given columns; all of
them if none is given. Between brackets indentation means nothing. -/
def unindent (l : Layout) (column : Option Nat) : Layout :=
  if l.isFlow then l
  else
    let isOpen (c : Nat) : Bool := match column with
      | some column => c ≤ column
      | none => false
    { l with
      tokens := (l.columns.takeWhile fun c => !isOpen c).map (fun _ => .blockEnd) ++ l.tokens
      columns := l.columns.dropWhile fun c => !isOpen c }

/-- Begins a sequence or mapping at a column, unless it is open already. Its first token is put
after the first `count` tokens. -/
def indent (l : Layout) (column count : Nat) (token : Token) : Layout :=
  if !l.isFlow && l.inner ≤ column then
    let later := l.tokens.take (l.tokens.length - count)
    let earlier := l.tokens.drop (l.tokens.length - count)
    { l with tokens := later ++ token :: earlier, columns := column :: l.columns }
  else l

/-- Begins a sequence or mapping here. Outside brackets a key must be allowed here. -/
def begin? (l : Layout) (here : Glyph) (token : Token) : Option Layout :=
  if l.isFlow then some l
  else if l.keyAllowed then some (l.indent here.column l.tokens.length token)
  else none

/-! ## Tokens -/

/-- An opening bracket or brace. -/
def opened? (l : Layout) (here : Glyph) (token : Token) : Option Layout := do
  let l ← l.remember? here
  return { l.mark token true with candidate := none, outer := l.candidate :: l.outer }

/-- A closing bracket or brace. -/
def closed? (l : Layout) (token : Token) : Option Layout := do
  let l ← l.drop?
  let l := l.mark token false
  match l.outer with
  | [] => return l
  | candidate :: outer => return { l with candidate, outer }

/-- A colon. If a candidate is known it becomes a key, and if it is the first of its column a
mapping begins with it. -/
def colon? (l : Layout) (here : Glyph) : Option Layout :=
  match l.candidate with
  | some c =>
    let later := l.tokens.take (l.tokens.length - c.tokens)
    let earlier := l.tokens.drop (l.tokens.length - c.tokens)
    let l := { l with tokens := later ++ Token.key :: earlier, candidate := none }
    some ((l.indent c.start.column c.tokens .mappingStart).mark .value false)
  | none => do
    let l ← l.begin? here .mappingStart
    return l.mark .value (!l.isFlow)

/-- A question mark that announces a key. -/
def question? (l : Layout) (here : Glyph) : Option Layout := do
  let l ← l.begin? here .mappingStart
  let l ← l.drop?
  return l.mark .key (!l.isFlow)

/-- A dash that announces an item. -/
def dash? (l : Layout) (here : Glyph) : Option Layout := do
  let l ← l.begin? here .sequenceStart
  let l ← l.drop?
  return l.mark .dash true

/-- A token that stands at the start of a line and ends everything that is open. -/
def cut? (l : Layout) (token : Token) : Option Layout := do
  let l ← (l.unindent none).drop?
  return l.mark token false

/-- A token of a node. -/
def node? (l : Layout) (here : Glyph) (token : Token) : Option Layout := do
  let l ← l.remember? here
  return l.mark token false

/-- A plain scalar. A key may begin after it if there is a line end in between. -/
def plain? (l : Layout) (text : List Glyph) (here : Glyph) : Option (Layout × List Glyph) := do
  let l ← l.remember? here
  let plain ← Yaml.plain? l.isFlow l.inner text
  return (l.mark (.scalar .plain (String.ofList plain.chars)) plain.ended, plain.rest)

/-- A scalar on lines of its own. -/
def block? (l : Layout) (folded : Bool) (text : List Glyph) : Option (Layout × List Glyph) := do
  let l ← l.drop?
  let (chars, rest) ← Yaml.block? folded l.inner text
  return (l.mark (.scalar (if folded then .other else .literal) (String.ofList chars)) true, rest)

/-- The next token and the text after it. The text begins with the token. -/
def next? (l : Layout) (g : Glyph) (rest : List Glyph) : Option (Layout × List Glyph) :=
  let c := g.char
  let text := g :: rest
  if g.column = 0 ∧ c = '%' then do
    let (token, rest) ← directive? rest
    return (← l.cut? token, rest)
  else if beginsMark '-' text then do return (← l.cut? .documentStart, text.drop 3)
  else if beginsMark '.' text then do return (← l.cut? .documentEnd, text.drop 3)
  else if c = '[' then do return (← l.opened? g .openBracket, rest)
  else if c = '{' then do return (← l.opened? g .openBrace, rest)
  else if c = ']' then do return (← l.closed? .closeBracket, rest)
  else if c = '}' then do return (← l.closed? .closeBrace, rest)
  else if c = ',' then do return ((← l.drop?).mark .comma true, rest)
  else if c = '-' ∧ endsWord rest then do return (← l.dash? g, rest)
  else if c = '?' ∧ (l.isFlow ∨ endsWord rest) then do return (← l.question? g, rest)
  else if c = ':' ∧ (l.isFlow ∨ endsWord rest) then do return (← l.colon? g, rest)
  else if c = '*' then do
    let (name, rest) ← reference? rest
    return (← l.node? g (.alias name), rest)
  else if c = '&' then do
    let (name, rest) ← reference? rest
    return (← l.node? g (.anchor name), rest)
  else if c = '!' then do
    let (token, rest) ← tag? l.isFlow rest
    return (← l.node? g token, rest)
  else if c = '|' ∧ !l.isFlow then l.block? false rest
  else if c = '>' ∧ !l.isFlow then l.block? true rest
  else if c = '\'' then do
    let (chars, rest) ← singleQuoted? rest
    return (← l.node? g (.scalar .other (String.ofList chars)), rest)
  else if c = '"' then do
    let (chars, rest) ← doubleQuoted? rest
    return (← l.node? g (.scalar .other (String.ofList chars)), rest)
  else if isWhite c ∨ c ∈ ['#', '|', '>', '%', '@', '\x60'] then none
  else l.plain? text g

/-- The text from the next token on, and whether a key may begin there. White space, comments and a
byte order mark at the start of a line are passed over. A tab is white space only where no key may
begin, or between brackets; outside brackets a key may begin after a line end. -/
def skip (flow : Bool) (comment keyAllowed : Bool) : List Glyph → Bool × List Glyph
  | [] => (keyAllowed, [])
  | g :: rest =>
    if isBreak g.char then skip flow false (keyAllowed || !flow) rest
    else if comment then skip flow true keyAllowed rest
    else if g.char = '#' then skip flow true keyAllowed rest
    else if g.char = ' ' ∨ (g.char = '\t' ∧ (flow ∨ !keyAllowed)) then
      skip flow false keyAllowed rest
    else if g.char = '\uFEFF' ∧ g.column = 0 then skip flow false keyAllowed rest
    else (keyAllowed, g :: rest)

/-- All tokens of a text, reading at most `budget` of them. -/
def tokens? : (budget : Nat) → Layout → List Glyph → Option (List Token)
  | 0, _, _ => none
  | budget + 1, l, text =>
    let (keyAllowed, text) := skip l.isFlow false l.keyAllowed text
    let l := { l with keyAllowed }
    match text with
    | [] => do return (← (l.unindent none).drop?).tokens.reverse
    | g :: rest => do
      let l ← l.expire? g
      let (l, after) ← (l.unindent (some g.column)).next? g rest
      tokens? budget l after

end Layout

/-- The tokens of a text. Every token has at least one character. -/
def tokens? (text : List Char) : Option (List Token) := do
  let glyphs ← glyphs? text
  Layout.tokens? (glyphs.length + 1) Layout.start glyphs

end JsonShape.Yaml

import JsonShape.Yaml.Token

/-!
# The nodes of a YAML document

A document is a tree of scalars, sequences and mappings. A node may have a tag, and it may have a
name by which an alias elsewhere refers to it. Names are numbered: a name gets the number of
different names that the document has introduced before. When a name is introduced again it gets a
new number in this way, and it may happen that two names share a number; an alias refers to the last
node with its number.
-/

namespace JsonShape.Yaml

/-- What a node carries besides its content. -/
structure Label where
  /-- The number of its name. -/
  anchor : Option Nat := none
  /-- Its tag. -/
  tag : Option Tag := none

/-- A node of a document. -/
inductive Tree where
  /-- The node with a number stands here too. -/
  | alias (id : Nat)
  /-- A scalar, by its text. -/
  | scalar (label : Label) (style : Style) (text : String)
  /-- A sequence. -/
  | sequence (label : Label) (items : List Tree)
  /-- A mapping; keys are nodes as well. -/
  | mapping (label : Label) (entries : List (Tree × Tree))

/-- The node where nothing is written. -/
def Tree.empty (label : Label) : Tree := .scalar label .plain ""

/-- The number of a label and its node. -/
def Label.target (label : Label) (node : Tree) : List (Nat × Tree) :=
  match label.anchor with
  | some id => [(id, node)]
  | none => []

namespace Tree

mutual

/-- The nodes that have a name, in the order of the text. -/
def targets : Tree → List (Nat × Tree)
  | .alias _ => []
  | .scalar label style text => label.target (.scalar label style text)
  | .sequence label items => label.target (.sequence label items) ++ targetsOfItems items
  | .mapping label entries => label.target (.mapping label entries) ++ targetsOfEntries entries

/-- The nodes with a name in a sequence. -/
def targetsOfItems : List Tree → List (Nat × Tree)
  | [] => []
  | item :: rest => targets item ++ targetsOfItems rest

/-- The nodes with a name in a mapping. -/
def targetsOfEntries : List (Tree × Tree) → List (Nat × Tree)
  | [] => []
  | (key, value) :: rest => targets key ++ targets value ++ targetsOfEntries rest

end

mutual

/-- The size of a tree: one for each scalar and alias, and two for each sequence and mapping. -/
def size : Tree → Nat
  | .alias _ => 1
  | .scalar .. => 1
  | .sequence _ items => 2 + sizeOfItems items
  | .mapping _ entries => 2 + sizeOfEntries entries

/-- The size of items. -/
def sizeOfItems : List Tree → Nat
  | [] => 0
  | item :: rest => size item + sizeOfItems rest

/-- The size of entries. -/
def sizeOfEntries : List (Tree × Tree) → Nat
  | [] => 0
  | (key, value) :: rest => size key + size value + sizeOfEntries rest

end

end Tree

/-! ## Reading tokens -/

/-- What is known while tokens are read. -/
structure Reading where
  /-- The tokens to come. -/
  tokens : List Token
  /-- The handles of tags and what they are short for. -/
  handles : List (String × Tag)
  /-- The names of nodes and their numbers; of each name the last number stands first. -/
  names : List (String × Nat) := []

/-- A reader of tokens, which may fail. -/
abbrev Reader := StateT Reading Option

namespace Reader

/-- The next token. -/
def peek : Reader (Option Token) := do return (← get).tokens.head?

/-- Passes over the next token. -/
def skip : Reader Unit := modify fun r => { r with tokens := r.tokens.tail }

/-- Passes over a token if it is the next one, and says whether it was. -/
def accept (token : Token) : Reader Bool := do
  if (← peek) = some token then
    skip
    return true
  else return false

/-- Passes over a token, which has to be the next one. -/
def expect (token : Token) : Reader Unit := do
  if !(← accept token) then failure

/-- Whether the next token is one of some tokens. -/
def isNext (tokens : List Token) : Reader Bool := do
  match ← peek with
  | some token => return tokens.contains token
  | none => return false

/-- Gives a name the next number. A name that was there before is not counted a second time. -/
def introduce (name : String) : Reader Nat := do
  let r ← get
  let id := r.names.length
  set { r with names := (name, id) :: r.names.filter fun e => e.1 != name }
  return id

/-- The tag that a handle and a suffix stand for. -/
def resolve (handle : String) (suffix : Tag) : Reader Tag := do
  if handle.isEmpty then return suffix
  else match (← get).handles.lookup handle with
    | some expansion => return expansion ++ suffix
    | none => failure

/-- The tag in front of a node, if there is one. -/
def tag? : Reader (Option Tag) := do
  match ← peek with
  | some (.tag handle suffix) =>
    skip
    return some (← resolve handle suffix)
  | _ => return none

/-- The name in front of a node, if there is one. -/
def anchor? : Reader (Option String) := do
  match ← peek with
  | some (.anchor name) =>
    skip
    return some name
  | _ => return none

/-- What stands in front of a node: a tag and a name, in any order. -/
def label : Reader Label := do
  let before ← anchor?
  let tag ← tag?
  let name ← if before.isSome then pure before else anchor?
  match name with
  | some name => return ⟨some (← introduce name), tag⟩
  | none => return ⟨none, tag⟩

mutual

/-- A node. `nested` says that its content may be indented, `dashes` that the dashes of its items
may stand in the column of the key before it. -/
def node : (budget : Nat) → (nested dashes : Bool) → Reader Tree
  | 0, _, _ => failure
  | budget + 1, nested, dashes => do
    match ← peek with
    | some (.alias name) =>
      skip
      match (← get).names.lookup name with
      | some id => return .alias id
      | none => failure
    | _ =>
      let label ← label
      match ← peek with
      | some (.scalar style text) =>
        skip
        return .scalar label style text
      | some .openBracket =>
        skip
        return .sequence label (← flowItems budget true)
      | some .openBrace =>
        skip
        return .mapping label (← flowEntries budget true)
      | token =>
        if token = some .dash ∧ dashes then
          return .sequence label (← dashedItems budget)
        else if token = some .sequenceStart ∧ nested then
          skip
          return .sequence label (← items budget)
        else if token = some .mappingStart ∧ nested then
          skip
          return .mapping label (← entries budget)
        else if label.anchor.isSome ∨ label.tag.isSome then return .empty label
        else failure

/-- A node, or the empty node if one of some tokens is next. -/
def nodeUnless : (budget : Nat) → (nested dashes : Bool) → List Token → Reader Tree
  | 0, _, _, _ => failure
  | budget + 1, nested, dashes, tokens => do
    if ← isNext tokens then return .empty {} else node budget nested dashes

/-- The items of an indented sequence. -/
def items : (budget : Nat) → Reader (List Tree)
  | 0 => failure
  | budget + 1 => do
    if ← accept .dash then
      let item ← nodeUnless budget true false [.dash, .blockEnd]
      return item :: (← items budget)
    else
      expect .blockEnd
      return []

/-- The items of a sequence in the column of the key before it. -/
def dashedItems : (budget : Nat) → Reader (List Tree)
  | 0 => failure
  | budget + 1 => do
    if ← accept .dash then
      let item ← nodeUnless budget true false [.dash, .key, .value, .blockEnd]
      return item :: (← dashedItems budget)
    else return []

/-- The entries of an indented mapping. -/
def entries : (budget : Nat) → Reader (List (Tree × Tree))
  | 0 => failure
  | budget + 1 => do
    if ← accept .key then
      let key ← nodeUnless budget true true [.key, .value, .blockEnd]
      let value ←
        if ← accept .value then nodeUnless budget true true [.key, .value, .blockEnd]
        else pure (.empty {})
      return (key, value) :: (← entries budget)
    else
      expect .blockEnd
      return []

/-- The items between brackets. An item may be a single entry; it is then a mapping of its own. -/
def flowItems : (budget : Nat) → (first : Bool) → Reader (List Tree)
  | 0, _ => failure
  | budget + 1, first => do
    if ← accept .closeBracket then return []
    else
      if !first then expect .comma
      if ← accept .closeBracket then return []
      else if ← accept .key then
        let entry ← flowPair budget
        return .mapping {} [entry] :: (← flowItems budget false)
      else
        let item ← node budget false false
        return item :: (← flowItems budget false)

/-- A single entry between brackets. If its key is empty, the token that shows this is passed over;
so an entry without a key cannot have a value. -/
def flowPair : (budget : Nat) → Reader (Tree × Tree)
  | 0 => failure
  | budget + 1 => do
    let key ←
      if ← isNext [.value, .comma, .closeBracket] then
        skip
        pure (.empty {})
      else node budget false false
    let value ←
      if ← accept .value then nodeUnless budget false false [.comma, .closeBracket]
      else pure (.empty {})
    return (key, value)

/-- The entries between braces. -/
def flowEntries : (budget : Nat) → (first : Bool) → Reader (List (Tree × Tree))
  | 0, _ => failure
  | budget + 1, first => do
    if ← accept .closeBrace then return []
    else
      if !first then expect .comma
      if ← accept .closeBrace then return []
      else if ← accept .key then
        let key ← nodeUnless budget false false [.value, .comma, .closeBrace]
        let value ←
          if ← accept .value then nodeUnless budget false false [.comma, .closeBrace]
          else pure (.empty {})
        return (key, value) :: (← flowEntries budget false)
      else
        let key ← node budget false false
        return (key, .empty {}) :: (← flowEntries budget false)

end

/-- Passes over the marks of the end of a document. -/
def skipEnds : Reader Unit :=
  modify fun r => { r with tokens := r.tokens.dropWhile (· = .documentEnd) }

end Reader

/-! ## Documents -/

/-- The tag handles that every document has. -/
def standardHandles : List (String × Tag) :=
  [("!", "!".toUTF8.toList), ("!!", "tag:yaml.org,2002:".toUTF8.toList)]

/-- The directives in front of a document: the handles they introduce, and the tokens after them. A
version may be stated once, and has to be 1.1 or 1.2; a handle may be introduced once. -/
def directives? (stated : Bool) (handles : List (String × Tag)) :
    List Token → Option (List (String × Tag) × List Token)
  | .version major minor :: rest =>
    if !stated && major = 1 && (minor = 1 || minor = 2) then directives? true handles rest else none
  | .abbreviation handle expansion :: rest =>
    if (handles.lookup handle).isSome then none
    else directives? stated ((handle, expansion) :: handles) rest
  | tokens => some (handles, tokens)

/-- The tokens that cannot begin the content of a document. -/
def Token.isOutside : Token → Bool
  | .version .. | .abbreviation .. | .documentStart | .documentEnd => true
  | _ => false

/-- The root of the only document of a text. No document at all is an empty one. -/
def root? (tokens : List Token) : Option Tree := do
  let budget := 4 * tokens.length + 4
  let (handles, rest) ← directives? false [] tokens
  let isExplicit := rest.head? = some .documentStart
  if rest.length < tokens.length then guard isExplicit
  let tokens := if isExplicit then rest.drop 1 else rest
  let isEmpty := match tokens with
    | [] => true
    | token :: _ => isExplicit && token.isOutside
  let read : Reader Tree := do
    let root ← if isEmpty then pure (.empty {}) else Reader.node budget true false
    Reader.skipEnds
    if (← Reader.peek).isSome then failure
    return root
  return (← read.run ⟨tokens, handles ++ standardHandles, []⟩).1

end JsonShape.Yaml

import JsonShape.Json.Lexical
import JsonShape.Json.Node

/-!
# Reading JSON text

`Node.read` reads a text into a document tree, as far as it goes. White space may stand between any
two parts. Arrays and objects may be nested 127 deep; a deeper one is refused where it opens. Parts
that the `Interest` does not ask for are skipped, however deep they are.

`decodeText` reads a document, decodes it, and then refuses anything but white space after it.
-/

namespace JsonShape.Json

open Lexical

/-! ## Passing over values nobody asked for -/

mutual

/-- The text after a value. -/
def skipValue : (budget : Nat) → Text → Except Fault Text
  | 0, _ => .error .tooDeep
  | budget + 1, text =>
    match skipSpace text with
    | [] => .error .endOfValue
    | some 'n' :: rest => readWord ['u', 'l', 'l'] rest
    | some 't' :: rest => readWord ['r', 'u', 'e'] rest
    | some 'f' :: rest => readWord ['a', 'l', 's', 'e'] rest
    | some '"' :: rest => skipString rest
    | some '[' :: rest => skipItems budget true rest
    | some '{' :: rest => skipEntries budget true rest
    | s :: rest =>
      if s = some '-' ∨ startsWithDigit (s :: rest) then skipNumber (s :: rest)
      else .error .expectedValue

/-- The text after the items and the closing bracket. -/
def skipItems : (budget : Nat) → (first : Bool) → Text → Except Fault Text
  | 0, _, _ => .error .tooDeep
  | budget + 1, first, text =>
    match skipSpace text with
    | [] => .error .endOfList
    | some ']' :: rest => .ok rest
    | s :: rest =>
      if first then
        match skipValue budget (s :: rest) with
        | .ok after => skipItems budget false after
        | .error f => .error f
      else if s = some ',' then
        match skipValue budget rest with
        | .ok after => skipItems budget false after
        | .error f => .error f
      else .error .expectedListSeparator

/-- The text after the entries and the closing brace. -/
def skipEntries : (budget : Nat) → (first : Bool) → Text → Except Fault Text
  | 0, _, _ => .error .tooDeep
  | budget + 1, first, text =>
    match skipSpace text with
    | [] => .error .endOfObject
    | some '}' :: rest => .ok rest
    | s :: rest =>
      if first then skipEntry budget (s :: rest)
      else if s = some ',' then skipEntry budget (skipSpace rest)
      else .error .expectedObjectSeparator

/-- The text after an entry and all that follow it, from the entry's key on. -/
def skipEntry : (budget : Nat) → Text → Except Fault Text
  | 0, _ => .error .tooDeep
  | _, [] => .error .endOfObject
  | budget + 1, some '"' :: rest =>
    match skipString rest with
    | .error f => .error f
    | .ok afterKey =>
      match skipSpace afterKey with
      | [] => .error .endOfObject
      | some ':' :: value =>
        match skipValue budget value with
        | .ok after => skipEntries budget false after
        | .error f => .error f
      | _ => .error .expectedColon
  | _, _ => .error .keyNotString

end

/-! ## Reading -/

/-- The closing bracket after the last of a fixed number of items. -/
def readClosing (text : Text) : Except Fault Text :=
  match skipSpace text with
  | [] => .error .endOfList
  | some ']' :: rest => .ok rest
  | some ',' :: rest =>
    match skipSpace rest with
    | some ']' :: _ => .error .trailingComma
    | _ => .error .trailingCharacters
  | _ => .error .trailingCharacters

mutual

/-- A value and the text after it; there is no text after a value at which reading stopped. -/
def readValue : (budget : Nat) → Interest → (depth : Nat) → Text → Node × Option Text
  | 0, _, _, _ => (.broken .tooDeep, none)
  | budget + 1, interest, depth, text =>
    let afterWord (node : Node) (r : Except Fault Text) : Node × Option Text :=
      match r with
      | .ok rest => (node, some rest)
      | .error f => (.broken f, none)
    match skipSpace text with
    | [] => (.broken .endOfValue, none)
    | some 'n' :: rest => afterWord .null (readWord ['u', 'l', 'l'] rest)
    | some 't' :: rest => afterWord (.bool true) (readWord ['r', 'u', 'e'] rest)
    | some 'f' :: rest => afterWord (.bool false) (readWord ['a', 'l', 's', 'e'] rest)
    | some '"' :: rest =>
      match readString rest with
      | .ok (s, after) => (.string s, some after)
      | .error f => (.broken f, none)
    | some '[' :: rest =>
      match depth with
      | 0 => (.broken .tooDeep, none)
      | depth + 1 =>
        let (items, after) := readItems budget interest.supply depth true rest
        (.sequence items, after)
    | some '{' :: rest =>
      match depth with
      | 0 => (.broken .tooDeep, none)
      | depth + 1 =>
        let (entries, after) := readEntries budget interest depth true rest
        (.mapping entries, after)
    | s :: rest =>
      if s = some '-' ∨ startsWithDigit (s :: rest) then
        match readNumber (s :: rest) with
        | .ok (n, after) => (.number n, some after)
        | .error f => (.broken f, none)
      else (.broken .expectedValue, none)

/-- The items of a sequence and the text after its closing bracket. -/
def readItems : (budget : Nat) → Supply → (depth : Nat) → (first : Bool) → Text →
    List Node × Option Text
  | 0, _, _, _, _ => ([.broken .tooDeep], none)
  | _, .fixed [], _, _, text =>
    match readClosing text with
    | .ok rest => ([], some rest)
    | .error f => ([.broken f], none)
  | budget + 1, supply, depth, first, text =>
    match skipSpace text with
    | [] => ([.broken .endOfList], none)
    | some ']' :: rest => ([], some rest)
    | s :: rest =>
      if first then readItem budget supply depth (s :: rest)
      else if s = some ',' then
        match skipSpace rest with
        | [] => ([.broken .endOfValue], none)
        | some ']' :: _ => ([.broken .trailingComma], none)
        | text => readItem budget supply depth text
      else ([.broken .expectedListSeparator], none)

/-- An item and all that follow it. -/
def readItem : (budget : Nat) → Supply → (depth : Nat) → Text → List Node × Option Text
  | 0, _, _, _ => ([.broken .tooDeep], none)
  | budget + 1, supply, depth, text =>
    let (interest, further) := match supply with
      | .each i => (i, supply)
      | .fixed [] => (.whole, supply)
      | .fixed (i :: more) => (i, .fixed more)
    let (item, after) := readValue budget interest depth text
    match after with
    | none => ([item], none)
    | some rest =>
      let (items, after) := readItems budget further depth false rest
      (item :: items, after)

/-- The entries of an object and the text after its closing brace. -/
def readEntries : (budget : Nat) → Interest → (depth : Nat) → (first : Bool) → Text →
    List (Node × Node) × Option Text
  | 0, _, _, _, _ => ([(.broken .tooDeep, .null)], none)
  | budget + 1, interest, depth, first, text =>
    match skipSpace text with
    | [] => ([(.broken .endOfObject, .null)], none)
    | some '}' :: rest => ([], some rest)
    | s :: rest =>
      if first then readEntry budget interest depth (s :: rest)
      else if s = some ',' then
        match skipSpace rest with
        | [] => ([(.broken .endOfValue, .null)], none)
        | some '}' :: _ => ([(.broken .trailingComma, .null)], none)
        | text => readEntry budget interest depth text
      else ([(.broken .expectedObjectSeparator, .null)], none)

/-- An entry and all that follow it, from the entry's key on. A member that nobody asked for leaves
no entry. -/
def readEntry : (budget : Nat) → Interest → (depth : Nat) → Text → List (Node × Node) × Option Text
  | 0, _, _, _ => ([(.broken .tooDeep, .null)], none)
  | budget + 1, interest, depth, some '"' :: rest =>
    match readString rest with
    | .error f => ([(.broken f, .null)], none)
    | .ok (key, afterKey) =>
      match skipSpace afterKey with
      | [] => ([(.string key, .broken .endOfObject)], none)
      | some ':' :: text =>
        match interest.member key with
        | some part =>
          let (value, after) := readValue budget part depth text
          match after with
          | none => ([(.string key, value)], none)
          | some rest =>
            let (entries, after) := readEntries budget interest depth false rest
            ((.string key, value) :: entries, after)
        | none =>
          match skipValue budget text with
          | .error f => ([(.string key, .broken f)], none)
          | .ok rest => readEntries budget interest depth false rest
      | _ => ([(.string key, .broken .expectedColon)], none)
  | _, _, _, _ => ([(.broken .keyNotString, .null)], none)

end

/-- How deeply arrays and objects may be nested. -/
def maxDepth : Nat := 127

/-- The tree of a text, and the text after its value. Every step of reading takes at least one
symbol for every three calls, so the budget is never used up. -/
def read (interest : Interest) (text : Text) : Node × Option Text :=
  readValue (3 * text.length + 3) interest maxDepth text

/-- Reads a document, decodes it, and refuses anything but white space after it. -/
def decodeText {α : Type} (interest : Interest) (decode : Node → Except Fault α) (text : Text) :
    Except Fault α := do
  let (node, after) := read interest text
  let result ← decode node
  match after with
  | none => node.whole; return result
  | some rest => if (skipSpace rest).isEmpty then return result else throw .trailingCharacters

/-- The value a text spells. -/
def ofText (text : Text) : Except Fault Json := decodeText .whole Node.toJson text

end JsonShape.Json

import JsonShape.Json.Fault
import JsonShape.Text.Hex
import JsonShape.Text.Symbol

/-!
# Strings, numbers and words of JSON text

The parts of a JSON text below its brackets. Each reader takes the text that remains and gives what
it read with the text after it, or the fault at which the text stops being JSON. A `skip…` function
passes over the same part without making anything of it: what it does not need to know — whether a
number is finite, whether surrogates are paired, whether the bytes of a string are well-formed — it
does not look at.
-/

namespace JsonShape.Json.Lexical

/-- The text that remains to be read. -/
abbrev Text := List Symbol

/-- White space between the parts of a JSON text: space, tab, line feed and carriage return. -/
def isSpace (s : Symbol) : Bool :=
  s == some ' ' || s == some '\t' || s == some '\n' || s == some '\r'

/-- The text without the white space in front of it. -/
def skipSpace (text : Text) : Text := text.dropWhile isSpace

/-! ## Strings -/

/-- Whether at least `n` bytes remain. -/
def hasBytes : (n : Nat) → Text → Bool
  | 0, _ => true
  | _, [] => false
  | n + 1, none :: rest => hasBytes n rest
  | n + 1, some c :: rest => hasBytes (n + 1 - c.utf8Size) rest

/-- Where a reader of a string stands. -/
inductive Place where
  /-- Between two characters. -/
  | plain
  /-- After a backslash. -/
  | escape
  /-- Inside a `\u` escape, with `due` digits to come; `high` is the first half of a pair that the
  escape has to complete. -/
  | hex (high : Option Nat) (due value : Nat)
  /-- After the first half of a pair. -/
  | pair (high : Nat)
  /-- After the first half of a pair and a backslash. -/
  | pairEscape (high : Nat)

/-- The character of an escape of one letter. -/
def shortEscape? (c : Char) : Option Char :=
  if c = '"' ∨ c = '\\' ∨ c = '/' then some c
  else if c = 'b' then some '\x08'
  else if c = 'f' then some '\x0c'
  else if c = 'n' then some '\n'
  else if c = 'r' then some '\r'
  else if c = 't' then some '\t'
  else none

/-- What the four digits of an escape say: a character, or the first half of a pair. -/
def hexMeaning (high : Option Nat) (value : Nat) : Except Fault (Char ⊕ Nat) :=
  let isLow := decide (0xDC00 ≤ value ∧ value ≤ 0xDFFF)
  match high with
  | some h =>
    if isLow then .ok (.inl (Char.ofNat (0x10000 + (h - 0xD800) * 0x400 + (value - 0xDC00))))
    else .error .loneSurrogate
  | none =>
    if isLow then .error .loneSurrogate
    else if 0xD800 ≤ value ∧ value ≤ 0xDBFF then .ok (.inr value)
    else .ok (.inl (Char.ofNat value))

/-- The rest of a string, of which `read` is known, last character first. A malformed byte spoils
the string, but is reported only at its end. -/
def readStringFrom (place : Place) (read : List Char) (sound : Bool) :
    Text → Except Fault (String × Text)
  | [] => .error .endOfString
  | s :: rest =>
    match place with
    | .plain =>
      match s with
      | none => readStringFrom .plain read false rest
      | some c =>
        if c = '"' then
          if sound then .ok (String.ofList read.reverse, rest) else .error .malformedByte
        else if c = '\\' then readStringFrom .escape read sound rest
        else if c.toNat < 32 then .error .controlCharacter
        else readStringFrom .plain (c :: read) sound rest
    | .escape =>
      match s with
      | none => .error .invalidEscape
      | some c =>
        if c = 'u' then readStringFrom (.hex none 4 0) read sound rest
        else match shortEscape? c with
          | some e => readStringFrom .plain (e :: read) sound rest
          | none => .error .invalidEscape
    | .hex high due value =>
      match s.bind Text.hexValue? with
      | none => .error (if hasBytes due (s :: rest) then .invalidEscape else .endOfString)
      | some d =>
        if 1 < due then readStringFrom (.hex high (due - 1) (value * 16 + d)) read sound rest
        else match hexMeaning high (value * 16 + d) with
          | .error f => .error f
          | .ok (.inl c) => readStringFrom .plain (c :: read) sound rest
          | .ok (.inr h) => readStringFrom (.pair h) read sound rest
    | .pair high =>
      if s = some '\\' then readStringFrom (.pairEscape high) read sound rest
      else .error .halfPair
    | .pairEscape high =>
      if s = some 'u' then readStringFrom (.hex (some high) 4 0) read sound rest
      else .error .halfPair

/-- The string whose opening quote has been read. -/
def readString (text : Text) : Except Fault (String × Text) := readStringFrom .plain [] true text

/-- The text after the rest of a string. Of an escape only its letter and its digits matter. -/
def skipStringFrom (place : Place) : Text → Except Fault Text
  | [] => .error .endOfString
  | s :: rest =>
    match place with
    | .escape =>
      match s with
      | none => .error .invalidEscape
      | some c =>
        if c = 'u' then skipStringFrom (.hex none 4 0) rest
        else if (shortEscape? c).isSome then skipStringFrom .plain rest
        else .error .invalidEscape
    | .hex high due value =>
      match s.bind Text.hexValue? with
      | none => .error (if hasBytes due (s :: rest) then .invalidEscape else .endOfString)
      | some _ =>
        if 1 < due then skipStringFrom (.hex high (due - 1) value) rest
        else skipStringFrom .plain rest
    | _ =>
      match s with
      | none => skipStringFrom .plain rest
      | some c =>
        if c = '"' then .ok rest
        else if c = '\\' then skipStringFrom .escape rest
        else if c.toNat < 32 then .error .controlCharacter
        else skipStringFrom .plain rest

/-- The text after the string whose opening quote has been read. -/
def skipString (text : Text) : Except Fault Text := skipStringFrom .plain text

/-! ## Numbers -/

/-- The decimal digits at the front of a text, and the text after them. -/
def digits : Text → List Char × Text
  | [] => ([], [])
  | none :: rest => ([], none :: rest)
  | some c :: rest =>
    if c.isDigit then
      let (more, after) := digits rest
      (c :: more, after)
    else ([], some c :: rest)

/-- The natural that a decimal digit makes of the one that the digits before it spell. -/
def appendDigit (n : Nat) (c : Char) : Nat := n * 10 + (c.toNat - 48)

/-- The natural that decimal digits spell. -/
def naturalOf (cs : List Char) : Nat := cs.foldl appendDigit 0

/-- Appends decimal digits to a significand as long as it fits 64 bits. The result is the
significand, and the number of digits that are left over. -/
def gather (significand : Nat) : List Char → Nat × Nat
  | [] => (significand, 0)
  | c :: rest =>
    if appendDigit significand c < Number.naturalEnd then gather (appendDigit significand c) rest
    else (significand, rest.length + 1)

/-- A number as it is written. -/
structure Numeral where
  /-- Whether a minus stands in front. -/
  negative : Bool
  /-- The digits before the point. -/
  whole : List Char
  /-- The digits after the point, if there is one. -/
  fraction : Option (List Char)
  /-- The exponent, if there is one. -/
  exponent : Option Int

/-- The double of a significand and an exponent. -/
def decimal (negative : Bool) (significand : Nat) (exponent : Int) : Except Fault Number :=
  match Double.ofParts? negative significand exponent with
  | some x => .ok (.double x)
  | none => .error .numberOutOfRange

/-- An integer, or the double of one that does not fit. A minus in front of zero makes the negative
zero, which is a double. -/
def integer (negative : Bool) (n : Nat) : Except Fault Number :=
  if negative ∧ n = 0 then .ok (.double (Double.zero true))
  else
    match Number.ofInt? (if negative then -(n : Int) else n) with
    | some value => .ok value
    | none => decimal negative n 0

/-- The number a numeral stands for: an integer if it is written as one, and else a double. Digits
for which 64 bits have no room are not looked at; those before the point still count as places. -/
def Numeral.value (numeral : Numeral) : Except Fault Number :=
  let (whole, excess) := gather 0 numeral.whole
  if numeral.fraction.isNone ∧ numeral.exponent.isNone ∧ excess = 0 then
    integer numeral.negative whole
  else
    let places := numeral.fraction.getD []
    let (significand, unread) := gather whole places
    decimal numeral.negative significand
      (numeral.exponent.getD 0 + excess - (places.length - unread))

/-- Whether a text begins with a decimal digit. -/
def startsWithDigit : Text → Bool
  | some c :: _ => c.isDigit
  | _ => false

/-- An exponent, if one stands here. `ended` is the fault of a text that ends where a digit is
due. -/
def exponentPart (ended : Fault) (text : Text) : Except Fault (Option Int × Text) :=
  let afterSign (negative : Bool) (text : Text) : Except Fault (Option Int × Text) :=
    match text, digits text with
    | [], _ => .error ended
    | _, ([], _) => .error .invalidNumber
    | _, (ds, rest) =>
      let n : Int := naturalOf ds
      .ok (some (if negative then -n else n), rest)
  let afterMark (text : Text) : Except Fault (Option Int × Text) :=
    match text with
    | some '-' :: rest => afterSign true rest
    | some '+' :: rest => afterSign false rest
    | _ => afterSign false text
  match text with
  | some 'e' :: rest => afterMark rest
  | some 'E' :: rest => afterMark rest
  | _ => .ok (none, text)

/-- A fraction, if one stands here. -/
def fractionPart (ended : Fault) : Text → Except Fault (Option (List Char) × Text)
  | some '.' :: rest =>
    match rest, digits rest with
    | [], _ => .error ended
    | _, ([], _) => .error .invalidNumber
    | _, (ds, after) => .ok (some ds, after)
  | text => .ok (none, text)

/-- The digits before the point. A zero in front of another digit is refused. -/
def wholePart (ended : Fault) (text : Text) : Except Fault (List Char × Text) :=
  match text with
  | [] => .error ended
  | some '0' :: rest =>
    if startsWithDigit rest then .error .invalidNumber else .ok (['0'], rest)
  | _ =>
    match digits text with
    | ([], _) => .error .invalidNumber
    | (ds, rest) => .ok (ds, rest)

/-- A numeral. `ended` is the fault of a text that ends where a digit is due. -/
def numeral (ended : Fault) (text : Text) : Except Fault (Numeral × Text) := do
  let (negative, unsigned) := match text with
    | some '-' :: rest => (true, rest)
    | _ => (false, text)
  let (whole, afterWhole) ← wholePart ended unsigned
  let (fraction, afterFraction) ← fractionPart ended afterWhole
  let (exponent, rest) ← exponentPart ended afterFraction
  return (⟨negative, whole, fraction, exponent⟩, rest)

/-- A number. -/
def readNumber (text : Text) : Except Fault (Number × Text) := do
  let (n, rest) ← numeral .endOfValue text
  return (← n.value, rest)

/-- The text after a number. -/
def skipNumber (text : Text) : Except Fault Text := do
  let (_, rest) ← numeral .invalidNumber text
  return rest

/-! ## Words -/

/-- The text after the letters of a word. -/
def readWord : (letters : List Char) → Text → Except Fault Text
  | [], text => .ok text
  | _ :: _, [] => .error .endOfValue
  | l :: letters, s :: rest => if s = some l then readWord letters rest else .error .expectedWord

end JsonShape.Json.Lexical

/-!
# Input text as symbols

A text that comes from a file is a sequence of bytes, and nothing promises that the bytes are
well-formed UTF-8. A reader still has to say something about such a text: where it stops depends on
*where* the malformed byte stands. So a text to be read is a list of *symbols*: a symbol is a
character, or the mark that a byte belonging to no well-formed sequence stands here.

Text that is already known to be a `String` has no such marks; `Symbol.ofString` embeds it, and
`Symbol.text?` is the way back.
-/

namespace JsonShape

/-- One symbol of an input text: a character, or `none` for a malformed byte. -/
abbrev Symbol := Option Char

namespace Symbol

/-- The symbols of a well-formed text. -/
def ofString (s : String) : List Symbol := s.toList.map some

/-- The characters of a text without malformed bytes. -/
def chars? : List Symbol → Option (List Char)
  | [] => some []
  | none :: _ => none
  | some c :: rest => (chars? rest).map (c :: ·)

/-- The text the symbols spell, if no byte is malformed. -/
def text? (symbols : List Symbol) : Option String := (chars? symbols).map String.ofList

/-- A byte that continues a multi-byte sequence. -/
def isTail (b : UInt8) : Bool := 0x80 ≤ b && b ≤ 0xBF

/-- How many bytes the sequence that starts with `a` has, and the range its second byte must lie
in. The narrowed ranges exclude overlong forms, surrogates and values above U+10FFFF. -/
def lead? (a : UInt8) : Option (Nat × UInt8 × UInt8) :=
  if 0xC2 ≤ a && a ≤ 0xDF then some (2, 0x80, 0xBF)
  else if a == 0xE0 then some (3, 0xA0, 0xBF)
  else if a == 0xED then some (3, 0x80, 0x9F)
  else if 0xE1 ≤ a && a ≤ 0xEF then some (3, 0x80, 0xBF)
  else if a == 0xF0 then some (4, 0x90, 0xBF)
  else if 0xF1 ≤ a && a ≤ 0xF3 then some (4, 0x80, 0xBF)
  else if a == 0xF4 then some (4, 0x80, 0x8F)
  else none

/-- The character a multi-byte sequence starting with `a` encodes, with the bytes that follow. -/
def multibyte? (a : UInt8) (rest : List UInt8) : Option (Char × List UInt8) :=
  match lead? a, rest with
  | some (2, lo, hi), b :: rest =>
    if lo ≤ b && b ≤ hi then
      some (Char.ofNat ((a.toNat % 32) * 64 + b.toNat % 64), rest)
    else none
  | some (3, lo, hi), b :: c :: rest =>
    if lo ≤ b && b ≤ hi && isTail c then
      some (Char.ofNat (((a.toNat % 16) * 64 + b.toNat % 64) * 64 + c.toNat % 64), rest)
    else none
  | some (4, lo, hi), b :: c :: d :: rest =>
    if lo ≤ b && b ≤ hi && isTail c && isTail d then
      some (Char.ofNat ((((a.toNat % 8) * 64 + b.toNat % 64) * 64 + c.toNat % 64) * 64
        + d.toNat % 64), rest)
    else none
  | _, _ => none

/-- The symbols that `bytes` spell, reading at most `budget` of them. -/
def decode : (budget : Nat) → (bytes : List UInt8) → List Symbol
  | 0, _ => []
  | _, [] => []
  | budget + 1, a :: rest =>
    if a < 0x80 then some (Char.ofNat a.toNat) :: decode budget rest
    else match multibyte? a rest with
      | some (c, rest) => some c :: decode budget rest
      | none => none :: decode budget rest

/-- The symbols of a byte sequence: every well-formed sequence is one character, and every other
byte is marked as malformed. -/
def ofBytes (bytes : List UInt8) : List Symbol := decode bytes.length bytes

end Symbol

end JsonShape

/-!
# White space

The characters with the Unicode property *White_Space*, and trimming by it. The zero-width space
U+200B, the word joiner U+2060, the byte order mark U+FEFF and the information separators
U+001C to U+001F do not have the property.
-/

namespace JsonShape.Text

/-- The ranges of the property White_Space, both ends included. -/
def blankRanges : List (Nat × Nat) :=
  [(0x9, 0xD), (0x20, 0x20), (0x85, 0x85), (0xA0, 0xA0), (0x1680, 0x1680), (0x2000, 0x200A),
   (0x2028, 0x2029), (0x202F, 0x202F), (0x205F, 0x205F), (0x3000, 0x3000)]

/-- Whether a character is white space. -/
def isBlank (c : Char) : Bool := blankRanges.any fun (lo, hi) => lo ≤ c.toNat && c.toNat ≤ hi

/-- A text without its trailing white space. -/
def trimEnd : List Char → List Char
  | [] => []
  | c :: rest =>
    match trimEnd rest with
    | [] => if isBlank c then [] else [c]
    | kept => c :: kept

/-- Whether nothing but white space occurs in a text. -/
def allBlank (text : List Char) : Bool := text.all isBlank

end JsonShape.Text

import JsonShape.Json.Node
import JsonShape.Text.Hex
import JsonShape.Text.Symbol
import JsonShape.Yaml.Token

/-!
# What a scalar stands for

A plain scalar without a tag stands for null, a truth value or a number if it is spelled like one,
and for its own text otherwise. Integers may be written in four bases and with a sign; decimal
digits after a superfluous zero are no number. A tag can demand one of these kinds, or that the
scalar is a text.
-/

namespace JsonShape.Yaml

/-! ## Spellings -/

/-- Whether a text is a spelling of null. -/
def isNullWord (text : String) : Bool := text ∈ ["~", "null", "Null", "NULL"]

/-- The truth value a text spells. -/
def truth? (text : String) : Option Bool :=
  if text ∈ ["true", "True", "TRUE"] then some true
  else if text ∈ ["false", "False", "FALSE"] then some false
  else none

/-- The digits of a sign, if one stands in front: whether it is a minus, and what follows it. -/
def unsigned : List Char → Bool × List Char
  | '+' :: rest => (false, rest)
  | '-' :: rest => (true, rest)
  | text => (false, text)

/-- Whether a text, apart from its sign, is a zero before other decimal digits and nothing else. -/
def hasIdleZero (text : List Char) : Bool :=
  match (unsigned text).2 with
  | '0' :: d :: rest => (d :: rest).all Char.isDigit
  | _ => false

/-- The number that digits of a base spell. -/
def digitsValue? (base : Nat) (digits : List Char) : Option Nat :=
  if digits.isEmpty then none
  else digits.foldlM (fun n c => do
    let d ← Text.hexValue? c
    if d < base then some (n * base + d) else none) 0

/-- The integer a text spells: whether it has a minus sign, and its magnitude. -/
def integer? (text : List Char) : Option (Bool × Nat) :=
  let (negative, rest) := unsigned text
  let magnitude := match rest with
    | '0' :: 'x' :: digits => digitsValue? 16 digits
    | '0' :: 'o' :: digits => digitsValue? 8 digits
    | '0' :: 'b' :: digits => digitsValue? 2 digits
    | digits => if hasIdleZero text then none else digitsValue? 10 digits
  magnitude.map fun n => (negative, n)

/-- An exponent: nothing, or its letter and an integer in decimal digits. -/
def exponent? : List Char → Option Int
  | [] => some 0
  | c :: rest =>
    let (negative, digits) := unsigned rest
    if (c = 'e' ∨ c = 'E') ∧ digits.all Char.isDigit then
      (digitsValue? 10 digits).map fun n => if negative then -(n : Int) else n
    else none

/-- The double a text spells, if it is finite: decimal digits with at most one point among or around
them, and maybe an exponent. -/
def double? (text : List Char) : Option Double := do
  let (negative, rest) := unsigned text
  let whole := rest.takeWhile Char.isDigit
  let (places, rest) := match rest.dropWhile Char.isDigit with
    | '.' :: rest => (rest.takeWhile Char.isDigit, rest.dropWhile Char.isDigit)
    | rest => ([], rest)
  let digits ← digitsValue? 10 (whole ++ places)
  Double.ofDecimal? negative digits ((← exponent? rest) - places.length)

/-- Whether a text spells an infinity, or something that is no number. -/
def isNonFinite (text : String) : Bool :=
  text ∈ [".inf", ".Inf", ".INF", "+.inf", "+.Inf", "+.INF", "-.inf", "-.Inf", "-.INF", ".nan",
    ".NaN", ".NAN"]

/-! ## Plain scalars -/

/-- What a spelled number is. -/
inductive Spelled where
  /-- A number that can be used. -/
  | usable (node : Node)
  /-- An integer of more than 64 and at most 128 bits, which cannot be used. -/
  | tooWide
  /-- No number. -/
  | no

/-- The number of negative integers that fit 128 bits, 2¹²⁷. -/
def wideEnd : Nat := 0x80000000000000000000000000000000

/-- What an integer is. Beyond 128 bits the spelling of an integer is none. -/
def Spelled.ofInteger (negative : Bool) (magnitude : Nat) : Spelled :=
  if negative && magnitude == 0 then .usable .minusZero
  else
    let i : Int := if negative then -(magnitude : Int) else magnitude
    match Number.ofInt? i with
    | some n => .usable (.number n)
    | none => if -(wideEnd : Int) ≤ i ∧ i < 2 * wideEnd then .tooWide else .no

/-- The integer a text spells. -/
def Spelled.integer (text : String) : Spelled :=
  match integer? text.toList with
  | some (negative, magnitude) => .ofInteger negative magnitude
  | none => .no

/-- The floating-point number a text spells. -/
def Spelled.float (text : String) : Spelled :=
  if isNonFinite text then .usable .nonFinite
  else match double? text.toList with
    | some x => .usable (.number (.double x))
    | none => .no

/-- The number a text spells. -/
def Spelled.number (text : String) : Spelled :=
  match integer text with
  | .no => if hasIdleZero text.toList then .no else float text
  | spelled => spelled

/-- The number of a spelling that has to be one. -/
def Spelled.node? : Spelled → Option Node
  | .usable node => some node
  | _ => none

/-- What a plain scalar stands for. -/
def plainNode? (text : String) : Option Node :=
  if text.isEmpty || isNullWord text then some .null
  else match truth? text with
    | some b => some (.bool b)
    | none =>
      match Spelled.number text with
      | .usable node => some node
      | .tooWide => none
      | .no => some (.string text)

/-- Whether a text, written plainly, would not be read as a text. -/
def isAmbiguous (text : String) : Bool :=
  match plainNode? text with
  | some (.string _) => hasIdleZero text.toList
  | _ => true

/-! ## Tags -/

/-- The tag of a standard kind. -/
def standardTag (kind : String) : Tag := ("tag:yaml.org,2002:" ++ kind).toUTF8.toList

/-- The name of a local tag, which begins with an exclamation mark. A tag whose bytes spell no text
is not local. -/
def localName? : Option Tag → Option String
  | some (33 :: name) => Symbol.text? (Symbol.ofBytes name)
  | _ => none

/-- What a scalar stands for. A local tag makes it something else than a value. -/
def scalarNode? (tag : Option Tag) (style : Style) (text : String) : Option Node :=
  match tag with
  | none => if style = .plain then plainNode? text else some (.string text)
  | some bytes =>
    if (localName? tag).isSome then none
    else if bytes = standardTag "bool" then (truth? text).map .bool
    else if bytes = standardTag "int" then (Spelled.integer text).node?
    else if bytes = standardTag "float" then (Spelled.float text).node?
    else if bytes = standardTag "null" then if isNullWord text then some .null else none
    else if bytes.head? = some 33 ∧ style = .plain then plainNode? text
    else some (.string text)

end JsonShape.Yaml

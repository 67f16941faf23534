import JsonShape.Decimal.Layout

/-!
# JSON numbers

A number keeps the form in which it was written: an integer that fits 64 bits stays an integer, and
everything else is a double. The three forms overlap in value (`1` and `1.0`) but not in text.

Numbers are compared as signed integers of 64 bits if both of them are such, or else as natural
numbers of 64 bits if both are, or else as doubles, an integer being rounded to the nearest one.
This is the comparison a literal type uses, so above 2⁵³ several integers compare equal to one
double.
-/

namespace JsonShape

/-- The least natural that does not fit 64 bits, 2⁶⁴. -/
abbrev Number.naturalEnd : Nat := 0x10000000000000000

/-- The number of negative integers that fit 64 bits, 2⁶³. -/
abbrev Number.negativeEnd : Nat := 0x8000000000000000

/-- A JSON number. -/
inductive Number where
  /-- A non-negative integer below 2⁶⁴. -/
  | natural (n : Fin Number.naturalEnd)
  /-- The negative integer `-1 - below`, down to -2⁶³. -/
  | negative (below : Fin Number.negativeEnd)
  /-- Any other number, and every number written with a point or an exponent. -/
  | double (x : Double)
  deriving DecidableEq

namespace Number

/-- The natural zero. -/
def zero : Number := .natural ⟨0, by decide⟩

/-- The integer of an integer form. -/
def toInt? : Number → Option Int
  | .natural n => some n.val
  | .negative below => some (-1 - below.val)
  | .double _ => none

/-- The nearest double. An integer of 64 bits is always finite. -/
def toDouble? : Number → Option Double
  | .natural n => Double.ofInt? n.val
  | .negative below => Double.ofInt? (-1 - below.val)
  | .double x => some x

/-- The integer form of an integer, if it fits. -/
def ofInt? (i : Int) : Option Number :=
  if 0 ≤ i then
    if h : i.toNat < naturalEnd then some (.natural ⟨i.toNat, h⟩) else none
  else
    if h : (-1 - i).toNat < negativeEnd then some (.negative ⟨(-1 - i).toNat, h⟩) else none

/-- The integer, if it fits 64 bits with a sign. -/
def toSigned? : Number → Option Int
  | .natural n => if n.val < negativeEnd then some n.val else none
  | .negative below => some (-1 - below.val)
  | .double _ => none

/-- The integer, if it fits 64 bits without a sign. -/
def toUnsigned? : Number → Option Nat
  | .natural n => some n.val
  | .negative _ => none
  | .double _ => none

/-- Whether two numbers compare equal. -/
def sameValue (a b : Number) : Bool :=
  match a.toSigned?, b.toSigned? with
  | some x, some y => x == y
  | _, _ =>
    match a.toUnsigned?, b.toUnsigned? with
    | some x, some y => x == y
    | _, _ =>
      match a.toDouble?, b.toDouble? with
      | some x, some y => x.sameValue y
      | _, _ => false

/-- Whether two numbers are the same JSON value: of the same form, and equal. -/
def identical : Number → Number → Bool
  | .natural a, .natural b => a == b
  | .negative a, .negative b => a == b
  | .double x, .double y => x.sameValue y
  | _, _ => false

/-- The text of a number. -/
def write : Number → List Char
  | .natural n => Decimal.digitsOf n.val
  | .negative below => '-' :: Decimal.digitsOf (below.val + 1)
  | .double x => Decimal.Layout.json.write x

end Number

end JsonShape
